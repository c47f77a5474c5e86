import Dbr2.Backup.Repository

/-! An agent's access to a Repository (`EnsureAgentAccess` in `internal/protection/platform.go`,
`configureRepository` and `openRepo` in `internal/agent/repository.go`).

A call that finds no access row draws a password, sets it for the agent's user on the repository
server, hands it to the agent and writes the row. Any number of calls do so at the same time, and
each may end at any point. The row says that the agent's connection works. -/
namespace Dbr2.Access
open Lib List
open Backup (Fate)

/-- Passwords are drawn at random and never twice; they are numbered. -/
abbrev Password := Nat

inductive Stage
  | started
  | absent
  | set (pw : Password)
  | waiting (pw : Password)
  | configured (pw : Password)
  | ended
  deriving DecidableEq

def Stage.password : Stage → Option Password
  | .set pw => some pw
  | .waiting pw => some pw
  | .configured pw => some pw
  | _ => none

/-- The access row, the password of the agent's user, the one in the agent's
connection.json, the one its cached session was opened with, and the calls. The lists say
which commands are dispatched, which have written connection.json, which have dropped the
cached session since, and which have succeeded. -/
structure Credentials where
  row : Bool
  (user agent session : Option Password)
  calls : Nat → Option Stage
  next : Password
  (dispatched written cleared succeeded : List Password)

inductive AccessEvent
  | begin (k : Nat)
  | read (k : Nat)
  | setUser (k : Nat) (f : Fate)
  | dispatch (k : Nat)
  | write (pw : Password)
  | invalidate (pw : Password)
  /-- openRepo for the command; `up` says whether a connection can be made. -/
  | verify (pw : Password) (up : Bool)
  | openRepo (up : Bool)
  | broken
  | result (k : Nat)
  | upsert (k : Nat) (f : Fate)
  | fail (k : Nat)
  deriving DecidableEq

def AccessEvent.call : AccessEvent → Option Nat
  | .begin k => some k
  | .read k => some k
  | .setUser k _ => some k
  | .dispatch k => some k
  | .result k => some k
  | .upsert k _ => some k
  | .fail k => some k
  | _ => none

namespace Credentials

def new : Credentials := ⟨false, none, none, none, fun _ => none, 0, [], [], [], []⟩

def setCall (w : Credentials) (k : Nat) (s : Stage) : Credentials :=
  {w with calls := Function.update w.calls k (some s)}

/-- A cached session, or one with the stored password, if the server takes it. -/
def opened (w : Credentials) (up : Bool) : Option Password :=
  match w.session with
  | some pw => some pw
  | none => if up = true ∧ w.agent = w.user then w.agent else none

def setUser (w : Credentials) (k : Nat) (f : Fate) : Credentials :=
  let user := if f.performed then some w.next else w.user
  {w with user := user, next := w.next + 1}.setCall k (if f = Fate.done then .set w.next else .ended)

def step (w : Credentials) : AccessEvent → Credentials
  | .begin k => if w.calls k = none then w.setCall k .started else w
  | .read k =>
    if w.calls k = some .started then w.setCall k (if w.row then .ended else .absent) else w
  | .setUser k f => if w.calls k = some .absent then w.setUser k f else w
  | .dispatch k =>
    match w.calls k with
    | some (.set pw) => {w with dispatched := pw :: w.dispatched}.setCall k (.waiting pw)
    | _ => w
  | .write pw => if pw ∈ w.dispatched then {w with agent := some pw, written := pw :: w.written} else w
  | .invalidate pw => if pw ∈ w.written then {w with session := none, cleared := pw :: w.cleared} else w
  | .verify pw up =>
    if pw ∈ w.cleared ∧ (w.opened up).isSome = true then
      {w with session := w.opened up, succeeded := pw :: w.succeeded}
    else w
  | .openRepo up => {w with session := w.opened up}
  | .broken => {w with session := none}
  | .result k =>
    match w.calls k with
    | some (.waiting pw) => if pw ∈ w.succeeded then w.setCall k (.configured pw) else w
    | _ => w
  | .upsert k f =>
    match w.calls k with
    | some (.configured _) => {w with row := w.row || f.performed}.setCall k .ended
    | _ => w
  | .fail k => if (w.calls k).isSome then w.setCall k .ended else w

/-- With a row, and no call in progress, the agent has the password of its user. -/
def Agree (w : Credentials) : Prop :=
  w.row = true → (∀ k s, w.calls k = some s → s = .ended) → ∃ pw, w.agent = some pw ∧ w.user = some pw

/-- A password is set only if there is no row and no other call has set one and not ended; the
agent writes one only while it is the user's. -/
def Undisturbed (w : Credentials) : AccessEvent → Prop
  | .setUser k f => f.performed = true → w.calls k = some .absent →
      w.row = false ∧ ∀ j s, w.calls j = some s → s.password = none
  | .write pw => pw ∈ w.dispatched → w.user = some pw
  | _ => True

variable {k : Nat} {pw : Password}

theorem step_calls_other (w : Credentials) (e : AccessEvent) (hk : e.call ≠ some k) :
    (w.step e).calls k = w.calls k := by
  have hset : ∀ (v : Credentials) {j : Nat} (s : Stage), k ≠ j → (v.setCall j s).calls k = v.calls k :=
    fun v j s hj => Function.update_of_ne hj ..
  have hne : ∀ j, some j ≠ some k → k ≠ j := by
    rintro j hj rfl
    exact hj rfl
  unfold step
  cases e with
  | begin j | read j | setUser j f | dispatch j | upsert j f | fail j =>
    dsimp only
    split
    · exact hset _ _ (hne j hk)
    · rfl
  | result j =>
    dsimp only
    split
    · split
      · exact hset _ _ (hne j hk)
      · rfl
    · rfl
  | write pw | invalidate pw | verify pw up =>
    dsimp only
    split <;> rfl
  | openRepo up | broken => rfl

theorem run_calls_other (w : Credentials) (es : List AccessEvent) (k : Nat)
    (hes : ∀ e ∈ es, e.call ≠ some k) : (run step w es).calls k = w.calls k := by
  induction es generalizing w with
  | nil => rfl
  | cons e es ih =>
    rw [run_cons, ih _ fun e he => hes e (mem_cons_of_mem _ he)]
    exact w.step_calls_other e (hes e mem_cons_self)

structure Inv (w : Credentials) : Prop where
  row : w.row = true → ∃ pw, w.agent = some pw ∧ w.user = some pw
  current : ∀ k s pw, w.calls k = some s → s.password = some pw → w.user = some pw
  configured : ∀ k pw, w.calls k = some (.configured pw) → w.agent = some pw
  written : ∀ pw ∈ w.written, w.user = some pw → w.agent = some pw
  cleared : ∀ pw ∈ w.cleared, pw ∈ w.written
  succeeded : ∀ pw ∈ w.succeeded, pw ∈ w.cleared
  dispatched : ∀ pw ∈ w.written, pw ∈ w.dispatched
  drawn : ∀ pw ∈ w.dispatched, pw < w.next
  user : ∀ pw, w.user = some pw → pw < w.next

theorem inv_new : Inv new := by
  constructor <;> simp [new]

variable {w : Credentials}

section

variable (h : Inv w)
include h

theorem Inv.agree : Agree w := fun hrow _ => h.row hrow

theorem Inv.setCall {s : Stage} (hpw : ∀ pw, s.password = some pw → w.user = some pw)
    (hconf : ∀ pw, s = .configured pw → w.agent = some pw) : Inv (w.setCall k s) := by
  constructor
  case row => exact h.row
  case current =>
    intro j t pw hj ht
    rcases update_some hj with ⟨-, ⟨⟩⟩ | ⟨-, hj⟩
    · exact hpw pw ht
    · exact h.current j t pw hj ht
  case configured =>
    intro j pw hj
    rcases update_some hj with ⟨-, hs⟩ | ⟨-, hj⟩
    · exact hconf pw (Option.some.inj hs)
    · exact h.configured j pw hj
  case written => exact h.written
  case cleared => exact h.cleared
  case succeeded => exact h.succeeded
  case dispatched => exact h.dispatched
  case drawn => exact h.drawn
  case user => exact h.user

theorem Inv.plainCall (k : Nat) {s : Stage} (hs : s.password = none) : Inv (w.setCall k s) := by
  apply h.setCall
  · intro pw hp
    rw [hs] at hp
    cases hp
  · rintro pw rfl
    cases hs

theorem Inv.setUser {f : Fate} (hk : w.calls k = some .absent)
    (hu : Undisturbed w (.setUser k f)) : Inv (w.setUser k f) := by
  unfold Credentials.setUser
  dsimp only
  cases hf : f.performed with
  | false =>
    have hnext : Inv {w with next := w.next + 1} := {h with
      drawn := fun pw hpw => Nat.lt_succ_of_lt (h.drawn pw hpw)
      user := fun pw hpw => Nat.lt_succ_of_lt (h.user pw hpw)}
    have hne : f ≠ .done := by
      rintro rfl
      cases hf
    simp only [if_neg hne]
    exact hnext.plainCall k rfl
  | true =>
    obtain ⟨hrow, hfree⟩ := hu hf hk
    have hset : Inv {w with user := some w.next, next := w.next + 1} := by
      constructor
      case row =>
        intro hr
        rw [show w.row = true from hr] at hrow
        cases hrow
      case current =>
        intro j s pw hj hs
        rw [hfree j s hj] at hs
        cases hs
      case configured => exact h.configured
      case written =>
        -- the password is new, so no command has written it
        intro pw hpw hnew
        have hlt := h.drawn pw (h.dispatched pw hpw)
        rw [← Option.some.inj hnew] at hlt
        exact absurd hlt (Nat.lt_irrefl _)
      case cleared => exact h.cleared
      case succeeded => exact h.succeeded
      case dispatched => exact h.dispatched
      case drawn =>
        intro pw hpw
        exact Nat.lt_succ_of_lt (h.drawn pw hpw)
      case user =>
        intro pw hpw
        rw [← Option.some.inj hpw]
        exact Nat.lt_succ_self _
    by_cases hdone : f = .done
    · rw [if_pos hdone]
      apply hset.setCall
      · intro pw hp
        exact congrArg some (Option.some.inj hp)
      · intro pw hp
        cases hp
    · rw [if_neg hdone]
      exact hset.plainCall k rfl

theorem Inv.dispatch (hk : w.calls k = some (.set pw)) :
    Inv ({w with dispatched := pw :: w.dispatched}.setCall k (.waiting pw)) := by
  have huser := h.current k _ pw hk rfl
  have hsent : Inv {w with dispatched := pw :: w.dispatched} := {h with
    dispatched := fun p hp => mem_cons_of_mem _ (h.dispatched p hp)
    drawn := by
      intro p hp
      rcases mem_cons.1 hp with rfl | hp
      · exact h.user _ huser
      · exact h.drawn p hp}
  apply hsent.setCall
  · intro p hp
    cases hp
    exact huser
  · intro p hp
    cases hp

theorem Inv.write (hd : pw ∈ w.dispatched) (hu : w.user = some pw) :
    Inv {w with agent := some pw, written := pw :: w.written} := by
  have hsame : ∀ p, w.user = some p → some pw = some p := fun p hp => hu.symm.trans hp
  constructor
  case row =>
    intro _
    exact ⟨pw, rfl, hu⟩
  case current => exact h.current
  case configured =>
    intro k p hk
    exact hsame p (h.current k _ p hk rfl)
  case written =>
    intro p _ hp
    exact hsame p hp
  case cleared =>
    intro p hp
    exact mem_cons_of_mem _ (h.cleared p hp)
  case succeeded => exact h.succeeded
  case dispatched =>
    intro p hp
    rcases mem_cons.1 hp with rfl | hp
    · exact hd
    · exact h.dispatched p hp
  case drawn => exact h.drawn
  case user => exact h.user

theorem Inv.result (hk : w.calls k = some (.waiting pw))
    (hs : pw ∈ w.succeeded) : Inv (w.setCall k (.configured pw)) := by
  have huser := h.current k _ pw hk rfl
  apply h.setCall
  · intro p hp
    cases hp
    exact huser
  · intro p hp
    obtain rfl := Stage.configured.inj hp
    exact h.written _ (h.cleared _ (h.succeeded _ hs)) huser

theorem Inv.upsert (hk : w.calls k = some (.configured pw)) (b : Bool) :
    Inv ({w with row := b}.setCall k .ended) := by
  have hrow : Inv {w with row := b} := {h with
    row := fun _ => ⟨pw, h.configured k pw hk, h.current k _ pw hk rfl⟩}
  exact hrow.plainCall k rfl

/-- One lemma per event; only here does the condition enter. -/
theorem Inv.step (e : AccessEvent) (hu : Undisturbed w e) : Inv (w.step e) := by
  unfold Credentials.step
  cases e with
  | begin k | fail k =>
    dsimp only
    split
    · exact h.plainCall k rfl
    · exact h
  | read k =>
    dsimp only
    split
    · cases w.row with
      | true => exact h.plainCall k rfl
      | false => exact h.plainCall k rfl
    · exact h
  | setUser k f =>
    dsimp only
    split
    · rename_i hk
      exact h.setUser hk hu
    · exact h
  | dispatch k =>
    dsimp only
    split
    · rename_i pw hk
      exact h.dispatch hk
    · exact h
  | write pw =>
    dsimp only
    split
    · rename_i hd
      exact h.write hd (hu hd)
    · exact h
  | invalidate pw =>
    dsimp only
    split
    · rename_i hw
      exact {h with
        cleared := forall_mem_cons.2 ⟨hw, h.cleared⟩
        succeeded := fun p hp => mem_cons_of_mem _ (h.succeeded p hp)}
    · exact h
  | verify pw up =>
    dsimp only
    split
    · rename_i hc
      exact {h with succeeded := forall_mem_cons.2 ⟨hc.1, h.succeeded⟩}
    · exact h
  | openRepo up => exact {h with}
  | broken => exact {h with}
  | result k =>
    dsimp only
    split
    · rename_i pw hk
      split
      · rename_i hs
        exact h.result hk hs
      · exact h
    · exact h
  | upsert k f =>
    dsimp only
    split
    · rename_i pw hk
      exact h.upsert hk _
    · exact h

end

end Credentials

/-- In every run whose steps are undisturbed, an access row means that the agent's password is
that of its user. -/
theorem agree_of_undisturbed (es : List AccessEvent)
    (hes : Along Credentials.step Credentials.Undisturbed Credentials.new es) :
    (run Credentials.step Credentials.new es).Agree := by
  have hinv := hes.invariant Credentials.inv_new fun w e h hu => Credentials.Inv.step h e hu
  exact hinv.agree

/-! Calls that get as far as a working connection, and rows. -/

def missing (k : Nat) : List AccessEvent := [.begin k, .read k]

def configure (k : Nat) (pw : Password) : List AccessEvent :=
  [.setUser k .done, .dispatch k, .write pw, .invalidate pw, .verify pw true, .result k]

theorem agree_of_undisturbed_once :
    (run Credentials.step Credentials.new (missing 0 ++ configure 0 0 ++ [.upsert 0 .done])).Agree := by
  apply agree_of_undisturbed
  refine ⟨trivial, trivial, fun _ _ => ⟨rfl, ?_⟩, trivial, fun _ => rfl, trivial, trivial, trivial, trivial, trivial⟩
  intro j s hj
  by_cases h0 : j = 0
  · subst h0
    cases hj
    rfl
  change Function.update (Function.update (fun _ => none) 0 _) 0 _ j = some s at hj
  rw [Function.update_of_ne h0, Function.update_of_ne h0] at hj
  cases hj

/-- A second call, which saw no row either, sets its password before the first writes the row,
and fails. -/
def besides : List AccessEvent :=
  missing 0 ++ missing 1 ++ configure 0 0 ++ [.setUser 1 .done, .upsert 0 .done, .fail 1]

/-- The command of a call that gave up comes to the agent after a later call has succeeded. -/
def belated : List AccessEvent :=
  missing 0 ++ [.setUser 0 .done, .dispatch 0, .fail 0] ++ missing 1 ++ configure 1 1 ++ [.upsert 1 .done, .write 0]

/-- The row, the server and the agent end with different passwords. -/
theorem row_without_access : ¬ (run Credentials.step Credentials.new besides).Agree ∧
      ¬ (run Credentials.step Credentials.new belated).Agree := by
  have hended : ∀ es : List AccessEvent, (∀ e ∈ es, ∀ k, e.call = some k → k < 2) →
      (run Credentials.step Credentials.new es).calls 0 = some .ended →
      (run Credentials.step Credentials.new es).calls 1 = some .ended →
      ∀ k s, (run Credentials.step Credentials.new es).calls k = some s → s = .ended := by
    intro es hes h0 h1 k s hk
    rcases k with _ | _ | n
    · exact Option.some.inj (hk.symm.trans h0)
    · exact Option.some.inj (hk.symm.trans h1)
    · have hnone := Credentials.run_calls_other Credentials.new es (n + 2) fun e he hc =>
        absurd (hes e he _ hc) (by omega)
      cases hk.symm.trans hnone
  constructor
  · intro h
    obtain ⟨pw, hagent, huser⟩ := h rfl (hended besides (by decide) rfl rfl)
    exact absurd (hagent.trans huser.symm) (by decide)
  · intro h
    obtain ⟨pw, hagent, huser⟩ := h rfl (hended belated (by decide) rfl rfl)
    exact absurd (hagent.trans huser.symm) (by decide)

end Dbr2.Access
