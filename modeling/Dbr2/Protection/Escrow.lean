import Dbr2.Lib.Row
import Dbr2.Lib.Run

/-! The escrow of a Repository's password (`ConfirmEscrow` in `internal/protection/protection.go`,
`RegenerateEscrow` in `internal/protection/escrow_health.go`).

ConfirmEscrow reads the row, compares the code with the hash it has read, and then confirms whatever
package the row has when the UPDATE gets to it. -/
namespace Dbr2.Protection
open Lib

/-- A sealed package. Packages are numbered, since two may be sealed with the same content. -/
structure Package where
  number : Nat
  code : String
  deriving DecidableEq

inductive RepositoryStatus
  | awaitingEscrow
  | ready
  | unavailable
  | retired
  deriving DecidableEq

structure Confirmation where
  at_ : Int
  by_ : String
  deriving DecidableEq

section
variable {H : Type}

structure EscrowRow (H : Type) where
  package : Package
  confirmHash : Option H
  confirmed : Option Confirmation
  status : RepositoryStatus
  deriving DecidableEq

variable (hashCode : String → H)

def checkCode [DecidableEq H] (code : String) (hash : Option H) : Bool := hash == some (hashCode code)

def EscrowRow.confirm (c : Confirmation) (r : EscrowRow H) : EscrowRow H :=
  {r with
    confirmed := some c
    status := if r.status = .awaitingEscrow then .ready else r.status}

def EscrowRow.regenerate (p : Package) (r : EscrowRow H) : EscrowRow H :=
  {r with package := p, confirmHash := some (hashCode p.code), confirmed := none}

end

/-- The row, the calls of ConfirmEscrow that have compared their code and are to confirm, with
the package they have read, and each code that was presented, with the package stored then. -/
structure EscrowWorld (H : Type) where
  row : Row (EscrowRow H)
  matched : Nat → Option Package
  presented : List (String × Package)
  next : Nat

inductive EscrowEvent
  | confirm (k : Nat) (code : String)
  | update (k : Nat) (c : Confirmation)
  | regenerate (k : Nat) (code : String)
  | commit (k : Nat)
  | rollback (k : Nat)
  deriving DecidableEq

namespace EscrowWorld
variable {H : Type} (hashCode : String → H)

def new (code : String) : EscrowWorld H where
  row := .ofValue ⟨⟨0, code⟩, some (hashCode code), none, .awaitingEscrow⟩
  matched := fun _ => none
  presented := []
  next := 1

def idle (w : EscrowWorld H) (k : Nat) : Bool :=
  (w.matched k).isNone && w.row.writer.all fun t => t.1 != k

def step [DecidableEq H] (w : EscrowWorld H) : EscrowEvent → EscrowWorld H
  | .confirm k code =>
    if w.idle k then
      let r := w.row.seen k
      {w with
        presented := (code, r.package) :: w.presented
        matched := if checkCode hashCode code r.confirmHash then Function.update w.matched k (some r.package)
          else w.matched}
    else w
  | .update k c =>
    match w.matched k, w.row.update k (EscrowRow.confirm c) with
    | some _, some row => {w with row := row, matched := Function.update w.matched k none}
    | _, _ => w
  | .regenerate k code =>
    if w.idle k then
      match w.row.update k (EscrowRow.regenerate hashCode ⟨w.next, code⟩) with
      | some row => {w with row := row, next := w.next + 1}
      | none => w
    else w
  | .commit k => {w with row := w.row.commit k}
  | .rollback k => {w with row := w.row.rollback k, matched := Function.update w.matched k none}

/-- A confirmed package is one whose code was presented when it was stored. -/
def Presented (w : EscrowWorld H) (r : EscrowRow H) : Prop :=
  ∃ code, (code, r.package) ∈ w.presented ∧ hashCode code = hashCode r.package.code

/-- escrow_confirmed_at is not null only if the current package's code was presented. -/
def Confirmed (w : EscrowWorld H) : Prop :=
  w.row.committed.confirmed ≠ none → w.Presented hashCode w.row.committed

def Unchanged (w : EscrowWorld H) : EscrowEvent → Prop
  | .update k _ => ∀ p, w.matched k = some p → w.row.free k = true → w.row.committed.package = p
  | _ => True

structure Inv (w : EscrowWorld H) : Prop where
  hash : ∀ r, w.row.Version r → r.confirmHash = some (hashCode r.package.code)
  confirmed : ∀ r, w.row.Version r → r.confirmed ≠ none → w.Presented hashCode r
  matched : ∀ k p, w.matched k = some p → ∃ code, (code, p) ∈ w.presented ∧ hashCode code = hashCode p.code
  reading : ∀ k p v, w.matched k = some p → w.row.writer ≠ some (k, v)

variable {hashCode} {w : EscrowWorld H}

theorem inv_new (code : String) : Inv hashCode (new hashCode code) where
  hash r hr := by
    rcases hr with rfl | ⟨_, hr⟩
    · rfl
    · cases hr
  confirmed r hr hc := by
    rcases hr with rfl | ⟨_, hr⟩
    · exact absurd rfl hc
    · cases hr
  matched _ _ hk := by cases hk
  reading _ _ _ hk := by cases hk

theorem of_idle {k : Nat} (h : w.idle k = true) : w.matched k = none ∧ ∀ v, w.row.writer ≠ some (k, v) := by
  unfold idle at h
  rw [Bool.and_eq_true, Option.isNone_iff_eq_none, Option.all_eq_true] at h
  refine ⟨h.1, fun v hv => ?_⟩
  simpa using h.2 _ hv

theorem Inv.confirm [DecidableEq H] (h : Inv hashCode w) {k : Nat} (hk : w.idle k = true) (code : String) :
    Inv hashCode (w.step hashCode (.confirm k code)) := by
  obtain ⟨-, hwrites⟩ := of_idle hk
  unfold step
  dsimp only
  rw [if_pos hk]
  have hgrow : ∀ {q : String × Package}, q ∈ w.presented → q ∈ (code, (w.row.seen k).package) :: w.presented :=
    List.mem_cons_of_mem _
  constructor
  case hash => exact h.hash
  case confirmed =>
    intro r hr hc
    obtain ⟨c, hmem, hcode⟩ := h.confirmed r hr hc
    exact ⟨c, hgrow hmem, hcode⟩
  case matched =>
    intro j p hj
    dsimp only at hj
    by_cases hok : checkCode hashCode code (w.row.seen k).confirmHash = true
    · rw [if_pos hok] at hj
      rcases update_some hj with ⟨rfl, hp⟩ | ⟨-, hj⟩
      · -- the code was compared with the hash of the package that was read
        cases hp
        refine ⟨code, List.mem_cons_self, ?_⟩
        rw [h.hash _ Row.version_seen, checkCode, beq_iff_eq] at hok
        exact (Option.some.inj hok).symm
      · obtain ⟨c, hmem, hcode⟩ := h.matched j p hj
        exact ⟨c, hgrow hmem, hcode⟩
    · rw [if_neg hok] at hj
      obtain ⟨c, hmem, hcode⟩ := h.matched j p hj
      exact ⟨c, hgrow hmem, hcode⟩
  case reading =>
    intro j p v hj
    by_cases hjk : j = k
    · subst hjk
      exact hwrites v
    apply h.reading j p v
    dsimp only at hj
    split at hj
    · rwa [Function.update_of_ne hjk] at hj
    · exact hj

theorem Inv.update (h : Inv hashCode w) {k : Nat} {c : Confirmation} (hu : Unchanged w (.update k c))
    {p : Package} {row : Row (EscrowRow H)} (hk : w.matched k = some p)
    (hrow : w.row.update k (EscrowRow.confirm c) = some row) :
    Inv hashCode {w with row := row, matched := Function.update w.matched k none} := by
  obtain ⟨hfree, hrow'⟩ := Row.update_eq_some hrow
  have hseen := Row.seen_of_ne fun v => h.reading k p v hk
  constructor
  case hash =>
    intro r hr
    rcases Row.version_update hrow hr with hr | rfl
    · exact h.hash r hr
    · exact h.hash (w.row.seen k) Row.version_seen
  case confirmed =>
    intro r hr hc
    rcases Row.version_update hrow hr with hr | rfl
    · exact h.confirmed r hr hc
    obtain ⟨code, hmem, hcode⟩ := h.matched k p hk
    have hp : p = (w.row.seen k).package := by
      rw [hseen]
      exact (hu p hk hfree).symm
    subst hp
    exact ⟨code, hmem, hcode⟩
  case matched =>
    intro j q hj
    exact h.matched j q (update_none_some hj).2
  case reading =>
    intro j q v hj hw
    rw [hrow'] at hw
    exact (update_none_some hj).1 (Prod.mk.inj (Option.some.inj hw)).1.symm

theorem Inv.regenerate (h : Inv hashCode w) {k : Nat} {p : Package} (hk : w.idle k = true)
    {row : Row (EscrowRow H)} (hrow : w.row.update k (EscrowRow.regenerate hashCode p) = some row) :
    Inv hashCode {w with row := row, next := w.next + 1} := by
  obtain ⟨-, hrow'⟩ := Row.update_eq_some hrow
  constructor
  case hash =>
    intro r hr
    rcases Row.version_update hrow hr with hr | rfl
    · exact h.hash r hr
    · rfl
  case confirmed =>
    intro r hr hc
    rcases Row.version_update hrow hr with hr | rfl
    · exact h.confirmed r hr hc
    · exact absurd rfl hc
  case matched => exact h.matched
  case reading =>
    intro j q v hj hw
    rw [hrow'] at hw
    obtain rfl := (Prod.mk.inj (Option.some.inj hw)).1
    cases (of_idle hk).1.symm.trans hj

theorem Inv.step [DecidableEq H] (h : Inv hashCode w) (e : EscrowEvent) (hu : Unchanged w e) :
    Inv hashCode (w.step hashCode e) := by
  cases e with
  | confirm k code =>
    by_cases hk : w.idle k = true
    · exact h.confirm hk code
    unfold EscrowWorld.step
    dsimp only
    rwa [if_neg hk]
  | update k c =>
    unfold EscrowWorld.step
    dsimp only
    split
    · rename_i p row hk hrow
      exact h.update hu hk hrow
    · exact h
  | regenerate k code =>
    unfold EscrowWorld.step
    dsimp only
    split
    · rename_i hk
      split
      · rename_i row hrow
        exact h.regenerate hk hrow
      · exact h
    · exact h
  | commit k =>
    exact {
      hash := fun r hr => h.hash r (Row.version_commit hr)
      confirmed := fun r hr => h.confirmed r (Row.version_commit hr)
      matched := h.matched
      reading := fun j p v hj hw => h.reading j p v hj (Row.commit_writer hw)}
  | rollback k =>
    exact {
      hash := fun r hr => h.hash r (Row.version_rollback hr)
      confirmed := fun r hr => h.confirmed r (Row.version_rollback hr)
      matched := fun j p hj => h.matched j p (update_none_some hj).2
      reading := fun j p v hj hw => h.reading j p v (update_none_some hj).2 (Row.rollback_writer hw)}

end EscrowWorld

/-- In every run in which no other package is committed between the read and the UPDATE of a
ConfirmEscrow, a confirmed package is one whose code was presented while it was stored. -/
theorem confirmed_of_unchanged {H : Type} [DecidableEq H] (hashCode : String → H) (code : String)
    (es : List EscrowEvent)
    (hes : Along (EscrowWorld.step hashCode) EscrowWorld.Unchanged (.new hashCode code) es) :
    (run (EscrowWorld.step hashCode) (.new hashCode code) es).Confirmed hashCode := by
  have hinv := hes.invariant (I := EscrowWorld.Inv hashCode) (EscrowWorld.inv_new code) fun w e h hu => h.step e hu
  exact hinv.confirmed _ Row.version_committed

/-! Codes that are their own hash. -/

theorem confirmed_of_unchanged_once :
    (run (EscrowWorld.step id) (.new id "A") [.confirm 0 "A", .update 0 ⟨1, "u"⟩, .commit 0]).Confirmed id := by
  apply confirmed_of_unchanged
  refine ⟨trivial, ?_, trivial, trivial⟩
  intro p hp _
  exact Option.some.inj hp

def overtaken : List EscrowEvent :=
  [.confirm 0 "A", .regenerate 1 "B", .commit 1, .update 0 ⟨1, "u"⟩, .commit 0]

/-- The code of the old package confirms the new one. -/
theorem unopened_confirmed : ¬ (run (EscrowWorld.step id) (.new id "A") overtaken).Confirmed id := by
  intro h
  obtain ⟨code, hmem, -⟩ := h (by decide)
  have hfirst := hmem
  cases List.mem_singleton.1 hfirst

end Dbr2.Protection
