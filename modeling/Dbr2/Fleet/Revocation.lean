import Mathlib.Data.List.Nodup
import Dbr2.Lib.Row
import Dbr2.Lib.Run

/-! The status of an agent, its certificates and its session (`SetStatus` in
`internal/fleet/fleet.go`, `Renew` in `internal/gateway/enroll.go`, `Connect`, `Disconnect` and
`register` in `internal/gateway/gateway.go`).

Each handler checks the agent's status and acts on it later: SetStatus between two statements of its
transaction, Renew before its transaction, Connect before it has waited for the Hello. Any number of
them interleave under READ COMMITTED. At most one certificate is unrevoked, always. -/
namespace Dbr2.Fleet
open Lib List

inductive AgentStatus
  | pending
  | active
  | suspended
  | revoked
  deriving DecidableEq

inductive Action
  | approve
  | suspend
  | resume
  | revoke
  deriving DecidableEq

/-- The states from which the action is allowed. -/
def Action.source : Action → List AgentStatus
  | .approve => [.pending]
  | .suspend => [.active, .pending]
  | .resume => [.suspended]
  | .revoke => [.pending, .active, .suspended]

def Action.target : Action → AgentStatus
  | .approve => .active
  | .suspend => .suspended
  | .resume => .active
  | .revoke => .revoked

structure Certificate where
  serial : Nat
  revoked : Bool
  deriving DecidableEq

/-- The row of an agent with its certificates. -/
structure AgentRow where
  status : AgentStatus
  certificates : List Certificate
  serials : (certificates.map (·.serial)).Nodup

namespace AgentRow

def setStatus (s : AgentStatus) (r : AgentRow) : AgentRow := {r with status := s}

/-- The UPDATE of the certificates with `p`. -/
def revokeIf (p : Certificate → Bool) (r : AgentRow) : AgentRow where
  status := r.status
  certificates := r.certificates.map fun c => if p c then {c with revoked := true} else c
  serials := by
    have hsame : (fun c : Certificate => c.serial) ∘ (fun c => if p c then {c with revoked := true} else c) =
        fun c => c.serial := by
      funext c
      simp only [Function.comp]
      split <;> rfl
    rw [map_map, hsame]
    exact r.serials

def revokeAll (r : AgentRow) : AgentRow := r.revokeIf fun _ => true

def revokeExcept (serial : Nat) (r : AgentRow) : AgentRow := r.revokeIf (·.serial != serial)

/-- InsertAgentCertificate, with SetAgentCertificate: until it is committed, nobody else sees
the new certificate. -/
def insert (serial : Nat) (r : AgentRow) : AgentRow :=
  if h : serial ∉ r.certificates.map (·.serial) then
    {r with
      certificates := ⟨serial, false⟩ :: r.certificates
      serials := nodup_cons.2 ⟨h, r.serials⟩}
  else r

/-- The certificate is there and not revoked. -/
def accepts (serial : Nat) (r : AgentRow) : Bool := r.certificates.any fun c => c.serial == serial && !c.revoked

def unrevoked (r : AgentRow) : List Certificate := r.certificates.filter (!·.revoked)

/-- Revoked, with every certificate. -/
def Closed (r : AgentRow) : Prop := r.status = .revoked ∧ ∀ c ∈ r.certificates, c.revoked = true

end AgentRow

/-- How far a call has come. -/
inductive Call
  /-- SetStatus: the action is allowed; the status is written; the certificates are revoked;
  the transaction is committed; Disconnect has found a session; it has returned. -/
  | checked (a : Action)
  | written (a : Action)
  | cleared
  | committed (a : Action)
  | closing (a : Action) (s : Nat)
  | returned (a : Action)
  /-- Renew: its certificate is accepted; the agent is not revoked; the new certificate is
  inserted; the others are revoked. -/
  | renewing
  | permitted
  | inserted (serial : Nat)
  | pruned
  /-- Connect: its certificate is accepted; the status is read, and the Hello awaited; it has a
  session. -/
  | connecting
  | greeting (s : AgentStatus)
  | connected
  | ended
  deriving DecidableEq

def Call.fallible : Call → Bool
  | .committed _ | .closing _ _ | .returned _ | .connected | .ended => false
  | _ => true

/-- In its transaction, after its first write. -/
def Call.writing : Call → Bool
  | .written _ | .cleared | .inserted _ | .pruned => true
  | _ => false

/-- A revoke that has committed. -/
def Call.final : Call → Bool
  | .committed .revoke | .closing .revoke _ | .returned .revoke => true
  | _ => false

/-- A revoke that has looked for a session. -/
def Call.looked : Call → Bool
  | .closing .revoke _ | .returned .revoke => true
  | _ => false

/-- The rows, the calls, the registered session and those that are closed. A session is named
by its call of Connect. -/
structure Agents where
  row : Row AgentRow
  calls : Nat → Option Call
  session : Option Nat
  closed : List Nat

/-- One step of one of the calls. -/
inductive AgentEvent
  | setStatus (k : Nat) (a : Action)
  | update (k : Nat)
  | clear (k : Nat)
  | commit (k : Nat)
  | lookup (k : Nat)
  | close (k : Nat)
  | renew (k : Nat) (serial : Nat)
  | permit (k : Nat)
  | insert (k : Nat) (serial : Nat)
  | prune (k : Nat)
  | connect (k : Nat) (serial : Nat)
  | greet (k : Nat)
  | register (k : Nat)
  | unregister (k : Nat)
  | fail (k : Nat)
  deriving DecidableEq

namespace Agents

def enrolled (serial : Nat) : Agents where
  row := .ofValue ⟨.pending, [⟨serial, false⟩], nodup_singleton _⟩
  calls := fun _ => none
  session := none
  closed := []

def setCall (w : Agents) (k : Nat) (c : Call) : Agents := {w with calls := Function.update w.calls k (some c)}

/-- An UPDATE takes the row lock; while another has it nothing happens. -/
def write (w : Agents) (k : Nat) (f : AgentRow → AgentRow) (c : Call) : Agents :=
  match w.row.update k f with
  | some row => {w with row := row}.setCall k c
  | none => w

def commit (w : Agents) (k : Nat) (c : Call) : Agents := {w with row := w.row.commit k}.setCall k c

def disconnects : Action → Bool
  | .suspend => true
  | .revoke => true
  | _ => false

def lookup (w : Agents) (k : Nat) (a : Action) : Agents :=
  w.setCall k (if disconnects a then (w.session.map (Call.closing a)).getD (.returned a) else .returned a)

/-- A new session closes the old one. -/
def register (w : Agents) (k : Nat) : Agents :=
  {w with session := some k, closed := w.session.toList ++ w.closed}.setCall k .connected

def unregister (w : Agents) (k : Nat) : Agents :=
  {w with
    session := if w.session = some k then none else w.session
    closed := k :: w.closed}.setCall k .ended

def fail (w : Agents) (k : Nat) : Agents := {w with row := w.row.rollback k}.setCall k .ended

def step (w : Agents) : AgentEvent → Agents
  | .setStatus k a =>
    if w.calls k = none then
      w.setCall k (if a.source.contains w.row.committed.status then .checked a else .ended)
    else w
  | .update k =>
    match w.calls k with
    | some (.checked a) => w.write k (AgentRow.setStatus a.target) (.written a)
    | _ => w
  | .clear k => if w.calls k = some (.written .revoke) then w.write k AgentRow.revokeAll .cleared else w
  | .commit k =>
    match w.calls k with
    | some (.written a) => if a = .revoke then w else w.commit k (.committed a)
    | some .cleared => w.commit k (.committed .revoke)
    | some .pruned => w.commit k .ended
    | _ => w
  | .lookup k =>
    match w.calls k with
    | some (.committed a) => w.lookup k a
    | _ => w
  | .close k =>
    match w.calls k with
    | some (.closing a s) => {w with closed := s :: w.closed}.setCall k (.returned a)
    | _ => w
  | .renew k serial =>
    if w.calls k = none then w.setCall k (if w.row.committed.accepts serial then .renewing else .ended) else w
  | .permit k =>
    if w.calls k = some .renewing then
      w.setCall k (if w.row.committed.status = .revoked then .ended else .permitted)
    else w
  | .insert k serial =>
    if w.calls k = some .permitted ∧ serial ∉ (w.row.seen k).certificates.map (·.serial) then
      w.write k (AgentRow.insert serial) (.inserted serial)
    else w
  | .prune k =>
    match w.calls k with
    | some (.inserted serial) => w.write k (AgentRow.revokeExcept serial) .pruned
    | _ => w
  | .connect k serial =>
    if w.calls k = none then w.setCall k (if w.row.committed.accepts serial then .connecting else .ended) else w
  | .greet k =>
    if w.calls k = some .connecting then w.setCall k (.greeting w.row.committed.status) else w
  | .register k =>
    match w.calls k with
    | some (.greeting s) => if s = .active then w.register k else w.setCall k .ended
    | _ => w
  | .unregister k => if w.calls k = some .connected then w.unregister k else w
  | .fail k => if (w.calls k).any Call.fallible then w.fail k else w

/-- Once a revocation has returned, the rows are closed and so is the session, if there is one. -/
def Final (w : Agents) : Prop :=
  (∃ k, w.calls k = some (.returned .revoke)) → w.row.committed.Closed ∧ ∀ s, w.session = some s → s ∈ w.closed

def Looked (w : Agents) : Prop := ∃ k c, w.calls k = some c ∧ c.looked = true

/-- No check is overtaken: a status is written, other than by a revocation, and a certificate
inserted only while the agent is not revoked; and a session is registered only while no
revocation has looked for it. -/
def Timely (w : Agents) : AgentEvent → Prop
  | .update k => ∀ a, w.calls k = some (.checked a) → a ≠ .revoke → w.row.free k = true →
      w.row.committed.status ≠ .revoked
  | .insert k _ => w.calls k = some .permitted → w.row.free k = true → w.row.committed.status ≠ .revoked
  | .register k => w.calls k = some (.greeting .active) → ¬ w.Looked
  | _ => True

end Agents

namespace AgentRow

theorem unrevoked_closed {r : AgentRow} (h : r.Closed) : r.unrevoked.length ≤ 1 := by
  have hnil : r.unrevoked = [] := by
    apply filter_eq_nil_iff.2
    intro c hc
    simp [h.2 c hc]
  rw [hnil]
  exact Nat.zero_le 1

theorem length_serial_le_one (serial : Nat) : ∀ {l : List Certificate}, (l.map (·.serial)).Nodup →
    (l.filter (·.serial == serial)).length ≤ 1 := by
  intro l
  induction l with
  | nil =>
    intro _
    exact Nat.zero_le 1
  | cons c l ih =>
    intro h
    obtain ⟨hc, hl⟩ := nodup_cons.1 h
    rw [filter_cons]
    by_cases hs : c.serial == serial
    · -- the others have other serials
      have hnil : l.filter (·.serial == serial) = [] := by
        apply filter_eq_nil_iff.2
        intro d hd hds
        exact hc (mem_map.2 ⟨d, hd, (beq_iff_eq.1 hds).trans (beq_iff_eq.1 hs).symm⟩)
      rw [if_pos hs, hnil]
      exact Nat.le_refl 1
    · rw [if_neg hs]
      exact ih hl

theorem unrevoked_revokeExcept (r : AgentRow) (serial : Nat) : (r.revokeExcept serial).unrevoked.length ≤ 1 := by
  have hown : (r.revokeExcept serial).unrevoked =
      ((r.revokeExcept serial).certificates.filter (·.serial == serial)).filter (!·.revoked) := by
    rw [filter_filter]
    apply List.filter_congr
    intro c hc
    obtain ⟨d, -, rfl⟩ := mem_map.1 hc
    by_cases hd : d.serial = serial <;> simp [hd]
  rw [hown]
  apply Nat.le_trans filter_sublist.length_le
  exact length_serial_le_one serial (r.revokeExcept serial).serials

theorem Closed.revokeIf {r : AgentRow} (h : r.Closed) (p : Certificate → Bool) : (r.revokeIf p).Closed := by
  refine ⟨h.1, fun c hc => ?_⟩
  obtain ⟨d, hd, rfl⟩ := mem_map.1 hc
  split
  · rfl
  · exact h.2 d hd

theorem closed_revokeAll {r : AgentRow} (h : r.status = .revoked) : r.revokeAll.Closed := by
  refine ⟨h, fun c hc => ?_⟩
  obtain ⟨d, -, rfl⟩ := mem_map.1 hc
  rfl

end AgentRow

/-- What the uncommitted row looks like while the call holds it. -/
def Call.Fits : Call → AgentRow → Prop
  | .written a, r => r.status = a.target ∧ r.unrevoked.length ≤ 1
  | .cleared, r => r.Closed
  | .inserted _, _ => True
  | .pruned, r => r.unrevoked.length ≤ 1
  | _, _ => False

theorem Call.Fits.writing {c : Call} {r : AgentRow} (h : c.Fits r) : c.writing = true := by
  cases c <;> first | rfl | exact h.elim

/-- One certificate is valid, and the lock belongs to the call that writes. -/
structure Sound (row : Row AgentRow) (calls : Nat → Option Call) : Prop where
  one : row.committed.unrevoked.length ≤ 1
  held : ∀ k v, row.writer = some (k, v) → ∃ c, calls k = some c ∧ c.Fits v
  writes : ∀ k c, calls k = some c → c.writing = true → ∃ v, row.writer = some (k, v)

namespace Sound
variable {row row' : Row AgentRow} {calls : Nat → Option Call} {k : Nat} {c c' : Call}

theorem setCall (h : Sound row calls) (hk : ∀ d, calls k = some d → d.writing = false)
    (hc : c.writing = false) : Sound row (Function.update calls k (some c)) where
  one := h.one
  held j v hw := by
    obtain ⟨d, hd, hfits⟩ := h.held j v hw
    have hj : j ≠ k := by
      rintro rfl
      cases (hk d hd).symm.trans hfits.writing
    exact ⟨d, (Function.update_of_ne hj ..).trans hd, hfits⟩
  writes j d hd hwr := by
    rcases update_some hd with ⟨-, ⟨⟩⟩ | ⟨-, hd⟩
    · rw [hc] at hwr
      cases hwr
    · exact h.writes j d hd hwr

theorem write (h : Sound row calls) {f : AgentRow → AgentRow} (hrow : row.update k f = some row')
    (hfits : c.Fits (f (row.seen k))) : Sound row' (Function.update calls k (some c)) := by
  obtain ⟨hfree, rfl⟩ := Row.update_eq_some hrow
  constructor
  case one => exact h.one
  case held =>
    intro j v hw
    obtain ⟨rfl, rfl⟩ := Prod.mk.inj (Option.some.inj hw)
    exact ⟨c, Function.update_self .., hfits⟩
  case writes =>
    intro j d hd hwr
    rcases update_some hd with ⟨rfl, -⟩ | ⟨hj, hd⟩
    · exact ⟨_, rfl⟩
    -- another call that has written would hold the row
    obtain ⟨v, hv⟩ := h.writes j d hd hwr
    exact absurd (Row.eq_of_free hfree hv) hj

theorem alone (h : Sound row calls) (hk : calls k = some c) (hwr : c.writing = true) :
    ∃ v, row.writer = some (k, v) ∧ c.Fits v ∧ ∀ j d, calls j = some d → d.writing = true → j = k := by
  obtain ⟨v, hv⟩ := h.writes k c hk hwr
  obtain ⟨d, hd, hfits⟩ := h.held k v hv
  cases (hk.symm.trans hd)
  refine ⟨v, hv, hfits, fun j d' hj hwr' => ?_⟩
  obtain ⟨u, hu⟩ := h.writes j d' hj hwr'
  exact (Prod.mk.inj (Option.some.inj (hu.symm.trans hv))).1

theorem released {v : AgentRow} (hone : v.unrevoked.length ≤ 1)
    (halone : ∀ j d, calls j = some d → d.writing = true → j = k) (hc' : c'.writing = false) :
    Sound (.ofValue v) (Function.update calls k (some c')) := by
  constructor
  case one => exact hone
  case held =>
    intro j u hw
    cases hw
  case writes =>
    intro j d hd hdw
    rcases update_some hd with ⟨-, ⟨⟩⟩ | ⟨hj, hd⟩
    · rw [hc'] at hdw
      cases hdw
    · exact absurd (halone j d hd hdw) hj

theorem commit (h : Sound row calls) (hk : calls k = some c) (hwr : c.writing = true)
    (hone : ∀ v, c.Fits v → v.unrevoked.length ≤ 1) (hc' : c'.writing = false) :
    Sound (row.commit k) (Function.update calls k (some c')) := by
  obtain ⟨v, hv, hfits, halone⟩ := h.alone hk hwr
  rw [Row.commit_of_writer hv]
  exact released (hone v hfits) halone hc'

theorem rollback (h : Sound row calls) (hk : calls k = some c) (hc' : c'.writing = false) :
    Sound (row.rollback k) (Function.update calls k (some c')) := by
  cases hwr : c.writing with
  | false =>
    have hsame : row.rollback k = row := by
      unfold Row.rollback
      split
      · rename_i j v hw
        rw [if_neg]
        rintro rfl
        obtain ⟨d, hd, hfits⟩ := h.held j v hw
        obtain rfl := Option.some.inj (hk.symm.trans hd)
        rw [hfits.writing] at hwr
        cases hwr
      · rfl
    rw [hsame]
    refine h.setCall (fun d hd => ?_) hc'
    obtain rfl := Option.some.inj (hk.symm.trans hd)
    exact hwr
  | true =>
    obtain ⟨v, hv, -, halone⟩ := h.alone hk hwr
    have hback : row.rollback k = .ofValue row.committed := by
      unfold Row.rollback
      rw [hv]
      exact if_pos rfl
    rw [hback]
    exact released h.one halone hc'

end Sound

namespace Agents
variable {w : Agents} {k : Nat} {c d : Call}

theorem sound_enrolled (serial : Nat) : Sound (enrolled serial).row (enrolled serial).calls where
  one := Nat.le_refl 1
  held _ _ h := by cases h
  writes _ _ h := by cases h

def Outside (w : Agents) (k : Nat) : Prop := ∀ d, w.calls k = some d → d.writing = false

theorem outside_of_none (hk : w.calls k = none) : w.Outside k := by
  intro d hd
  cases hk.symm.trans hd

theorem outside_of_some (hk : w.calls k = some d) (hd : d.writing = false) : w.Outside k := by
  intro d' hd'
  cases (hk.symm.trans hd')
  exact hd

/-- All that an event can do. -/
inductive Moves (w : Agents) : AgentEvent → Agents → Prop
  | idle {e : AgentEvent} : Moves w e w
  /-- A call begins, or goes on outside of its transaction. -/
  | call {e : AgentEvent} {k : Nat} {c : Call} (hk : w.Outside k) (hc : c.writing = false)
      (hf : c.final = false) : Moves w e (w.setCall k c)
  | update {k : Nat} {a : Action} (hk : w.calls k = some (.checked a)) :
      Moves w (.update k) (w.write k (AgentRow.setStatus a.target) (.written a))
  | clear {k : Nat} (hk : w.calls k = some (.written .revoke)) :
      Moves w (.clear k) (w.write k AgentRow.revokeAll .cleared)
  | change {k : Nat} {a : Action} (hk : w.calls k = some (.written a)) (ha : a ≠ .revoke) :
      Moves w (.commit k) (w.commit k (.committed a))
  | revoke {k : Nat} (hk : w.calls k = some .cleared) : Moves w (.commit k) (w.commit k (.committed .revoke))
  | renewed {k : Nat} (hk : w.calls k = some .pruned) : Moves w (.commit k) (w.commit k .ended)
  | lookup {k : Nat} {a : Action} (hk : w.calls k = some (.committed a)) : Moves w (.lookup k) (w.lookup k a)
  | close {k : Nat} {a : Action} {s : Nat} (hk : w.calls k = some (.closing a s)) :
      Moves w (.close k) ({w with closed := s :: w.closed}.setCall k (.returned a))
  | insert {k serial : Nat} (hk : w.calls k = some .permitted) :
      Moves w (.insert k serial) (w.write k (AgentRow.insert serial) (.inserted serial))
  | prune {k serial : Nat} (hk : w.calls k = some (.inserted serial)) :
      Moves w (.prune k) (w.write k (AgentRow.revokeExcept serial) .pruned)
  | register {k : Nat} (hk : w.calls k = some (.greeting .active)) : Moves w (.register k) (w.register k)
  | unregister {k : Nat} (hk : w.calls k = some .connected) : Moves w (.unregister k) (w.unregister k)
  | fail {k : Nat} {c : Call} (hk : w.calls k = some c) : Moves w (.fail k) (w.fail k)

theorem Moves.ite {e : AgentEvent} {p : Prop} [Decidable p] (hk : w.Outside k)
    (hc : c.writing = false ∧ c.final = false) (hd : d.writing = false ∧ d.final = false) :
    Moves w e (w.setCall k (if p then c else d)) := by
  split
  · exact .call hk hc.1 hc.2
  · exact .call hk hd.1 hd.2

/-- Each event is one of the moves; the invariants look at these only. -/
theorem moves_step (w : Agents) (e : AgentEvent) : Moves w e (w.step e) := by
  unfold step
  cases e with
  | setStatus k a | renew k serial | connect k serial =>
    dsimp only
    split
    · rename_i hk
      exact .ite (outside_of_none hk) ⟨rfl, rfl⟩ ⟨rfl, rfl⟩
    · exact .idle
  | update k =>
    dsimp only
    split
    · rename_i a hk
      exact .update hk
    · exact .idle
  | clear k =>
    dsimp only
    split
    · rename_i hk
      exact .clear hk
    · exact .idle
  | commit k =>
    dsimp only
    split
    · rename_i a hk
      split
      · exact .idle
      · rename_i ha
        exact .change hk ha
    · rename_i hk
      exact .revoke hk
    · rename_i hk
      exact .renewed hk
    · exact .idle
  | lookup k =>
    dsimp only
    split
    · rename_i a hk
      exact .lookup hk
    · exact .idle
  | close k =>
    dsimp only
    split
    · rename_i a s hk
      exact .close hk
    · exact .idle
  | permit k =>
    dsimp only
    split
    · rename_i hk
      exact .ite (outside_of_some hk rfl) ⟨rfl, rfl⟩ ⟨rfl, rfl⟩
    · exact .idle
  | insert k serial =>
    dsimp only
    split
    · rename_i hk
      exact .insert hk.1
    · exact .idle
  | prune k =>
    dsimp only
    split
    · rename_i serial hk
      exact .prune hk
    · exact .idle
  | greet k =>
    dsimp only
    split
    · rename_i hk
      exact .call (outside_of_some hk rfl) rfl rfl
    · exact .idle
  | register k =>
    dsimp only
    split
    · rename_i s hk
      split
      · rename_i hactive
        subst hactive
        exact .register hk
      · exact .call (outside_of_some hk rfl) rfl rfl
    · exact .idle
  | unregister k =>
    dsimp only
    split
    · rename_i hk
      exact .unregister hk
    · exact .idle
  | fail k =>
    dsimp only
    split
    · rename_i hk
      obtain ⟨d, hd, -⟩ := (Option.any_eq_true _ _).1 hk
      exact .fail hd
    · exact .idle

theorem sound_write (h : Sound w.row w.calls) {f : AgentRow → AgentRow} (hfits : c.Fits (f (w.row.seen k))) :
    Sound (w.write k f c).row (w.write k f c).calls := by
  unfold write
  split
  · rename_i row hrow
    exact h.write hrow hfits
  · exact h

theorem sound_move (h : Sound w.row w.calls) {e : AgentEvent} {w' : Agents} (hm : Moves w e w') :
    Sound w'.row w'.calls := by
  cases hm with
  | idle => exact h
  | call hk hc _ => exact h.setCall hk hc
  | @update k a hk =>
    apply sound_write h
    have hseen : w.row.seen k = w.row.committed := by
      apply Row.seen_of_ne
      intro v hv
      obtain ⟨d, hd, hfits⟩ := h.held k v hv
      cases (hk.symm.trans hd)
      exact hfits
    rw [hseen]
    exact ⟨rfl, h.one⟩
  | clear hk =>
    obtain ⟨v, hv, hfits, -⟩ := h.alone hk rfl
    apply sound_write h
    rw [Row.seen_of_writer hv]
    exact AgentRow.closed_revokeAll hfits.1
  | change hk _ => exact h.commit hk rfl (fun v hv => hv.2) rfl
  | revoke hk => exact h.commit hk rfl (fun v hv => AgentRow.unrevoked_closed hv) rfl
  | renewed hk => exact h.commit hk rfl (fun v hv => hv) rfl
  | @lookup k a hk =>
    apply h.setCall (outside_of_some hk rfl)
    split
    · cases w.session <;> rfl
    · rfl
  | close hk => exact h.setCall (outside_of_some hk rfl) rfl
  | insert _ => exact sound_write h trivial
  | @prune k serial _ => exact sound_write h (AgentRow.unrevoked_revokeExcept _ serial)
  | register hk => exact h.setCall (outside_of_some hk rfl) rfl
  | unregister hk => exact h.setCall (outside_of_some hk rfl) rfl
  | fail hk => exact h.rollback hk rfl

/-- After a revocation is committed all versions of the row are closed, and after it has looked
for the session, the one that is registered is closed or about to be. -/
structure Kept (w : Agents) : Prop where
  closed : ∀ k c, w.calls k = some c → c.final = true → ∀ v, w.row.Version v → v.Closed
  session : ∀ k c, w.calls k = some c → c.looked = true →
    ∀ s, w.session = some s → s ∈ w.closed ∨ c = .closing .revoke s

theorem kept_enrolled (serial : Nat) : Kept (enrolled serial) where
  closed _ _ h := by cases h
  session _ _ h := by cases h

theorem Kept.final (h : Kept w) : Final w := by
  rintro ⟨k, hk⟩
  refine ⟨h.closed k _ hk rfl _ Row.version_committed, fun s hs => ?_⟩
  rcases h.session k _ hk rfl s hs with hs | hs
  · exact hs
  · cases hs

theorem Kept.setCall (h : Kept w) (hfinal : c.final = true → ∃ d, w.calls k = some d ∧ d.final = true)
    (hlooked : c.looked = true → ∀ s, w.session = some s → s ∈ w.closed ∨ c = .closing .revoke s) :
    Kept (w.setCall k c) where
  closed j d hd hf := by
    rcases update_some hd with ⟨-, ⟨⟩⟩ | ⟨-, hd⟩
    · obtain ⟨d', hd', hf'⟩ := hfinal hf
      exact h.closed k d' hd' hf'
    · exact h.closed j d hd hf
  session j d hd hl := by
    rcases update_some hd with ⟨-, ⟨⟩⟩ | ⟨-, hd⟩
    · exact hlooked hl
    · exact h.session j d hd hl

theorem looked_final (h : c.looked = true) : c.final = true := by
  unfold Call.looked at h
  split at h
  · rfl
  · rfl
  · cases h

section

variable (h : Kept w)
include h

theorem Kept.plain (hc : c.final = false) : Kept (w.setCall k c) := by
  apply h.setCall
  · intro hf
    cases hc.symm.trans hf
  · intro hl
    cases hc.symm.trans (looked_final hl)

theorem Kept.setRow {row : Row AgentRow} (hv : ∀ v, row.Version v →
    w.row.Version v ∨ ((∀ u, w.row.Version u → u.Closed) → v.Closed)) : Kept {w with row := row} where
  closed j d hd hf v hrow := by
    rcases hv v hrow with hold | hnew
    · exact h.closed j d hd hf v hold
    · exact hnew (h.closed j d hd hf)
  session := h.session

theorem Kept.write {f : AgentRow → AgentRow} (hc : c.final = false)
    (hf : w.row.free k = true → (∀ u, w.row.Version u → u.Closed) → (f (w.row.seen k)).Closed) :
    Kept (w.write k f c) := by
  unfold Agents.write
  split
  · rename_i row hrow
    have hrow' : Kept {w with row := row} := by
      apply h.setRow
      intro v hv
      apply (Row.version_update hrow hv).imp_right
      rintro rfl
      exact hf (Row.update_eq_some hrow).1
    exact hrow'.plain hc
  · exact h

theorem Kept.commitPlain (hc : c.final = false) : Kept (w.commit k c) := by
  have hrow : Kept {w with row := w.row.commit k} := h.setRow fun v hv => .inl (Row.version_commit hv)
  exact hrow.plain hc

theorem Kept.commitRevoke (hs : Sound w.row w.calls) (hk : w.calls k = some .cleared) :
    Kept (w.commit k (.committed .revoke)) := by
  obtain ⟨v, hv, hclosed, -⟩ := hs.alone hk rfl
  have hall : ∀ u, (w.row.commit k).Version u → u.Closed := by
    intro u hu
    rw [Row.commit_of_writer hv] at hu
    rcases hu with rfl | ⟨j, hj⟩
    · exact hclosed
    · cases hj
  constructor
  case closed =>
    intro j d _ _
    exact hall
  case session =>
    intro j d hd hl
    rcases update_some hd with ⟨-, ⟨⟩⟩ | ⟨-, hd⟩
    · cases hl
    · exact h.session j d hd hl

theorem Kept.lookup {a : Action} (hk : w.calls k = some (.committed a)) : Kept (w.lookup k a) := by
  unfold Agents.lookup
  cases a with
  | approve => exact h.plain rfl
  | resume => exact h.plain rfl
  | suspend =>
    cases w.session with
    | none => exact h.plain rfl
    | some s => exact h.plain rfl
  | revoke =>
    apply h.setCall
    · intro _
      exact ⟨_, hk, rfl⟩
    · intro _ s hs
      rw [hs]
      exact .inr rfl

theorem Kept.close {a : Action} {s : Nat} (hk : w.calls k = some (.closing a s)) :
    Kept ({w with closed := s :: w.closed}.setCall k (.returned a)) := by
  have hmore : Kept {w with closed := s :: w.closed} := {h with
    session := fun j d hd hl t ht => (h.session j d hd hl t ht).imp_left (mem_cons_of_mem s)}
  cases a with
  | revoke =>
    apply hmore.setCall
    · intro _
      exact ⟨_, hk, rfl⟩
    · -- the session that was found is the one that is registered
      intro _ t ht
      rcases hmore.session k _ hk rfl t ht with ht | ht
      · exact .inl ht
      · obtain ⟨-, rfl⟩ := Call.closing.inj ht
        exact .inl mem_cons_self
  | approve => exact hmore.plain rfl
  | suspend => exact hmore.plain rfl
  | resume => exact hmore.plain rfl

theorem Kept.register (hno : ¬ w.Looked) : Kept (w.register k) := by
  have hnew : Kept {w with session := some k, closed := w.session.toList ++ w.closed} := {h with
    session := fun j d hd hl => absurd ⟨j, d, hd, hl⟩ hno}
  exact hnew.plain rfl

theorem Kept.unregister : Kept (w.unregister k) := by
  have hless : Kept {w with
      session := if w.session = some k then none else w.session, closed := k :: w.closed} := {h with
    session := by
      intro j d hd hl s hs
      dsimp only at hs
      split at hs
      · cases hs
      · exact (h.session j d hd hl s hs).imp_left (mem_cons_of_mem k)}
  exact hless.plain rfl

theorem Kept.fail : Kept (w.fail k) := by
  have hrow : Kept {w with row := w.row.rollback k} := h.setRow fun v hv => .inl (Row.version_rollback hv)
  exact hrow.plain rfl

theorem Kept.move (hs : Sound w.row w.calls) {e : AgentEvent} (ht : Timely w e)
    {w' : Agents} (hm : Moves w e w') : Kept w' := by
  cases hm with
  | idle => exact h
  | call _ _ hf => exact h.plain hf
  | @update k a hk =>
    apply h.write rfl
    intro hfree hall
    by_cases ha : a = .revoke
    · subst ha
      exact ⟨rfl, (hall _ Row.version_seen).2⟩
    · exact absurd (hall _ Row.version_committed).1 (ht a hk ha hfree)
  | clear _ => exact h.write rfl fun _ hall => (hall _ Row.version_seen).revokeIf _
  | @change k a _ ha =>
    apply h.commitPlain
    cases a <;> first | rfl | exact absurd rfl ha
  | revoke hk => exact h.commitRevoke hs hk
  | renewed _ => exact h.commitPlain rfl
  | lookup hk => exact h.lookup hk
  | close hk => exact h.close hk
  | insert hk =>
    apply h.write rfl
    intro hfree hall
    exact absurd (hall _ Row.version_committed).1 (ht hk hfree)
  | prune _ => exact h.write rfl fun _ hall => (hall _ Row.version_seen).revokeIf _
  | register hk => exact h.register (ht hk)
  | unregister _ => exact h.unregister
  | fail _ => exact h.fail

end

end Agents

/-- In every run at most one certificate is unrevoked; and in every run in which no check is
overtaken by a revocation, a revocation that has returned is final. -/
theorem revocation_final (serial : Nat) (es : List AgentEvent) :
    (run Agents.step (.enrolled serial) es).row.committed.unrevoked.length ≤ 1 ∧
      (Along Agents.step Agents.Timely (.enrolled serial) es → (run Agents.step (.enrolled serial) es).Final) := by
  constructor
  · have hsound :=
      run_invariant (I := fun w : Agents => Sound w.row w.calls) (Agents.sound_enrolled serial)
        (fun w e h => Agents.sound_move h (Agents.moves_step w e)) es
    exact hsound.one
  · intro hes
    have hkept := hes.invariant (I := fun w => Sound w.row w.calls ∧ Agents.Kept w)
      ⟨Agents.sound_enrolled serial, Agents.kept_enrolled serial⟩
      fun w e h ht => ⟨Agents.sound_move h.1 (Agents.moves_step w e), h.2.move h.1 ht (Agents.moves_step w e)⟩
    exact hkept.2.final

/-! An agent with certificate 0, approved. -/

def change (k : Nat) (a : Action) : List AgentEvent := [.setStatus k a, .update k, .commit k, .lookup k]

def revokeAgent (k : Nat) : List AgentEvent :=
  [.setStatus k .revoke, .update k, .clear k, .commit k, .lookup k]

def renewedBefore : List AgentEvent :=
  change 0 .approve ++ [.renew 1 0, .permit 1, .insert 1 1, .prune 1, .commit 1] ++ revokeAgent 2

theorem revocation_final_renewed : (run Agents.step (.enrolled 0) renewedBefore).Final := by
  apply (revocation_final 0 renewedBefore).2
  refine ⟨trivial, fun _ _ _ _ => by decide, trivial, trivial, trivial, trivial, fun _ _ => by decide, trivial,
    trivial, trivial, fun _ _ _ _ => by decide, trivial, trivial, trivial, trivial⟩

/-- A resumption that was allowed before the revocation, and written after it. -/
def resumedLate : List AgentEvent :=
  change 0 .approve ++ change 1 .suspend ++ [.setStatus 2 .resume] ++ revokeAgent 3 ++ [.update 2, .commit 2]

def renewedLate : List AgentEvent :=
  change 0 .approve ++ [.renew 1 0, .permit 1] ++ revokeAgent 2 ++ [.insert 1 1, .prune 1, .commit 1]

def connectedLate : List AgentEvent :=
  change 0 .approve ++ [.connect 1 0, .greet 1] ++ revokeAgent 2 ++ [.register 1]

/-- A resume, a renewal and a connection that read before the revocation and write after it. -/
theorem revocation_overtakes : ¬ (run Agents.step (.enrolled 0) resumedLate).Final ∧
    ¬ (run Agents.step (.enrolled 0) renewedLate).Final ∧
    ¬ (run Agents.step (.enrolled 0) connectedLate).Final := by
  refine ⟨fun h => ?_, fun h => ?_, fun h => ?_⟩
  · exact absurd (h ⟨3, by decide⟩).1.1 (by decide)
  · exact absurd ((h ⟨2, by decide⟩).1.2 ⟨1, false⟩ (by decide)) (by decide)
  · exact absurd ((h ⟨2, by decide⟩).2 1 (by decide)) (by decide)

end Dbr2.Fleet
