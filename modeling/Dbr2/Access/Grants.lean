import Dbr2.Access.Acl

/-! The read grants of cross-host restores (`RestoreWorkflow` in `workflows/restore/restore.go`,
over the calls of `Dbr2.Access.Acl`).

A restore asks for its grant until an attempt is reported as successful, reads, and asks for the
revocation until that is reported. Any number of restores to one host from another do so at the same
time, and attempts and replies may be late or lost. All of these restores share one entry. -/
namespace Dbr2.Access
open Lib List
open Backup (Fate)

inductive Phase
  | granting
  | reading (id : String)
  | revoking (id : String)
  | ended
  deriving DecidableEq

inductive Request
  | grant
  | revoke (id : String)
  deriving DecidableEq

inductive Answer
  | granted (id : String)
  | revoked
  deriving DecidableEq

/-- The repository server, the restores, what is on its way to the server and back, and the
identifiers that Kopia has given. -/
structure Restores where
  server : Server
  phases : Nat → Option Phase
  calls : List (Nat × Request)
  replies : List (Nat × Answer)
  given : List String

inductive RestoreEvent
  | start (k : Nat)
  | call (k : Nat)
  | grant (k : Nat) (r : AddReplies) (recorded : Bool)
  | revoke (k : Nat) (id : String) (r : DeleteReplies)
  | report (k : Nat) (a : Answer)
  | finish (k : Nat)
  | fail (k : Nat)
  deriving DecidableEq

namespace Restores

def new (s : Server) : Restores := ⟨s, fun _ => none, [], [], s.acls.stored.map Acl.id⟩

def setPhase (w : Restores) (k : Nat) (p : Phase) : Restores :=
  {w with phases := Function.update w.phases k (some p)}

def request : Phase → Option Request
  | .granting => some .grant
  | .revoking id => some (.revoke id)
  | _ => none

def returned : Phase → Answer → Option Phase
  | .granting, .granted id => some (.reading id)
  | .revoking _, .revoked => some .ended
  | _, _ => none

/-- Where it goes when its activity fails: without a grant there is no compensation. -/
def failed : Phase → Option Phase
  | .granting => some .ended
  | .revoking _ => some .ended
  | _ => none

def finished : Phase → Option Phase
  | .reading id => some (.revoking id)
  | _ => none

def goTo (w : Restores) (k : Nat) (next : Phase → Option Phase) : Restores :=
  (((w.phases k).bind next).map (w.setPhase k)).getD w

def answered (replies : List (Nat × Answer)) (k : Nat) : Except GrantError Answer → List (Nat × Answer)
  | .ok a => (k, a) :: replies
  | .error _ => replies

/-- An identifier is not empty and never given twice. -/
def serveGrant (w : Restores) (target source : String) (k : Nat) (r : AddReplies) (recorded : Bool) :
    Restores :=
  if r.id = "" ∨ r.id ∈ w.given then w
  else
    {w with
      server := (w.server.grantRestoreAccess target source r recorded).2
      calls := w.calls.erase (k, .grant)
      given := r.id :: w.given
      replies := answered w.replies k ((w.server.grantRestoreAccess target source r recorded).1.map Answer.granted)}

def serveRevoke (w : Restores) (k : Nat) (id : String) (r : DeleteReplies) : Restores :=
  {w with
    server := (w.server.revokeRestoreAccess id r).2
    calls := w.calls.erase (k, .revoke id)
    replies := answered w.replies k ((w.server.revokeRestoreAccess id r).1.map fun _ => Answer.revoked)}

def step (target source : String) (w : Restores) : RestoreEvent → Restores
  | .start k => if w.phases k = none then w.setPhase k .granting else w
  | .call k =>
    match (w.phases k).bind request with
    | some q => {w with calls := (k, q) :: w.calls}
    | none => w
  | .grant k r recorded => if (k, .grant) ∈ w.calls then w.serveGrant target source k r recorded else w
  | .revoke k id r => if (k, .revoke id) ∈ w.calls then w.serveRevoke k id r else w
  | .report k a => if (k, a) ∈ w.replies then w.goTo k (returned · a) else w
  | .finish k => w.goTo k finished
  | .fail k => w.goTo k failed

end Restores

section
variable (target source : String)

def Restores.Entry (w : Restores) (a : Acl) : Prop :=
  a ∈ w.server.acls.stored ∧ a.entry = Server.restoreGrant target source

/-- The grant is there while a restore reads, and not when all have ended. -/
structure Lives (w : Restores) : Prop where
  reading : ∀ k id, w.phases k = some (.reading id) → ∃ a, w.Entry target source a
  ended : (∀ k p, w.phases k = some p → p = .ended) → ∀ a, ¬ w.Entry target source a

/-- A restore that answers for an entry: it will ask for its revocation, or still for the
grant. -/
def Phase.Holds (p : Phase) (id : String) : Prop := p = .granting ∨ p = .reading id ∨ p = .revoking id

def Restores.Uses (w : Restores) (k : Nat) (id : String) : Prop :=
  w.phases k = some (.reading id) ∨ w.phases k = some .granting ∧ (k, .granted id) ∈ w.replies

/-- No attempt adds the entry when its restore no longer asks for it; no revocation arrives
while a restore uses the entry; an activity fails for good only if there is no entry or
another restore answers for it. -/
def Orderly (w : Restores) : RestoreEvent → Prop
  | .grant k _ _ => (∀ a, ¬ w.Entry target source a) → w.phases k = some .granting
  | .revoke _ id _ => ∀ j, ¬ w.Uses j id
  | .fail k => ∀ a, w.Entry target source a → ∃ j p, j ≠ k ∧ w.phases j = some p ∧ p.Holds a.id
  | _ => True

end

namespace Server
variable (s : Server)

theorem refresh_stored (fs : List Fate) : (s.refresh fs).2.acls.stored = s.acls.stored := by
  unfold refresh
  split
  · exact (refreshLoop_spec 3 s fs).2.1
  · rfl

theorem addACL_stored (e : Entry) (id : String) : (s.addACL e id).acls.stored = s.acls.stored ∨
      (s.addACL e id).acls.stored = s.acls.stored ++ [⟨id, e⟩] := by
  unfold addACL
  split
  · exact .inr rfl
  · exact .inl rfl

theorem addReadGrant_stored (want : Entry) (r : AddReplies) :
    ((s.addReadGrant want r).2.acls.stored = s.acls.stored ∨ s.find want = "" ∧
        (s.addReadGrant want r).2.acls.stored = s.acls.stored ++ [⟨r.id, want⟩]) ∧
      ∀ id, (s.addReadGrant want r).1 = .ok id →
        ∃ a ∈ (s.addReadGrant want r).2.acls.stored, a.id = id ∧ a.entry = want := by
  unfold addReadGrant
  by_cases hlist : r.list = false
  · rw [if_pos hlist]
    exact ⟨.inl rfl, fun id h => by cases h⟩
  rw [if_neg hlist]
  by_cases hfind : s.find want ≠ ""
  · rw [if_pos hfind]
    refine ⟨.inl rfl, fun id h => ?_⟩
    obtain rfl := Except.ok.inj h
    exact find_ne_empty hfind
  rw [if_neg hfind]
  have hadd : (if r.add.performed then s.addACL want r.id else s).acls.stored = s.acls.stored ∨
      s.find want = "" ∧ (if r.add.performed then s.addACL want r.id else s).acls.stored =
        s.acls.stored ++ [⟨r.id, want⟩] := by
    split
    · exact (s.addACL_stored want r.id).imp_right fun h => ⟨not_not.1 hfind, h⟩
    · exact .inl rfl
  generalize (if r.add.performed then s.addACL want r.id else s) = t at hadd ⊢
  by_cases hbad : r.add ≠ .done ∨ r.relist = false ∨ t.find want = ""
  · simp only [if_pos hbad]
    exact ⟨hadd, fun id h => by cases h⟩
  simp only [if_neg hbad, refresh_stored]
  refine ⟨hadd, fun id h => ?_⟩
  split at h
  · obtain rfl := Except.ok.inj h
    exact find_ne_empty fun h => hbad (.inr (.inr h))
  · cases h

theorem grantRestoreAccess_stored (target source : String) (r : AddReplies) (recorded : Bool) :
    ((s.grantRestoreAccess target source r recorded).2.acls.stored = s.acls.stored ∨
        s.find (restoreGrant target source) = "" ∧
        (s.grantRestoreAccess target source r recorded).2.acls.stored =
          s.acls.stored ++ [⟨r.id, restoreGrant target source⟩]) ∧
      ∀ id, (s.grantRestoreAccess target source r recorded).1 = .ok id →
        ∃ a ∈ (s.grantRestoreAccess target source r recorded).2.acls.stored,
          a.id = id ∧ a.entry = restoreGrant target source := by
  have h := s.addReadGrant_stored (restoreGrant target source) r
  unfold grantRestoreAccess
  by_cases hself : source = target
  · rw [if_pos hself]
    exact ⟨.inl rfl, fun id hid => by cases hid⟩
  rw [if_neg hself]
  generalize s.addReadGrant (restoreGrant target source) r = p at h ⊢
  obtain ⟨res, t⟩ := p
  cases res with
  | error e => exact ⟨h.1, fun id hid => by cases hid⟩
  | ok id' =>
    refine ⟨h.1, fun id hid => h.2 id ?_⟩
    cases recorded with
    | true => exact hid
    | false => cases hid

theorem deleteReadGrant_stored (id : String) (r : DeleteReplies) :
    ((s.deleteReadGrant id r).2.acls.stored = s.acls.stored ∨
        (s.deleteReadGrant id r).2.acls.stored = s.acls.stored.filter (·.id ≠ id)) ∧
      ((s.deleteReadGrant id r).1 ≠ .error .failed →
        ∀ a ∈ (s.deleteReadGrant id r).2.acls.stored, a.id = id → isReadGrant a.entry = false) := by
  unfold deleteReadGrant
  by_cases hlist : r.list = false
  · rw [if_pos hlist]
    exact ⟨.inl rfl, fun h => absurd rfl h⟩
  rw [if_neg hlist]
  by_cases hnone : (s.acls.stored.find? (·.id = id)).any (isReadGrant ·.entry) = false
  · rw [if_pos hnone]
    refine ⟨.inl rfl, fun _ a ha haid => ?_⟩
    cases hf : s.acls.stored.find? (·.id = id) with
    | none => exact absurd haid (by simpa using find?_eq_none.1 hf a ha)
    | some b =>
      have hb : b.id = a.id := by
        rw [haid]
        simpa using find?_some hf
      obtain rfl := inj_on_of_nodup_map s.acls.stored_distinct (mem_of_find?_eq_some hf) ha hb
      simpa [hf] using hnone
  rw [if_neg hnone]
  by_cases hdel : r.delete = .done
  · simp only [hdel, Fate.performed, if_true, ne_eq, not_true_eq_false, if_false, refresh_stored]
    refine ⟨.inr rfl, fun _ a ha haid => absurd haid (mem_deleteACL ha)⟩
  rw [if_pos hdel]
  refine ⟨?_, fun h => absurd rfl h⟩
  split
  · exact .inr rfl
  · exact .inl rfl

theorem revokeRestoreAccess_stored (id : String) (r : DeleteReplies) :
    ((s.revokeRestoreAccess id r).2.acls.stored = s.acls.stored ∨
        (s.revokeRestoreAccess id r).2.acls.stored = s.acls.stored.filter (·.id ≠ id)) ∧
      ((s.revokeRestoreAccess id r).1 = .ok () →
        ∀ a ∈ (s.revokeRestoreAccess id r).2.acls.stored, a.id = id → isReadGrant a.entry = false) := by
  have h := s.deleteReadGrant_stored id r
  rw [revokeRestoreAccess_snd]
  refine ⟨h.1, fun hok => h.2 ?_⟩
  intro hfailed
  unfold revokeRestoreAccess at hok
  split at hok
  · rename_i hnf
    rw [hnf] at hfailed
    cases hfailed
  rename_i hres
  rw [hres] at hfailed
  rw [hfailed] at hok
  cases hok

end Server

theorem mem_answered {replies : List (Nat × Answer)} {k j : Nat} {res : Except GrantError Answer} {x : Answer}
    (h : (j, x) ∈ Restores.answered replies k res) : (j, x) ∈ replies ∨ j = k ∧ res = .ok x := by
  cases res with
  | error e => exact .inl h
  | ok a =>
    rcases mem_cons.1 h with he | h
    · obtain ⟨rfl, rfl⟩ := Prod.mk.inj he
      exact .inr ⟨rfl, rfl⟩
    · exact .inl h

theorem map_eq_ok {α β : Type} {f : α → β} {res : Except GrantError α} {b : β} (h : res.map f = .ok b) :
    ∃ a, res = .ok a ∧ f a = b := by
  cases res with
  | error e => cases h
  | ok a => exact ⟨a, rfl, Except.ok.inj h⟩

section
variable (target source : String) {w : Restores}

def Restores.Known (w : Restores) (id : String) : Prop :=
  id ∈ w.given ∧ ∀ a ∈ w.server.acls.stored, a.id = id → a.entry = Server.restoreGrant target source

def Restores.Gone (w : Restores) (id : String) : Prop :=
  id ∈ w.given ∧ ∀ a ∈ w.server.acls.stored, a.id ≠ id

structure Inv (w : Restores) : Prop where
  unique : ∀ a b, w.Entry target source a → w.Entry target source b → a = b
  named : ∀ a, w.Entry target source a → a.id ≠ ""
  given : ∀ a ∈ w.server.acls.stored, a.id ∈ w.given
  uses : ∀ k id, w.Uses k id → ∃ a, w.Entry target source a ∧ a.id = id
  held : ∀ a, w.Entry target source a → ∃ k p, w.phases k = some p ∧ p.Holds a.id
  phase : ∀ k id, w.phases k = some (.reading id) ∨ w.phases k = some (.revoking id) → w.Known target source id
  granted : ∀ k id, (k, .granted id) ∈ w.replies → w.Known target source id
  revoke : ∀ k id, (k, .revoke id) ∈ w.calls → w.phases k = some (.revoking id) ∨ w.phases k = some .ended
  revoked : ∀ k, (k, .revoked) ∈ w.replies →
    w.phases k = some .ended ∨ ∃ id, w.phases k = some (.revoking id) ∧ w.Gone id
  calling : ∀ k q, (k, q) ∈ w.calls → w.phases k ≠ none
  replied : ∀ k a, (k, a) ∈ w.replies → w.phases k ≠ none

variable {target source}

theorem Inv.new {s : Server} (h : ∀ a ∈ s.acls.stored, a.entry ≠ Server.restoreGrant target source) :
    Inv target source (.new s) where
  unique a _ ha := absurd ha.2 (h a ha.1)
  named a ha := absurd ha.2 (h a ha.1)
  given _ ha := mem_map_of_mem ha
  uses _ _ hu := by rcases hu with hu | ⟨hu, -⟩ <;> cases hu
  held a ha := absurd ha.2 (h a ha.1)
  phase _ _ hp := by rcases hp with hp | hp <;> cases hp
  granted _ _ hr := by cases hr
  revoke _ _ hc := by cases hc
  revoked _ hr := by cases hr
  calling _ _ hc := by cases hc
  replied _ _ hr := by cases hr

theorem Inv.lives (h : Inv target source w) : Lives target source w where
  reading k id hk := (h.uses k id (.inl hk)).imp fun _ ha => ha.1
  ended hall a ha := by
    obtain ⟨k, p, hk, hp⟩ := h.held a ha
    obtain rfl := hall k p hk
    rcases hp with hp | hp | hp <;> cases hp

variable {k : Nat} {p : Phase} {id : String}

section

variable (h : Inv target source w)
include h

theorem Inv.setPhase (huses : ∀ id, p = .reading id ∨ p = .granting ∧ (k, .granted id) ∈ w.replies →
      ∃ a, w.Entry target source a ∧ a.id = id) (hheld : ∀ a, w.Entry target source a →
      p.Holds a.id ∨ ∃ j q, j ≠ k ∧ w.phases j = some q ∧ q.Holds a.id)
    (hphase : ∀ id, p = .reading id ∨ p = .revoking id → w.Known target source id)
    (hrevoke : ∀ id, (k, .revoke id) ∈ w.calls → p = .revoking id ∨ p = .ended)
    (hrevoked : (k, .revoked) ∈ w.replies → p = .ended ∨ ∃ id, p = .revoking id ∧ w.Gone id) :
    Inv target source (w.setPhase k p) := by
  have hself : (w.setPhase k p).phases k = some p := Function.update_self ..
  have hother : ∀ {j}, j ≠ k → (w.setPhase k p).phases j = w.phases j := fun hj =>
    Function.update_of_ne hj ..
  have hnone : ∀ {j}, w.phases j ≠ none → (w.setPhase k p).phases j ≠ none := by
    intro j hj
    by_cases hjk : j = k
    · rw [hjk, hself]
      exact Option.some_ne_none p
    · rwa [hother hjk]
  constructor
  case unique => exact h.unique
  case named => exact h.named
  case given => exact h.given
  case uses =>
    intro j id hu
    by_cases hj : j = k
    · subst hj
      rw [Restores.Uses, hself, Option.some.injEq, Option.some.injEq] at hu
      exact huses id hu
    · rw [Restores.Uses, hother hj] at hu
      exact h.uses j id hu
  case held =>
    intro a ha
    rcases hheld a ha with hp | ⟨j, q, hj, hq, hholds⟩
    · exact ⟨k, p, hself, hp⟩
    · exact ⟨j, q, (hother hj).trans hq, hholds⟩
  case phase =>
    intro j id hj
    by_cases hjk : j = k
    · subst hjk
      rw [hself, Option.some.injEq, Option.some.injEq] at hj
      exact hphase id hj
    · rw [hother hjk] at hj
      exact h.phase j id hj
  case granted => exact h.granted
  case revoke =>
    intro j id hc
    by_cases hjk : j = k
    · subst hjk
      rw [hself, Option.some.injEq, Option.some.injEq]
      exact hrevoke id hc
    · rw [hother hjk]
      exact h.revoke j id hc
  case revoked =>
    intro j hr
    by_cases hjk : j = k
    · subst hjk
      simp only [hself, Option.some.injEq]
      exact hrevoked hr
    · simp only [hother hjk]
      exact h.revoked j hr
  case calling =>
    intro j q hc
    exact hnone (h.calling j q hc)
  case replied =>
    intro j a hr
    exact hnone (h.replied j a hr)

theorem Inv.start (hk : w.phases k = none) :
    Inv target source (w.setPhase k .granting) := by
  apply h.setPhase
  · rintro id (hp | ⟨-, hr⟩)
    · cases hp
    · exact absurd hk (h.replied k _ hr)
  · intro a _
    exact .inl (.inl rfl)
  · rintro id (hp | hp) <;> cases hp
  · intro id hc
    exact absurd hk (h.calling k _ hc)
  · intro hr
    exact absurd hk (h.replied k _ hr)

theorem Inv.call {q : Request} (hk : w.phases k = some p)
    (hq : Restores.request p = some q) : Inv target source {w with calls := (k, q) :: w.calls} where
  unique := h.unique
  named := h.named
  given := h.given
  uses := h.uses
  held := h.held
  phase := h.phase
  granted := h.granted
  revoked := h.revoked
  replied := h.replied
  revoke j id hc := by
    rcases mem_cons.1 hc with he | hc
    · obtain ⟨rfl, rfl⟩ := Prod.mk.inj he
      cases p with
      | revoking id' =>
        obtain rfl : id' = id := by simpa [Restores.request] using hq
        exact .inl hk
      | _ => simp [Restores.request] at hq
    · exact h.revoke j id hc
  calling j q' hc := by
    rcases mem_cons.1 hc with he | hc
    · obtain ⟨rfl, -⟩ := Prod.mk.inj he
      rw [hk]
      exact Option.some_ne_none p
    · exact h.calling j q' hc

theorem Inv.other (hk : w.phases k = some p) {a : Acl}
    (ha : w.Entry target source a) (hp : ¬ p.Holds a.id) :
    ∃ j q, j ≠ k ∧ w.phases j = some q ∧ q.Holds a.id := by
  obtain ⟨j, q, hj, hq⟩ := h.held a ha
  refine ⟨j, q, ?_, hj, hq⟩
  rintro rfl
  cases (hk.symm.trans hj)
  exact hp hq

theorem Inv.reportGranted (hk : w.phases k = some .granting)
    (hr : (k, .granted id) ∈ w.replies) : Inv target source (w.setPhase k (.reading id)) := by
  have huse := h.uses k id (.inr ⟨hk, hr⟩)
  apply h.setPhase
  · rintro id' (hp | ⟨hp, -⟩)
    · obtain rfl := Phase.reading.inj hp
      exact huse
    · cases hp
  · intro a ha
    obtain ⟨b, hb, rfl⟩ := huse
    obtain rfl := h.unique a b ha hb
    exact .inl (.inr (.inl rfl))
  · rintro id' (hp | hp)
    · obtain rfl := Phase.reading.inj hp
      exact h.granted k _ hr
    · cases hp
  · intro id' hc
    rcases h.revoke k id' hc with hp | hp <;> cases hk.symm.trans hp
  · intro hrev
    rcases h.revoked k hrev with hp | ⟨_, hp, -⟩ <;> cases hk.symm.trans hp

theorem Inv.reportRevoked (hk : w.phases k = some (.revoking id)) (hr : (k, .revoked) ∈ w.replies) :
    Inv target source (w.setPhase k .ended) := by
  have hgone : w.Gone id := by
    rcases h.revoked k hr with hp | ⟨id', hp, hgone⟩
    · cases hk.symm.trans hp
    · obtain rfl := Phase.revoking.inj (Option.some.inj (hk.symm.trans hp))
      exact hgone
  apply h.setPhase
  · rintro id' (hp | ⟨hp, -⟩) <;> cases hp
  · intro a ha
    refine .inr (h.other hk ha ?_)
    rintro (hp | hp | hp)
    · cases hp
    · cases hp
    · exact hgone.2 a ha.1 (Phase.revoking.inj hp).symm
  · rintro id' (hp | hp) <;> cases hp
  · intro _ _
    exact .inr rfl
  · intro _
    exact .inl rfl

theorem Inv.finish (hk : w.phases k = some (.reading id)) :
    Inv target source (w.setPhase k (.revoking id)) := by
  apply h.setPhase
  · rintro id' (hp | ⟨hp, -⟩) <;> cases hp
  · intro a ha
    by_cases hp : (Phase.reading id).Holds a.id
    · rcases hp with hp | hp | hp
      · cases hp
      · obtain rfl := Phase.reading.inj hp
        exact .inl (.inr (.inr rfl))
      · cases hp
    · exact .inr (h.other hk ha hp)
  · rintro id' (hp | hp)
    · cases hp
    · obtain rfl := Phase.revoking.inj hp
      exact h.phase k _ (.inl hk)
  · intro id' hc
    rcases h.revoke k id' hc with hp | hp <;> cases hk.symm.trans hp
  · intro hrev
    rcases h.revoked k hrev with hp | ⟨_, hp, -⟩ <;> cases hk.symm.trans hp

theorem Inv.fail (ho : Orderly target source w (.fail k)) :
    Inv target source (w.setPhase k .ended) := by
  apply h.setPhase
  · rintro id (hp | ⟨hp, -⟩) <;> cases hp
  · intro a ha
    exact .inr (ho a ha)
  · rintro id (hp | hp) <;> cases hp
  · intro _ _
    exact .inr rfl
  · intro _
    exact .inl rfl

theorem Inv.find_eq_empty
    (hf : w.server.find (Server.restoreGrant target source) = "") (a : Acl) : ¬ w.Entry target source a := by
  intro ha
  unfold Server.find at hf
  cases hs : w.server.acls.stored.find? (·.entry = Server.restoreGrant target source) with
  | none => exact absurd ha.2 (by simpa using find?_eq_none.1 hs a ha.1)
  | some b =>
    rw [hs] at hf
    exact h.named b ⟨mem_of_find?_eq_some hs, by simpa using find?_some hs⟩ hf

end

/-- An entry of the grant under a new identifier. It is the only one, and a restore holds it. -/
structure Fresh (target source : String) (w : Restores) (given : List String) (a : Acl) : Prop where
  unused : a.id ∉ w.given
  given : a.id ∈ given
  named : a.id ≠ ""
  entry : a.entry = Server.restoreGrant target source
  only : ∀ b, ¬ w.Entry target source b
  held : ∃ k p, w.phases k = some p ∧ p.Holds a.id

theorem Inv.store (h : Inv target source w) {s : Server} {given : List String} (new : Option Acl)
    (hgiven : ∀ id ∈ w.given, id ∈ given)
    (hcases : ∀ a ∈ s.acls.stored, a ∈ w.server.acls.stored ∨ new = some a)
    (hnew : ∀ a, new = some a → Fresh target source w given a)
    (hstays : ∀ k a, w.Uses k a.id → a ∈ w.server.acls.stored → a ∈ s.acls.stored) :
    Inv target source {w with server := s, given := given} := by
  have hknown : ∀ id, w.Known target source id →
      Restores.Known target source {w with server := s, given := given} id := by
    intro id hk
    refine ⟨hgiven id hk.1, ?_⟩
    intro a ha haid
    rcases hcases a ha with ha | ha
    · exact hk.2 a ha haid
    · exact (hnew a ha).entry
  have hgone : ∀ id, w.Gone id → Restores.Gone {w with server := s, given := given} id := by
    intro id hg
    refine ⟨hgiven id hg.1, ?_⟩
    intro a ha haid
    rcases hcases a ha with ha | ha
    · exact hg.2 a ha haid
    · exact (hnew a ha).unused (haid ▸ hg.1)
  constructor
  case unique =>
    intro a b ha hb
    rcases hcases a ha.1 with haw | haw
    · rcases hcases b hb.1 with hbw | hbw
      · exact h.unique a b ⟨haw, ha.2⟩ ⟨hbw, hb.2⟩
      · exact absurd ⟨haw, ha.2⟩ ((hnew b hbw).only a)
    rcases hcases b hb.1 with hbw | hbw
    · exact absurd ⟨hbw, hb.2⟩ ((hnew a haw).only b)
    · exact Option.some.inj (haw.symm.trans hbw)
  case named =>
    intro a ha
    rcases hcases a ha.1 with haw | haw
    · exact h.named a ⟨haw, ha.2⟩
    · exact (hnew a haw).named
  case given =>
    intro a ha
    rcases hcases a ha with haw | haw
    · exact hgiven a.id (h.given a haw)
    · exact (hnew a haw).given
  case uses =>
    intro k id hu
    obtain ⟨a, ha, rfl⟩ := h.uses k id hu
    exact ⟨a, ⟨hstays k a hu ha.1, ha.2⟩, rfl⟩
  case held =>
    intro a ha
    rcases hcases a ha.1 with haw | haw
    · exact h.held a ⟨haw, ha.2⟩
    · exact (hnew a haw).held
  case phase =>
    intro k id hk
    exact hknown id (h.phase k id hk)
  case granted =>
    intro k id hr
    exact hknown id (h.granted k id hr)
  case revoke => exact h.revoke
  case revoked =>
    intro k hr
    apply (h.revoked k hr).imp_right
    rintro ⟨id, hk, hg⟩
    exact ⟨id, hk, hgone id hg⟩
  case calling => exact h.calling
  case replied => exact h.replied

theorem Inv.answer (h : Inv target source w) {q : Request} (hc : (k, q) ∈ w.calls) {res : Except GrantError Answer}
    (hgranted : ∀ id, res = .ok (.granted id) →
      w.Known target source id ∧ ∃ a, w.Entry target source a ∧ a.id = id) (hrevoked : res = .ok .revoked →
      w.phases k = some .ended ∨ ∃ id, w.phases k = some (.revoking id) ∧ w.Gone id) :
    Inv target source {w with
      calls := w.calls.erase (k, q), replies := Restores.answered w.replies k res} := by
  constructor
  case unique => exact h.unique
  case named => exact h.named
  case given => exact h.given
  case uses =>
    rintro j id (hj | ⟨hj, hr⟩)
    · exact h.uses j id (.inl hj)
    · rcases mem_answered hr with hr | ⟨-, hres⟩
      · exact h.uses j id (.inr ⟨hj, hr⟩)
      · exact (hgranted id hres).2
  case held => exact h.held
  case phase => exact h.phase
  case granted =>
    intro j id hr
    rcases mem_answered hr with hr | ⟨-, hres⟩
    · exact h.granted j id hr
    · exact (hgranted id hres).1
  case revoke =>
    intro j id hj
    exact h.revoke j id (mem_of_mem_erase hj)
  case revoked =>
    intro j hr
    rcases mem_answered hr with hr | ⟨rfl, hres⟩
    · exact h.revoked j hr
    · exact hrevoked hres
  case calling =>
    intro j q' hj
    exact h.calling j q' (mem_of_mem_erase hj)
  case replied =>
    intro j x hr
    rcases mem_answered hr with hr | ⟨rfl, -⟩
    · exact h.replied j x hr
    · exact h.calling _ _ hc

theorem Inv.serveGrant (h : Inv target source w) (hc : (k, .grant) ∈ w.calls) (r : AddReplies)
    (recorded : Bool) (ho : Orderly target source w (.grant k r recorded)) :
    Inv target source (w.serveGrant target source k r recorded) := by
  unfold Restores.serveGrant
  by_cases hid : r.id = "" ∨ r.id ∈ w.given
  · rw [if_pos hid]
    exact h
  rw [if_neg hid]
  obtain ⟨hne, hnew⟩ := not_or.1 hid
  obtain ⟨hstored, hok⟩ := w.server.grantRestoreAccess_stored target source r recorded
  generalize w.server.grantRestoreAccess target source r recorded = p at hstored hok ⊢
  have hserver : Inv target source {w with server := p.2, given := r.id :: w.given} := by
    have hgiven : ∀ id ∈ w.given, id ∈ r.id :: w.given := fun id hid => mem_cons_of_mem _ hid
    rcases hstored with hs | ⟨hfind, hs⟩
    · apply h.store none hgiven
      · intro a ha
        exact .inl (hs ▸ ha)
      · intro a ha
        cases ha
      · intro _ a _ ha
        exact hs ▸ ha
    have hno := h.find_eq_empty hfind
    apply h.store (some ⟨r.id, Server.restoreGrant target source⟩) hgiven
    · intro a ha
      rw [hs] at ha
      exact (mem_append.1 ha).imp_right fun ha => congrArg some (mem_singleton.1 ha).symm
    · intro a ha
      obtain rfl := Option.some.inj ha
      exact ⟨hnew, mem_cons_self, hne, rfl, hno, k, .granting, ho hno, .inl rfl⟩
    · intro _ a _ ha
      exact hs ▸ mem_append_left _ ha
  apply hserver.answer hc
  · intro id hres
    obtain ⟨id', hp, hid'⟩ := map_eq_ok hres
    obtain rfl := Answer.granted.inj hid'
    obtain ⟨a, ha, rfl, hae⟩ := hok id' hp
    refine ⟨⟨hserver.given a ha, ?_⟩, a, ⟨ha, hae⟩, rfl⟩
    intro b hb hbid
    obtain rfl := inj_on_of_nodup_map p.2.acls.stored_distinct hb ha hbid
    exact hae
  · intro hres
    obtain ⟨_, -, hrev⟩ := map_eq_ok hres
    cases hrev

theorem Inv.serveRevoke (hgrant : isReadGrant (Server.restoreGrant target source) = true)
    (h : Inv target source w) (hc : (k, .revoke id) ∈ w.calls) (r : DeleteReplies)
    (ho : Orderly target source w (.revoke k id r)) : Inv target source (w.serveRevoke k id r) := by
  unfold Restores.serveRevoke
  obtain ⟨hstored, hok⟩ := w.server.revokeRestoreAccess_stored id r
  generalize w.server.revokeRestoreAccess id r = p at hstored hok ⊢
  have hold : ∀ a ∈ p.2.acls.stored, a ∈ w.server.acls.stored := by
    intro a ha
    rcases hstored with hs | hs
    · exact hs ▸ ha
    · rw [hs] at ha
      exact (mem_filter.1 ha).1
  have hserver : Inv target source {w with server := p.2} := by
    apply h.store none (fun id hid => hid)
    · intro a ha
      exact .inl (hold a ha)
    · intro a ha
      cases ha
    · intro j a hu ha
      rcases hstored with hs | hs
      · exact hs ▸ ha
      have hne : a.id ≠ id := by
        rintro rfl
        exact ho j hu
      rw [hs]
      exact mem_filter.2 ⟨ha, decide_eq_true hne⟩
  apply hserver.answer hc
  · intro id' hres
    obtain ⟨_, -, hgranted⟩ := map_eq_ok hres
    cases hgranted
  · intro hres
    obtain ⟨_, hp, -⟩ := map_eq_ok hres
    rcases h.revoke k id hc with hk | hk
    · have hid := h.phase k id (.inr hk)
      refine .inr ⟨id, hk, hid.1, ?_⟩
      intro a ha haid
      have hno := hok hp a ha haid
      rw [hid.2 a (hold a ha) haid, hgrant] at hno
      cases hno
    · exact .inl hk

theorem Inv.goTo (h : Inv target source w) {next : Phase → Option Phase}
    (hnext : ∀ p p', w.phases k = some p → next p = some p' → Inv target source (w.setPhase k p')) :
    Inv target source (w.goTo k next) := by
  unfold Restores.goTo
  cases hp : w.phases k with
  | none => exact h
  | some p =>
    cases hp' : next p with
    | none => simpa [hp'] using h
    | some p' => simpa [hp'] using hnext p p' hp hp'

/-- Every event of an orderly run keeps the invariant. -/
theorem Inv.step (hgrant : isReadGrant (Server.restoreGrant target source) = true) (h : Inv target source w)
    (e : RestoreEvent) (ho : Orderly target source w e) : Inv target source (w.step target source e) := by
  unfold Restores.step
  cases e with
  | start k =>
    dsimp only
    split
    · rename_i hk
      exact h.start hk
    · exact h
  | call k =>
    dsimp only
    split
    · rename_i q hq
      obtain ⟨p, hk, hp⟩ := Option.bind_eq_some_iff.1 hq
      exact h.call hk hp
    · exact h
  | grant k r recorded =>
    dsimp only
    split
    · rename_i hc
      exact h.serveGrant hc r recorded ho
    · exact h
  | revoke k id r =>
    dsimp only
    split
    · rename_i hc
      exact h.serveRevoke hgrant hc r ho
    · exact h
  | report k a =>
    dsimp only
    split
    · rename_i hr
      apply h.goTo
      intro p p' hk hp
      cases p <;> cases a <;> simp only [Restores.returned, Option.some.injEq, reduceCtorEq] at hp
      · obtain rfl := hp
        exact h.reportGranted hk hr
      · obtain rfl := hp
        exact h.reportRevoked hk hr
    · exact h
  | finish k =>
    apply h.goTo
    intro p p' hk hp
    cases p <;> simp only [Restores.finished, Option.some.injEq, reduceCtorEq] at hp
    obtain rfl := hp
    exact h.finish hk
  | fail k =>
    apply h.goTo
    intro p p' _ hp
    have hended : p' = .ended := by
      cases p <;> simp only [Restores.failed, Option.some.injEq, reduceCtorEq] at hp
      · exact hp.symm
      · exact hp.symm
    rw [hended]
    exact h.fail ho

end

/-- In every run whose steps are orderly, the grant is there while a restore reads by it, and it
is not there once all of them have ended. -/
theorem lives_of_orderly (target source : String)
    (hgrant : isReadGrant (Server.restoreGrant target source) = true) (s : Server)
    (hs : ∀ a ∈ s.acls.stored, a.entry ≠ Server.restoreGrant target source) (es : List RestoreEvent)
    (hes : Along (Restores.step target source) (Orderly target source) (.new s) es) :
    Lives target source (run (Restores.step target source) (.new s) es) := by
  have hinv := hes.invariant (I := Inv target source) (Inv.new hs) fun w e h ho => h.step hgrant e ho
  exact hinv.lives

/-! Restores to the host `b` from that of `a`. -/

def noAcls : Server := .started [] nodup_nil

/-- A restore gets its grant; `id` is the name of a new entry. -/
def takeGrant (k : Nat) (id : String) : List RestoreEvent :=
  [.start k, .call k, .grant k ⟨true, .done, id, true, [.done]⟩ true, .report k (.granted "g")]

def giveBack (k : Nat) : List RestoreEvent := [.finish k, .call k, .revoke k "g" ⟨true, .done, [.done]⟩]

theorem lives_of_orderly_alone :
    Lives "b" "a" (run (Restores.step "b" "a") (.new noAcls) (takeGrant 0 "g" ++ giveBack 0)) := by
  apply lives_of_orderly "b" "a" (by decide) noAcls
  · intro a ha
    cases ha
  · refine ⟨trivial, trivial, fun _ => rfl, trivial, trivial, trivial, ?_, trivial⟩
    intro j hj
    by_cases h0 : j = 0
    · subst h0
      rcases hj with hj | ⟨hj, -⟩ <;> cases hj
    -- there is no other restore
    have hnone : (run (Restores.step "b" "a") (.new noAcls) (takeGrant 0 "g" ++ [.finish 0, .call 0])).phases j
        = none := by
      show Function.update (Function.update (Function.update (fun _ => none) 0 _) 0 _) 0 _ j = none
      rw [Function.update_of_ne h0, Function.update_of_ne h0, Function.update_of_ne h0]
    rcases hj with hj | ⟨hj, -⟩ <;> cases hnone.symm.trans hj

/-- Of two restores that share the entry, the first to end takes it from the other. -/
def overlapping : List RestoreEvent := takeGrant 0 "g" ++ takeGrant 1 "h" ++ giveBack 0

/-- The entry is stored, the refresh fails, and so does the activity. -/
def unreported : List RestoreEvent :=
  [.start 0, .call 0, .grant 0 ⟨true, .done, "g", true, [.failed false]⟩ true, .fail 0]

/-- A grant that two restores share, and one that no restore knows of. -/
theorem grant_revoked_or_left : ¬ Lives "b" "a" (run (Restores.step "b" "a") (.new noAcls) overlapping) ∧
    ¬ Lives "b" "a" (run (Restores.step "b" "a") (.new noAcls) unreported) := by
  constructor
  · intro h
    obtain ⟨a, ha, -⟩ := h.reading 1 "g" (by decide)
    cases ha
  · intro h
    apply h.ended ?_ ⟨"g", Server.restoreGrant "b" "a"⟩ ⟨by decide, rfl⟩
    intro k p hk
    by_cases h0 : k = 0
    · subst h0
      exact (Option.some.inj hk).symm
    change Function.update (Function.update (fun _ => none) 0 _) 0 _ k = some p at hk
    rw [Function.update_of_ne h0, Function.update_of_ne h0] at hk
    cases hk

end Dbr2.Access
