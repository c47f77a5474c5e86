import Dbr2.Backup.Repository

/-! Removing a recovery point (`deleteRecoveryPoint` in `workflows/backup/retention.go`).

A run lists the snapshots tagged with the recovery point once, then deletes one at a time: the
manifests in a first pass over the listing, the rest in a second. Any number of runs interleave, for
any recovery points, and each may fail or die at any of its calls; a repetition is one more run.
Nobody writes in between. -/
namespace Dbr2.Backup
open Lib List

structure Store where
  snapshots : List Snapshot
  ids : (snapshots.map (·.id)).Nodup

namespace Store

def list (st : Store) (rp : String) : List Snapshot := st.snapshots.filter (·.tags.rp == rp)

def delete (st : Store) (id : String) : Store where
  snapshots := st.snapshots.filter (·.id != id)
  ids := st.ids.sublist (filter_sublist.map _)

end Store

/-- Whether a pass of the loop deletes the snapshot: the first takes the manifests. -/
def Snapshot.inPass (s : Snapshot) (pass : Bool) : Bool := (s.tags.kind == "manifest") == pass

def passes (snaps : List Snapshot) : List Snapshot :=
  [true, false].flatMap fun pass => snaps.filter (·.inPass pass)

structure Removal where
  rp : String
  todo : List Snapshot
  n : Nat
  deriving DecidableEq

/-- The Repository, the runs, the recovery points they were asked for and those of the
runs that returned without an error. -/
structure Removals where
  store : Store
  runs : Nat → Option Removal
  (asked returned : List String)

inductive RemovalEvent
  | list (k : Nat) (rp : String)
  | next (k : Nat) (f : Fate)
  | stop (k : Nat)
  deriving DecidableEq

namespace Removals

def new (st : Store) : Removals := ⟨st, fun _ => none, [], []⟩

def setRun (w : Removals) (k : Nat) (r : Option Removal) : Removals :=
  {w with runs := Function.update w.runs k r}

/-- A round of the loops: an error ends the run, whether the snapshot is gone or not. -/
def next (w : Removals) (k : Nat) (f : Fate) (r : Removal) : Removals :=
  match r.todo with
  | [] => {w with returned := r.rp :: w.returned}.setRun k none
  | s :: rest =>
    (if f.performed then {w with store := w.store.delete s.id} else w).setRun k
      (if f = .done then some {r with todo := rest, n := r.n + 1} else none)

def step (w : Removals) : RemovalEvent → Removals
  | .list k rp => {w with asked := rp :: w.asked}.setRun k (some ⟨rp, passes (w.store.list rp), 0⟩)
  | .next k f => ((w.runs k).map (w.next k f)).getD w
  | .stop k => w.setRun k none

end Removals

structure Removed (before : Store) (w : Removals) : Prop where
  /-- A component goes after all manifests of its recovery point. -/
  manifestFirst : ∀ s ∈ before.snapshots, s ∉ w.store.snapshots → s.tags.kind ≠ "manifest" →
    ∀ m ∈ w.store.snapshots, m.tags.rp = s.tags.rp → m.tags.kind ≠ "manifest"
  others : ∀ s ∈ before.snapshots, s ∉ w.store.snapshots → s.tags.rp ∈ w.asked
  complete : ∀ rp ∈ w.returned, ∀ s ∈ w.store.snapshots, s.tags.rp ≠ rp

structure Removal.Ahead (before : Store) (w : Removals) (r : Removal) : Prop where
  asked : r.rp ∈ w.asked
  known : ∀ s ∈ r.todo, s ∈ before.snapshots ∧ s.tags.rp = r.rp
  left : ∀ s ∈ w.store.snapshots, s.tags.rp = r.rp → s ∈ r.todo
  ordered : r.todo.Pairwise fun s m => m.tags.kind = "manifest" → s.tags.kind = "manifest"

structure Removals.Inv (before : Store) (w : Removals) : Prop extends Removed before w where
  kept : w.store.snapshots ⊆ before.snapshots
  runs : ∀ k r, w.runs k = some r → r.Ahead before w

variable {before : Store} {w : Removals}

variable {s : Snapshot}

theorem mem_delete {st : Store} {id : String} : s ∈ (st.delete id).snapshots ↔ s ∈ st.snapshots ∧ s.id ≠ id := by
  simp [Store.delete]

theorem mem_storeList {st : Store} {rp : String} : s ∈ st.list rp ↔ s ∈ st.snapshots ∧ s.tags.rp = rp := by
  simp [Store.list]

theorem Store.eq_of_id (st : Store) {t : Snapshot} (hs : s ∈ st.snapshots) (ht : t ∈ st.snapshots)
    (h : s.id = t.id) : s = t :=
  inj_on_of_nodup_map st.ids hs ht h

theorem Store.gone {before : Store} (st : Store) {t : Snapshot} (hs : s ∈ before.snapshots)
    (ht : t ∈ before.snapshots) (hgone : t ∉ (st.delete s.id).snapshots) :
    t = s ∨ t ∉ st.snapshots := by
  by_cases hid : t.id = s.id
  · exact .inl (before.eq_of_id ht hs hid)
  right
  intro hmem
  exact hgone (mem_delete.2 ⟨hmem, hid⟩)

theorem mem_passes {snaps : List Snapshot} : s ∈ passes snaps ↔ s ∈ snaps := by
  cases h : s.tags.kind == "manifest" <;> simp [passes, Snapshot.inPass, h]

theorem passes_ordered (snaps : List Snapshot) :
    (passes snaps).Pairwise fun s m => m.tags.kind = "manifest" → s.tags.kind = "manifest" := by
  have hpasses : passes snaps = snaps.filter (·.inPass true) ++ snaps.filter (·.inPass false) := by
    simp [passes]
  rw [hpasses, pairwise_append]
  refine ⟨?_, ?_, ?_⟩
  · apply pairwise_of_forall_mem_list
    intro s hs m _ _
    simpa [Snapshot.inPass] using (mem_filter.1 hs).2
  · apply pairwise_of_forall_mem_list
    intro s _ m hm hmanifest
    simp [Snapshot.inPass, hmanifest] at hm
  · intro s hs m _ _
    simpa [Snapshot.inPass] using (mem_filter.1 hs).2

namespace Removals.Inv

theorem new (st : Store) : Inv st (Removals.new st) where
  manifestFirst s hs hgone := absurd hs hgone
  others s hs hgone := absurd hs hgone
  complete rp hrp := by cases hrp
  kept := List.Subset.refl _
  runs k r hr := by cases hr

variable {k : Nat} {r : Removal}

section

variable (h : Inv before w)
include h

theorem setRun {r : Option Removal}
    (hr : ∀ r' ∈ r, r'.Ahead before w) : Inv before (w.setRun k r) where
  manifestFirst := h.manifestFirst
  others := h.others
  complete := h.complete
  kept := h.kept
  runs k' r' hr' := by
    have hahead : r'.Ahead before w := by
      by_cases hk : k' = k
      · subst hk
        apply hr
        simpa [Removals.setRun] using hr'
      · apply h.runs k'
        simpa [Removals.setRun, Function.update_of_ne hk] using hr'
    exact ⟨hahead.asked, hahead.known, hahead.left, hahead.ordered⟩

theorem ask (rp : String) : Inv before {w with asked := rp :: w.asked} where
  manifestFirst := h.manifestFirst
  others s hs hgone := mem_cons_of_mem _ (h.others s hs hgone)
  complete := h.complete
  kept := h.kept
  runs k r hr :=
    have hahead := h.runs k r hr
    ⟨mem_cons_of_mem _ hahead.asked, hahead.known, hahead.left, hahead.ordered⟩

theorem list (k : Nat) (rp : String) : Inv before (w.step (.list k rp)) := by
  apply (h.ask rp).setRun
  rintro _ ⟨⟩
  refine ⟨mem_cons_self, ?_, ?_, passes_ordered _⟩
  · intro s hs
    obtain ⟨hs, hrp⟩ := mem_storeList.1 (mem_passes.1 hs)
    exact ⟨h.kept hs, hrp⟩
  · intro s hs hrp
    exact mem_passes.2 (mem_storeList.2 ⟨hs, hrp⟩)

theorem delete {s : Snapshot} {rest : List Snapshot}
    (hr : w.runs k = some r) (htodo : r.todo = s :: rest) :
    Inv before {w with store := w.store.delete s.id} := by
  have hahead := h.runs k r hr
  have hs : s ∈ before.snapshots ∧ s.tags.rp = r.rp := by
    apply hahead.known
    rw [htodo]
    exact mem_cons_self
  have hsub : ∀ t ∈ (w.store.delete s.id).snapshots, t ∈ w.store.snapshots :=
    fun t ht => (mem_delete.1 ht).1
  refine ⟨⟨?_, ?_, ?_⟩, ?_, ?_⟩
  · intro t ht hgone hkind m hm hrp
    rcases Store.gone w.store hs.1 ht hgone with rfl | hgone
    · -- what is left of the recovery point is ahead of the run, and the head is no manifest
      have hmem := htodo ▸ hahead.left m (hsub m hm) (hrp.trans hs.2)
      have hne : m ≠ t := by
        rintro rfl
        exact (mem_delete.1 hm).2 rfl
      have hrest := (mem_cons.1 hmem).resolve_left hne
      have hordered := hahead.ordered
      rw [htodo, pairwise_cons] at hordered
      exact fun hmanifest => hkind (hordered.1 m hrest hmanifest)
    · exact h.manifestFirst t ht hgone hkind m (hsub m hm) hrp
  · intro t ht hgone
    rcases Store.gone w.store hs.1 ht hgone with rfl | hgone
    · exact hs.2 ▸ hahead.asked
    · exact h.others t ht hgone
  · exact fun rp hrp t ht => h.complete rp hrp t (hsub t ht)
  · exact fun t ht => h.kept (hsub t ht)
  · intro k' r' hr'
    have hahead' := h.runs k' r' hr'
    exact ⟨hahead'.asked, hahead'.known, fun t ht => hahead'.left t (hsub t ht), hahead'.ordered⟩

theorem ret (hr : w.runs k = some r) (htodo : r.todo = []) :
    Inv before {w with returned := r.rp :: w.returned} where
  manifestFirst := h.manifestFirst
  others := h.others
  complete rp hrp s hs heq := by
    rcases mem_cons.1 hrp with rfl | hrp
    · have hmem := (h.runs k r hr).left s hs heq
      rw [htodo] at hmem
      cases hmem
    · exact h.complete rp hrp s hs heq
  kept := h.kept
  runs k' r' hr' :=
    have hahead := h.runs k' r' hr'
    ⟨hahead.asked, hahead.known, hahead.left, hahead.ordered⟩

theorem ahead_tail {s : Snapshot} {rest : List Snapshot}
    (hr : w.runs k = some r) (htodo : r.todo = s :: rest) (n : Nat) :
    Removal.Ahead before {w with store := w.store.delete s.id} {r with todo := rest, n := n} := by
  have hahead := h.runs k r hr
  refine ⟨hahead.asked, ?_, ?_, ?_⟩
  · intro t ht
    apply hahead.known
    rw [htodo]
    exact mem_cons_of_mem _ ht
  · intro t ht hrp
    obtain ⟨ht, hid⟩ := mem_delete.1 ht
    have hmem := htodo ▸ hahead.left t ht hrp
    apply (mem_cons.1 hmem).resolve_left
    rintro rfl
    exact hid rfl
  · have hordered := hahead.ordered
    rw [htodo] at hordered
    exact hordered.of_cons

theorem next (hr : w.runs k = some r) (f : Fate) : Inv before (w.next k f r) := by
  unfold Removals.next
  split
  · next htodo =>
    apply (h.ret hr htodo).setRun
    intro _ hnone
    cases hnone
  next s rest htodo =>
  cases f with
  | done =>
    apply (h.delete hr htodo).setRun
    rintro _ ⟨⟩
    exact h.ahead_tail hr htodo _
  | failed performed =>
    cases performed with
    | false =>
      apply h.setRun
      intro _ hnone
      cases hnone
    | true =>
      apply (h.delete hr htodo).setRun
      intro _ hnone
      cases hnone

theorem step (e : RemovalEvent) : Inv before (w.step e) := by
  cases e with
  | list k rp => exact h.list k rp
  | next k f =>
    show Inv before (((w.runs k).map (w.next k f)).getD w)
    cases hr : w.runs k with
    | none => exact h
    | some r => exact h.next hr f
  | stop k =>
    apply h.setRun
    intro _ hnone
    cases hnone

end

end Removals.Inv

/-- **Manifests first.** Wherever the runs have got to: a recovery point that has lost a
component has no manifest, other recovery points have lost nothing, and one whose removal
returned has no snapshot left. -/
theorem removed_manifest_first (before : Store) (es : List RemovalEvent) :
    Removed before (run Removals.step (.new before) es) :=
  (run_invariant (I := Removals.Inv before) (.new before) (fun _ e h => h.step e) es).toRemoved

end Dbr2.Backup
