import Dbr2.Protection.Deletion

/-! Whether an interrupted deletion is retried.

A deletion that fails, or whose worker is lost, leaves its row in state deleting.
The next retention run picks such a row up only through the due deletions, so
only when `delete_after` is set and in the past: a row whose deletion was begun
with reason retention has none and is never listed again (`retried_fails`). -/
namespace Dbr2.Protection.Index
open Lib List

def completion (s : Index) (c : RetentionCandidate) : List Event :=
  .begin c :: .listSnapshots s.deletions.length ::
    (List.replicate (deletionOrder s.snapshots c.recoveryPointId).length
      (.deleteSnapshot s.deletions.length) ++ [.finish s.deletions.length])

/-- `RetentionWorkflow`: list the candidates, then delete them one after another. -/
def retentionRun (s : Index) : Index :=
  s.db.listRetentionCandidates.foldl (fun s c => run step s (s.completion c)) (s.step .list)

variable {s : Index} {rp : RecoveryPoint} {c : RetentionCandidate} {id : String}

theorem run_listed (es : List Event) (h : c ∈ s.listed) : c ∈ (run step s es).listed := by
  induction es generalizing s with
  | nil => exact h
  | cons e es ih => exact ih (by rw [step_listed]; exact mem_append_left _ h)

def rowState (s : Index) (id : String) : Option RecoveryPointState :=
  (s.db.recoveryPoints.get? id).map (·.state)

/-- A deleted row stays deleted. -/
theorem deleted_step (e : Event) (h : s.rowState id = some .deleted) : (s.step e).rowState id = some .deleted := by
  obtain ⟨rp, hget, hs⟩ := Option.map_eq_some_iff.1 h
  rw [rowState, step_get?, hget, Option.map_some, Option.map_some]
  congr 1
  unfold rowStep
  repeat' split
  all_goals first | exact hs | rfl | simp_all [Db.deletable]

theorem deleted_run (es : List Event)
    (h : s.rowState id = some .deleted) : (run step s es).rowState id = some .deleted := by
  induction es generalizing s with
  | nil => exact h
  | cons e es ih => exact ih (deleted_step e h)

theorem deleting_step (e : Event) (h : s.rowState id = some .deleting) :
    (s.step e).rowState id = some .deleting ∨ (s.step e).rowState id = some .deleted := by
  obtain ⟨rp, hget, hs⟩ := Option.map_eq_some_iff.1 h
  rw [rowState, step_get?, hget, Option.map_some, Option.map_some]
  unfold rowStep
  repeat' split
  all_goals first | exact .inl (congrArg some hs) | exact .inl rfl | exact .inr rfl

theorem deleting_run (es : List Event) (h : s.rowState id = some .deleting) :
    (run step s es).rowState id = some .deleting ∨ (run step s es).rowState id = some .deleted := by
  induction es generalizing s with
  | nil => exact .inl h
  | cons e es ih =>
    rcases deleting_step e h with h | h
    · exact ih h
    · exact .inr (deleted_run es h)

theorem deletionOrder_subperm (snaps : List Snapshot) (rp : String) : (deletionOrder snaps rp).Subperm snaps := by
  have hp := filter_append_perm (fun x : Snapshot => x.manifest) (snaps.filter (fun x => decide (x.rpId = rp)))
  exact hp.subperm.trans filter_sublist.subperm

theorem run_deleteSnapshot {i n : Nat} {l : List Snapshot}
    (hd : s.deletions[i]? = some ⟨c, some l, n⟩) (hl : l.Subperm s.snapshots) :
    (run step s (List.replicate l.length (.deleteSnapshot i))).deletions[i]? = some ⟨c, some [], n + l.length⟩ ∧
      (run step s (List.replicate l.length (.deleteSnapshot i))).db = s.db := by
  induction l generalizing s n with
  | nil => exact ⟨hd, rfl⟩
  | cons x l ih =>
    have hx := hl.subset mem_cons_self
    have hi := (List.getElem?_eq_some_iff.1 hd).1
    have hstep : s.step (.deleteSnapshot i) = {s with
          deletions := s.deletions.set i ⟨c, some l, n + 1⟩
          snapshots := s.snapshots.erase x} := by
      simp [step, deleteSnapshot, hd, hx]
    have hsub : l.Subperm (s.snapshots.erase x) := by simpa using hl.erase x
    rw [length_cons, replicate_succ, run_cons, hstep]
    have := ih (s := {s with
      deletions := s.deletions.set i ⟨c, some l, n + 1⟩
      snapshots := s.snapshots.erase x}) (n := n + 1) (by simp [hi]) hsub
    rwa [Nat.add_right_comm] at this

theorem completion_deletes (hc : c ∈ s.listed)
    (hp : s.proceeds c) : (run step s (s.completion c)).rowState c.recoveryPointId = some .deleted := by
  obtain ⟨rp, hget, hs⟩ := Db.begin_proceeds.1 hp.2
  have hid := (RecoveryPoints.get?_eq_some.1 hget).2
  -- Begin puts the deletion at the end of those in flight
  have hbegin : (s.step (.begin c)).deletions = s.deletions ++ [⟨c, none, 0⟩] ∧
      (s.step (.begin c)).snapshots = s.snapshots := by
    simp [step, begin, hc, hp.2]
  have hrow : (s.step (.begin c)).db.recoveryPoints.get? c.recoveryPointId = some (Db.setState .deleting rp) := by
    rw [step_get?, hget, Option.map_some, rowStep, if_pos ⟨hid.symm, hc, hs⟩]
  rw [completion, run_cons, run_cons, run_append, run_cons, run_nil]
  generalize s.step (.begin c) = s₁ at hbegin hrow
  have hlist : s₁.step (.listSnapshots s.deletions.length) = {s₁ with
      deletions := s.deletions ++ [⟨c, some (deletionOrder s.snapshots c.recoveryPointId), 0⟩]} := by
    simp [step, listSnapshots, hbegin]
  obtain ⟨hd, hdb⟩ := run_deleteSnapshot (s := s₁.step (.listSnapshots s.deletions.length))
    (i := s.deletions.length) (n := 0) (c := c)
    (l := deletionOrder s.snapshots c.recoveryPointId) (by rw [hlist]; simp)
    (by rw [hlist, hbegin.2]; exact deletionOrder_subperm _ _)
  have hdb' : (s₁.step (.listSnapshots s.deletions.length)).db = s₁.db := by
    rw [hlist]
  rw [rowState, step_get?, hdb, hdb', hrow]
  simp [rowStep, hd, Db.setState, hid]

theorem foldl_deleted (cs : List RetentionCandidate) (h : s.rowState id = some .deleted) :
    (cs.foldl (fun s c => run step s (s.completion c)) s).rowState id = some .deleted := by
  induction cs generalizing s with
  | nil => exact h
  | cons c cs ih => exact ih (deleted_run _ h)

theorem foldl_completion {cs : List RetentionCandidate} (hcs : ∀ c ∈ cs, c ∈ s.listed) (hc : c ∈ cs)
    (hrow : s.rowState c.recoveryPointId = some .deleting) :
    (cs.foldl (fun s c => run step s (s.completion c)) s).rowState c.recoveryPointId =
      some .deleted := by
  induction cs generalizing s with
  | nil => cases hc
  | cons c' cs ih =>
    rw [foldl_cons]
    by_cases hcc : c = c'
    · subst hcc
      refine foldl_deleted cs (completion_deletes (hcs c mem_cons_self) ?_)
      obtain ⟨rp, hget, hs⟩ := Option.map_eq_some_iff.1 hrow
      exact ⟨hcs c mem_cons_self, Db.begin_proceeds.2 ⟨rp, hget, by simp [Db.deletable, hs]⟩⟩
    rcases deleting_run (s.completion c') hrow with h | h
    · exact ih (fun d hd => run_listed _ (hcs d (mem_cons_of_mem _ hd)))
        ((mem_cons.1 hc).resolve_left hcc) h
    · exact foldl_deleted cs h

def FewDue (s : Index) : Prop := (s.db.recoveryPoints.rows.filter s.db.isDue).length ≤ 1000

instance (s : Index) : Decidable s.FewDue := inferInstanceAs (Decidable (_ ≤ _))

theorem mem_listDueDeletions (hf : s.FewDue) :
    rp ∈ s.db.listDueDeletions 1000 ↔ rp ∈ s.db.recoveryPoints.rows ∧ s.db.isDue rp = true := by
  rw [Db.listDueDeletions, take_of_length_le (by rw [length_insertionSort]; exact hf),
    mem_insertionSort, mem_filter]

theorem listed_of_due (hf : s.FewDue) (hrp : rp ∈ s.db.recoveryPoints.rows) (hdue : s.db.isDue rp = true)
    (hb : s.db.busy rp.id = false) :
    ∃ c ∈ s.db.listRetentionCandidates, c.recoveryPointId = rp.id := by
  refine ⟨⟨rp.id, rp.repositoryId, rp.applicationId, .manual⟩, ?_, rfl⟩
  refine mem_append_left _ (mem_filterMap.2 ⟨rp, ?_, by simp [hb]⟩)
  exact (mem_listDueDeletions hf).2 ⟨hrp, hdue⟩

/-- Every row left in state deleting that no restore uses is a candidate of the
next retention run, and is deleted by it when its deletions succeed. -/
def Retried (s : Index) : Prop :=
  ∀ rp ∈ s.db.recoveryPoints.rows, rp.state = .deleting → s.db.busy rp.id = false →
    (∃ c ∈ s.db.listRetentionCandidates, c.recoveryPointId = rp.id) ∧
    s.retentionRun.rowState rp.id = some .deleted

instance (s : Index) : Decidable s.Retried := inferInstanceAs (Decidable (∀ _ ∈ _, _))

def BeginsDue (s : Index) (e : Event) : Prop :=
  ∀ c ∈ s.begins e, ((s.db.recoveryPoints.get? c.recoveryPointId).map s.db.isDue) = some true

instance (s : Index) (e : Event) : Decidable (s.BeginsDue e) := by
  unfold BeginsDue
  infer_instance

def DeletingDue (s : Index) : Prop :=
  ∀ rp ∈ s.db.recoveryPoints.rows, rp.state = .deleting → s.db.isDue rp = true

theorem isDue_iff {db : Db} :
    db.isDue rp = true ↔ (∃ t, rp.deleteAfter = some t ∧ t ≤ db.now) ∧ Db.deletable rp.state = true := by
  cases h : rp.deleteAfter <;> simp [Db.isDue, h]

theorem rowStep_deleting {e : Event} (hrp : rp ∈ s.db.recoveryPoints.rows) (h : (s.rowStep e rp).state = .deleting) :
    (s.rowStep e rp).deleteAfter = rp.deleteAfter ∧
      (rp.state = .deleting ∨ ∃ c ∈ s.begins e, c.recoveryPointId = rp.id) := by
  cases e with
  | begin c =>
    simp only [rowStep] at h ⊢
    split
    · rename_i hc
      refine ⟨rfl, .inr ⟨c, begins_begin ⟨hc.2.1, ?_⟩, hc.1⟩⟩
      exact Db.begin_proceeds.2 ⟨rp, hc.1 ▸ RecoveryPoints.get?_of_mem hrp, hc.2.2⟩
    rename_i hc
    rw [if_neg hc] at h
    exact ⟨rfl, .inl h⟩
  | finish i =>
    simp only [rowStep] at h ⊢
    split at h
    · split at h
      · cases h
      · exact ⟨by split <;> rfl, .inl h⟩
    · exact ⟨rfl, .inl h⟩
  | schedule x =>
    -- only a committed or missing row can be scheduled
    simp only [rowStep] at h ⊢
    split at h
    · rename_i hx
      simp [Db.schedulable, show rp.state = .deleting from h] at hx
    rename_i hx
    rw [if_neg hx]
    exact ⟨rfl, .inl h⟩
  | cancel x =>
    simp only [rowStep] at h ⊢
    split at h
    · rename_i hx
      simp [Db.cancellable, show rp.state = .deleting from h] at hx
    rename_i hx
    rw [if_neg hx]
    exact ⟨rfl, .inl h⟩
  | _ => exact ⟨rfl, .inl h⟩

/-- A deletion that broke off is due again. -/
theorem deletingDue_step {e : Event} (h : DeletingDue s) (he : s.BeginsDue e) : DeletingDue (s.step e) := by
  intro rp' hrp' hs
  rw [step_rows] at hrp'
  obtain ⟨rp, hrp, rfl⟩ := mem_map.1 hrp'
  obtain ⟨hafter, hfrom⟩ := rowStep_deleting hrp hs
  have hdue : s.db.isDue rp = true := by
    rcases hfrom with hdel | ⟨c, hc, hid⟩
    · exact h rp hrp hdel
    · simpa [hid, RecoveryPoints.get?_of_mem hrp] using he c hc
  obtain ⟨⟨t, ht, hle⟩, -⟩ := isDue_iff.1 hdue
  exact isDue_iff.2 ⟨⟨t, hafter.trans ht, hle.trans (step_settings s e).2.2.2⟩, by simp [Db.deletable, hs]⟩

/-- **Interrupted deletions are retried.** From an index without interrupted
deletions, in every run whose Begins are of due rows, whatever failures, lost
workers and other events it has: if no more rows are due than one listing
returns, every interrupted deletion is retried. -/
theorem retried_of_due (db : Db) (snaps : List Snapshot) (es : List Event)
    (h0 : ∀ rp ∈ db.recoveryPoints.rows, rp.state ≠ .deleting)
    (hes : Along step BeginsDue (init db snaps) es)
    (hfew : (run step (init db snaps) es).FewDue) : (run step (init db snaps) es).Retried := by
  have hinv :=
    hes.invariant (fun rp hrp hs => absurd hs (h0 rp hrp)) fun _ _ h he => deletingDue_step h he
  intro rp hrp hs hb
  obtain ⟨c, hc, hid⟩ := listed_of_due hfew hrp (hinv rp hrp hs) hb
  refine ⟨⟨c, hc, hid⟩, ?_⟩
  rw [← hid, retentionRun]
  refine foldl_completion (fun d hd => mem_append_right _ hd) hc ?_
  show (run step (init db snaps) es).rowState c.recoveryPointId = some .deleting
  rw [hid, rowState, RecoveryPoints.get?_of_mem hrp, Option.map_some, hs]

/-- A manual deletion whose repository step failed is retried. -/
theorem retried_of_due_failed :
    let s := run step dueIndex [.list, .begin dueCandidate, .listSnapshots 0, .fail 0]
    s.rowState "rp" = some .deleting ∧ s.Retried :=
  ⟨by decide, retried_of_due _ _ _ (by decide) (by decide) (by decide)⟩

def retentionIndex : Index :=
  init (Db.small ⟨[.small "old" 0 none, .small "new" 1 none], by decide⟩) [⟨"snap", "old", true⟩]

def oldCandidate : RetentionCandidate := ⟨"old", "repo", "app", .retention⟩

/-- A deletion begun for retention whose repository step fails, or whose worker
is lost, is never retried. -/
theorem retried_fails : ¬ (run step retentionIndex [.list, .begin oldCandidate, .fail 0]).Retried ∧
    ¬ (run step retentionIndex [.list, .begin oldCandidate, .listSnapshots 0, .deleteSnapshot 0,
      .crash 0]).Retried := by
  decide

end Dbr2.Protection.Index
