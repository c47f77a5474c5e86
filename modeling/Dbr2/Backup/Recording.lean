import Dbr2.Backup.Orchestration

/-! What a backup run leaves in the index and in the Repository.

Commit writes the manifest, and an error it reports does not say that it did not. The deferred
CompleteBackup then marks the pending row as failed. -/
namespace Dbr2.Backup
open Lib

def Activity.records : Activity → Bool
  | .snapshot .dump | .snapshot .protect | .commit | .completeCommitted | .completeFailed => true
  | _ => false

/-- A property that other calls, and the workflow's own flags, leave alone. -/
def Quiet (J : Run → Prop) : Prop :=
  ∀ s s', J s → s'.row = s.row → s'.manifest = s.manifest →
    (s'.calls = s.calls ∨ ∃ c : Call, c.activity.records = false ∧ s'.calls = c :: s.calls) → J s'

section Quiet
variable {J : Run → Prop} {ctx : Context} {C : Run → Prop} {E : String → Run → Prop} {plan : Plan}

theorem activity_quiet (hJ : Quiet J) {a : Activity} (ha : a.records = false) :
    Triple J (activity a ctx) (fun _ => J) (fun _ => J) C :=
  activity_triple (fun s d h _ => hJ s _ h rfl rfl (.inr ⟨⟨a, ctx, d⟩, ha, rfl⟩))
    fun s d _ h _ => hJ s _ h rfl rfl (.inr ⟨⟨a, ctx, d⟩, ha, rfl⟩)

theorem attempt_quiet (hJ : Quiet J) {a : Activity} (ha : a.records = false) :
    Triple J (Act.attempt (activity a ctx)) (fun _ => J) E C :=
  (activity_quiet hJ ha).attempt (fun _ _ h => h) fun _ _ h => h

theorem Quiet.flags (hJ : Quiet J) {s s' : Run} (h : J s) (hr : s'.row = s.row)
    (hm : s'.manifest = s.manifest) (hc : s'.calls = s.calls) : J s' :=
  hJ s s' h hr hm (.inl hc)

theorem get_quiet : Triple J (Act.get : Flow Run) (fun _ => J) E C := Triple.get fun _ h => h

theorem seedPass_quiet (hJ : Quiet J) : Triple J (seedPass plan) (fun _ => J) E C :=
  Triple.when (fun _ => (attempt_quiet hJ rfl).bind fun _ => .pure fun _ h => h) fun _ _ h => h

theorem preHookPhase_quiet (hJ : Quiet J) : Triple J (preHookPhase plan) (fun _ => J) (fun _ => J) C := by
  refine .when (fun _ => ?_) fun _ _ h => h
  refine .bind (Q := fun _ => J) (.modify fun _ h => hJ.flags h rfl rfl rfl) fun _ => ?_
  exact ((activity_quiet hJ rfl).mapError fun _ _ h => h).bind fun _ => .pure fun _ h => h

theorem quiescePhase_quiet (hJ : Quiet J) : Triple J (quiescePhase plan) (fun _ => J) (fun _ => J) C := by
  refine .when (fun _ => (preHookPhase_quiet hJ).bind fun _ => ?_) fun _ _ h => h
  refine .bind (Q := fun _ => J) (.modify fun _ h => hJ.flags h rfl rfl rfl) fun _ => ?_
  refine ((activity_quiet hJ rfl).mapError fun _ _ h => h).bind fun _ => ?_
  exact .modify fun _ h => hJ.flags h rfl rfl rfl

theorem runPost_quiet (hJ : Quiet J) : Triple J (runPost plan ctx) (fun _ => J) (fun _ => J) C := by
  refine get_quiet.bind fun s => Triple.when (fun _ => ?_) fun _ _ h => h
  refine .bind (Q := fun _ => J) (.modify fun _ h => hJ.flags h rfl rfl rfl) fun _ => ?_
  exact (activity_quiet hJ rfl).bind fun _ => .pure fun _ h => h

theorem doResume_quiet (hJ : Quiet J) : Triple J (doResume ctx) (fun _ => J) (fun _ => J) C := by
  refine get_quiet.bind fun s => Triple.when (fun _ => ?_) fun _ _ h => h
  refine (attempt_quiet hJ rfl).bind fun r => ?_
  cases r with
  | error e => exact (attempt_quiet hJ rfl).bind fun _ => .throw fun _ h => h
  | ok d => exact .modify fun _ h => hJ.flags h rfl rfl rfl

theorem resumePhase_quiet (hJ : Quiet J) : Triple J (resumePhase plan) (fun _ => J) (fun _ => J) C := by
  refine .when (fun _ => ?_) fun _ _ h => h
  refine ((doResume_quiet hJ).mapError fun _ _ h => h).bind fun _ => ?_
  exact ((runPost_quiet hJ).attempt (R := fun _ => J) (fun _ _ h => h) fun _ _ h => h).bind
    fun _ => .pure fun _ h => h

theorem checkAutoResumed_quiet : Triple J checkAutoResumed (fun _ => J) (fun _ => J) C :=
  get_quiet.bind fun _ => .when (fun _ => .throw fun _ h => h) fun _ _ h => h

theorem compensate_quiet (hJ : Quiet J) (x : Compensation) :
    Triple J (compensate plan x) (fun _ => J) (fun _ => J) C := by
  cases x with
  | postHooks => exact runPost_quiet hJ
  | resume => exact doResume_quiet hJ

theorem sagaRun_quiet (hJ : Quiet J) : Triple J (sagaRun plan) (fun _ => J) E C := by
  refine get_quiet.bind fun s => ?_
  refine .bind (Q := fun _ => J) (.modify fun _ h => hJ.flags h rfl rfl rfl) fun _ => ?_
  exact .collect_keeps (compensate_quiet hJ) s.saga

end Quiet

/-- A Commit that reports an error and has written the manifest all the same. -/
def LostCommit (calls : List Call) : Prop :=
  ∃ c ∈ calls, c.activity = .commit ∧ c.ok = false ∧ c.took = true

def FailureRecorded (calls : List Call) : Prop :=
  ∃ c ∈ calls, c.activity = .completeFailed ∧ c.took = true

structure Undecided (s : Run) : Prop where
  manifest : s.manifest = none
  row : s.row = .pending
  commit : ¬ tried .commit s.calls
  failure : ¬ tried .completeFailed s.calls

structure Kept (s : Run) : Prop where
  row : s.row ≠ .failed
  commit : ¬ LostCommit s.calls

structure Given (s : Run) : Prop where
  row : s.row = .pending
  manifest : s.manifest.isSome = true ↔ LostCommit s.calls
  failure : ¬ tried .completeFailed s.calls

def Recorded (s : Run) : Prop :=
  Kept s ∨ ((s.row = .failed ↔ FailureRecorded s.calls) ∧ (s.manifest.isSome = true ↔ LostCommit s.calls))

variable {c : Call} {calls : List Call} {s : Run}

@[simp] theorem lostCommit_cons : LostCommit (c :: calls) ↔
      (c.activity = .commit ∧ c.ok = false ∧ c.took = true) ∨ LostCommit calls := by
  simp [LostCommit]

@[simp] theorem failureRecorded_cons : FailureRecorded (c :: calls) ↔
      (c.activity = .completeFailed ∧ c.took = true) ∨ FailureRecorded calls := by
  simp [FailureRecorded]

theorem LostCommit.tried (h : LostCommit calls) : tried .commit calls := by
  obtain ⟨c, hc, ha, -⟩ := h
  exact ⟨c, hc, ha⟩

theorem FailureRecorded.tried (h : FailureRecorded calls) :
    tried .completeFailed calls := by
  obtain ⟨c, hc, ha, -⟩ := h
  exact ⟨c, hc, ha⟩

theorem ne_of_records (hc : c.activity.records = false) {a : Activity} (ha : a.records = true) : c.activity ≠ a := by
  rintro rfl
  rw [ha] at hc
  cases hc

theorem undecided_quiet : Quiet Undecided := by
  intro s s' h hr hm hc
  have htried {a : Activity} (ha : a.records = true) (hn : ¬ tried a s.calls) : ¬ tried a s'.calls := by
    rcases hc with hc | ⟨c, hc, hcs⟩
    · rwa [hc]
    · rw [hcs, tried_cons, not_or]
      exact ⟨ne_of_records hc ha, hn⟩
  exact ⟨hm.trans h.manifest, hr.trans h.row, htried rfl h.commit, htried rfl h.failure⟩

theorem lostCommit_quiet {s' : Run}
    (hc : s'.calls = s.calls ∨ ∃ c : Call, c.activity.records = false ∧ s'.calls = c :: s.calls) :
    LostCommit s'.calls ↔ LostCommit s.calls := by
  rcases hc with hc | ⟨c, hc, hcs⟩
  · rw [hc]
  · rw [hcs, lostCommit_cons, or_iff_right fun h => ne_of_records hc rfl h.1]

theorem kept_quiet : Quiet Kept := fun _ _ h hr _ hc =>
  ⟨by rw [hr]; exact h.row, by rw [lostCommit_quiet hc]; exact h.commit⟩

theorem given_quiet : Quiet Given := by
  intro s s' h hr hm hc
  refine ⟨hr.trans h.row, by rw [hm, lostCommit_quiet hc]; exact h.manifest, ?_⟩
  rcases hc with hc | ⟨c, hc, hcs⟩
  · rw [hc]
    exact h.failure
  · rw [hcs, tried_cons, not_or]
    exact ⟨ne_of_records hc rfl, h.failure⟩

theorem Undecided.given (h : Undecided s) : Given s :=
  ⟨h.row, by simp only [h.manifest]; simpa using fun hl => h.commit hl.tried, h.failure⟩

theorem Given.recorded (h : Given s) : Recorded s :=
  .inr ⟨⟨fun hf => absurd (h.row.symm.trans hf) (by simp), fun hf => absurd hf.tried h.failure⟩, h.manifest⟩

section Workflow
variable {plan : Plan} {workflowId runId : String} {startedAt now : Nat} {ctx : Context}
  {C : Run → Prop}

theorem activity_undecided {a : Activity} (hc : a ≠ .commit) (hf : a ≠ .completeFailed) :
    Triple Undecided (activity a ctx) (fun _ => Undecided) (fun _ => Undecided) C := by
  have hcall (s : Run) (d : Reply) (h : Undecided s) : Undecided {s with calls := ⟨a, ctx, d⟩ :: s.calls} :=
    ⟨h.manifest, h.row, by simpa [hc] using h.commit, by simpa [hf] using h.failure⟩
  exact activity_triple (fun s d h _ => hcall s d h) fun s d _ h _ => hcall s d h

theorem dumpPhase_undecided : Triple Undecided (dumpPhase plan) (fun _ => Undecided) (fun _ => Undecided) C := by
  unfold dumpPhase
  by_cases hdb : plan.dbComps = []
  · rw [if_pos hdb]
    exact .pure fun _ h => h
  rw [if_neg hdb]
  refine ((activity_undecided (by simp) (by simp)).mapError fun _ _ h => h).bind fun r => ?_
  exact (checkRequired_triple _ _).bind fun _ => .pure fun _ h => h.1

theorem protectPhase_undecided :
    Triple Undecided (protectPhase plan) (fun _ => Undecided) (fun _ => Undecided) C := by
  refine ((activity_undecided (by simp) (by simp)).attempt (R := fun _ => Undecided)
    (fun _ _ h => h) fun _ _ h => h).bind fun r => ?_
  refine ((resumePhase_quiet undecided_quiet).mapError fun _ _ h => h).bind fun _ => ?_
  cases r with
  | error e => exact .throw fun _ h => h
  | ok d => exact .pure fun _ h => h

theorem commitPhase_decides {results : List ComponentResult} :
    Triple Undecided (commitPhase plan workflowId runId startedAt now results) (fun _ => Kept)
      (fun _ => Given) C := by
  have hlost {s : Run} (h : Undecided s) : ¬ LostCommit s.calls := fun hl => h.commit hl.tried
  have hpending (s : Run) (h : Undecided s) : s.row ≠ .failed := by rw [h.row]; simp
  refine get_quiet.bind fun a => ?_
  cases buildManifest ⟨plan, results, workflowId, runId, startedAt, a.quiescedAt⟩ now with
  | error e =>
    refine .mapError (F := fun _ => Given) (.prim fun d s h => ?_) fun _ _ h => h
    exact ⟨h.row, by simp [h.manifest, Call.took, Call.ok, hlost h], by simpa using h.failure⟩
  | ok m =>
    refine (Triple.mapError (execute_triple (Q := fun _ => Kept) (E := fun _ => Given) ?_ ?_ ?_)
      fun _ _ h => h).bind fun _ => .pure fun _ h => h
    · exact fun s d h hf => ⟨hpending s h, by simp [Call.ok, hf, hlost h]⟩
    · exact fun s d e h hf hp =>
        ⟨h.row, by simp [Call.ok, Call.took, hf, hp], by simpa using h.failure⟩
    · exact fun s d e h hf hp =>
        ⟨h.row, by simp [Call.ok, Call.took, hf, hp, h.manifest, hlost h], by simpa using h.failure⟩

theorem recordCommitted_kept {E : String → Run → Prop} : Triple Kept recordCommitted (fun _ => Kept) E C := by
  refine record_keeps (execute_triple ?_ ?_ ?_)
  · exact fun s d h _ => ⟨by simp, by simpa using h.commit⟩
  · exact fun s d _ h _ _ => ⟨by simp, by simpa using h.commit⟩
  · exact fun s d _ h _ _ => ⟨h.row, by simpa using h.commit⟩

theorem recordFailed_recorded {E : String → Run → Prop} : Triple Given recordFailed (fun _ => Recorded) E C := by
  have hnone {s : Run} (h : Given s) : ¬ FailureRecorded s.calls := fun hf => h.failure hf.tried
  refine .bind (Q := fun _ => Recorded) (.attempt (execute_triple
    (Q := fun _ => Recorded) (E := fun _ => Recorded) ?_ ?_ ?_) (fun _ _ h => h) fun _ _ h => h)
    fun _ => .pure fun _ h => h
  · exact fun s d h hf => .inr ⟨by simp [Call.took, Call.ok, hf, h.row], by simpa using h.manifest⟩
  · exact fun s d _ h _ hp => .inr ⟨by simp [Call.took, hp, h.row], by simpa using h.manifest⟩
  · exact fun s d _ h hf hp => .inr ⟨by simp [Call.took, Call.ok, hf, hp, h.row, hnone h], by simpa using h.manifest⟩

theorem main_decides :
    Triple Undecided (main plan workflowId runId startedAt now) (fun _ => Kept) (fun _ => Given) C := by
  have herr {α : Type} {m : Flow α} (h : Triple Undecided m (fun _ => Undecided) (fun _ => Undecided) C) :
      Triple Undecided m (fun _ => Undecided) (fun _ => Given) C :=
    h.error fun _ _ h => h.given
  refine .bind (Q := fun _ => Undecided) (.when (fun _ =>
    (herr (activity_undecided (by simp) (by simp))).bind fun _ => .pure fun _ h => h)
    fun _ _ h => h) fun _ => ?_
  refine (herr (activity_undecided (by simp) (by simp))).bind fun _ => ?_
  refine (seedPass_quiet undecided_quiet).bind fun _ => ?_
  refine (herr dumpPhase_undecided).bind fun db => ?_
  refine (herr (quiescePhase_quiet undecided_quiet)).bind fun _ => ?_
  refine (herr protectPhase_undecided).bind fun snap => ?_
  refine (herr checkAutoResumed_quiet).bind fun _ => ?_
  refine ((checkRequired_triple _ _).conseq (fun _ h => h) (fun _ _ h => h.1)
    (fun _ _ h => h.given) fun _ h => h).bind fun _ => ?_
  exact commitPhase_decides.bind fun _ => recordCommitted_kept

theorem afterPrepare_recorded :
    Triple Undecided (afterPrepare plan workflowId runId startedAt now) (fun _ => Recorded)
      (fun _ => Recorded) C := by
  refine main_decides.attempted.bind fun r => ?_
  cases r with
  | ok _ =>
    refine (sagaRun_quiet kept_quiet).bind fun p => ?_
    exact .when (fun _ => .throw fun _ h => .inl h) fun _ _ h => .inl h
  | error e =>
    refine (sagaRun_quiet given_quiet).bind fun p => ?_
    exact recordFailed_recorded.bind fun _ => .throw fun _ h => h

end Workflow

theorem finalRun_recorded (plan : Plan) (workflowId runId : String) (startedAt now : Nat)
    (o : List Reply) : Recorded (finalRun plan workflowId runId startedAt now o) := by
  have hrun : Triple Undecided (backupWorkflow plan workflowId runId startedAt now)
      (fun _ => Recorded) (fun _ => Recorded) Recorded :=
    ((activity_undecided (by simp) (by simp)).error fun _ _ h => h.given.recorded).bind fun _ => afterPrepare_recorded
  exact hrun.final ⟨rfl, rfl, not_tried_nil, not_tried_nil⟩ o

/-- **A committed recovery point is not recorded as failed**, except where Commit loses its
answer after the manifest was written and the deferred CompleteBackup goes through. -/
theorem manifest_not_failed_iff (plan : Plan) (workflowId runId : String) (startedAt now : Nat) (o : List Reply) :
    ((finalRun plan workflowId runId startedAt now o).manifest.isSome = true →
      (finalRun plan workflowId runId startedAt now o).row ≠ .failed) ↔
    ¬ (LostCommit (finalRun plan workflowId runId startedAt now o).calls ∧
      FailureRecorded (finalRun plan workflowId runId startedAt now o).calls) := by
  rcases finalRun_recorded plan workflowId runId startedAt now o with h | ⟨hrow, hm⟩
  · exact ⟨fun _ hl => h.commit hl.1, fun _ _ => h.row⟩
  · rw [hm, Ne, hrow, not_and]

/-- Commit writes the manifest and its worker dies before it can report. -/
theorem lost_commit_fails : (finalRun .small "wf" "run" 1 2 [default, default,
      {(default : Reply) with results := smallResults default}, .lost]).manifest.isSome = true ∧
    (finalRun .small "wf" "run" 1 2 [default, default,
      {(default : Reply) with results := smallResults default}, .lost]).row = .failed := by
  decide

end Dbr2.Backup
