import Dbr2.Lib.Newest
import Dbr2.Protection.Index

/-! The job list (`ListJobs` in `internal/protection/jobs.go` and its two queries).

Each query cuts its source at the limit; the state is only compared afterwards. -/
namespace Dbr2.Protection.Jobs
open Lib List

structure RecoveryPoint where
  (id orgID applicationID applicationName hostname : String)
  state : RecoveryPointState
  status : Option String
  (consistencyMode trigger : String)
  sizeBytes : Int
  error : Option String
  createdAt : Int
  committedAt : Option Int
  updatedAt : Int

structure RestoreRun where
  (id orgID sourceApplicationID : String)
  targetApplicationID : Option String
  (applicationName targetHostname : String)
  state : RestoreRunState
  mode : String
  step : Option String
  requestedByDisplay : String
  error : Option String
  createdAt : Int
  finishedAt : Option Int

structure Db where
  recoveryPoints : List RecoveryPoint
  restoreRuns : List RestoreRun

inductive JobType
  | backup
  | restore
  deriving DecidableEq

inductive JobState
  | running
  | succeeded
  | partly
  | failed
  | rolledBack
  | missing
  deriving DecidableEq

def JobState.text : JobState → String
  | running => "running"
  | succeeded => "succeeded"
  | partly => "partial"
  | failed => "failed"
  | rolledBack => "rolled_back"
  | missing => "missing"

/-- A job; its state is empty where `backupStates` has none. -/
structure Job where
  id : String
  type : JobType
  (applicationID applicationName hostname : String)
  state : Option JobState
  (detail trigger requestedBy error : String)
  (sizeBytes startedAt : Int)
  finishedAt : Option Int
  deriving DecidableEq

structure JobFilter where
  applicationID : Option String
  type : Option JobType
  state : String
  limit : Int

def backupStates : RecoveryPointState → Option JobState
  | .pending => some .running
  | .committed => some .succeeded
  | .failed => some .failed
  | .missing => some .missing
  | .deleting => some .running
  | .deleted => none

def RecoveryPoint.job (r : RecoveryPoint) : Job where
  id := r.id
  type := .backup
  applicationID := r.applicationID
  applicationName := r.applicationName
  hostname := r.hostname
  state := if r.state = .committed ∧ r.status = some "partial" then some .partly else backupStates r.state
  detail := r.consistencyMode
  trigger := r.trigger
  requestedBy := ""
  error := r.error.getD ""
  sizeBytes := r.sizeBytes
  startedAt := r.createdAt
  finishedAt := if r.state = .failed then some r.updatedAt else r.committedAt

def restoreStates : RestoreRunState → JobState
  | .requested | .running => .running
  | .succeeded => .succeeded
  | .failed => .failed
  | .rolledBack => .rolledBack

def RestoreRun.job (r : RestoreRun) : Job where
  id := r.id
  type := .restore
  applicationID := r.sourceApplicationID
  applicationName := r.applicationName
  hostname := r.targetHostname
  state := some (restoreStates r.state)
  detail := if r.state = .running ∨ r.state = .requested then r.step.getD r.mode else r.mode
  trigger := "manual"
  requestedBy := r.requestedByDisplay
  error := r.error.getD ""
  sizeBytes := 0
  startedAt := r.createdAt
  finishedAt := r.finishedAt

def JobFilter.rows (f : JobFilter) : Nat := if f.limit ≤ 0 ∨ 500 < f.limit then 100 else f.limit.toNat

def JobFilter.admits (f : JobFilter) (j : Job) : Bool := f.state == "" || (j.state.elim "" JobState.text) == f.state

def points (org : String) (db : Db) (f : JobFilter) : List RecoveryPoint :=
  db.recoveryPoints.filter fun r => r.orgID == org && f.applicationID.all (r.applicationID == ·)

def runs (org : String) (db : Db) (f : JobFilter) : List RestoreRun :=
  db.restoreRuns.filter fun r =>
    r.orgID == org && f.applicationID.all fun id => r.sourceApplicationID == id || r.targetApplicationID == some id

def listRecoveryPoints (org : String) (db : Db) (f : JobFilter) : List RecoveryPoint :=
  (latestFirst RecoveryPoint.createdAt (points org db f)).take f.rows

def listRestoreRuns (org : String) (db : Db) (f : JobFilter) : List RestoreRun :=
  (latestFirst RestoreRun.createdAt (runs org db f)).take f.rows

def JobFilter.jobs (f : JobFilter) (rps : List RecoveryPoint) (rs : List RestoreRun) : List Job :=
  ((if f.type = some .restore then [] else rps.map RecoveryPoint.job) ++
    (if f.type = some .backup then [] else rs.map RestoreRun.job)).filter f.admits

def listJobs (org : String) (db : Db) (f : JobFilter) : List Job :=
  (latestFirst Job.startedAt (f.jobs (listRecoveryPoints org db f) (listRestoreRuns org db f))).take f.rows

def matching (org : String) (db : Db) (f : JobFilter) : List Job := f.jobs (points org db f) (runs org db f)

/-- The matching jobs that the limit of their own query leaves out. -/
def cutOff (org : String) (db : Db) (f : JobFilter) : List Job :=
  f.jobs ((latestFirst RecoveryPoint.createdAt (points org db f)).drop f.rows)
    ((latestFirst RestoreRun.createdAt (runs org db f)).drop f.rows)

variable {f : JobFilter}

theorem JobFilter.jobs_append (f : JobFilter) (rps rps' : List RecoveryPoint) (rs rs' : List RestoreRun) :
    (f.jobs (rps ++ rps') (rs ++ rs')).Perm (f.jobs rps rs ++ f.jobs rps' rs') := by
  unfold JobFilter.jobs
  rw [← filter_append]
  apply List.Perm.filter
  split <;> split <;> simp only [map_append, nil_append, append_nil, append_assoc]
  · exact .refl _
  · exact .refl _
  · exact .refl _
  · rw [← append_assoc (rps'.map _), ← append_assoc (rs.map _)]
    exact (perm_append_comm.append_right _).append_left _

theorem JobFilter.jobs_perm {rps rps' : List RecoveryPoint} {rs rs' : List RestoreRun} (hp : rps.Perm rps')
    (hr : rs.Perm rs') : (f.jobs rps rs).Perm (f.jobs rps' rs') := by
  unfold JobFilter.jobs
  apply List.Perm.filter
  apply List.Perm.append
  · split
    · exact .refl _
    · exact hp.map _
  · split
    · exact .refl _
    · exact hr.map _

theorem matching_perm (org : String) (db : Db) (f : JobFilter) :
    (matching org db f).Perm (f.jobs (listRecoveryPoints org db f) (listRestoreRuns org db f) ++ cutOff org db f) := by
  refine List.Perm.trans ?_ (f.jobs_append _ _ _ _)
  unfold listRecoveryPoints listRestoreRuns
  rw [take_append_drop, take_append_drop]
  exact JobFilter.jobs_perm (latestFirst_perm _ _).symm (latestFirst_perm _ _).symm

/-- The list is the newest matching jobs if and only if, for each matching job behind a cut, the limit
is reached by listed ones that are at least as new. -/
theorem listJobs_newest_iff (org : String) (db : Db) (f : JobFilter) :
    Newest Job.startedAt f.rows (matching org db f) (listJobs org db f) ↔
      ∀ j ∈ cutOff org db f, f.rows ≤ (f.jobs (listRecoveryPoints org db f) (listRestoreRuns org db f)).countP
        (j.startedAt ≤ ·.startedAt) := by
  rw [Newest.congr (matching_perm org db f)]
  exact newest_iff

def backupAt (id : String) (state : RecoveryPointState) (t : Int) : RecoveryPoint :=
  ⟨id, "org", "web", "web", "host-1", state, none, "hot", "schedule", 0, none, t, none, t⟩

/-- The one backup that failed is behind a newer one that did not. -/
theorem failed_backup_cut_off :
    ¬ Newest Job.startedAt 1
      (matching "org" ⟨[backupAt "rp-2" .committed 20, backupAt "rp-1" .failed 10], []⟩ ⟨none, none, "failed", 1⟩)
      (listJobs "org" ⟨[backupAt "rp-2" .committed 20, backupAt "rp-1" .failed 10], []⟩ ⟨none, none, "failed", 1⟩) := by
  rintro ⟨l, hl, -, hout⟩
  have hone := perm_singleton.1 hl
  rw [hone] at hout
  exact absurd hout (by decide)

/-- Without a filter on the state no job is lost: the list is the newest matching jobs. -/
theorem listJobs_unfiltered (org : String) (db : Db) (applicationID : Option String) (type : Option JobType) (limit : Int) :
    let f : JobFilter := ⟨applicationID, type, "", limit⟩
    Newest Job.startedAt f.rows (matching org db f) (listJobs org db f) := by
  intro f
  refine (Newest.congr (matching_perm org db f)).2 (newest_iff.2 fun j hj => ?_)
  have hall : f.admits = fun _ => true := rfl
  simp only [cutOff, JobFilter.jobs, hall, filter_true, countP_append, mem_append] at hj ⊢
  rcases hj with hj | hj <;> split at hj
  · cases hj
  · rename_i ht
    obtain ⟨r, hr, rfl⟩ := mem_map.1 hj
    rw [if_neg ht, countP_map]
    exact (le_countP_take (latestFirst_pairwise _ _) hr).trans (Nat.le_add_right _ _)
  · cases hj
  · rename_i ht
    obtain ⟨r, hr, rfl⟩ := mem_map.1 hj
    rw [if_neg ht, countP_map]
    exact (le_countP_take (latestFirst_pairwise _ _) hr).trans (Nat.le_add_left _ _)

end Dbr2.Protection.Jobs
