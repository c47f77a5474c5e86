import Dbr2.Lib.Run
import Dbr2.Protection.Retention

/-! The recovery-point index and the workers that delete from it.

`Db` is the part of the database the retention queries read; its methods are the
queries and the RPCs of the control plane, each one atomic step. `Index` adds what
lives outside the database: the candidates a retention run was given, the
deletions in flight and the repository's snapshots. `Index.step` is one event of
the interleaving; an event that is refused, or that finds nothing to do, leaves
the index as it is. -/
namespace Dbr2.Protection
open Lib List

/-- The table of recovery points, by id. -/
structure RecoveryPoints where
  rows : List RecoveryPoint
  ids : (rows.map (·.id)).Nodup

namespace RecoveryPoints

def get? (t : RecoveryPoints) (id : String) : Option RecoveryPoint :=
  t.rows.find? (fun rp => decide (rp.id = id))

def modify (t : RecoveryPoints) (id : String) (f : RecoveryPoint → RecoveryPoint) : RecoveryPoints where
  rows := t.rows.map (fun rp => if rp.id = id then {f rp with id := rp.id} else rp)
  ids := by
    have h : (fun rp : RecoveryPoint => rp.id) ∘
        (fun rp => if rp.id = id then {f rp with id := rp.id} else rp) = (·.id) := by
      funext rp
      simp only [Function.comp_apply]
      split <;> rfl
    rw [map_map, h]
    exact t.ids

theorem get?_eq_some {t : RecoveryPoints} {id : String} {rp : RecoveryPoint} :
    t.get? id = some rp ↔ rp ∈ t.rows ∧ rp.id = id := by
  obtain ⟨rows, hd⟩ := t
  induction rows with
  | nil => simp [get?]
  | cons r rows ih =>
    rw [map_cons, nodup_cons] at hd
    have ih := ih hd.2
    simp only [get?, find?_cons, mem_cons] at ih ⊢
    by_cases hr : r.id = id
    · have hn : ∀ rp ∈ rows, rp.id ≠ id := fun rp hrp h =>
        hd.1 (mem_map.2 ⟨rp, hrp, h.trans hr.symm⟩)
      simp only [hr, decide_true, Option.some.injEq]
      constructor
      · rintro rfl
        exact ⟨.inl rfl, hr⟩
      · rintro ⟨rfl | hrp, h⟩
        · rfl
        · exact absurd h (hn rp hrp)
    rw [decide_eq_false hr, ih]
    constructor
    · rintro ⟨hrp, h⟩
      exact ⟨.inr hrp, h⟩
    · rintro ⟨rfl | hrp, h⟩
      · exact absurd h hr
      · exact ⟨hrp, h⟩

theorem get?_of_mem {t : RecoveryPoints} {rp : RecoveryPoint} (h : rp ∈ t.rows) :
    t.get? rp.id = some rp := get?_eq_some.2 ⟨h, rfl⟩

end RecoveryPoints

inductive RestoreRunState
  | requested
  | running
  | succeeded
  | failed
  | rolledBack
  deriving DecidableEq

structure RestoreRun where
  (id recoveryPointId : String)
  state : RestoreRunState
  deriving DecidableEq

/-- Requested or running. -/
def RestoreRun.active (r : RestoreRun) : Bool := r.state == .requested || r.state == .running

structure Policy where
  (id timezone : String)
  retention : Retention
  deriving DecidableEq

structure Application where
  id : String
  policyId : Option String
  deriving DecidableEq

/-- The database of one organisation, and its clock. `zones` is the time zone
database; an unknown zone is treated as UTC. -/
structure Db where
  recoveryPoints : RecoveryPoints
  restoreRuns : List RestoreRun
  policies : List Policy
  applications : List Application
  zones : String → Option Location
  now : Time

inductive Reason
  | manual
  | retention
  deriving DecidableEq

structure RetentionCandidate where
  (recoveryPointId repositoryId applicationId : String)
  reason : Reason
  deriving DecidableEq

/-- Microseconds between the request and the deletion. -/
def deletionGrace : Time := 7 * 24 * 3600 * 1000000

namespace Db

def activeRestores (db : Db) : List RestoreRun := db.restoreRuns.filter (·.active)

/-- A restore that has not ended reads the recovery point. -/
def busy (db : Db) (id : String) : Bool := db.activeRestores.any (fun r => r.recoveryPointId == id)

/-- The states from which a deletion may begin, or begin again. -/
def deletable (s : RecoveryPointState) : Bool := s == .committed || s == .missing || s == .deleting

def isDue (db : Db) (rp : RecoveryPoint) : Bool :=
  rp.deleteAfter.any (fun t => decide (t ≤ db.now)) && deletable rp.state

/-- Ordered by `delete_after`, rows without one last. -/
def dueBefore (a b : RecoveryPoint) : Bool :=
  match a.deleteAfter, b.deleteAfter with
  | some s, some t => decide (s ≤ t)
  | none, some _ => false
  | _, none => true

/-- `ListDueDeletions`. -/
def listDueDeletions (db : Db) (limit : Nat) : List RecoveryPoint :=
  ((db.recoveryPoints.rows.filter db.isDue).insertionSort (fun a b => dueBefore a b)).take limit

def newestFirst (a b : RecoveryPoint) : Prop := b.createdAt ≤ a.createdAt

instance (a b : RecoveryPoint) : Decidable (newestFirst a b) := inferInstanceAs (Decidable (_ ≤ _))

def committedFor (app : String) (rp : RecoveryPoint) : Bool :=
  rp.applicationId == app && rp.state == .committed

/-- `ListCommittedForRetention`, newest first. -/
def listCommittedForRetention (db : Db) (app : String) : List RecoveryPoint :=
  (db.recoveryPoints.rows.filter (committedFor app)).insertionSort newestFirst

def getPolicy (db : Db) (id : String) : Option Policy := db.policies.find? (fun p => p.id == id)

def listPolicyAssignments (db : Db) : List (String × Policy) :=
  db.applications.filterMap (fun a => (a.policyId.bind db.getPolicy).map (fun p => (a.id, p)))

def location (db : Db) (p : Policy) : Location := (db.zones p.timezone).getD Location.utc

/-- The due manual deletions: at most 1000, none of a recovery point in use. -/
def dueCandidates (db : Db) : List RetentionCandidate :=
  (db.listDueDeletions 1000).filterMap fun rp =>
    if db.busy rp.id then none else some ⟨rp.id, rp.repositoryId, rp.applicationId, .manual⟩

/-- The recovery points of one application outside its policy's retention. -/
def retentionCandidates (db : Db) (app : String) (pol : Policy) : List RetentionCandidate :=
  let rps := db.listCommittedForRetention app
  let keep := retentionKeep rps pol.retention (db.location pol)
  rps.filterMap fun rp =>
    if rp.id ∈ keep ∨ db.busy rp.id ∨ rp.id ∈ db.dueCandidates.map (·.recoveryPointId) ∨
      rp.deleteAfter.isSome then none
    else (db.recoveryPoints.get? rp.id).map fun full =>
      ⟨rp.id, full.repositoryId, rp.applicationId, .retention⟩

/-- `ListRetentionCandidates`: manual deletions first, then every policy. -/
def listRetentionCandidates (db : Db) : List RetentionCandidate :=
  db.dueCandidates ++ db.listPolicyAssignments.flatMap (fun a => db.retentionCandidates a.1 a.2)

def setState (s : RecoveryPointState) (rp : RecoveryPoint) : RecoveryPoint := {rp with state := s}

def markRecoveryPointDeleting (db : Db) (id : String) : Db :=
  {db with
    recoveryPoints := db.recoveryPoints.modify id
      (fun rp => if deletable rp.state then setState .deleting rp else rp)}

def markRecoveryPointDeleted (db : Db) (id : String) : Db :=
  {db with recoveryPoints := db.recoveryPoints.modify id (setState .deleted)}

/-- The database after the call, and `Proceed`. -/
def beginRecoveryPointDeletion (db : Db) (id : String) : Db × Bool :=
  match db.recoveryPoints.get? id with
  | none => (db, false)
  | some rp => if deletable rp.state then (db.markRecoveryPointDeleting id, true) else (db, false)

/-- A finish that carries an error records it and alerts; only a successful one
changes the row. -/
def finishRecoveryPointDeletion (db : Db) (id : String) (failed : Bool) : Db :=
  match db.recoveryPoints.get? id with
  | none => db
  | some _ => if failed then db else db.markRecoveryPointDeleted id

def schedulable (rp : RecoveryPoint) : Bool :=
  (rp.state == .committed || rp.state == .missing) && rp.deleteAfter.isNone

def cancellable (rp : RecoveryPoint) : Bool :=
  (rp.state == .committed || rp.state == .missing) && rp.deleteAfter.isSome

/-- `none` when the row is not there, not stored or already scheduled. The typed
confirmation and the reason are the operator's part of the request. -/
def scheduleRecoveryPointDeletion (db : Db) (id : String) : Option Db :=
  match db.recoveryPoints.get? id with
  | none => none
  | some rp =>
    if schedulable rp then
      some {db with
        recoveryPoints := db.recoveryPoints.modify id
          (fun rp => {rp with deleteAfter := some (db.now + deletionGrace)})}
    else none

def cancelRecoveryPointDeletion (db : Db) (id : String) : Option Db :=
  match db.recoveryPoints.get? id with
  | none => none
  | some rp =>
    if cancellable rp then
      some {db with
        recoveryPoints := db.recoveryPoints.modify id (fun rp => {rp with deleteAfter := none})}
    else none

/-- Committed, with a manifest. -/
def restorable (db : Db) (id : String) : Bool :=
  match db.recoveryPoints.get? id with
  | none => false
  | some rp => rp.state == .committed && rp.hasManifest

def startRestore (db : Db) (run rp : String) : Db :=
  if db.restorable rp then {db with restoreRuns := ⟨run, rp, .requested⟩ :: db.restoreRuns} else db

def updateRun (db : Db) (run : String) (s : RestoreRunState) : Db :=
  {db with
    restoreRuns := db.restoreRuns.map (fun r => if r.id = run ∧ r.active then {r with state := s} else r)}

def prepareRestore (db : Db) (run : String) : Db :=
  match db.restoreRuns.find? (fun r => decide (r.id = run)) with
  | none => db
  | some r => if r.active && db.restorable r.recoveryPointId then db.updateRun run .running else db

def finishRestoreRun (db : Db) (run : String) (s : RestoreRunState) : Db := db.updateRun run s

end Db

structure Snapshot where
  (id rpId : String)
  manifest : Bool
  deriving DecidableEq

/-- A deletion between Begin and Finish: the snapshots still to delete, once
listed, and the number deleted. -/
structure Deletion where
  candidate : RetentionCandidate
  todo : Option (List Snapshot)
  deleted : Nat
  deriving DecidableEq

def Deletion.rpId (d : Deletion) : String := d.candidate.recoveryPointId

/-- `cancelled` records the recovery points whose deletion was cancelled and not
scheduled again; no step reads it. -/
structure Index where
  db : Db
  listed : List RetentionCandidate
  deletions : List Deletion
  snapshots : List Snapshot
  cancelled : List String

/-- One step of a worker, of an operator or of the clock. -/
inductive Event
  | tick (d : Nat)
  | list
  | begin (c : RetentionCandidate)
  | listSnapshots (i : Nat)
  | deleteSnapshot (i : Nat)
  | finish (i : Nat)
  | fail (i : Nat)
  | crash (i : Nat)
  | startRestore (run rp : String)
  | prepareRestore (run : String)
  | finishRestore (run : String) (s : RestoreRunState)
  | schedule (rp : String)
  | cancel (rp : String)
  deriving DecidableEq

/-- The manifests first, then everything else of the recovery point. -/
def deletionOrder (snaps : List Snapshot) (rp : String) : List Snapshot :=
  let own := snaps.filter (fun x => decide (x.rpId = rp))
  own.filter (·.manifest) ++ own.filter (fun x => !x.manifest)

namespace Index

def init (db : Db) (snaps : List Snapshot) : Index := ⟨db, [], [], snaps, []⟩

def begin (s : Index) (c : RetentionCandidate) : Index :=
  if c ∈ s.listed then
    let r := s.db.beginRecoveryPointDeletion c.recoveryPointId
    {s with db := r.1, deletions := if r.2 then s.deletions ++ [⟨c, none, 0⟩] else s.deletions}
  else s

def listSnapshots (s : Index) (i : Nat) : Index :=
  match s.deletions[i]? with
  | some ⟨c, none, n⟩ =>
    {s with deletions := s.deletions.set i ⟨c, some (deletionOrder s.snapshots c.recoveryPointId), n⟩}
  | _ => s

def deleteSnapshot (s : Index) (i : Nat) : Index :=
  match s.deletions[i]? with
  | some ⟨c, some (x :: xs), n⟩ =>
    if x ∈ s.snapshots then
      {s with
        deletions := s.deletions.set i ⟨c, some xs, n + 1⟩
        snapshots := s.snapshots.erase x}
    else s
  | _ => s

def finish (s : Index) (i : Nat) : Index :=
  match s.deletions[i]? with
  | some ⟨c, some [], _⟩ =>
    {s with
      db := s.db.finishRecoveryPointDeletion c.recoveryPointId false
      deletions := s.deletions.eraseIdx i}
  | _ => s

def fail (s : Index) (i : Nat) : Index :=
  match s.deletions[i]? with
  | some d =>
    {s with
      db := s.db.finishRecoveryPointDeletion d.rpId true
      deletions := s.deletions.eraseIdx i}
  | none => s

def schedule (s : Index) (id : String) : Index :=
  match s.db.scheduleRecoveryPointDeletion id with
  | some db => {s with db := db, cancelled := s.cancelled.filter (fun x => decide (x ≠ id))}
  | none => s

def cancel (s : Index) (id : String) : Index :=
  match s.db.cancelRecoveryPointDeletion id with
  | some db => {s with db := db, cancelled := id :: s.cancelled}
  | none => s

def step (s : Index) : Event → Index
  | .tick d => {s with db := {s.db with now := s.db.now + d}}
  | .list => {s with listed := s.listed ++ s.db.listRetentionCandidates}
  | .begin c => s.begin c
  | .listSnapshots i => s.listSnapshots i
  | .deleteSnapshot i => s.deleteSnapshot i
  | .finish i => s.finish i
  | .fail i => s.fail i
  | .crash i => {s with deletions := s.deletions.eraseIdx i}
  | .startRestore run rp => {s with db := s.db.startRestore run rp}
  | .prepareRestore run => {s with db := s.db.prepareRestore run}
  | .finishRestore run st => {s with db := s.db.finishRestoreRun run st}
  | .schedule rp => s.schedule rp
  | .cancel rp => s.cancel rp

end Index

def Policy.small : Policy := ⟨"policy", "UTC", ⟨1, 0, 0, 0, 0, 0⟩⟩

def Db.small (rows : RecoveryPoints) : Db where
  recoveryPoints := rows
  restoreRuns := []
  policies := [.small]
  applications := [⟨"app", some "policy"⟩]
  zones := fun _ => none
  now := 10

def RecoveryPoint.small (id : String) (createdAt : Time) (deleteAfter : Option Time) : RecoveryPoint :=
  ⟨id, "app", "repo", .committed, createdAt, deleteAfter, true⟩

def Index.dueIndex : Index :=
  init (Db.small ⟨[.small "rp" 0 (some 5)], by decide⟩) [⟨"snap", "rp", true⟩]

def Index.dueCandidate : RetentionCandidate := ⟨"rp", "repo", "app", .manual⟩

end Dbr2.Protection
