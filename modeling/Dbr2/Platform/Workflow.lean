import Mathlib.Data.List.Sort
import Dbr2.Lib.Table

/-! The record of a platform backup (`PlatformProtectionWorkflow` in
`workflows/platform/platform.go`, `BeginPlatformBackup` and `RecordPlatformBackup` in
`internal/protection/platform_backup_rpc.go`).

The workflow begins a row, runs the backup and records its outcome. Each call is attempted several
times; an attempt may fail before its effect, or its answer may be lost, and a cancellation ends the
attempts at any point. -/
namespace Dbr2.Platform
open Lib List

inductive FinalState
  | succeeded
  | partialOutcome
  | failed
  deriving DecidableEq

structure Outcome where
  backupID : Nat
  state : FinalState
  (fileName sha256 : String)
  sizeBytes : Nat
  (snapshotID repositoryID bundlePath error : String)
  deriving DecidableEq

/-- A row of `platform_backups`; it runs as long as it has no state. -/
structure PlatformBackup where
  id : Nat
  (workflowID runID trigger : String)
  /-- In nanoseconds. -/
  startedAt : Int
  state : Option FinalState
  missing : List String
  outcome : Option Outcome
  error : String
  deriving DecidableEq

structure Alert where
  critical : Bool
  message : String
  deriving DecidableEq

structure Server where
  rows : Serial PlatformBackup.id
  alerts : List Alert

inductive Fault
  | invalidArgument
  | conflict (running : Nat)
  | notFound (id : Nat)
  deriving DecidableEq

structure Caller where
  (workflowID runID trigger : String)
  deriving DecidableEq

def platformStaleAfter : Int := 6 * 3600 * 1000000000

/-- Rows that have been running for too long are failed. -/
def abandonRunning (before : Int) (t : Serial PlatformBackup.id) : Serial PlatformBackup.id :=
  t.update (fun r => r.state.isNone && decide (r.startedAt < before)) (fun r => {r with
      state := some .failed
      error := "abandoned: the run did not finish (worker or server restarted)"}) fun _ => rfl

def getRunning (t : Serial PlatformBackup.id) : Option PlatformBackup :=
  ((t.table.rows.filter (·.state.isNone)).insertionSort fun a b => b.startedAt ≤ a.startedAt).head?

def createPlatformBackup (now : Int) (c : Caller) (t : Serial PlatformBackup.id) : Serial PlatformBackup.id :=
  t.insert (fun id => ⟨id, c.workflowID, c.runID, if c.trigger = "" then "scheduled" else c.trigger, now, none, [],
    none, ""⟩) fun _ => rfl

/-- BeginPlatformBackup: one transaction, rolled back when another backup is running. -/
def beginPlatformBackup (c : Caller) (now : Int) (s : Server) : Server × Except Fault Nat :=
  if c.workflowID = "" ∨ c.runID = "" then (s, .error .invalidArgument)
  else
    let rows := abandonRunning (now - platformStaleAfter) s.rows
    match getRunning rows with
    | some r =>
      if r.workflowID = c.workflowID ∧ r.runID = c.runID then ({s with rows := rows}, .ok r.id)
      else (s, .error (.conflict r.id))
    | none => ({s with rows := createPlatformBackup now c rows}, .ok rows.next)

def joinNonEmpty (sep : String) (parts : List String) : String := sep.intercalate (parts.filter (· ≠ ""))

/-- A backup without all Repositories is partial at best. -/
def finalState (missing : List String) (state : FinalState) : FinalState :=
  if state = .succeeded ∧ missing ≠ [] then .partialOutcome else state

/-- A bundle without some Repository state says so. -/
def errorText (missing : List String) (state : FinalState) (error : String) : String :=
  if missing ≠ [] ∧ state ≠ .failed then
    joinNonEmpty "; " [error, "reposerver state missing for Repositories " ++ ", ".intercalate missing]
  else error

/-- Only a full success raises no alert. -/
def alertsOf (state : FinalState) (error : String) : List Alert :=
  match state with
  | .succeeded => []
  | .partialOutcome => [⟨false, "Platform backup is partial: " ++ error⟩]
  | .failed => [⟨true, "Platform backup failed: " ++ error⟩]

/-- Sets the state of a running row only. -/
def finishPlatformBackup (id : Nat) (state : FinalState) (out : Outcome) (error : String)
    (t : Serial PlatformBackup.id) : Serial PlatformBackup.id :=
  t.update (fun r => r.id == id && r.state.isNone)
    (fun r => {r with state := some state, outcome := some out, error := error}) fun _ => rfl

/-- RecordPlatformBackup. A row that is closed is left as it is. -/
def recordPlatformBackup (out : Outcome) (s : Server) : Server × Except Fault FinalState :=
  match s.rows.find out.backupID with
  | none => (s, .error (.notFound out.backupID))
  | some row =>
    match row.state with
    | some state => (s, .ok state)
    | none =>
      let state := finalState row.missing out.state
      let error := errorText row.missing state out.error
      ({s with
        rows := finishPlatformBackup row.id state out error s.rows
        alerts := s.alerts ++ alertsOf state error}, .ok state)

def setManifest (id : Nat) (missing : List String) (s : Server) : Server :=
  {s with rows := s.rows.update (·.id == id) (fun r => {r with missing := missing}) fun _ => rfl}

structure Attempt where
  answer : Answer
  now : Int
  deriving DecidableEq

/-- ExecuteActivity: attempts until one is answered, as many as allowed; the list ends where a
cancellation does. A fault that the server reports is not retried. -/
def execute {σ ε α : Type} (server : Int → σ → σ × Except ε α) : Nat → List Attempt → σ → σ × Option α
  | 0, _, s => (s, none)
  | _, [], s => (s, none)
  | n + 1, a :: rest, s =>
    match a.answer with
    | .refused => execute server n rest s
    | .lost => execute server n rest (server a.now s).1
    | .ok => ((server a.now s).1, (server a.now s).2.toOption)

structure Draws where
  beginning : List Attempt
  /-- How RunPlatformBackup ends, and the manifests that its export has stored. -/
  run : Except String Outcome
  manifests : List (List String)
  /-- The context is cancelled when the outcome is to be recorded. -/
  cancelled : Bool
  recording : List Attempt

/-- What a run of the workflow leaves: the server, and the row it executed
RecordPlatformBackupOutcome for, with the state that came back. -/
structure Report where
  server : Server
  recorded : Option Nat
  result : Option FinalState

/-- The outcome that is recorded; RunPlatformBackup fills in the row it was given. -/
def outcomeOf (id : Nat) : Except String Outcome → Outcome
  | .ok out => {out with backupID := id}
  | .error e => ⟨id, .failed, "", "", 0, "", "", "", e⟩

def beginAttempts : Nat := 10

/-- A disconnected context has options of its own. -/
def recordAttempts (cancelled : Bool) : Nat := if cancelled then 5 else 10

def afterRun (d : Draws) (id : Nat) (s : Server) : Server := d.manifests.foldl (fun s m => setManifest id m s) s

def platformProtectionWorkflow (c : Caller) (d : Draws) (s : Server) : Report :=
  match execute (beginPlatformBackup c) beginAttempts d.beginning s with
  | (s, none) => ⟨s, none, none⟩
  | (s, some id) =>
    let r := execute (fun _ => recordPlatformBackup (outcomeOf id d.run)) (recordAttempts d.cancelled) d.recording
      (afterRun d id s)
    ⟨r.1, some id, r.2⟩

def Created (s : Server) (r : PlatformBackup) : Prop := s.rows.find r.id = none

/-- Every row that the run has created is recorded, and not running any more. -/
def Closes (c : Caller) (d : Draws) (s : Server) : Prop :=
  ∀ r ∈ (platformProtectionWorkflow c d s).server.rows.table.rows, Created s r →
    (platformProtectionWorkflow c d s).recorded = some r.id ∧ r.state ≠ none

def answered (c : Caller) (d : Draws) (s : Server) : Option Nat :=
  (execute (beginPlatformBackup c) beginAttempts d.beginning s).2

def recordTakesEffect (d : Draws) : Bool :=
  (d.recording.take (recordAttempts d.cancelled)).any (·.answer.applied)

section Execute
variable {σ ε α : Type} {server : Int → σ → σ × Except ε α} {n : Nat} {as : List Attempt} {s : σ}

theorem execute_answered {v : α} (h : (execute server n as s).2 = some v) :
    ∃ now s₀, server now s₀ = ((execute server n as s).1, .ok v) := by
  fun_induction execute server n as s with
  | case1 => cases h
  | case2 => cases h
  | case3 n a rest s _ ih => exact ih h
  | case4 n a rest s _ ih => exact ih h
  | case5 n a rest s _ =>
    refine ⟨a.now, s, Prod.ext rfl ?_⟩
    cases hr : (server a.now s).2 with
    | ok w =>
      rw [hr] at h
      exact congrArg Except.ok (Option.some.inj h)
    | error e =>
      rw [hr] at h
      cases h

theorem execute_refused (h : (as.take n).any (·.answer.applied) = false) : (execute server n as s).1 = s := by
  fun_induction execute server n as s with
  | case1 => rfl
  | case2 => rfl
  | case3 n a rest s ha ih => exact ih (by simpa [ha, Answer.applied] using h)
  | case4 n a rest s ha ih => simp [ha, Answer.applied] at h
  | case5 n a rest s ha => simp [ha, Answer.applied] at h

theorem execute_applied (h : (as.take n).any (·.answer.applied) = true) :
    ∃ now s₀, (execute server n as s).1 = (server now s₀).1 := by
  fun_induction execute server n as s with
  | case1 => cases h
  | case2 => simp at h
  | case3 n a rest s ha ih => exact ih (by simpa [ha, Answer.applied] using h)
  | case4 n a rest s ha ih =>
    cases hrest : (rest.take n).any (·.answer.applied) with
    | true => exact ih hrest
    | false => exact ⟨a.now, s, execute_refused hrest⟩
  | case5 n a rest s ha => exact ⟨a.now, s, rfl⟩

end Execute

variable {s : Server} {id : Nat}

def Running (id : Nat) (s : Server) : Prop := ∃ r, s.rows.find id = some r ∧ r.state = none

def Closed (id : Nat) (s : Server) : Prop := ∀ r, s.rows.find id = some r → r.state ≠ none

/-- What is found is a row that runs. -/
theorem getRunning_spec {t : Serial PlatformBackup.id} {r : PlatformBackup} (h : getRunning t = some r) :
    t.find r.id = some r ∧ r.state = none := by
  have hmem := (mem_insertionSort _).1 (mem_of_head? h)
  obtain ⟨hrow, hstate⟩ := mem_filter.1 hmem
  exact ⟨Serial.find_eq_some_iff.2 ⟨hrow, rfl⟩, Option.isNone_iff_eq_none.1 hstate⟩

variable {c : Caller} {d : Draws}

theorem begin_running {now : Int} {s' : Server} (h : beginPlatformBackup c now s = (s', .ok id)) :
    Running id s' := by
  unfold beginPlatformBackup at h
  split at h
  · cases h
  cases hr : getRunning (abandonRunning (now - platformStaleAfter) s.rows) with
  | some r =>
    simp only [hr] at h
    split at h
    · cases h
      obtain ⟨hfind, hstate⟩ := getRunning_spec hr
      exact ⟨r, hfind, hstate⟩
    · cases h
  | none =>
    simp only [hr] at h
    cases h
    have hnew := Serial.find_insert (t := abandonRunning (now - platformStaleAfter) s.rows)
      (k := (abandonRunning (now - platformStaleAfter) s.rows).next)
      (fun id => (⟨id, c.workflowID, c.runID, if c.trigger = "" then "scheduled" else c.trigger, now, none, [],
        none, ""⟩ : PlatformBackup)) fun _ => rfl
    rw [if_pos rfl] at hnew
    exact ⟨_, hnew, rfl⟩

theorem running_setManifest (missing : List String) (i : Nat) (h : Running id s) : Running id (setManifest i missing s) := by
  obtain ⟨r, hr, hstate⟩ := h
  unfold Running setManifest
  rw [show (s.rows.update _ _ _).find id = _ from Serial.find_update _ _ _, hr]
  refine ⟨_, rfl, ?_⟩
  show (if r.id == i then {r with missing := missing} else r).state = none
  split <;> exact hstate

theorem running_afterRun (d : Draws) (i : Nat) (h : Running id s) : Running id (afterRun d i s) := by
  unfold afterRun
  induction d.manifests generalizing s with
  | nil => exact h
  | cons m ms ih => exact ih (running_setManifest m i h)

theorem record_closes (out : Outcome) (s : Server) : Closed out.backupID (recordPlatformBackup out s).1 := by
  unfold recordPlatformBackup
  cases hr : s.rows.find out.backupID with
  | none =>
    intro r hfind
    cases hr.symm.trans hfind
  | some row =>
    cases hstate : row.state with
    | some state =>
      intro r hfind hnone
      simp only [hstate] at hfind
      cases hr.symm.trans hfind
      rw [hstate] at hnone
      cases hnone
    | none =>
      intro r hfind
      have hid := (Serial.find_eq_some_iff.1 hr).2
      simp only [hstate, finishPlatformBackup] at hfind
      rw [Serial.find_update, hr, Option.map_some] at hfind
      rw [if_pos (by simp [hstate])] at hfind
      cases hfind
      simp

theorem workflow_unanswered (h : answered c d s = none) : (platformProtectionWorkflow c d s).recorded = none := by
  unfold platformProtectionWorkflow
  cases hx : execute (beginPlatformBackup c) beginAttempts d.beginning s with
  | mk s' o =>
    unfold answered at h
    rw [hx] at h
    cases h
    rfl

theorem workflow_answered (h : answered c d s = some id) : platformProtectionWorkflow c d s =
      let r := execute (fun _ => recordPlatformBackup (outcomeOf id d.run)) (recordAttempts d.cancelled) d.recording
        (afterRun d id (execute (beginPlatformBackup c) beginAttempts d.beginning s).1)
      ⟨r.1, some id, r.2⟩ := by
  unfold platformProtectionWorkflow
  cases hx : execute (beginPlatformBackup c) beginAttempts d.beginning s with
  | mk s' o =>
    unfold answered at h
    rw [hx] at h
    cases h
    rfl

theorem outcomeOf_backupID (id : Nat) (r : Except String Outcome) : (outcomeOf id r).backupID = id := by
  cases r <;> rfl

theorem closed_of_recorded (h : answered c d s = some id) (hrec : recordTakesEffect d = true) :
    Closed id (platformProtectionWorkflow c d s).server := by
  rw [workflow_answered h]
  show Closed id (execute _ _ _ _).1
  obtain ⟨now, s₀, heq⟩ := execute_applied hrec
  rw [heq]
  have hc := record_closes (outcomeOf id d.run) s₀
  rwa [outcomeOf_backupID] at hc

theorem running_of_unrecorded (h : answered c d s = some id)
    (hrec : recordTakesEffect d = false) : Running id (platformProtectionWorkflow c d s).server := by
  rw [workflow_answered h]
  show Running id (execute _ _ _ _).1
  rw [execute_refused hrec]
  obtain ⟨now, s₀, hbegin⟩ := execute_answered h
  exact running_afterRun d id (begin_running hbegin)

/-- The run closes what it has created if and only if, for each row it has created, the answer that
names it reached the workflow and an attempt to record took effect. -/
theorem backup_closed (c : Caller) (d : Draws) (s : Server) : Closes c d s ↔
      ∀ r ∈ (platformProtectionWorkflow c d s).server.rows.table.rows, Created s r →
        answered c d s = some r.id ∧ recordTakesEffect d = true := by
  constructor
  · intro h r hr hnew
    obtain ⟨hrecorded, hclosed⟩ := h r hr hnew
    have hanswered : answered c d s = some r.id := by
      cases ha : answered c d s with
      | none =>
        rw [workflow_unanswered ha] at hrecorded
        cases hrecorded
      | some id =>
        rw [workflow_answered ha] at hrecorded
        exact hrecorded
    refine ⟨hanswered, ?_⟩
    cases hrec : recordTakesEffect d with
    | true => rfl
    | false =>
      obtain ⟨r', hfind, hrunning⟩ := running_of_unrecorded hanswered hrec
      cases (Serial.find_eq_some_iff.2 ⟨hr, rfl⟩).symm.trans hfind
      exact absurd hrunning hclosed
  · intro h r hr hnew
    obtain ⟨hanswered, hrec⟩ := h r hr hnew
    refine ⟨by rw [workflow_answered hanswered], ?_⟩
    exact closed_of_recorded hanswered hrec r (Serial.find_eq_some_iff.2 ⟨hr, rfl⟩)

def freshServer : Server := ⟨⟨⟨[], nodup_nil⟩, 0, by simp⟩, []⟩

/-- BeginPlatformBackup commits, and its answer is lost with the cancellation. -/
def cancelledAtBegin : Draws := ⟨[⟨.lost, 0⟩], .error "", [], true, [⟨.ok, 0⟩]⟩

/-- Nobody closes the row that BeginPlatformBackup has created. -/
theorem left_running : ¬ Closes ⟨"w", "r", ""⟩ cancelledAtBegin freshServer := by
  intro h
  have hrow : (⟨0, "w", "r", "scheduled", 0, none, [], none, ""⟩ : PlatformBackup) ∈
      (platformProtectionWorkflow ⟨"w", "r", ""⟩ cancelledAtBegin freshServer).server.rows.table.rows := by decide
  exact (h _ hrow rfl).2 rfl

end Dbr2.Platform
