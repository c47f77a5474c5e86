import Dbr2.Lib.Act
import Dbr2.Backup.Plan

/-! The backup workflow (`workflows/backup/backup.go`, `workflows/saga/saga.go`).

The workflow calls activities one after the other; how each of them ends is drawn, and so is whether
one that reports an error has had its effect all the same. A cancelled workflow is one whose calls
fail from some point on; compensations run in a disconnected context, whatever happened before. -/
namespace Dbr2.Backup
open Lib

inductive Phase
  | seed | dump | protect
  deriving DecidableEq

/-- The activities of a backup. -/
inductive Activity
  | prepareBackup
  | sleep
  | ensureAgentAccess
  | snapshot (phase : Phase)
  | preHooks
  | postHooks
  | quiesce
  | resume
  | recordEvent
  | commit
  | completeCommitted
  | completeFailed
  deriving DecidableEq

/-- How an activity ends; one that fails may have had its effect. -/
structure Reply where
  fails : Option String
  performed : Bool
  results : List ComponentResult
  autoResumed : Bool
  quiescedAt : Nat
  deriving DecidableEq

instance : Inhabited Reply := ⟨none, true, [], false, 1⟩

inductive Context
  | workflow | disconnected
  deriving DecidableEq

structure Call where
  activity : Activity
  context : Context
  reply : Reply
  deriving DecidableEq

def Call.ok (c : Call) : Bool := c.reply.fails.isNone

/-- The activity had its effect. -/
def Call.took (c : Call) : Bool := c.ok || c.reply.performed

inductive Compensation
  | postHooks | resume
  deriving DecidableEq

inductive RowState
  | pending | committed | failed
  deriving DecidableEq

/-- The state of a run; `calls` and `saga` are newest first. -/
structure Run where
  calls : List Call
  saga : List Compensation
  (resumed autoResumed postHooksDone : Bool)
  quiescedAt : Option Nat
  row : RowState
  manifest : Option Manifest
  deriving DecidableEq

abbrev Flow := Act Reply Run String

/-- ExecuteActivity: the call is noted, and its effect happens if it is reported, or
happens all the same. -/
def execute (a : Activity) (ctx : Context) (effect : Run → Run) : Flow Reply :=
  Act.prim fun d s =>
    let c : Call := ⟨a, ctx, d⟩
    let s := if c.took then effect {s with calls := c :: s.calls} else {s with calls := c :: s.calls}
    match d.fails with
    | some e => (.err e, s)
    | none => (.ok d, s)

def refuse (a : Activity) (ctx : Context) (e : String) : Flow Unit :=
  Act.prim fun d s =>
    (.err e, {s with calls := ⟨a, ctx, {d with fails := some e, performed := false}⟩ :: s.calls})

def activity (a : Activity) (ctx : Context) : Flow Reply := execute a ctx id

section Workflow
variable (plan : Plan) (workflowId runId : String) (startedAt : Nat) (now : Nat)

/-- The post hooks run once. -/
def runPost (ctx : Context) : Flow Unit := do
  let s ← Act.get
  Act.when (s.postHooksDone = false ∧ plan.postHooks ≠ []) do
    Act.modify fun s => {s with postHooksDone := true}
    let _ ← activity .postHooks ctx

/-- A failed Resume is followed by an alert, whose own outcome nobody looks at. -/
def doResume (ctx : Context) : Flow Unit := do
  let s ← Act.get
  Act.when (s.resumed = false) do
    match ← Act.attempt (activity .resume ctx) with
    | .error e =>
      let _ ← Act.attempt (activity .recordEvent ctx)
      Act.throw e
    | .ok r => Act.modify fun s => {s with resumed := true, autoResumed := r.autoResumed}

def compensate : Compensation → Flow Unit
  | .postHooks => runPost plan .disconnected
  | .resume => doResume .disconnected

/-- Saga.Run: the stack is worked off, newest first, whatever fails. -/
def sagaRun : Flow (List Unit × List String) := do
  let s ← Act.get
  Act.modify fun s => {s with saga := []}
  Act.collect (compensate plan) s.saga

def sagaAlways (c : Compensation) : Flow Unit := Act.modify fun s => {s with saga := c :: s.saga}

/-- The seed pass is live and never committed; its failures only warn. -/
def seedPass : Flow Unit :=
  Act.when (plan.seedComponents ≠ []) do
    let _ ← Act.attempt (activity (.snapshot .seed) .workflow)

/-- A required component that failed ends the backup. -/
def checkRequired (what : String) (rs : List ComponentResult) : Flow Unit :=
  Act.when (failedRequired rs ≠ []) (Act.throw (what ++ "; ".intercalate (failedRequired rs)))

def dumpPhase : Flow (List ComponentResult) :=
  if plan.dbComps = [] then pure []
  else do
    let r ← Act.mapError ("database dumps: " ++ ·) (activity (.snapshot .dump) .workflow)
    checkRequired "required database dumps failed: " r.results
    pure r.results

def preHookPhase : Flow Unit :=
  Act.when (plan.preHooks ≠ []) do
    -- post hooks undo pre hooks, even on failure
    sagaAlways .postHooks
    let _ ← Act.mapError ("pre-backup hooks: " ++ ·) (activity .preHooks .workflow)

/-- Pre hooks and Quiesce, each with its compensation registered first. -/
def quiescePhase : Flow Unit :=
  Act.when (plan.consistencyMode ≠ .live) do
    preHookPhase plan
    -- registered before the attempt: a timed-out Quiesce may still have acted
    sagaAlways .resume
    let r ← Act.mapError ("quiesce: " ++ ·) (activity .quiesce .workflow)
    Act.modify fun s => {s with quiescedAt := some r.quiescedAt}

def resumePhase : Flow Unit :=
  Act.when (plan.consistencyMode ≠ .live) do
    Act.mapError ("resume: " ++ ·) (doResume .workflow)
    let _ ← Act.attempt (runPost plan .workflow)

/-- errors.Join of the capture's error, if it has one, and a later one. -/
def joined (snap : Except String Reply) (e : String) : String :=
  match snap with
  | .error se => se ++ "\n" ++ e
  | .ok _ => e

/-- The application is resumed before the result of the snapshot is looked at. -/
def protectPhase : Flow (List ComponentResult) := do
  let snap ← Act.attempt (activity (.snapshot .protect) .workflow)
  Act.mapError (joined snap) (resumePhase plan)
  match snap with
  | .error e => Act.throw ("protect: " ++ e)
  | .ok r => pure r.results

/-- The one check for the dead-man switch. -/
def checkAutoResumed : Flow Unit := do
  let s ← Act.get
  Act.when (s.autoResumed = true) (Act.throw
    "the agent dead-man switch resumed the application during capture; consistency is not guaranteed")

/-- Commit writes the manifest, if it can be built and there is none yet. -/
def commitPhase (results : List ComponentResult) : Flow Unit := do
  let s ← Act.get
  match buildManifest ⟨plan, results, workflowId, runId, startedAt, s.quiescedAt⟩ now with
  | .error e => Act.mapError ("commit: " ++ ·) (refuse .commit .workflow e)
  | .ok m =>
    let _ ← Act.mapError ("commit: " ++ ·) (execute .commit .workflow fun s =>
      {s with manifest := some (s.manifest.getD m)})

def recordCommitted : Flow Unit := do
  let _ ← Act.attempt (execute .completeCommitted .workflow fun s => {s with row := .committed})

/-- The phases in order; the first error ends them. -/
def main : Flow Unit := do
  Act.when (0 < plan.waitForWindowSeconds) (do let _ ← activity .sleep .workflow)
  let _ ← activity .ensureAgentAccess .workflow
  seedPass plan
  let dbResults ← dumpPhase plan
  quiescePhase plan
  let snap ← protectPhase plan
  checkAutoResumed
  checkRequired "required components failed: " (dbResults ++ snap)
  commitPhase plan workflowId runId startedAt now (dbResults ++ snap)
  recordCommitted

/-- The deferred record of a backup that did not commit: only a pending row fails. -/
def recordFailed : Flow Unit := do
  let _ ← Act.attempt (execute .completeFailed .disconnected fun s =>
    {s with row := if s.row = .pending then .failed else s.row})

def afterPrepare : Flow Unit := do
  let r ← Act.attempt (main plan workflowId runId startedAt now)
  let (_, errs) ← sagaRun plan
  match r with
  | .ok _ => Act.when (errs ≠ []) (Act.throw ("\n".intercalate errs))
  | .error e => do
    recordFailed
    Act.throw ("\n".intercalate (e :: errs))

/-- `BackupWorkflow`. -/
def backupWorkflow : Flow Unit := do
  let _ ← activity .prepareBackup .workflow
  afterPrepare plan workflowId runId startedAt now

def Run.new : Run := ⟨[], [], false, false, false, none, .pending, none⟩

def finalRun (o : List Reply) : Run :=
  (backupWorkflow plan workflowId runId startedAt now o .new).2.2

end Workflow
end Dbr2.Backup
