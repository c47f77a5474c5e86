import Dbr2.Lib.Act

/-! The restore workflow (`workflows/restore/restore.go`, `workflows/saga/saga.go`).

The workflow calls activities one after the other, and how each of them ends is drawn. A cancelled
workflow is one whose calls fail from some point on; compensations run in a disconnected context. -/
namespace Dbr2.Restore
open Lib

inductive RunState
  | succeeded | rolledBack | failed
  deriving DecidableEq

inductive FinalizeAction
  | commit | rollback
  deriving DecidableEq

/-- The activities that the workflow calls, with what it passes them. -/
inductive Activity
  | prepareRestore
  | updateRestore (step : String)
  | grantRestoreAccess
  | revokeRestoreAccess (grant : String)
  | ensureAgentAccess
  | ensureImages (images : List String)
  | quiesce (lease : String) (containerIds : List String) (leaseSeconds : Nat)
  | resume (lease : String)
  | restoreComponents (components : List String)
  | recreateContainers (configSnapshotId : String)
  | startContainers (ids : List String)
  | restoreDatabase (name : String)
  | checkHealth (ids : List String) (seconds : Nat)
  | finalizeRestore (action : FinalizeAction) (restart : List String)
  | finish (state : RunState) (error : String)
  deriving DecidableEq

structure ContainerState where
  (id state : String)
  deriving DecidableEq

structure RecreatedContainer where
  (containerId name status : String)
  wasRunning : Bool
  deriving DecidableEq

structure ContainerHealth where
  (name state health : String)
  ok : Bool
  deriving DecidableEq

structure Health where
  ok : Bool
  containers : List ContainerHealth
  deriving DecidableEq

/-- How an activity ends; which fields count depends on the activity. -/
structure Reply where
  fails : Option String
  grant : String
  preState : List ContainerState
  (images components : List String)
  containers : List RecreatedContainer
  health : Health
  deriving DecidableEq

instance instInhabitedReply : Inhabited Reply := ⟨none, "", [], [], [], [], ⟨true, []⟩⟩

inductive Context
  | workflow | disconnected
  deriving DecidableEq

structure Call where
  activity : Activity
  context : Context
  reply : Reply
  deriving DecidableEq

def Call.ok (c : Call) : Bool := c.reply.fails.isNone

structure Plan where
  crossHost : Bool
  (images stopContainerIds : List String)
  leaseSeconds : Nat
  components : List String
  recreateContainers : Bool
  configSnapshotId : String
  (runningAtCapture databases : List String)
  healthTimeoutSeconds : Nat
  deriving DecidableEq

structure Result where
  (images components : List String)
  containers : List RecreatedContainer
  databases : List String
  health : Option Health
  rolledBack : Bool
  rollback : String
  deriving DecidableEq

/-- What is pushed on the saga. -/
inductive Compensation
  | revokeAccess (grant : String)
  | resume
  | rollback
  deriving DecidableEq

/-- The state of a run; `calls` and `saga` are newest first. -/
structure Run where
  calls : List Call
  saga : List Compensation
  (resumed committed dataTouched : Bool)
  restart : List String
  result : Result
  deriving DecidableEq

def Run.new : Run := ⟨[], [], true, false, false, [], ⟨[], [], [], [], none, false, ""⟩⟩

abbrev Flow := Act Reply Run String

/-- Every call is recorded, also one that fails. -/
def activity (a : Activity) (ctx : Context) : Flow Reply :=
  Act.prim fun d s =>
    let s := {s with calls := ⟨a, ctx, d⟩ :: s.calls}
    match d.fails with
    | some e => (.err e, s)
    | none => (.ok d, s)

/-- The progress of a running restore; a failure to record it is passed over. -/
def step (name : String) : Flow Unit := do
  let _ ← Act.attempt (activity (.updateRestore name) .workflow)

def sagaAdd (c : Compensation) : Flow Unit := Act.modify fun s => {s with saga := c :: s.saga}

section Workflow
variable (restoreId : String) (plan : Plan)

def grantPhase : Flow Unit :=
  Act.when (plan.crossHost = true) do
    step "grant-access"
    let r ← activity .grantRestoreAccess .workflow
    sagaAdd (.revokeAccess r.grant)

def accessPhase : Flow Unit := do
  step "agent-access"
  let _ ← activity .ensureAgentAccess .workflow

def imagePhase : Flow Unit :=
  Act.when (plan.images ≠ []) do
    step "images"
    let r ← Act.mapError ("images: " ++ ·) (activity (.ensureImages plan.images) .workflow)
    Act.modify fun s => {s with result.images := r.images}

def ContainerState.live (c : ContainerState) : Bool :=
  c.state == "running" || c.state == "paused" || c.state == "restarting"

/-- The application is stopped under a lease. -/
def stopPhase : Flow Unit :=
  Act.when (plan.stopContainerIds ≠ []) do
    step "stop-application"
    -- registered before the attempt: a timed-out Quiesce may still have acted
    Act.modify fun s => {s with resumed := false}
    sagaAdd .resume
    let r ← Act.mapError ("stop application: " ++ ·)
      (activity (.quiesce restoreId plan.stopContainerIds plan.leaseSeconds) .workflow)
    Act.modify fun s => {s with restart := (r.preState.filter ContainerState.live).map (·.id)}

/-- From here on the data may have changed. -/
def touchPhase : Flow Unit := do
  Act.modify fun s => {s with dataTouched := true}
  sagaAdd .rollback

def dataPhase : Flow Unit :=
  Act.when (plan.components ≠ []) do
    step "restore-data"
    let r ← Act.mapError ("restore data: " ++ ·) (activity (.restoreComponents plan.components) .workflow)
    Act.modify fun s => {s with result.components := r.components}

/-- The new containers that were running at capture; where the topology does not say, the
config component does. -/
def toStart (cs : List RecreatedContainer) : List String :=
  (cs.filter fun c => c.status == "created" &&
    (plan.runningAtCapture.contains c.name || (plan.runningAtCapture.isEmpty && c.wasRunning))).map
    (·.containerId)

def recreatePhase : Flow (List String) :=
  if plan.recreateContainers = true ∧ plan.configSnapshotId ≠ "" then do
    step "recreate-containers"
    let r ← Act.mapError ("recreate containers: " ++ ·)
      (activity (.recreateContainers plan.configSnapshotId) .workflow)
    Act.modify fun s => {s with result.containers := r.containers}
    pure (toStart plan r.containers)
  else pure []

def resumePhase : Flow Unit := do
  step "start-application"
  let s ← Act.get
  Act.when (s.resumed = false) do
    Act.modify fun s => {s with resumed := true}
    let _ ← Act.mapError ("start application: " ++ ·) (activity (.resume restoreId) .workflow)

def startPhase (start : List String) : Flow Unit :=
  Act.when (start ≠ []) do
    let _ ← Act.mapError ("start containers: " ++ ·) (activity (.startContainers start) .workflow)

def restoreDatabase (db : String) : Flow Unit := do
  step "restore-database"
  let _ ← Act.mapError (("restore database " ++ db ++ ": ") ++ ·) (activity (.restoreDatabase db) .workflow)
  Act.modify fun s => {s with result.databases := s.result.databases ++ [db]}

def healthTimeout : Nat := if plan.healthTimeoutSeconds = 0 then 300 else plan.healthTimeoutSeconds

def unhealthy (h : Health) : String :=
  ", ".intercalate ((h.containers.filter (!·.ok)).map fun c =>
    c.name ++ " (" ++ c.state ++ "/" ++ c.health ++ ")")

def healthPhase (start : List String) : Flow Unit := do
  let s ← Act.get
  Act.when (s.restart ++ start ≠ []) do
    step "health-check"
    let r ← Act.mapError ("health check: " ++ ·)
      (activity (.checkHealth (s.restart ++ start) (healthTimeout plan)) .workflow)
    Act.modify fun s => {s with result.health := some r.health}
    Act.when (r.health.ok = false)
      (Act.throw ("the restored application did not become healthy: " ++ unhealthy r.health))

def commitPhase : Flow Unit := do
  step "commit"
  let _ ← Act.mapError ("commit: " ++ ·) (activity (.finalizeRestore .commit []) .workflow)
  Act.modify fun s => {s with committed := true}

/-- The phases in order; the first error ends them. -/
def main : Flow Unit := do
  grantPhase plan
  accessPhase
  imagePhase plan
  stopPhase restoreId plan
  touchPhase
  dataPhase plan
  let start ← recreatePhase plan
  resumePhase restoreId
  startPhase start
  Act.each restoreDatabase plan.databases
  healthPhase plan start
  commitPhase

/-- One entry of the saga, in a disconnected context. -/
def compensate : Compensation → Flow Unit
  | .revokeAccess grant => do
    let _ ← activity (.revokeRestoreAccess grant) .disconnected
  | .resume => do
    let s ← Act.get
    Act.when (s.resumed = false) do
      Act.modify fun s => {s with resumed := true}
      let _ ← activity (.resume restoreId) .disconnected
  | .rollback => do
    let s ← Act.get
    Act.when (s.committed = false) do
      let _ ← activity (.finalizeRestore .rollback s.restart) .disconnected

/-- Saga.Run: the stack is worked off, newest first, whatever fails. -/
def sagaRun : Flow (List Unit × List String) := do
  let s ← Act.get
  Act.modify fun s => {s with saga := []}
  Act.collect (compensate restoreId) s.saga

def joined (errs : List String) : String := "\n".intercalate errs

def finish (state : RunState) (error : String) : Flow Unit := do
  let _ ← Act.attempt (activity (.finish state error) .disconnected)

/-- The state that the run ends in. -/
def record (error : String) : Flow Unit := do
  let s ← Act.get
  if s.committed = true then finish .succeeded ""
  else if s.dataTouched = true ∧ s.result.rollback = "" then do
    Act.modify fun s => {s with result.rolledBack := true}
    finish .rolledBack error
  else finish .failed error

def errorOf : Except String Unit → List String
  | .ok _ => []
  | .error e => [e]

def afterPrepare : Flow Unit := do
  let r ← Act.attempt (main restoreId plan)
  let (_, errs) ← sagaRun restoreId
  Act.when (errs ≠ []) (Act.modify fun s => {s with result.rollback := joined errs})
  record (joined (errorOf r ++ errs))
  Act.when (errorOf r ++ errs ≠ []) (Act.throw (joined (errorOf r ++ errs)))

/-- `RestoreWorkflow`. -/
def restoreWorkflow : Flow Unit := do
  match ← Act.attempt (activity .prepareRestore .workflow) with
  | .error e => do
    finish .failed e
    Act.throw e
  | .ok _ => afterPrepare restoreId plan

def finalRun (o : List Reply) : Run := (restoreWorkflow restoreId plan o .new).2.2

end Workflow
end Dbr2.Restore
