import Dbr2.Agent.Restore

/-! FinalizeRestore: commits or rolls back a restore from its journal.

A failed step leaves the journal active, so that a repeat continues where it
stopped. COMMIT deletes the previous content of each swap; ROLLBACK puts it back,
removes what the restore created and starts the application again. -/
namespace Dbr2.Agent
open Lib

inductive FinalizeAction
  | commit
  | rollback
  | unspecified
  deriving DecidableEq

def FinalizeAction.want : FinalizeAction → Option RestoreState
  | .commit => some .committed
  | .rollback => some .rolledBack
  | .unspecified => none

structure FinalizeResult where
  alreadyFinalized : Bool
  (pathsCommitted pathsRolledBack : Nat)
  removedContainers : List String
  deriving DecidableEq

def SwapRecord.interrupted (r : SwapRecord) : Bool :=
  decide (r.state = .staging ∨ r.state = .swapping)

/-- Removes what was there before the restore. -/
def commitSwap (i : Nat) : Prog Bool := do
  let w ← Act.get
  match w.mem.swaps[i]? with
  | none => pure false
  | some r =>
    if r.state ≠ .swapped then pure false
    else do
      Act.mapError (Err.wrap ("remove " ++ pathText r.previous ++ ": ")) (removeAll r.previous)
      let _ ← Act.attempt (removeAll r.staging)
      let _ ← Act.attempt (removeAll r.discard)
      .modify (fun w => w.setSwap i (fun r => {r with state := .committed}))
      pure true

/-- `commitRestore`: goes on after an error; a repeat does the rest. -/
def commitRestore : Prog FinalizeResult := do
  let w ← Act.get
  match w.mem.swaps.find? SwapRecord.interrupted with
  | some r => .throw (permanent ("restore " ++ w.mem.restoreId ++ " has an interrupted swap of " ++
      pathText r.target ++ "; roll it back instead"))
  | none => do
    let (done, es) ← Act.collect commitSwap (List.range w.mem.swaps.length)
    .modify (fun w => {w with
      mem := {w.mem with state := if es = [] then .committed else w.mem.state}})
    let es ← saveAfter es
    if es ≠ [] then .throw (joinErrs es) -- a repeat continues
    else pure ⟨false, done.count true, 0, []⟩

/-- Docker counts paused and restarting containers as running. -/
def DockerState.isRunning : DockerState → Bool
  | .running | .paused | .restarting => true
  | _ => false

def inspectDetails (id : String) : Prog (Option DockerState) := do
  mayFail (err ("inspect " ++ id ++ ": runtime error"))
  let w ← Act.get
  pure (w.containers.state id)

def runtimeCall (what id : String) (f : Containers → String → Except Err Containers) : Prog Unit :=
  hostStep fun d w =>
    match f w.containers id with
    | .error e => d.ends (.err (e.wrap (what ++ " " ++ id ++ ": "))) w
    | .ok cs => d.effect (what ++ " " ++ id ++ ": runtime error") (fun w => {w with containers := cs}) w

def stopOne (id : String) : Prog Unit := do
  match ← inspectDetails id with
  | none => pure ()
  | some st => do
    Act.when (st = .paused) (runtimeCall "unpause" id Containers.unpause)
    Act.when st.isRunning (runtimeCall "stop" id Containers.stop)

def startOne (id : String) : Prog Unit := do
  match ← inspectDetails id with
  | none => .throw (notFound ("inspect " ++ id ++ ": no such container"))
  | some st => Act.when (!st.isRunning) (runtimeCall "start" id Containers.start)

/-- Removes something the restore created; what is gone already is no error. -/
def removeCreated (what name : String) (there : World → Bool) (gone : World → World) : Prog Unit :=
  hostStep fun d w =>
    if there w then d.effect ("remove " ++ what ++ " " ++ name ++ ": runtime error") gone w
    else d.ends (.ok ()) w

def CreatedContainer.ref (c : CreatedContainer) : String := if c.id ≠ "" then c.id else c.name

def removeContainer (c : CreatedContainer) : Prog Unit :=
  removeCreated "container" c.name (fun w => (w.containers c.ref).isSome)
    (fun w => {w with containers := fun x => if x = c.ref then none else w.containers x})

def removeNetwork (name : String) : Prog Unit :=
  removeCreated "network" name (fun w => decide (name ∈ w.networks))
    (fun w => {w with networks := w.networks.filter (· ≠ name)})

namespace World

def dropVolume (w : World) (name : String) : World :=
  {w with
    volumes := fun n => if n = name then none else w.volumes n
    fs := match w.volumes name with
      | some v => if v.mountpoint.abs then w.fs.removeAll v.mountpoint.clean else w.fs
      | none => w.fs}

end World

def removeVolume (name : String) : Prog Unit :=
  removeCreated "volume" name (fun w => (w.volumes name).isSome) (fun w => w.dropVolume name)

/-- Removes one after the other; what is gone, what is left, and the errors. -/
def removeEach {α : Type} (f : α → Prog Unit) : List α → Prog (List α × List α × List Err)
  | [] => pure ([], [], [])
  | x :: xs => do
    let r ← Act.attempt (f x)
    let (gone, keep, es) ← removeEach f xs
    match r with
    | .ok _ => pure (x :: gone, keep, es)
    | .error e => pure (gone, x :: keep, e :: es)

/-- Removes what the restore created; what is left stays in the journal. -/
def removeAllCreated (j : Journal) : Prog (List String × List Err) := do
  let (gone, keep, es) ← removeEach removeContainer j.createdContainers
  .modify (fun w => {w with mem := {w.mem with createdContainers := keep}})
  let (_, keepNets, es') ← removeEach removeNetwork j.createdNetworks.reverse
  .modify (fun w => {w with mem := {w.mem with createdNetworks := keepNets}})
  let (_, keepVols, es'') ← removeEach removeVolume j.createdVolumes
  .modify (fun w => {w with mem := {w.mem with createdVolumes := keepVols}})
  pure (gone.map (·.name), es ++ es' ++ es'')

/-- The end of `rollbackRestore`: brings the previous application back. -/
def restartPrevious (restart : List String) (changed : List Bool) (removed : List String) :
    Prog FinalizeResult := do
  let (_, es) ← Act.collect startOne restart
  if es ≠ [] then .throw (joinErrs es)
  else do
    .modify (fun w => {w with mem := {w.mem with state := .rolledBack}})
    saveJournal
    pure ⟨false, 0, changed.count true, removed⟩

/-- `rollbackRestore` once the application is stopped. -/
def rollBackStopped (restart : List String) : Prog FinalizeResult := do
  let w ← Act.get
  let (changed, es) ← undoAll (fun target => "roll back " ++ target ++ ": ")
    (List.range w.mem.swaps.length).reverse -- newest first
  let es ← saveAfter es
  let (removed, es') ← removeAllCreated w.mem
  let es ← saveAfter (es ++ es')
  if es ≠ [] then .throw (joinErrs es) else restartPrevious restart changed removed

/-- `rollbackRestore`: stops the application, swaps the previous content back, removes
what the restore created and starts what was running before. -/
def rollbackRestore (restart : List String) : Prog FinalizeResult := do
  let w ← Act.get
  Act.when (restart ≠ [] ∨ w.mem.createdContainers ≠ [] ∨ w.mem.createdNetworks ≠ [] ∨
    w.mem.createdVolumes ≠ []) restoreControl
  let (_, es) ← Act.collect stopOne (w.mem.createdContainers.map (·.ref) ++ restart)
  if es ≠ [] then .throw (joinErrs es) -- never swap under a running application
  else rollBackStopped restart

def finalizeLoaded (id : String) (action : FinalizeAction) (restart : List String) :
    Prog FinalizeResult := do
  let w ← Act.get
  match action.want with
  | none => .throw (permanent "unsupported finalize action FINALIZE_ACTION_UNSPECIFIED")
  | some want =>
    if w.mem.state = want then pure ⟨true, 0, 0, []⟩
    else if w.mem.state ≠ .active then
      .throw (permanent ("restore " ++ id ++ " is already " ++ w.mem.state.text))
    else if want = .committed then commitRestore
    else rollbackRestore restart

/-- `finalizeRestore`. -/
def finalizeRestore (id : String) (action : FinalizeAction) (restart : List String) :
    Prog FinalizeResult := do
  if !validId id then .throw (permanent ("invalid restore_id \"" ++ id ++ "\""))
  else do
    let j ← loadJournal
    .modify (fun w => {w with mem := j.getD (newJournal id)})
    finalizeLoaded id action restart

end Dbr2.Agent
