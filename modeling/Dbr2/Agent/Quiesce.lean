import Dbr2.Agent.Host

/-! The lease manager: Quiesce, Resume and the dead-man switch.

Quiesce journals a lease, then pauses or stops the containers that were running.
Resume, or the expiry of the lease, brings them back. All of them hold one lock
across their runtime calls, so an automatic resume never runs inside a Quiesce or
a Resume; it may run between the steps of any other command, one container at a
time (`timerStep`). -/
namespace Dbr2.Agent
open Lib

/-- The manager's map of leases, by lease id. -/
def findLease (ls : List Lease) (id : String) : Option Lease :=
  ls.find? (fun l => decide (l.leaseId = id))

def eraseLease (ls : List Lease) (id : String) : List Lease :=
  ls.filter (fun l => decide (l.leaseId ≠ id))

def putLease (ls : List Lease) (l : Lease) : List Lease := l :: eraseLease ls l.leaseId

/-- `defaultLeaseSeconds`, for a command that names none. -/
def defaultLeaseSeconds : Nat := 65 * 60

/-- Seconds until a failed automatic resume is tried again. -/
def autoResumeRetry : Nat := 30

/-- Seconds for which the record of an automatic resume is kept. -/
def autoResumedKeep : Nat := 7 * 24 * 3600

/-- Four fifths of the lease are over. -/
def Lease.warnDue (l : Lease) (now : Nat) : Bool :=
  decide (4 * (l.expiresAt - l.quiescedAt) ≤ 5 * (now - l.quiescedAt))

namespace World

/-- `save`: the file is replaced as a whole, or not at all. -/
def saveLeases (w : World) : World := {w with leaseFile := w.leases}

/-- A save whose error is only logged. -/
def trySaveLeases (w : World) : Fault → World
  | .none => w.saveLeases
  | .fail _ => w

def deleteLease (w : World) (id : String) : World :=
  {w with leases := eraseLease w.leases id}.note (.dropped id)

def disarm (w : World) (id : String) : World :=
  {w with timers := w.timers.filter (fun t => decide (t.1 ≠ id))}

/-- The timer of a lease; an older one is stopped. -/
def arm (w : World) (l : Lease) : World :=
  {w.disarm l.leaseId with timers := (l.leaseId, l.expiresAt) :: (w.disarm l.leaseId).timers}

/-- What `restore` does for one container that was running: the runtime call that
brings it back, `none` when it needs none. -/
def bringBack (w : World) (id : String) : Option (Except Err Containers) :=
  match w.containers id with
  | none => some (.error (notFound ("no such container: " ++ id)))
  | some c =>
    match c.state with
    | .running | .restarting => none
    | .paused => some (w.containers.unpause id)
    | .exited | .created => some (w.containers.start id)
    | st => some (.error (err ("container is " ++ st.text)))

/-- The runtime call has brought the container back. -/
def broughtBack (w : World) (lease id : String) (cs : Containers) : World :=
  {w with containers := cs}.note (.back lease id)

/-- One round of the loop of `restore`: the error it collects, or whether the
container was resumed. -/
def restoreOne (w : World) (lease : String) (c : ContainerState) (inspectFails : Bool)
    (fault : Fault) : Except Err Bool × World :=
  if c.state ≠ .running then (.ok false, w)
  else if inspectFails then (.error (err ("inspect " ++ c.name ++ ": runtime error")), w)
  else
    match w.bringBack c.id with
    | none => (.ok false, w)
    | some (.error e) => (.error (e.wrap ("resume " ++ c.name ++ ": ")), w)
    | some (.ok cs) =>
      match fault with
      | .none => (.ok true, w.broughtBack lease c.id cs)
      | .fail true =>
        (.error (err ("resume " ++ c.name ++ ": runtime error")), w.broughtBack lease c.id cs)
      | .fail false => (.error (err ("resume " ++ c.name ++ ": runtime error")), w)

/-- `autoResume` has taken the lock. -/
def beginResume (w : World) (l : Lease) : World :=
  {w with resuming := some ⟨l.leaseId, l.preState, [], []⟩}

def release (w : World) (id : String) : World := {w with resuming := none}.disarm id

/-- The lease stays, as the record of what the dead-man switch did. -/
def markAutoResumed (w : World) (l : Lease) (ids : List String) : World :=
  {w with leases := putLease w.leases {l with autoResumedAt := some w.now, resumed := ids}}.note (.flagged l.leaseId)

def retryLater (w : World) (id : String) : World :=
  {w with timers := (id, w.now + autoResumeRetry) :: w.timers}.note (.failed id)

/-- The end of `autoResume`: tried again later when a container did not come back,
marked otherwise. -/
def endResume (w : World) (r : Resuming) (save : Fault) : World :=
  match r.errs, findLease w.leases r.leaseId with
  | [], some l => ((w.release r.leaseId).markAutoResumed l r.resumed).trySaveLeases save
  | [], none => w.release r.leaseId
  | _ :: _, _ => (w.release r.leaseId).retryLater r.leaseId

/-- One container of an automatic resume. -/
def resumeStep (w : World) (r : Resuming) (c : ContainerState) (rest : List ContainerState)
    (inspectFails : Bool) (fault : Fault) : World :=
  match w.restoreOne r.leaseId c inspectFails fault with
  | (.ok true, w) => {w with resuming := some {r with todo := rest, resumed := r.resumed ++ [c.id]}}
  | (.ok false, w) => {w with resuming := some {r with todo := rest}}
  | (.error e, w) => {w with resuming := some {r with todo := rest, errs := r.errs ++ [e]}}

/-- The timer of the lease has run out. -/
def due (w : World) (id : String) : Bool := w.timers.any (fun t => decide (t.1 = id ∧ t.2 ≤ w.now))

/-- `expire`: an active lease is resumed. -/
def expire (w : World) (id : String) : World :=
  match findLease w.leases id with
  | some l => if l.active then w.beginResume l else w
  | none => w

/-- The one warning before a lease expires. -/
def warn (w : World) (id : String) (save : Fault) : World :=
  match findLease w.leases id with
  | some l =>
    if l.active && !l.warned && l.warnDue w.now then
      {w with leases := putLease w.leases {l with warned := true}}.trySaveLeases save
    else w
  | none => w

/-- One step of the timers. They run while the agent is up and nobody else holds
the lock. An automatic resume asks the runtime for each container it brings back, and
fails there; for a lease without running containers it cannot fail. When the agent shuts
down during a resume the run goes on with a crash. -/
def timerStep (w : World) (e : TimerEvent) : World :=
  if !w.up then w
  else
    match e, w.resuming with
    | .fire id, none => if w.due id then (w.disarm id).expire id else w
    | .warn id save, none => w.warn id save
    | .resume inspectFails fault, some r =>
      match r.todo with
      | c :: rest => w.resumeStep r c rest inspectFails fault
      | [] => w
    | .finish save, some r => if r.todo = [] then w.endResume r save else w
    | _, _ => w

/-- The automatic resume in progress handles these containers and ends, nothing
going wrong. -/
def resumeRest (w : World) : List ContainerState → World
  | [] => w.timerStep (.finish .none)
  | _ :: cs => (w.timerStep (.resume false .none)).resumeRest cs

/-- Waiting for the lock lets an automatic resume in progress end. -/
def drain (w : World) : World :=
  match w.resuming with
  | none => w
  | some r => w.resumeRest r.todo

end World

/-- What happens on the host before a step of a command that does not hold the
lease manager's lock. -/
def Draw.before (d : Draw) (w : World) : World :=
  d.timers.foldl World.timerStep (w.tick d.wait)

/-- Takes the lease manager's lock: an automatic resume in progress ends first. -/
def lock : Prog Unit := Act.prim fun d w => d.ends (.ok ()) (d.before w).drain

/-- A step under the lease manager's lock: time passes, and no timer runs. -/
def locked {α : Type} (f : Draw → World → Outcome Err α × World) : Prog α :=
  Act.prim fun d w => f d (w.tick d.wait)

/-- `ctl`: the connection to the container runtime. -/
def control : Prog Unit := locked fun d w =>
  match d.fault with
  | .none => d.ends (.ok ()) w
  | .fail _ => d.ends (.err (err "container runtime unavailable")) w

def inspectState (id : String) : Prog ContainerState := locked fun d w =>
  match d.fault, w.containers.inspect id with
  | .none, .ok c => d.ends (.ok ⟨id, c.name, c.state⟩) w
  | .none, .error e => d.ends (.err (e.wrap ("inspect container " ++ id ++ ": "))) w
  | .fail _, _ => d.ends (.err (err ("inspect container " ++ id ++ ": runtime error"))) w

def inspectAll : List String → Prog (List ContainerState)
  | [] => pure []
  | id :: ids => do
    let c ← inspectState id
    let cs ← inspectAll ids
    pure (c :: cs)

def saveLeases : Prog Unit := locked fun d w =>
  match d.fault with
  | .none => d.ends (.ok ()) w.saveLeases
  | .fail _ => d.ends (.err (err "write leases")) w

/-- A save whose error is only logged, within a command. -/
def logSaveLeases : Prog Unit := do
  let _ ← Act.attempt saveLeases

def Mode.text : Mode → String
  | .pause => "pause"
  | .stop => "stop"

def Mode.call (m : Mode) (cs : Containers) (id : String) : Except Err Containers :=
  match m with
  | .pause => cs.pause id
  | .stop => cs.stop id

/-- Pauses or stops a container that was running. -/
def hold (lease : String) (mode : Mode) (c : ContainerState) : Prog Unit :=
  if c.state ≠ .running then pure ()
  else locked fun d w =>
    match mode.call w.containers c.id with
    | .error e => d.ends (.err (e.wrap (mode.text ++ " container " ++ c.name ++ ": "))) w
    | .ok cs =>
      d.effect (mode.text ++ " container " ++ c.name ++ ": runtime error")
        (fun w => {w with containers := cs}.note (.held lease c.id)) w

def restoreStep (lease : String) (c : ContainerState) : Prog (Except Err Bool) := locked fun d w =>
  d.ends (.ok (w.restoreOne lease c d.inspectFails d.fault).1) (w.restoreOne lease c d.inspectFails d.fault).2

/-- The loop of `restore`, which goes on after an error. -/
def restoreLease (lease : String) : List ContainerState → Prog (List String × List Err)
  | [] => pure ([], [])
  | c :: cs => do
    let r ← restoreStep lease c
    let (ids, es) ← restoreLease lease cs
    match r with
    | .ok true => pure (c.id :: ids, es)
    | .ok false => pure (ids, es)
    | .error e => pure (ids, e :: es)

def restore (l : Lease) : Prog (List String × List Err) := do
  match ← Act.attempt control with
  | .error e => pure ([], [e])
  | .ok _ => restoreLease l.leaseId l.preState

/-- The command Quiesce. -/
structure QuiesceCommand where
  (leaseId applicationId : String)
  /-- Absent when the command carries an unsupported mode. -/
  mode : Option Mode
  containerIds : List String
  leaseSeconds : Nat
  deriving DecidableEq

structure QuiesceResult where
  preState : List ContainerState
  (quiescedAt expiresAt : Nat)
  deriving DecidableEq

def Lease.result (l : Lease) : QuiesceResult := ⟨l.preState, l.quiescedAt, l.expiresAt⟩

/-- A Quiesce for a lease that is there already. -/
def repeated (q : QuiesceCommand) (l : Lease) : Prog QuiesceResult :=
  if l.applicationId ≠ q.applicationId then
    .throw (permanent ("lease " ++ l.leaseId ++ " belongs to application " ++ l.applicationId))
  else if !l.active then
    .throw (permanent ("lease " ++ l.leaseId ++ " already expired and the application was auto-resumed"))
  else pure l.result -- idempotent repeat

/-- After a failed pause or stop: what was held is brought back; the lease stays
armed when that fails too. -/
def rollbackQuiesce (l : Lease) (e : Err) : Prog QuiesceResult := do
  let (_, es) ← restore l
  if es ≠ [] then do
    .modify (fun w => w.arm l)
    .throw (joinErrs (e :: es))
  else do
    .modify (fun w => w.deleteLease l.leaseId)
    logSaveLeases
    .throw e

def QuiesceCommand.lease (q : QuiesceCommand) (mode : Mode) (pre : List ContainerState) (now : Nat) : Lease where
  leaseId := q.leaseId
  applicationId := q.applicationId
  mode := mode
  preState := pre
  quiescedAt := now
  expiresAt := now + (if q.leaseSeconds = 0 then defaultLeaseSeconds else q.leaseSeconds)
  warned := false
  autoResumedAt := none
  resumed := []

/-- The lease is journaled first; then the containers are held one by one. -/
def takeLease (l : Lease) : Prog QuiesceResult := do
  .modify (fun w => {w with leases := putLease w.leases l})
  match ← Act.attempt saveLeases with
  | .error e => do
    .modify (fun w => w.deleteLease l.leaseId)
    .throw (e.wrap "journal quiesce lease: ")
  | .ok _ => do
    .modify (fun w => w.note (.taken l.leaseId))
    match ← Act.attempt (Act.each (hold l.leaseId l.mode) l.preState) with
    | .error e => rollbackQuiesce l e
    | .ok _ => do
      .modify (fun w => (w.arm l).note (.quiesced l.leaseId))
      pure l.result

/-- `Quiesce` once it has the lock. -/
def quiesceLocked (q : QuiesceCommand) (mode : Mode) : Prog QuiesceResult := do
  let w ← Act.get
  match findLease w.leases q.leaseId with
  | some l => repeated q l
  | none =>
    match w.leases.find? (fun l => decide (l.applicationId = q.applicationId) && l.active) with
    | some l => .throw (permanent ("application already quiesced by lease " ++ l.leaseId))
    | none => do
      control
      let pre ← inspectAll q.containerIds
      takeLease (q.lease mode pre w.now)

def quiesce (q : QuiesceCommand) : Prog QuiesceResult :=
  if q.leaseId = "" ∨ q.applicationId = "" then
    .throw (permanent "lease_id and application_id are required")
  else
    match q.mode with
    | none => .throw (permanent "unsupported quiesce mode")
    | some mode => do
      lock
      quiesceLocked q mode

structure ResumeResult where
  (alreadyResumed autoResumed : Bool)
  resumed : List String
  deriving DecidableEq

/-- `Resume` once it has the lock. -/
def resumeLocked (id : String) : Prog ResumeResult := do
  .modify (fun w => w.note (.resuming id))
  let w ← Act.get
  match findLease w.leases id with
  | none => do
    .modify (fun w => w.note (.resumed id))
    pure ⟨true, false, []⟩
  | some l =>
    if !l.active then do
      .modify (fun w => w.deleteLease id)
      logSaveLeases
      .modify (fun w => w.note (.resumed id))
      pure ⟨true, true, l.resumed⟩
    else do
      let (ids, es) ← restore l
      if es ≠ [] then .throw (joinErrs es) -- the lease stays armed
      else do
        .modify (fun w => (w.disarm id).deleteLease id)
        logSaveLeases
        .modify (fun w => w.note (.resumed id))
        pure ⟨false, false, ids⟩

def resume (id : String) : Prog ResumeResult :=
  if id = "" then .throw (permanent "lease_id is required")
  else do
    lock
    resumeLocked id

/-- `autoResumed`: whether the dead-man switch has resumed the application. -/
def autoResumed (id : String) : Prog Bool := do
  lock
  let w ← Act.get
  pure (match findLease w.leases id with
    | some l => !l.active
    | none => false)

def Lease.outdated (l : Lease) (now : Nat) : Bool :=
  l.autoResumedAt.any (fun t => decide (t + autoResumedKeep < now))

namespace World

/-- What the end of the agent's process loses. -/
def down (w : World) : World :=
  {w with up := false, leases := [], timers := [], resuming := none, swaps := []}

/-- `openLeases`: the leases of the file, without old auto-resumed ones. -/
def openLeases (w : World) : World :=
  {w with
    leases := w.leaseFile.filter (fun l => !l.outdated w.now)
    log := (w.leaseFile.filter (·.outdated w.now)).map (fun l => .dropped l.leaseId) ++ w.log}

end World

/-- The automatic resume of a lease that expired while the agent was down. -/
def autoResume (l : Lease) : Prog Unit := do
  .modify (fun w => w.beginResume l)
  Act.each (fun _ => locked fun d w => d.ends (.ok ()) (w.timerStep (.resume d.inspectFails d.fault))) l.preState
  locked fun d w => d.ends (.ok ()) (w.timerStep (.finish d.fault))

/-- `start`: leases that have expired are resumed at once, the others armed. -/
def startLeases : Prog Unit := do
  .modify (fun w => {w.openLeases with up := true})
  let w ← Act.get
  Act.each (fun l =>
    if !l.active then pure ()
    else do
      let w ← Act.get
      if l.expiresAt ≤ w.now then autoResume l else .modify (fun w => w.arm l)) w.leases

end Dbr2.Agent
