import Dbr2.Lib.Act
import Dbr2.Lib.FileTree

/-! The host an agent runs on, and what the agent holds in memory.

`World` is the state every agent command acts on: the file system, the containers
and volumes of the runtime, the two journals the agent keeps on disk (the leases,
and the journal of one restore), and the memory that a crash loses. `Draw` is what
a primitive step meets: time passing, timers of the lease manager running in
between, the step failing with or without its effect, the agent dying. -/
namespace Dbr2.Agent
open Lib

abbrev Path := List String

abbrev Tree := FileTree String String

/-- A path as a command carries it: what stands between its slashes. -/
structure RawPath where
  abs : Bool
  parts : List String
  deriving DecidableEq

/-- An absolute path as messages show it. -/
def pathText (p : Path) : String := "/" ++ "/".intercalate p

namespace RawPath

def text (p : RawPath) : String := (if p.abs then "/" else "") ++ "/".intercalate p.parts

/-- `filepath.Clean` of an absolute path. -/
def clean (p : RawPath) : Path :=
  p.parts.foldl (fun acc x =>
    if x = "" ∨ x = "." then acc else if x = ".." then acc.dropLast else acc ++ [x]) []

/-- `filepath.Base`. -/
def base (p : RawPath) : String :=
  ((p.parts.filter (· ≠ "")).getLast?).getD (if p.abs then "/" else ".")

end RawPath

/-- An error, with what `errors.Is` finds in it. -/
structure Err where
  msg : String
  (permanent notFound : Bool)
  deriving DecidableEq

def err (msg : String) : Err := ⟨msg, false, false⟩

def permanent (msg : String) : Err := ⟨msg, true, false⟩

def notFound (msg : String) : Err := ⟨msg, false, true⟩

/-- `fmt.Errorf` with a wrapped error: the kind of the error stays. -/
def Err.wrap (context : String) (e : Err) : Err := {e with msg := context ++ e.msg}

def Err.makePermanent (e : Err) : Err := {e with permanent := true}

/-- `errors.Join`. -/
def joinErrs (es : List Err) : Err :=
  ⟨"\n".intercalate (es.map (·.msg)), es.any (·.permanent), es.any (·.notFound)⟩

inductive DockerState
  | created
  | running
  | paused
  | restarting
  | removing
  | exited
  | dead
  deriving DecidableEq

structure Container where
  name : String
  state : DockerState
  deriving DecidableEq

def DockerState.text : DockerState → String
  | .created => "created"
  | .running => "running"
  | .paused => "paused"
  | .restarting => "restarting"
  | .removing => "removing"
  | .exited => "exited"
  | .dead => "dead"

/-- The runtime's containers, by id. -/
abbrev Containers := String → Option Container

namespace Containers

def setState (cs : Containers) (id : String) (st : DockerState) : Containers := fun x =>
  if x = id then (cs x).map (fun c => {c with state := st}) else cs x

def state (cs : Containers) (id : String) : Option DockerState := (cs id).map (·.state)

@[simp] theorem state_setState_ne (cs : Containers) {id x : String} (st : DockerState) (h : x ≠ id) :
    (cs.setState id st).state x = cs.state x := by
  simp [state, setState, h]

theorem state_setState_self {cs : Containers} {id : String} {c : Container} (st : DockerState)
    (h : cs id = some c) : (cs.setState id st).state id = some st := by
  simp [state, setState, h]

def inspect (cs : Containers) (id : String) : Except Err Container :=
  match cs id with
  | none => .error (notFound ("no such container: " ++ id))
  | some c => .ok c

theorem state_of_inspect {cs : Containers} {id : String} {c : Container}
    (h : cs.inspect id = .ok c) : cs.state id = some c.state := by
  unfold inspect at h
  split at h
  · cases h
  rename_i x hx
  obtain rfl := Except.ok.inj h
  simp [state, hx]

def pause (cs : Containers) (id : String) : Except Err Containers := do
  let c ← cs.inspect id
  if c.state = .running then .ok (cs.setState id .paused)
  else .error (err ("container " ++ id ++ " is not running"))

def unpause (cs : Containers) (id : String) : Except Err Containers := do
  let c ← cs.inspect id
  if c.state = .paused then .ok (cs.setState id .running)
  else .error (err ("container " ++ id ++ " is not paused"))

def stop (cs : Containers) (id : String) : Except Err Containers := do
  let c ← cs.inspect id
  match c.state with
  | .running | .restarting => .ok (cs.setState id .exited)
  | .paused => .error (err ("container " ++ id ++ " is paused; unpause it before stopping"))
  | _ => .ok cs

def start (cs : Containers) (id : String) : Except Err Containers := do
  let c ← cs.inspect id
  match c.state with
  | .created | .exited => .ok (cs.setState id .running)
  | .running | .restarting => .ok cs
  | .paused => .error (err ("container " ++ id ++ " is paused; unpause it instead"))
  | _ => .error (err ("container " ++ id ++ " cannot be started"))

end Containers

inductive Mode
  | pause
  | stop
  deriving DecidableEq

structure ContainerState where
  (id name : String)
  state : DockerState
  deriving DecidableEq

/-- `leaseRecord`: one journaled quiesce lease. -/
structure Lease where
  (leaseId applicationId : String)
  mode : Mode
  preState : List ContainerState
  (quiescedAt expiresAt : Nat)
  warned : Bool
  autoResumedAt : Option Nat
  resumed : List String
  deriving DecidableEq

/-- Not resumed by the dead-man switch. -/
def Lease.active (l : Lease) : Bool := l.autoResumedAt.isNone

/-- An automatic resume in progress: it holds the lease manager's lock. -/
structure Resuming where
  leaseId : String
  todo : List ContainerState
  resumed : List String
  errs : List Err
  deriving DecidableEq

structure Volume where
  driver : String
  mountpoint : RawPath
  deriving DecidableEq

inductive SwapState
  | staging
  | swapping
  | swapped
  | rolledBack
  | committed
  deriving DecidableEq

inductive SwapKind
  | dir
  | file
  deriving DecidableEq

/-- A swap of the restore journal: where its content is staged, kept and discarded. -/
structure SwapRecord where
  component : String
  kind : SwapKind
  (target staging previous discard : Path)
  hadPrevious : Bool
  state : SwapState
  deriving DecidableEq

inductive RestoreState
  | active
  | committed
  | rolledBack
  deriving DecidableEq

structure CreatedContainer where
  (name id : String)
  deriving DecidableEq

/-- `restoreJournal`: what one restore has done on the host. -/
structure Journal where
  restoreId : String
  state : RestoreState
  updatedAt : Nat
  swaps : List SwapRecord
  (createdVolumes createdNetworks : List String)
  createdContainers : List CreatedContainer
  deriving DecidableEq

inductive Status
  | restored
  | failed
  | skipped
  deriving DecidableEq

structure ComponentResult where
  name : String
  status : Status
  error : String
  targetPath : Path
  previousPath : Option Path
  createdVolume : Bool
  (bytes files : Nat)
  deriving DecidableEq

def ComponentResult.new (name : String) : ComponentResult :=
  ⟨name, .failed, "", [], none, false, 0, 0⟩

/-- What the statements about runs look back at. -/
inductive Note
  | taken (lease : String)
  | held (lease container : String)
  | quiesced (lease : String)
  | back (lease container : String)
  | flagged (lease : String)
  | failed (lease : String)
  | dropped (lease : String)
  | resuming (lease : String)
  | resumed (lease : String)
  | checked (restore : String)
  | renamed (restore : String)
  deriving DecidableEq

/-- The state that every command of the agent acts on. -/
structure World where
  -- on the host: a crash of the agent does not touch these
  fs : Tree
  containers : Containers
  volumes : String → Option Volume
  networks : List String
  journal : Option Journal
  leaseFile : List Lease
  now : Nat
  /-- Which of the next calls of `os.Lstat` fail on a path that is there. -/
  lstats : List Bool
  -- in the agent's memory
  up : Bool
  leases : List Lease
  timers : List (String × Nat)
  resuming : Option Resuming
  mem : Journal
  swaps : List Nat
  result : ComponentResult
  -- for the statements about runs: what happened, and what each swap put in place
  log : List Note
  restored : List (Path × Tree)

/-- How a step goes wrong: it reports an error, `done` or not. -/
inductive Fault
  | none
  | fail (done : Bool)
  deriving DecidableEq

/-- A step of the lease manager's own goroutines. -/
inductive TimerEvent
  | fire (lease : String)
  | resume (inspectFails : Bool) (fault : Fault)
  | finish (save : Fault)
  | warn (lease : String) (save : Fault)
  deriving DecidableEq

/-- What one primitive step meets. -/
structure Draw where
  wait : Nat
  timers : List TimerEvent
  inspectFails : Bool
  fault : Fault
  crash : Bool
  /-- What a removal that fails half-way has removed. -/
  removed : List Path
  /-- What a write that fails half-way has written. -/
  written : Tree
  mountpoint : RawPath

instance : Inhabited Draw := ⟨⟨0, [], false, .none, false, [], default, ⟨false, []⟩⟩⟩

abbrev Prog := Act Draw World Err

/-- The agent may die right after the step. -/
def Draw.ends {α : Type} (d : Draw) (r : Outcome Err α) (w : World) : Outcome Err α × World :=
  if d.crash then (.crash, w) else (r, w)

/-- A step with an effect of its own: done, failed without it, or failed after it. -/
def Draw.effect (d : Draw) (what : String) (f : World → World) (w : World) : Outcome Err Unit × World :=
  match d.fault with
  | .none => d.ends (.ok ()) (f w)
  | .fail true => d.ends (.err (err what)) (f w)
  | .fail false => d.ends (.err (err what)) w

theorem Draw.meets_ends {α : Type} {d : Draw} {r : Outcome Err α} {w : World}
    {Q : α → World → Prop} {E : Err → World → Prop} {C : World → Prop} (hr : r.meets Q E C w)
    (hC : C w) : (d.ends r w).1.meets Q E C (d.ends r w).2 := by
  unfold ends
  split
  · exact hC
  · exact hr

theorem Draw.meets_effect {d : Draw} {what : String} {f : World → World} {w : World}
    {Q : Unit → World → Prop} {E : Err → World → Prop} {C : World → Prop} (hok : Q () (f w))
    (herr : ∀ e, E e (f w)) (hnone : ∀ e, E e w) (hC : C (f w)) (hC' : C w) :
    (d.effect what f w).1.meets Q E C (d.effect what f w).2 := by
  unfold effect
  split
  · exact meets_ends hok hC
  · exact meets_ends (herr _) hC
  · exact meets_ends (hnone _) hC'

def World.note (w : World) (n : Note) : World := {w with log := n :: w.log}

def World.tick (w : World) (d : Nat) : World := {w with now := w.now + d}

end Dbr2.Agent
