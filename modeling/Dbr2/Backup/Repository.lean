import Dbr2.Lib.Run
import Dbr2.Backup.Plan

/-! The Repository and the workers on it (`collectOrphans` in `workflows/backup/maintenance.go`,
`commitWith` in `workflows/backup/activities.go`).

Snapshots are immutable: they are written and they are deleted, and an identifier is never given
twice. Any number of workers collect orphans or commit at the same time; a step is one call to the
Repository. -/
namespace Dbr2.Backup

structure Source where
  (user host path : String)
  deriving DecidableEq

def Source.render (s : Source) : String := s.user ++ "@" ++ s.host ++ ":" ++ s.path

structure Tags where
  (rp app component kind : String)
  deriving DecidableEq

/-- A snapshot of the Kopia repository with the tags of DBR2. -/
structure Snapshot where
  id : String
  source : Source
  tags : Tags
  startTime : Int
  incomplete : String
  /-- What its manifest.json says, if it has one. -/
  manifest : Option Manifest
  deriving DecidableEq

def manifestSourceUser : String := "maint"

def manifestSourceHost : String := "dbr2"

def manifestPath (applicationId : String) : String := "/manifests/" ++ applicationId

def manifestSource (applicationId : String) : Source :=
  ⟨manifestSourceUser, manifestSourceHost, manifestPath applicationId⟩

/-- A manifest that was written by maint@dbr2. -/
def trustedManifest (s : Snapshot) : Bool :=
  s.tags.kind == "manifest" && s.tags.rp != "" && s.source.user == manifestSourceUser &&
    s.source.host == manifestSourceHost

/-- The snapshots that a manifest needs. -/
def Manifest.refs (m : Manifest) : List String :=
  (m.components.filter (·.status == .succeeded)).map (·.snapshotId)

/-- A run of the orphan collection: its one list, and what is left of it. -/
structure Collector where
  (grace now : Int)
  (all todo : List Snapshot)
  listed : Bool
  (kept deleted : Nat)
  deriving DecidableEq

/-- A trusted manifest of the recovery point was in the list. -/
def Collector.committed (c : Collector) (rp : String) : Bool :=
  c.all.any fun s => trustedManifest s && s.tags.rp == rp

def Collector.managed (s : Snapshot) : Bool := s.tags.rp != "" && s.tags.kind != "manifest"

/-- Of no committed recovery point, or a seed, and old enough. -/
def Collector.condemns (c : Collector) (s : Snapshot) : Bool :=
  managed s && (!c.committed s.tags.rp || s.tags.kind == "seed") && !decide (c.now - s.startTime < c.grace)

/-- A worker that writes a manifest: the components still to check. -/
structure Committer where
  manifest : Manifest
  existing : List Snapshot
  todo : List Component
  checked : List Snapshot
  deriving DecidableEq

/-- The snapshot is what the manifest says about the component. -/
def Manifest.owns (m : Manifest) (c : Component) (s : Snapshot) : Bool :=
  s.source.user == agentKopiaUser && s.source.host == m.agentId && s.source.render == c.snapshotSource &&
    s.tags.rp == m.recoveryPointId && s.tags.component == c.name && s.incomplete == ""

def Manifest.snapshot (m : Manifest) (id : String) (startTime : Int) : Snapshot where
  id := id
  source := manifestSource m.applicationId
  tags := ⟨m.recoveryPointId, m.applicationId, "", "manifest"⟩
  startTime := startTime
  incomplete := ""
  manifest := some m

/-- Everything that was ever written, what is deleted, and the workers. -/
structure World where
  written : List Snapshot
  deleted : List String
  now : Int
  collectors : Nat → Option Collector
  commits : Nat → Option Committer

namespace World

def empty : World := ⟨[], [], 0, fun _ => none, fun _ => none⟩

def list (w : World) : List Snapshot := w.written.filter fun s => !w.deleted.contains s.id

def get (w : World) (id : String) : Option Snapshot := w.list.find? (·.id == id)

def fresh (w : World) (id : String) : Bool := !(w.written.map (·.id)).contains id

def setCollector (w : World) (k : Nat) (c : Option Collector) : World :=
  {w with collectors := Function.update w.collectors k c}

def setCommit (w : World) (k : Nat) (q : Option Committer) : World :=
  {w with commits := Function.update w.commits k q}

def existing (w : World) (m : Manifest) : List Snapshot :=
  w.list.filter fun s => s.source == manifestSource m.applicationId &&
    s.tags.rp == m.recoveryPointId && s.tags.kind == "manifest"

end World

/-- How a call to the Repository ends: an error says nothing about its effect. -/
inductive Fate
  | done
  | failed (performed : Bool)
  deriving DecidableEq

/-- The call had its effect. -/
def Fate.performed : Fate → Bool
  | .done => true
  | .failed p => p

/-- One call of the collector, of a committer or of an agent. -/
inductive RepoEvent
  | tick
  | agent (s : Snapshot)
  | collect (k : Nat) (grace : Int)
  | list (k : Nat)
  | sweep (k : Nat) (d : Fate)
  | commit (k : Nat) (m : Manifest)
  | check (k : Nat)
  | write (k : Nat) (id : String) (d : Fate)
  | stop (k : Nat)
  deriving DecidableEq

namespace World

def addSnapshot (w : World) (s : Snapshot) : World := {w with written := s :: w.written}

/-- The next snapshot of the list. -/
def sweep (w : World) (k : Nat) (c : Collector) (d : Fate) : World :=
  match c.todo with
  | [] => w.setCollector k none
  | s :: rest =>
    if c.condemns s then
      let w := if d.performed then {w with deleted := s.id :: w.deleted} else w
      w.setCollector k (if d = .done then some {c with todo := rest, deleted := c.deleted + 1} else none)
    else w.setCollector k (some {c with todo := rest, kept := if Collector.managed s then c.kept + 1 else c.kept})

/-- A component that did not succeed is passed over; one whose snapshot is not there, or is
not its own, ends the commit. -/
def check (w : World) (k : Nat) (q : Committer) : World :=
  match q.todo with
  | [] => w
  | c :: rest =>
    if c.status ≠ .succeeded then w.setCommit k (some {q with todo := rest})
    else match w.get c.snapshotId with
      | none => w.setCommit k none
      | some s =>
        if q.manifest.owns c s then
          w.setCommit k (some {q with todo := rest, checked := s :: q.checked})
        else w.setCommit k none

/-- The manifest, once every component is checked. -/
def write (w : World) (k : Nat) (q : Committer) (id : String) (d : Fate) : World :=
  if q.todo ≠ [] then w
  else if q.existing ≠ [] then w.setCommit k none
  else if w.fresh id = false then w
  else (if d.performed then w.addSnapshot (q.manifest.snapshot id w.now) else w).setCommit k none

def step (w : World) : RepoEvent → World
  | .tick => {w with now := w.now + 1}
  | .agent s => if s.source.user = agentKopiaUser ∧ w.fresh s.id = true then w.addSnapshot s else w
  | .collect k grace => w.setCollector k (some ⟨grace, w.now, [], [], false, 0, 0⟩)
  | .list k =>
    match w.collectors k with
    | some c =>
      if c.listed then w else w.setCollector k (some {c with all := w.list, todo := w.list, listed := true})
    | none => w
  | .sweep k d =>
    match w.collectors k with
    | some c => if c.listed then w.sweep k c d else w
    | none => w
  | .commit k m => w.setCommit k (some ⟨m, w.existing m, m.components, []⟩)
  | .check k =>
    match w.commits k with
    | some q => w.check k q
    | none => w
  | .write k id d =>
    match w.commits k with
    | some q => w.write k q id d
    | none => w
  | .stop k => (w.setCollector k none).setCommit k none

end World
end Dbr2.Backup
