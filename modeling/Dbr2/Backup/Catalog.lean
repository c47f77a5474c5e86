import Dbr2.Backup.Repository
import Dbr2.Protection.Index

/-! The index of recovery points beside the Repository (`ReindexRepository`,
`readManifests`, `IndexRecoveryPoints`, `CompleteBackup`, `DeleteRecoveryPoint`).

The rows are those of one Repository. Reindexing lists the manifests, reads them one
by one and hands what it found to one transaction; a deletion marks the row, deletes
the snapshots, manifests first, and marks the row again; a backup creates its row,
writes its manifest and records it. Each step is one transaction or one call to the
Repository, of any number of workers. -/
namespace Dbr2.Backup
open Protection (RecoveryPointState)

structure Reindexer where
  (todo out : List Snapshot)
  (found invalid : Nat)
  deriving DecidableEq

def Reindexer.ids (r : Reindexer) : List String := r.out.map (·.tags.rp)

structure Deletion where
  rp : String
  todo : Option (List Snapshot)
  deriving DecidableEq

structure BackupRun where
  rp : String
  written : Bool
  deriving DecidableEq

/-- The manifest parses, names agents' sources and is the tagged recovery point's. -/
def readable (s : Snapshot) : Bool :=
  match s.manifest with
  | none => false
  | some m => m.validate == [] && (m.validateSources agentKopiaUser).isNone && m.recoveryPointId == s.tags.rp

/-- `reached` are the recovery points whose row was ever in state deleted. -/
structure Catalog where
  rows : String → Option RecoveryPointState
  written : List Snapshot
  (deleted reached : List String)
  reindexers : Nat → Option Reindexer
  deletions : Nat → Option Deletion
  backups : Nat → Option BackupRun

inductive CatalogEvent
  | agent (s : Snapshot)
  | reindex (k : Nat)
  | read (k : Nat)
  | index (k : Nat)
  | begin (k : Nat) (rp : String)
  | list (k : Nat)
  | delete (k : Nat) (d : Fate)
  | finish (k : Nat)
  | backup (k : Nat) (rp : String)
  | write (k : Nat) (m : Manifest) (id : String) (d : Fate)
  | complete (k : Nat)
  | fail (k : Nat)
  | stop (k : Nat)
  deriving DecidableEq

namespace Catalog

def empty : Catalog := ⟨fun _ => none, [], [], [], fun _ => none, fun _ => none, fun _ => none⟩

def stored (w : Catalog) : List Snapshot := w.written.filter fun s => !w.deleted.contains s.id

def fresh (w : Catalog) (id : String) : Bool := !(w.written.map (·.id)).contains id

def hasManifest (w : Catalog) (rp : String) : Bool :=
  w.stored.any fun s => trustedManifest s && s.tags.rp == rp

def setRow (w : Catalog) (rp : String) (st : RecoveryPointState) : Catalog :=
  {w with rows := Function.update w.rows rp (some st)}

def setReindexer (w : Catalog) (k : Nat) (r : Option Reindexer) : Catalog :=
  {w with reindexers := Function.update w.reindexers k r}

def setDeletion (w : Catalog) (k : Nat) (d : Option Deletion) : Catalog :=
  {w with deletions := Function.update w.deletions k d}

def setBackup (w : Catalog) (k : Nat) (b : Option BackupRun) : Catalog :=
  {w with backups := Function.update w.backups k b}

def addSnapshot (w : Catalog) (s : Snapshot) : Catalog := {w with written := s :: w.written}

def remove (w : Catalog) (s : Snapshot) : Catalog := {w with deleted := s.id :: w.deleted}

/-- A manifest that was deleted since the listing is an error; one that is not readable is
counted and left out. -/
def read (w : Catalog) (k : Nat) (r : Reindexer) : Catalog :=
  match r.todo with
  | [] => w
  | s :: rest =>
    if trustedManifest s = false ∨ r.ids.contains s.tags.rp = true then
      w.setReindexer k (some {r with todo := rest})
    else if w.deleted.contains s.id = true then w.setReindexer k none
    else if readable s = true then
      w.setReindexer k (some {r with todo := rest, out := r.out ++ [s], found := r.found + 1})
    else w.setReindexer k (some {r with todo := rest, found := r.found + 1, invalid := r.invalid + 1})

/-- What the transaction makes of a row: UpsertIndexedRecoveryPoint for those found, then
MarkMissingRecoveryPoints for the committed rows that were not. -/
def indexed (ids : List String) (rp : String) (row : Option RecoveryPointState) :
    Option RecoveryPointState :=
  if rp ∈ ids then some .committed else if row = some .committed then some .missing else row

def index (w : Catalog) (k : Nat) (r : Reindexer) : Catalog :=
  if r.todo ≠ [] then w
  else {w with rows := fun rp => indexed r.ids rp (w.rows rp)}.setReindexer k none

def begin (w : Catalog) (k : Nat) (rp : String) : Catalog :=
  match w.rows rp with
  | some st =>
    if Protection.Db.deletable st then (w.setRow rp .deleting).setDeletion k (some ⟨rp, none⟩) else w
  | none => w

def tagged (w : Catalog) (rp : String) : List Snapshot :=
  (w.stored.filter fun s => s.tags.rp == rp && s.tags.kind == "manifest") ++
    w.stored.filter fun s => s.tags.rp == rp && s.tags.kind != "manifest"

/-- An error ends the deletion and leaves the row in state deleting. -/
def delete (w : Catalog) (k : Nat) (d : Deletion) (f : Fate) : Catalog :=
  match d.todo with
  | some (s :: rest) =>
    (if f.performed then w.remove s else w).setDeletion k
      (if f = .done then some {d with todo := some rest} else none)
  | _ => w

def finish (w : Catalog) (k : Nat) (d : Deletion) : Catalog :=
  if d.todo = some [] then
    {w.setRow d.rp .deleted with reached := d.rp :: w.reached}.setDeletion k none
  else w

def existing (w : Catalog) (m : Manifest) : List Snapshot :=
  w.stored.filter fun s => s.source == manifestSource m.applicationId &&
    s.tags.rp == m.recoveryPointId && s.tags.kind == "manifest"

/-- A manifest that is there already is not written again. -/
def write (w : Catalog) (k : Nat) (b : BackupRun) (m : Manifest) (id : String) (f : Fate) : Catalog :=
  if m.recoveryPointId ≠ b.rp then w
  else if w.existing m ≠ [] then w.setBackup k (some {b with written := true})
  else if w.fresh id = false then w
  else (if f.performed then w.addSnapshot (m.snapshot id 0) else w).setBackup k
    (some {b with written := decide (f = .done)})

/-- CompleteBackup, with the answer received: a repetition after a lost answer finds the
row committed and sets it again. -/
def complete (w : Catalog) (k : Nat) (b : BackupRun) : Catalog :=
  if b.written then (w.setRow b.rp .committed).setBackup k none else w

def fail (w : Catalog) (k : Nat) (b : BackupRun) : Catalog :=
  (if w.rows b.rp = some .pending then w.setRow b.rp .failed else w).setBackup k none

def step (w : Catalog) : CatalogEvent → Catalog
  | .agent s => if s.source.user = agentKopiaUser ∧ w.fresh s.id = true then w.addSnapshot s else w
  | .reindex k =>
    w.setReindexer k (some ⟨w.stored.filter fun s => s.tags.kind == "manifest", [], 0, 0⟩)
  | .read k => ((w.reindexers k).map (w.read k)).getD w
  | .index k => ((w.reindexers k).map (w.index k)).getD w
  | .begin k rp => w.begin k rp
  | .list k =>
    ((w.deletions k).map fun d => w.setDeletion k (some {d with todo := some (w.tagged d.rp)})).getD w
  | .delete k f => ((w.deletions k).map fun d => w.delete k d f).getD w
  | .finish k => ((w.deletions k).map (w.finish k)).getD w
  | .backup k rp =>
    if w.rows rp = none then (w.setRow rp .pending).setBackup k (some ⟨rp, false⟩) else w
  | .write k m id f => ((w.backups k).map fun b => w.write k b m id f).getD w
  | .complete k => ((w.backups k).map (w.complete k)).getD w
  | .fail k => ((w.backups k).map (w.fail k)).getD w
  | .stop k => ((w.setReindexer k none).setDeletion k none).setBackup k none

end Catalog
end Dbr2.Backup
