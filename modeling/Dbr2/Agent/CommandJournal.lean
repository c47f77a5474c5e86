import Dbr2.Lib.Run
import Dbr2.Lib.LineLog

/-! The agent's command journal (`internal/agent/journal.go`).

The journal is a file of JSON lines, one appended and synced for every change of a
command's state, and a map of the newest record of each command in memory. `write`
changes the map first, then the file; a write may fail, or the agent may die in
it, after any part of the line; now and then the file is replaced by one line for
each record of the map (`compact`). `openJournal` reads the file when the agent
starts. How a record becomes a line is encoding/json's part, the parameter
`codec`. -/
namespace Dbr2.Agent.Commands
open Lib List

inductive CommandState
  | accepted | running | succeeded | failed
  deriving DecidableEq

structure CommandUpdate where
  commandId : String
  state : CommandState
  error : String
  retryable : Bool
  result : String
  deriving DecidableEq

inductive RecordState
  | accepted | succeeded | failed | acked
  deriving DecidableEq

structure Record where
  (commandId kind : String)
  state : RecordState
  updated : Nat
  update : Option CommandUpdate
  deriving DecidableEq

def Record.terminal (r : Record) : Bool := r.state == .succeeded || r.state == .failed

abbrev Records := List Record

namespace Records

def find (rs : Records) (id : String) : Option Record := rs.find? (·.commandId == id)

/-- The map of the journal: the newest record of a command. -/
def put (rs : Records) (r : Record) : Records := r :: rs.filter (·.commandId != r.commandId)

def result (rs : Records) (id : String) : Option CommandUpdate := (rs.find id).bind (·.update)

theorem find_some {rs : Records} {id : String} {r : Record} (h : rs.find id = some r) : r ∈ rs ∧ r.commandId = id :=
  ⟨mem_of_find?_eq_some h, by simpa using find?_some h⟩

theorem find_put (rs : Records) (r : Record) (id : String) :
    (rs.put r).find id = if r.commandId = id then some r else rs.find id := by
  unfold put find
  by_cases h : r.commandId = id
  · rw [if_pos h, find?_cons_of_pos (by simpa using h)]
  rw [if_neg h, find?_cons_of_neg (by simpa using h), find?_filter]
  congr 1
  funext x
  by_cases hx : x.commandId = id
  · simp [hx, Ne.symm h]
  · simp [hx]

theorem result_put (rs : Records) (r : Record) (id : String) :
    (rs.put r).result id = if r.commandId = id then r.update else rs.result id := by
  rw [result, find_put]
  split <;> rfl

end Records

def acceptedRecord (now : Nat) (id kind : String) : Record := ⟨id, kind, .accepted, now, none⟩

def finishedRecord (now : Nat) (u : CommandUpdate) (kind : String) : Record :=
  ⟨u.commandId, kind, if u.state = .succeeded then .succeeded else .failed, now, some u⟩

/-- Ack keeps the result; it writes nothing when there is none to acknowledge. -/
def ackedRecord (now : Nat) (rs : Records) (id : String) : Option Record :=
  (rs.find id).bind fun r =>
    if r.terminal then some ⟨id, r.kind, .acked, now, r.update⟩ else none

/-- The longest line that the scanner of `load` takes. -/
def maxLine : Nat := 64 * 1024 * 1024

def ackedFor : Nat := 24 * 3600

/-- An acknowledged result that is old enough to be dropped. -/
def Record.stale (now : Nat) (r : Record) : Bool :=
  r.state == .acked && decide (ackedFor < now - r.updated)

structure Journal where
  records : Records
  lines : Nat
  isOpen : Bool

/-- How far `compact` gets. -/
inductive CompactFate
  | done
  | failed
  | unopened
  | diesBefore
  | diesAfter
  deriving DecidableEq

/-- How a write goes: to its end, or cut short by an error or the agent's death
after some bytes of the line. A line that is there but not synced is cut short too. -/
inductive WriteFate
  | whole (compaction : CompactFate)
  | cut (bytes : Nat) (dies : Bool)
  deriving DecidableEq

/-- The file and the agent's journal while it runs. The last two fields are the
history of the write calls: for each command the record of the last call that
returned nil, and those of the calls after it that did not. -/
structure JournalWorld where
  file : List UInt8
  journal : Option Journal
  now : Nat
  durable : String → Option Record
  later : String → List Record

section Operations
variable (codec : Codec Record)

def loaded (rs : List Record) : Records :=
  (rs.filter (·.commandId != "")).foldl Records.put []

/-- What OpenJournal drops of the records it has read. -/
def dropStale (now : Nat) (rs : Records) : Records := rs.filter fun r => !r.stale now

def compacted (j : Journal) : List UInt8 := codec.body j.records

def JournalWorld.called (w : JournalWorld) (r : Record) (returnsNil : Bool) : JournalWorld :=
  {w with
    durable := fun id => if r.commandId = id ∧ returnsNil then some r else w.durable id
    later := fun id =>
      if r.commandId = id then (if returnsNil then [] else r :: w.later id) else w.later id}

def Journal.compactDue (j : Journal) : Bool :=
  decide (1000 < j.lines) && decide (4 * j.records.length < j.lines)

def JournalWorld.compact (w : JournalWorld) (j : Journal) : CompactFate → JournalWorld
  | .done => {w with
      file := compacted codec j
      journal := some {j with lines := j.records.length, isOpen := true}}
  | .failed => {w with journal := some j}
  | .unopened => {w with
      file := compacted codec j
      journal := some {j with lines := j.records.length, isOpen := false}}
  | .diesBefore => {w with journal := none}
  | .diesAfter => {w with file := compacted codec j, journal := none}

def Journal.returnsNil (j : Journal) : WriteFate → Bool
  | .whole c => j.isOpen && (!j.compactDue || c == .done)
  | .cut _ _ => false

def Journal.written (j : Journal) (r : Record) : Journal :=
  {j with records := j.records.put r, lines := j.lines + 1}

/-- `write`: the map, and one more line of the file; then a compaction that is due. -/
def JournalWorld.write (w : JournalWorld) (j : Journal) (r : Record) (fate : WriteFate) :
    JournalWorld :=
  let w := w.called r ((j.written r).returnsNil fate)
  if j.isOpen then
    match fate with
    | .whole c =>
      let w := {w with file := w.file ++ codec.line r}
      if (j.written r).compactDue then w.compact codec (j.written r) c
      else {w with journal := some (j.written r)}
    | .cut n dies => {w with
        file := w.file ++ (codec.line r).take n
        journal := if dies then none else some {j with records := j.records.put r}}
  else {w with
    -- the handle is closed: the write fails, the map has changed
    journal := match fate with
      | .cut _ true => none
      | _ => some {j with records := j.records.put r}}

inductive JournalEvent
  | accept (id kind : String) (fate : WriteFate)
  | finish (u : CommandUpdate) (kind : String) (fate : WriteFate)
  | ack (id : String) (fate : WriteFate)
  | tick (d : Nat)
  | crash
  | open (fate : CompactFate)

def JournalEvent.record (now : Nat) (rs : Records) : JournalEvent → Option Record
  | .accept id kind _ => some (acceptedRecord now id kind)
  | .finish u kind _ => some (finishedRecord now u kind)
  | .ack id _ => ackedRecord now rs id
  | _ => none

def JournalEvent.fate : JournalEvent → WriteFate
  | .accept _ _ f | .finish _ _ f | .ack _ f => f
  | _ => .whole .done

/-- OpenJournal, when the agent starts: none if the lines cannot be read. -/
def openRecords (now : Nat) (file : List UInt8) : Option Records :=
  (codec.readLog maxLine file).map fun rs => dropStale now (loaded rs)

def JournalWorld.openJournal (w : JournalWorld) (fate : CompactFate) : JournalWorld :=
  match w.journal, openRecords codec w.now w.file with
  | none, some rs =>
    -- an error of the compaction is one of OpenJournal: there is no journal then
    match fate with
    | .done => w.compact codec ⟨rs, 0, true⟩ .done
    | .failed | .diesBefore => w
    | .unopened | .diesAfter => {w with file := compacted codec ⟨rs, 0, true⟩}
  | _, _ => w

def JournalWorld.call (w : JournalWorld) (e : JournalEvent) : JournalWorld :=
  match w.journal with
  | none => w
  | some j =>
    match e.record w.now j.records with
    | none => w
    | some r => w.write codec j r e.fate

/-- One call of the journal, or a crash and a new start. -/
def journalStep (w : JournalWorld) (e : JournalEvent) : JournalWorld :=
  match e with
  | .tick d => {w with now := w.now + d}
  | .crash => {w with journal := none}
  | .open fate => w.openJournal codec fate
  | e => w.call codec e

end Operations
end Dbr2.Agent.Commands
