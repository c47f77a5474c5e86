import Dbr2.Agent.Quiesce

/-! The journal of a restore: every swap is recorded before it happens, and undone
from its record.

The journal a command holds is `mem`, the one on disk `journal`; a record is named
by its place in the journal. No command of a restore holds the lease manager's
lock, so its timers may run before each step. -/
namespace Dbr2.Agent
open Lib

/-- A step of a command that does not hold the lease manager's lock. -/
def hostStep {α : Type} (f : Draw → World → Outcome Err α × World) : Prog α :=
  Act.prim fun d w => f d (d.before w)

def mayFail (e : Err) : Prog Unit := hostStep fun d w =>
  match d.fault with
  | .none => d.ends (.ok ()) w
  | .fail _ => d.ends (.err e) w

/-- `exists`: whether `os.Lstat` reports no error, be it that the path is not there or
another one. -/
def pathExists (p : Path) : Prog Bool := do
  let w ← Act.get
  if w.fs.has p then
    .modify (fun w => {w with lstats := w.lstats.tail})
    pure (!w.lstats.headD false)
  else pure false

/-- `os.RemoveAll`: a removal that fails may have removed a part. -/
def removeAll (p : Path) : Prog Unit := hostStep fun d w =>
  match d.fault with
  | .none => d.ends (.ok ()) {w with fs := w.fs.removeAll p}
  | .fail _ => d.ends (.err (err ("unlinkat " ++ pathText p ++ ": failed")))
      {w with fs := w.fs.removeSome p d.removed}

def isDir (t : Tree) (p : Path) : Bool := decide (t.get p = some .dir)

def inDir (t : Tree) (p : Path) : Bool := decide (p ≠ []) && isDir t p.dropLast

/-- Whether `os.Rename` can move `p` to `q`: never onto a directory, and onto a file
only a file. -/
def canRename (t : Tree) (p q : Path) : Bool :=
  match t.get p, t.get q with
  | none, _ => false
  | some _, none => inDir t q && decide (¬ p <+: q)
  | some _, some .dir => false
  | some .dir, some (.file _) => false
  | some (.file _), some (.file _) => true

/-- `os.Rename`, with what the log keeps of it. -/
def renameNoting (note : World → World) (p q : Path) : Prog Unit := hostStep fun d w =>
  if canRename w.fs p q && decide (d.fault = .none) then
    d.ends (.ok ()) {note w with fs := w.fs.rename p q}
  else d.ends (.err (err ("rename " ++ pathText p ++ " " ++ pathText q ++ ": failed"))) w

def rename (p q : Path) : Prog Unit := renameNoting id p q

def newJournal (id : String) : Journal := ⟨id, .active, 0, [], [], [], []⟩

def RestoreState.text : RestoreState → String
  | .active => "active"
  | .committed => "committed"
  | .rolledBack => "rolled back"

def loadJournal : Prog (Option Journal) := do
  mayFail (err "read restore journal")
  let w ← Act.get
  pure w.journal

/-- `open`: the journal, or a new one; a finalized restore cannot be changed. -/
def openJournal (id : String) : Prog Unit := do
  match ← loadJournal with
  | none => .modify (fun w => {w with mem := newJournal id})
  | some j =>
    if j.state ≠ .active then
      .throw (permanent ("restore " ++ id ++ " is already " ++ j.state.text))
    else .modify (fun w => {w with mem := j})

namespace World

def touch (w : World) : World := {w with mem := {w.mem with updatedAt := w.now}}

def setSwap (w : World) (i : Nat) (f : SwapRecord → SwapRecord) : World :=
  {w with mem := {w.mem with swaps := w.mem.swaps.modify i f}}

end World

/-- `save`: the file is replaced as a whole, or not at all. -/
def saveJournal : Prog Unit := hostStep fun d w =>
  match d.fault with
  | .none => d.ends (.ok ()) {w.touch with journal := some w.touch.mem}
  | .fail _ => d.ends (.err (err ("journal restore " ++ w.mem.restoreId ++ ": failed"))) w.touch

def SwapState.finished : SwapState → Bool
  | .rolledBack | .committed => true
  | _ => false

/-- `discard`: moves the path aside in one rename, then deletes it. -/
def discard (path aside : Path) : Prog Unit := do
  let there ← pathExists path
  Act.when there do
    removeAll aside
    rename path aside
    removeAll aside

def moveBack (r : SwapRecord) : Prog Bool :=
  if r.state = .staging then pure false -- nothing was moved
  else if r.hadPrevious then do
    -- the previous content is there only if the first rename happened
    let there ← pathExists r.previous
    Act.when there do
      discard r.target r.discard
      rename r.previous r.target
    pure there
  else do
    discard r.target r.discard
    pure true

/-- What `undoSwap` does on the host for a record that is not finished; whether a
restored path was rolled back. -/
def undoRecord (r : SwapRecord) : Prog Bool := do
  removeAll r.staging
  let changed ← moveBack r
  let _ ← Act.attempt (removeAll r.discard)
  pure changed

def undoSwap (i : Nat) : Prog Bool := do
  let w ← Act.get
  match w.mem.swaps[i]? with
  | none => pure false
  | some r =>
    if r.state.finished then pure false
    else do
      let changed ← undoRecord r
      .modify (fun w => w.setSwap i (fun r => {r with state := .rolledBack}))
      pure changed

/-- `undoSwap` with the context its callers give to its error. -/
def undoSwapFor (context : String → String) (i : Nat) : Prog Bool := do
  let w ← Act.get
  let target := ((w.mem.swaps[i]?).map (fun r => pathText r.target)).getD ""
  Act.mapError (Err.wrap (context target)) (undoSwap i)

def finalizedKeep : Nat := 7 * 24 * 3600

/-- Removes the staging content of a swap that never began; whether it did. -/
def cleanupSwap (i : Nat) : Prog Bool := do
  let w ← Act.get
  match w.mem.swaps[i]? with
  | none => pure false
  | some r =>
    if r.state ≠ .staging then pure false
    else
      match ← Act.attempt (removeAll r.staging) with
      | .error _ => pure false -- logged
      | .ok _ => do
        .modify (fun w => w.setSwap i (fun r => {r with state := .rolledBack}))
        pure true

def cleanupSwaps : List Nat → Prog Bool
  | [] => pure false
  | i :: is => do
    let b ← cleanupSwap i
    let bs ← cleanupSwaps is
    pure (b || bs)

/-- `cleanupRestores`, at agent start: an unreadable journal is skipped. -/
def cleanupRestores : Prog Unit := do
  match ← Act.attempt loadJournal with
  | .error _ | .ok none => pure ()
  | .ok (some j) =>
    if j.state ≠ .active then
      .modify (fun w =>
        {w with journal := if j.updatedAt + finalizedKeep < w.now then none else some j})
    else do
      .modify (fun w => {w with mem := j})
      let changed ← cleanupSwaps (List.range j.swaps.length)
      Act.when changed do
        let _ ← Act.attempt saveJournal

end Dbr2.Agent
