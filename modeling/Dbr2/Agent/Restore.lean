import Dbr2.Agent.RestoreJournal
import Mathlib.Data.List.Sort

/-! RestoreComponents: every component is restored into a staging path beside its
target, then swapped in. Any failure undoes the swaps of the command. -/
namespace Dbr2.Agent
open Lib

inductive ComponentKind
  | volume
  | bindMount
  | config
  /-- A kind this command does not restore, with its name. -/
  | other (name : String)
  deriving DecidableEq

/-- A component of the command, with where it goes. -/
structure RestoreSpec where
  name : String
  kind : ComponentKind
  (snapshotId volumeName volumeDriver : String)
  targetPath : RawPath
  (fileName fsmetaSnapshotId mode selinuxContext : String)
  deriving DecidableEq

structure PathRemap where
  (src dst : RawPath)
  deriving DecidableEq

structure RestoreCommand where
  (restoreId repositoryId : String)
  components : List RestoreSpec
  pathRemaps : List PathRemap
  deriving DecidableEq

structure Snapshot where
  (totalBytes files : Nat)
  tree : Tree

abbrev Repository := String → Option Snapshot

/-- What the command fails with: the cause, and the errors of its rollback. -/
structure Failure where
  cause : Err
  rollback : List Err
  deriving DecidableEq

def letterOrDigit (c : Char) : Bool := c.isAlpha || c.isDigit

/-- `repoIDRe`: a letter or digit, then at most 127 of these, dots, underscores and
dashes. -/
def validId (id : String) : Bool :=
  match id.toList with
  | [] => false
  | c :: cs => letterOrDigit c && decide (cs.length ≤ 127) &&
      cs.all (fun c => letterOrDigit c || c = '.' || c = '_' || c = '-')

/-- A target and the three paths beside it that a restore may use. -/
structure Slot where
  (target staging previous discard : Path)
  deriving DecidableEq

/-- `paths`: all in the parent directory of the target, where a rename is atomic. -/
def paths (id : String) (target : Path) (suffix : String) : Slot where
  target := target
  staging := target.dropLast ++ [".dbr2-staging-" ++ id ++ suffix]
  previous := target.dropLast ++ [".dbr2-old-" ++ id ++ suffix]
  discard := target.dropLast ++ [".dbr2-discard-" ++ id ++ suffix]

/-- The suffix of a bind mount or a file; joining the paths drops a final slash. -/
def suffixOf (base : String) : String := if base = "/" then "-" else "-" ++ base

def RawPath.size (p : RawPath) : Nat := p.text.length

def RawPath.trimSlash (p : RawPath) : List String :=
  if p.parts.getLast? = some "" then p.parts.dropLast else p.parts

/-- `remapper`: the longest prefix that matches is rewritten. A match is of whole
names, of an absolute path. -/
def remap (rs : List PathRemap) (p : Path) : RawPath :=
  match ((rs.filter (fun r => decide (r.src.text ≠ "" ∧ r.dst.text ≠ ""))).insertionSort
      (fun r r' => r'.src.size ≤ r.src.size)).find?
      (fun r => r.src.abs && decide (r.src.trimSlash <+: p)) with
  | some r => ⟨r.dst.abs, r.dst.parts ++ p.drop r.src.trimSlash.length⟩
  | none => ⟨true, p⟩

/-- The files below a directory of a snapshot. -/
def walkFiles (t : Tree) (dir : Path) : List (Path × String) :=
  t.entries.filterMap fun e =>
    match e.2 with
    | .file content => if dir <+: e.1 ∧ e.1 ≠ dir then some (e.1.drop dir.length, content) else none
    | .dir => none

def configSlot (c : RestoreCommand) (file : Path) : Slot :=
  paths c.restoreId (remap c.pathRemaps file).clean (suffixOf (RawPath.base ⟨true, (remap c.pathRemaps file).clean⟩))

def listRoot (t : Tree) : List (String × Entry String) :=
  t.entries.filterMap fun e =>
    match e.1 with
    | [name] => some (name, e.2)
    | _ => none

def digit (c : Char) : Option Nat :=
  if c.isDigit && decide (c.toNat < '8'.toNat) then some (c.toNat - '0'.toNat) else none

/-- `strconv.ParseUint` with base 8 and 32 bits. -/
def parseMode (s : String) : Option Nat :=
  if s = "" then none
  else (s.toList.foldlM (fun n c => (digit c).map (8 * n + ·)) 0).filter (fun n => decide (n < 4294967296))

/-- Writes a whole tree to `p`; a write that fails has left something there. `excl`:
nothing may be there before. -/
def stage (excl : Bool) (p : Path) (t : Tree) : Prog Unit := hostStep fun d w =>
  if !inDir w.fs p || (excl && w.fs.has p) then
    d.ends (.err (permanent ("open " ++ pathText p ++ ": failed"))) w
  else
    match d.fault with
    | .none => d.ends (.ok ()) {w with fs := w.fs.put p t}
    | .fail _ => d.ends (.err (err ("write " ++ pathText p ++ ": failed"))) {w with fs := w.fs.put p d.written}

def mkdir (p : Path) : Prog Unit := hostStep fun d w =>
  if p ≠ [] ∧ !inDir w.fs p then
    d.ends (.err (permanent ("mkdir " ++ pathText p ++ ": not a directory"))) w
  else d.effect ("chown " ++ pathText p ++ ": failed") (fun w => {w with fs := w.fs.mkdir p}) w

/-- The parent directories that have to be made, outermost first. -/
def missingParents (t : Tree) (target : Path) : List Path :=
  target.dropLast.inits.filter (fun p => !t.has p)

def ensureParents (target : Path) : Prog Unit := do
  let w ← Act.get
  Act.each mkdir (missingParents w.fs target)

/-- Sets a field of the component's result. -/
def report (f : ComponentResult → ComponentResult) : Prog Unit :=
  .modify (fun w => {w with result := f w.result})

/-- `begin`: journals a new record, in state staging, before anything is written. -/
def begin (id component : String) (kind : SwapKind) (s : Slot) : Prog Nat := do
  let w ← Act.get
  if w.mem.swaps.any (fun r => decide (r.target = s.target ∧ r.state = .swapped)) then
    .throw (permanent (pathText s.target ++ " was already restored by restore " ++ id))
  else do
    .modify (fun w => {w with
      mem := {w.mem with swaps := w.mem.swaps ++
        [⟨component, kind, s.target, s.staging, s.previous, s.discard, false, .staging⟩]}
      swaps := w.swaps ++ [w.mem.swaps.length]})
    saveJournal
    Act.mapError Err.makePermanent (removeAll s.staging) -- stale from an earlier attempt
    pure w.mem.swaps.length

def errLeaseExpired : Err := permanent ("the restore's stop lease expired and the application " ++
  "was restarted; nothing was swapped")

def World.noteRestored (id : String) (s : Slot) (w : World) : World :=
  {w.note (.renamed id) with restored := (s.target, w.fs.sub s.staging) :: w.restored}

/-- The two renames of a swap. -/
def moveIn (id : String) (s : Slot) (had : Bool) : Prog Unit := do
  Act.when had <| Act.mapError (fun e => (e.wrap "move previous content aside: ").makePermanent)
    (renameNoting (fun w => w.note (.renamed id)) s.target s.previous)
  Act.mapError (fun e => (e.wrap "swap in: ").makePermanent)
    (renameNoting (World.noteRestored id s) s.staging s.target)

/-- `swap`: moves the target aside and the staging content in, journaling first. -/
def swap (id : String) (i : Nat) (s : Slot) : Prog Bool := do
  if ← autoResumed id then .throw errLeaseExpired
  else do
    .modify (fun w => w.note (.checked id))
    let had ← pathExists s.target
    .modify (fun w => w.setSwap i (fun r => {r with hadPrevious := had, state := .swapping}))
    saveJournal
    moveIn id s had
    .modify (fun w => w.setSwap i (fun r => {r with state := .swapped}))
    saveJournal
    pure had

def setMode (mode : String) : Prog Unit :=
  if parseMode mode = none then .throw (permanent ("invalid mode \"" ++ mode ++ "\""))
  else mayFail (permanent "chown or chmod")

/-- `metadata`: owner, mode and extended attributes, which trees do not show here. -/
def metadata (s : RestoreSpec) : Prog Unit := do
  Act.when (s.fsmetaSnapshotId ≠ "") (mayFail (err ("fsmeta snapshot " ++ s.fsmetaSnapshotId)))
  Act.when (s.mode ≠ "") (setMode s.mode)
  Act.when (s.selinuxContext ≠ "") (mayFail (permanent ("set SELinux context " ++ s.selinuxContext)))
  Act.when (s.fsmetaSnapshotId ≠ "") (mayFail (permanent "metadata verification found mismatches"))

def restoreControl : Prog Unit := mayFail (err "container runtime unavailable")

def inspectVolume (name : String) : Prog (Option Volume) := do
  mayFail (err ("inspect volume " ++ name))
  let w ← Act.get
  pure (w.volumes name)

namespace World

def addVolume (w : World) (name driver : String) (mountpoint : RawPath) : World :=
  {w with
    volumes := fun n => if n = name then some ⟨driver, mountpoint⟩ else w.volumes n
    fs := if mountpoint.abs then mountpoint.clean.inits.foldl FileTree.mkdir w.fs else w.fs}

end World

def createVolume (name driver : String) : Prog Volume := hostStep fun d w =>
  match d.fault with
  | .none => d.ends (.ok ⟨driver, d.mountpoint⟩) (w.addVolume name driver d.mountpoint)
  | .fail true => d.ends (.err (err ("create volume " ++ name))) (w.addVolume name driver d.mountpoint)
  | .fail false => d.ends (.err (err ("create volume " ++ name))) w

/-- A volume that is not there is created; the journal says so first. -/
def resolveVolume (s : RestoreSpec) : Prog Volume := do
  match ← inspectVolume s.volumeName with
  | some v => pure v
  | none => do
    .modify (fun w => {w with
      mem := {w.mem with createdVolumes := w.mem.createdVolumes ++ [s.volumeName]}})
    saveJournal
    let v ← createVolume s.volumeName s.volumeDriver
    report (fun r => {r with createdVolume := true})
    pure v

def volume (s : RestoreSpec) : Prog Path := do
  if s.volumeName = "" then .throw (permanent "volume_name is required")
  else do
    restoreControl
    let v ← resolveVolume s
    if v.mountpoint.abs then pure v.mountpoint.clean
    else .throw (permanent ("volume " ++ s.volumeName ++ " (driver " ++ v.driver ++ ") has no local mountpoint"))

def getSnapshot (repo : Repository) (id : String) : Prog Snapshot := do
  mayFail (err ("snapshot " ++ id))
  match repo id with
  | some snap => pure snap
  | none => .throw (permanent ("snapshot " ++ id ++ ": not found"))

def plainName (name : String) : Bool :=
  decide (name ≠ "." ∧ name ≠ "..") && (decide (name = "/") || !name.toList.contains '/')

/-- `singleFile`: the file of a single-stream component, `none` for a directory. -/
def singleFile (s : RestoreSpec) (snap : Snapshot) (target : Path) : Prog (Option String) := do
  if s.fileName ≠ "" then
    if plainName s.fileName then pure (some s.fileName)
    else .throw (permanent ("invalid file_name \"" ++ s.fileName ++ "\""))
  else if s.kind ≠ .bindMount then pure none
  else do
    let w ← Act.get
    if isDir w.fs target then pure none
    else do
      mayFail (err "list snapshot")
      match listRoot snap.tree with
      | [(name, .file _)] => pure (if some name = target.getLast? then some name else none)
      | _ => pure none

/-- A file at the root of a snapshot. -/
def rootFile (snap : Snapshot) (id name : String) : Prog String := do
  mayFail (err "list snapshot")
  match (listRoot snap.tree).find? (fun e => decide (e.1 = name)) with
  | some (_, .file content) => do
    mayFail (err "open stream")
    pure content
  | some (_, .dir) => .throw (err "open stream")
  | none => .throw (permanent ("snapshot " ++ id ++ " has no file " ++ name))

/-- The target of a volume or bind mount, and the suffix of the paths beside it. -/
def resolveTarget (s : RestoreSpec) : Prog (Path × String) := do
  if s.kind = .volume then do
    let mp ← volume s
    pure (mp, "")
  else if !s.targetPath.abs then
    .throw (permanent ("target_path \"" ++ s.targetPath.text ++ "\" is not absolute"))
  else do
    Act.mapError Err.makePermanent (ensureParents s.targetPath.clean)
    pure (s.targetPath.clean, suffixOf s.targetPath.base)

/-- Writes the content beside its target. -/
def stageContent (s : RestoreSpec) (snap : Snapshot) (file : Option String) (staging : Path) :
    Prog Unit := do
  match file with
  | some name => do
    let content ← rootFile snap s.snapshotId name
    stage true staging (.ofFile content)
    report (fun r => {r with files := 1})
  | none => Act.mapError (Err.wrap "restore into staging: ") (stage false staging snap.tree)

/-- `filesystem`: a volume or a bind mount, one swap. -/
def filesystem (repo : Repository) (id : String) (s : RestoreSpec) : Prog Unit := do
  let (target, suffix) ← resolveTarget s
  report (fun r => {r with targetPath := target})
  let snap ← getSnapshot repo s.snapshotId
  report (fun r => {r with bytes := snap.totalBytes, files := snap.files})
  let file ← singleFile s snap target
  mayFail (permanent ("insufficient free space on the filesystem of " ++ pathText target.dropLast))
  let i ← begin id s.name (if file.isSome then .file else .dir) (paths id target suffix)
  stageContent s snap file (paths id target suffix).staging
  metadata s
  let had ← swap id i (paths id target suffix)
  Act.when had <| report (fun r => {r with previousPath := some (paths id target suffix).previous})

/-- One captured file of a config component. -/
def configFile (c : RestoreCommand) (s : RestoreSpec) (f : Path × String) : Prog Unit := do
  if !(remap c.pathRemaps f.1).abs then
    .throw (permanent ("remapped path \"" ++ (remap c.pathRemaps f.1).text ++ "\" is not absolute"))
  else do
    Act.mapError Err.makePermanent (ensureParents (configSlot c f.1).target)
    let i ← begin c.restoreId s.name .file (configSlot c f.1)
    mayFail (err "open file")
    stage true (configSlot c f.1).staging (.ofFile f.2)
    let _ ← swap c.restoreId i (configSlot c f.1)
    report (fun r => {r with files := r.files + 1, bytes := r.bytes + f.2.length})

/-- `config`: the captured files, to their remapped paths, one swap for each. -/
def config (repo : Repository) (c : RestoreCommand) (s : RestoreSpec) : Prog Unit := do
  mayFail (err "list snapshot")
  match repo s.snapshotId with
  | none => .throw (permanent ("snapshot " ++ s.snapshotId ++ ": not found"))
  | some snap => Act.each (configFile c s) (walkFiles snap.tree ["files"])

/-- `component`: by the kind; the others are only reported. -/
def component (repo : Repository) (c : RestoreCommand) (s : RestoreSpec) : Prog Unit := do
  if s.snapshotId = "" then .throw (permanent "snapshot_id is required")
  else
    match s.kind with
    | .volume | .bindMount => do
      filesystem repo c.restoreId s
      report (fun r => {r with status := .restored})
    | .config => do
      config repo c s
      report (fun r => {r with status := .restored})
    | .other name => report (fun r => {r with
        status := .skipped
        error := name ++ " components are not restored by RestoreComponents"})

def skipped (s : RestoreSpec) : ComponentResult :=
  {ComponentResult.new s.name with
    status := .skipped
    error := "skipped: an earlier component failed"}

/-- The loop of `restoreComponents`: after a failure the others are skipped. -/
def restoreLoop (repo : Repository) (c : RestoreCommand) : List RestoreSpec → Prog (List ComponentResult × Option Err)
  | [] => pure ([], none)
  | s :: ss => do
    report (fun _ => .new s.name)
    let r ← Act.attempt (component repo c s)
    let w ← Act.get
    match r with
    | .error e => pure ({w.result with status := .failed, error := e.msg} :: ss.map skipped,
        some (e.wrap ("component " ++ s.name ++ ": ")))
    | .ok _ => do
      let (rs, failure) ← restoreLoop repo c ss
      pure (w.result :: rs, failure)

def saveAfter (es : List Err) : Prog (List Err) := do
  match ← Act.attempt saveJournal with
  | .ok _ => pure es
  | .error e => pure (es ++ [e])

def undoAll (context : String → String) (is : List Nat) : Prog (List Bool × List Err) :=
  Act.collect (undoSwapFor context) is

/-- `rollback`: the swaps of this command, newest first. -/
def rollback : Prog (List Err) := do
  let w ← Act.get
  let (_, es) ← undoAll (fun target => target ++ ": ") w.swaps.reverse
  saveAfter es

def ComponentResult.rolledBack (r : ComponentResult) : ComponentResult :=
  if r.status = .restored then
    {r with
      status := .skipped
      error := "rolled back: another component failed"
      previousPath := none}
  else r

/-- A swap that an earlier attempt left half done. -/
def undoInterrupted (i : Nat) : Prog Unit := do
  let w ← Act.get
  match w.mem.swaps[i]? with
  | none => pure ()
  | some r => Act.when (r.state = .staging ∨ r.state = .swapping) do
    let _ ← Act.mapError Err.makePermanent
      (undoSwapFor (fun target => "undo interrupted swap of " ++ target ++ ": ") i)

/-- `restoreComponents` once it has a job slot. -/
def restoreLocked (repo : Repository) (c : RestoreCommand) : Prog (List ComponentResult × Option Failure) := do
  openJournal c.restoreId
  let w ← Act.get
  Act.each undoInterrupted (List.range w.mem.swaps.length)
  saveJournal
  mayFail (err "repository session")
  .modify (fun w => {w with swaps := []})
  let (rs, failure) ← restoreLoop repo c c.components
  match failure with
  | none => pure (rs, none)
  | some e => do
    let es ← rollback
    pure (rs.map (·.rolledBack), some ⟨e, es⟩)

/-- `restoreComponents`. -/
def restoreComponents (repo : Repository) (c : RestoreCommand) : Prog (List ComponentResult × Option Failure) := do
  if !validId c.restoreId then
    .throw (permanent ("invalid restore_id \"" ++ c.restoreId ++ "\""))
  else if c.components = [] then .throw (permanent "no components to restore")
  else if !validId c.repositoryId then
    .throw (permanent ("invalid repository_id \"" ++ c.repositoryId ++ "\""))
  else do
    mayFail (err "repository connection")
    mayFail (err "waiting for a job slot")
    restoreLocked repo c

end Dbr2.Agent
