import Dbr2.Lib.Lists
import Dbr2.Lib.PathParts
import Dbr2.Agent.Host
import Dbr2.Platform.Bundle
import Dbr2.Platform.Workflow

/-! A platform backup (`RunPlatformBackup` in `workflows/platform/platform.go`): the bundle that the
server exports is written to a temporary file in the bundle directory and to a snapshot in the
System Repository, each until it fails. The file is then renamed, and old bundles are pruned by
their names. -/
namespace Dbr2.Platform.BackupRun
open List
open Lib.Utf8 (Bytes)
open Lib.GoPath
open Agent (Err err permanent)
open RecoveryBundle (hexEncode text)

structure Clock where
  (year month day hour minute second : Nat)
  deriving DecidableEq

def padded (width n : Nat) : Text :=
  List.replicate (width - (Nat.toDigits 10 n).length) '0' ++ Nat.toDigits 10 n

def filePrefix : Text := ['d', 'b', 'r', '2', '-', 'p', 'l', 'a', 't', 'f', 'o', 'r', 'm', '-']
def fileSuffix : Text := ['.', 't', 'a', 'r', '.', 'z', 's', 't', '.', 'a', 'g', 'e']

def stamp (t : Clock) : Text :=
  padded 4 t.year ++ padded 2 t.month ++ padded 2 t.day ++ 'T' :: padded 2 t.hour ++ padded 2 t.minute ++
    padded 2 t.second ++ ['Z']

def fileName (t : Clock) : Text := filePrefix ++ stamp t ++ fileSuffix

def tempName (random : List (Fin 10)) : Text :=
  '.' :: filePrefix ++ (random.map fun d : Fin 10 => Char.ofNat (48 + d.val)) ++ ['.', 't', 'm', 'p']

/-- An entry of the bundle directory. `other` is a directory, onto which no file is renamed;
a symbolic link, which a rename would replace, is not among the entries. -/
inductive Node
  | file (data : Bytes)
  | other
  deriving DecidableEq

/-- The bundle directory, by name. -/
abbrev Dir := AList fun _ : Text => Node

/-- A message of the export stream. -/
structure Message where
  data : Bytes
  summary : Bool
  deriving DecidableEq

def DefaultKeep : Nat := 14

/-- What a run is given, and how each of its calls ends. -/
structure Run where
  bundleDir : Text
  keep : Int
  backupID : Nat
  systemRepositoryID : String
  now : Clock
  dir : Dir
  /-- The name of the temporary file is one that does not exist. -/
  random : List (Fin 10)
  fresh : tempName random ∉ dir
  (createErr chmodErr : Option Err)
  removeFails : Bool
  (getErr exportErr : Option Err)
  messages : List Message
  recvErr : Option Err
  writeErr : Nat → Option Err
  /-- The snapshot ends while it is given the data of this message, after so many bytes. -/
  snapEnds : Nat → Option Nat
  snapshot : Except Err (String × Nat)
  (syncErr closeErr renameErr : Option Err)
  readDirFails : Bool
  pruneFails : Text → Bool

namespace Run
variable (r : Run)

def name : Text := fileName r.now
def temp : Text := tempName r.random

def received : Bytes := r.messages.flatMap (·.data)

def keepCount : Nat := if r.keep ≤ 0 then DefaultKeep else r.keep.toNat

/-- The error of the snapshot, and the snapshot that it has recorded of what it has read. -/
def snapErr : Option Err :=
  match r.snapshot with
  | .error e => some e
  | .ok (_, n) => if 0 < n then some (err ("snapshot recorded " ++ toString n ++ " errors")) else none

def recorded (content : Bytes) : Option (String × Bytes) :=
  match r.snapshot with
  | .error _ => none
  | .ok (id, _) => some (id, content)

end Run

/-- The two targets while the export is received: what has been written to the temporary file, as long
as it is open, and what the snapshot has read, as long as it runs. -/
structure Sinks where
  dir : Dir
  (file snap : Option Bytes)
  snapshots : Option (String × Bytes)
  problems : List String
  data : Bytes

namespace Sinks

def problem (s : Sinks) (msg : String) : Sinks := {s with problems := s.problems ++ [msg]}

def dropFile (r : Run) (s : Sinks) : Sinks :=
  {s with dir := if r.removeFails then s.dir else s.dir.erase r.temp, file := none}

def abortFile (r : Run) (msg : String) (s : Sinks) : Sinks :=
  match s.file with
  | none => s
  | some _ => (s.dropFile r).problem ("bundle directory: " ++ msg)

def endSnap (r : Run) (content : Bytes) (s : Sinks) : Sinks := {s with snap := none, snapshots := r.recorded content}

def abortSnap (r : Run) (s : Sinks) : Sinks :=
  match s.snap with
  | none => s
  | some got => s.endSnap r got

def abort (r : Run) (s : Sinks) : Sinks := (s.abortSnap r).abortFile r "aborted"

end Sinks

def openFile (r : Run) : Sinks :=
  let s : Sinks := ⟨r.dir, none, none, none, [], []⟩
  if r.bundleDir = [] then s.problem "bundle directory: not configured"
  else
    match r.createErr, r.chmodErr with
    | some e, _ => s.problem ("bundle directory: " ++ e.msg)
    | none, some e =>
      ({s with dir := s.dir.insert r.temp (.file [])}.dropFile r).problem ("bundle directory: " ++ e.msg)
    | none, none => {s with dir := s.dir.insert r.temp (.file []), file := some []}

def startSnapshot (r : Run) (s : Sinks) : Sinks :=
  if r.systemRepositoryID = "" then s.problem "System Repository: none designated"
  else
    match r.getErr with
    | some e => s.problem ("System Repository: " ++ e.msg)
    | none => {s with snap := some []}

def writeFile (r : Run) (i : Nat) (d : Bytes) (s : Sinks) : Sinks :=
  match s.file with
  | none => s
  | some w =>
    match r.writeErr i with
    | some e => s.abortFile r e.msg
    | none => {s with dir := s.dir.insert r.temp (.file (w ++ d)), file := some (w ++ d)}

/-- The snapshot reads through a pipe, which it may close early. -/
def writeSnap (r : Run) (i : Nat) (d : Bytes) (s : Sinks) : Sinks :=
  match s.snap with
  | none => s
  | some got =>
    match r.snapEnds i with
    | some k =>
      (s.endSnap r (got ++ d.take k)).problem
        ("System Repository: " ++ ((r.snapErr.map (·.msg)).getD "snapshot ended"))
    | none => {s with snap := some (got ++ d)}

def take (r : Run) (i : Nat) (d : Bytes) (s : Sinks) : Sinks :=
  if d = [] then s else writeSnap r i d (writeFile r i d {s with data := s.data ++ d})

def allFailed (s : Sinks) : Err :=
  err ("every platform backup target failed: " ++ "; ".intercalate s.problems)

/-- The loop over the messages, at number `i`; whether a summary has come. -/
def receive (r : Run) : Nat → List Message → Bool → Sinks → Sinks × Except Err Bool
  | _, [], summary, s =>
    match r.recvErr with
    | some e => (s, .error e)
    | none => (s, .ok summary)
  | i, m :: ms, summary, s =>
    let s' := take r i m.data s
    if m.data ≠ [] ∧ s'.file = none ∧ s'.snap = none then (s', .error (allFailed s'))
    else receive r (i + 1) ms (summary || m.summary) s'

/-- `snap.finish` at the end of the export; the ID that is reported. -/
def finishSnap (r : Run) (s : Sinks) : Sinks × String :=
  match s.snap with
  | none => (s, "")
  | some got =>
    match r.snapErr with
    | some e => ((s.endSnap r got).problem ("System Repository: " ++ e.msg), "")
    | none => (s.endSnap r got, ((r.recorded got).map (·.1)).getD "")

/-- `commitFile`: a rename onto a directory fails. -/
def commitErr (r : Run) (s : Sinks) : Option Err :=
  [r.syncErr, r.closeErr,
    if s.dir.lookup r.name = some .other then some (err "rename: file exists") else r.renameErr].findSome? id

/-- `prune` looks at regular files with the prefix and the suffix. -/
def isBundle (d : Dir) (n : Text) : Bool :=
  (match d.lookup n with
    | some (.file _) => true
    | _ => false) && hasPrefix n filePrefix && fileSuffix.isSuffixOf n

/-- The bundles by name, newest first. -/
def bundles (d : Dir) : List Text := (d.keys.filter (isBundle d)).insertionSort (· ≥ ·)

def remove (r : Run) (d : Dir) (n : Text) : Dir := if r.pruneFails n then d else d.erase n

def prune (r : Run) (d : Dir) : Dir :=
  if r.readDirFails then d else ((bundles d).drop r.keepCount).foldl (remove r) d

def finishFile (r : Run) (s : Sinks) : Sinks × Text :=
  match s.file with
  | none => (s, [])
  | some w =>
    match commitErr r s with
    | some e => ((s.dropFile r).problem ("bundle directory: " ++ e.msg), [])
    | none =>
      ({s with dir := prune r ((s.dir.erase r.temp).insert r.name (.file w)), file := none}, join r.bundleDir r.name)

/-- One target that took the bundle is enough. -/
def outcomeOf (sha256 : Bytes → Bytes) (r : Run) (s : Sinks) (snapshotID : String) (path : Text) :
    Except Err Outcome :=
  if snapshotID = "" ∧ path = [] then .error (allFailed s)
  else
    .ok {
      backupID := r.backupID
      state := if s.problems = [] then .succeeded else .partialOutcome
      fileName := String.ofList r.name
      sha256 := String.ofList (text (hexEncode (sha256 s.data)))
      sizeBytes := s.data.length
      snapshotID := snapshotID
      repositoryID := if snapshotID = "" then "" else r.systemRepositoryID
      bundlePath := String.ofList path
      error := "; ".intercalate s.problems }

def finish (sha256 : Bytes → Bytes) (r : Run) (s : Sinks) : Sinks × Except Err Outcome :=
  let snapshot := finishSnap r s
  let file := finishFile r snapshot.1
  (file.1, outcomeOf sha256 r file.1 snapshot.2 file.2)

/-- A stream that ends without its summary counts as truncated. -/
def copyExport (sha256 : Bytes → Bytes) (r : Run) (s : Sinks) : Sinks × Except Err Outcome :=
  match receive r 0 r.messages false s with
  | (s', .error e) => (s'.abort r, .error e)
  | (s', .ok false) => (s'.abort r, .error (err "the bundle stream ended without its summary (truncated)"))
  | (s', .ok true) => finish sha256 r s'

/-- `RunPlatformBackup`. -/
def runPlatformBackup (sha256 : Bytes → Bytes) (r : Run) : Sinks × Except Err Outcome :=
  let s := startSnapshot r (openFile r)
  if s.file = none ∧ s.snap = none then
    (s, .error (permanent ("no platform backup target is available: " ++ "; ".intercalate s.problems)))
  else
    match r.exportErr with
    | some e => (s.abort r, .error e)
    | none => copyExport sha256 r s

variable (r : Run)

theorem hasPrefix_name : hasPrefix r.name filePrefix = true := by
  rw [Run.name, fileName, append_assoc]
  exact List.isPrefixOf_iff_prefix.2 (prefix_append _ _)

theorem isSuffixOf_name : fileSuffix.isSuffixOf r.name = true :=
  isSuffixOf_iff_suffix.2 (suffix_append _ _)

theorem hasPrefix_temp : hasPrefix r.temp filePrefix = false := rfl

theorem name_ne_temp : r.name ≠ r.temp := by
  intro h
  have hname := hasPrefix_name r
  rw [h, hasPrefix_temp] at hname
  cases hname

namespace Run
variable (r : Run)

def created : Bool := decide (r.bundleDir ≠ []) && r.createErr.isNone

/-- The temporary file is made and written without an error. -/
structure Writes : Prop where
  created : r.created = true
  chmod : r.chmodErr = none
  write : ∀ i m, r.messages[i]? = some m → m.data ≠ [] → r.writeErr i = none

structure Complete : Prop where
  exported : r.exportErr = none
  recv : r.recvErr = none
  summary : r.messages.any (·.summary) = true

structure Commits : Prop extends r.Writes, r.Complete where
  sync : r.syncErr = none
  close : r.closeErr = none
  rename : r.dir.lookup r.name ≠ some .other ∧ r.renameErr = none

end Run

/-- What holds of the file while the export is received: it holds `fd` as long as it is open; when it is
gone it was removed, if that could be done, and has left a problem. -/
structure FileSound (r : Run) (fd : Bytes) (s : Sinks) : Prop where
  frame : ∀ n, n ≠ r.temp → s.dir.lookup n = r.dir.lookup n
  file : ∀ w, s.file = some w → w = fd ∧ r.created = true ∧ r.temp ∈ s.dir
  gone : s.file = none → (r.temp ∈ s.dir ↔ r.created = true ∧ r.removeFails = true) ∧ s.problems ≠ []

structure Sound (r : Run) (fd sd : Bytes) (s : Sinks) : Prop extends FileSound r fd s where
  snap : ∀ got, s.snap = some got → got = sd
  ended : s.snap = none → s.problems ≠ []

section
variable {r : Run} {fd sd : Bytes} {s : Sinks}

theorem dropFile_frame (n : Text) (hn : n ≠ r.temp) : (s.dropFile r).dir.lookup n = s.dir.lookup n := by
  unfold Sinks.dropFile
  cases r.removeFails with
  | true => rfl
  | false => exact AList.lookup_erase_ne hn

theorem temp_mem_dropFile (h : r.temp ∈ s.dir) : r.temp ∈ (s.dropFile r).dir ↔ r.removeFails = true := by
  unfold Sinks.dropFile
  cases hr : r.removeFails with
  | true => simp [h]
  | false => simp

theorem problem_ne_nil (msg : String) : (s.problem msg).problems ≠ [] := by
  simp [Sinks.problem]

theorem Sound.abortFile (h : Sound r fd sd s) (msg : String) (fd' : Bytes) :
    Sound r fd' sd (s.abortFile r msg) ∧ (s.abortFile r msg).file = none := by
  unfold Sinks.abortFile
  cases hf : s.file with
  | none =>
    refine ⟨⟨⟨h.frame, ?_, h.gone⟩, h.snap, h.ended⟩, hf⟩
    intro w hw
    rw [hf] at hw
    cases hw
  | some w =>
    obtain ⟨-, hcreated, htemp⟩ := h.file w hf
    refine ⟨⟨⟨?_, ?_, ?_⟩, h.snap, ?_⟩, rfl⟩
    · intro n hn
      exact (dropFile_frame n hn).trans (h.frame n hn)
    · intro w hw
      cases hw
    · intro _
      refine ⟨?_, problem_ne_nil _⟩
      rw [hcreated]
      exact (temp_mem_dropFile htemp).trans (by simp)
    · intro _
      exact problem_ne_nil _

theorem Sound.writeFile (h : Sound r fd sd s) (i : Nat) (d : Bytes) : Sound r (fd ++ d) sd (writeFile r i d s) := by
  unfold BackupRun.writeFile
  cases hf : s.file with
  | none =>
    refine ⟨⟨h.frame, ?_, h.gone⟩, h.snap, h.ended⟩
    intro w hw
    rw [hf] at hw
    cases hw
  | some w =>
    obtain ⟨rfl, hcreated, -⟩ := h.file w hf
    cases r.writeErr i with
    | some e => exact (h.abortFile e.msg _).1
    | none =>
      refine ⟨⟨?_, ?_, ?_⟩, h.snap, h.ended⟩
      · intro n hn
        exact (AList.lookup_insert_ne hn).trans (h.frame n hn)
      · intro w' hw'
        obtain rfl := Option.some.inj hw'
        exact ⟨rfl, hcreated, (AList.mem_insert _).2 (.inl rfl)⟩
      · intro hno
        cases hno

theorem Sound.endSnap (h : Sound r fd sd s) (content sd' : Bytes) (msg : String) :
    Sound r fd sd' ((s.endSnap r content).problem msg) := by
  refine ⟨⟨h.frame, h.file, ?_⟩, ?_, ?_⟩
  · intro hf
    exact ⟨(h.gone hf).1, problem_ne_nil _⟩
  · intro got hgot
    cases hgot
  · intro _
    exact problem_ne_nil _

theorem Sound.writeSnap (h : Sound r fd sd s) (i : Nat) (d : Bytes) : Sound r fd (sd ++ d) (writeSnap r i d s) := by
  unfold BackupRun.writeSnap
  cases hs : s.snap with
  | none =>
    refine ⟨⟨h.frame, h.file, h.gone⟩, ?_, h.ended⟩
    intro got hgot
    rw [hs] at hgot
    cases hgot
  | some got =>
    obtain rfl := h.snap got hs
    cases r.snapEnds i with
    | some k => exact h.endSnap _ _ _
    | none =>
      refine ⟨⟨h.frame, h.file, h.gone⟩, ?_, ?_⟩
      · intro got' hgot'
        exact (Option.some.inj hgot').symm
      · intro hno
        cases hno

variable (i : Nat)

theorem writeFile_data (d : Bytes) : (writeFile r i d s).data = s.data := by
  unfold BackupRun.writeFile Sinks.abortFile
  cases s.file with
  | none => rfl
  | some w => cases r.writeErr i <;> rfl

theorem writeSnap_data (d : Bytes) : (writeSnap r i d s).data = s.data := by
  unfold BackupRun.writeSnap
  cases s.snap with
  | none => rfl
  | some got => cases r.snapEnds i <;> rfl

theorem take_data (d : Bytes) : (take r i d s).data = s.data ++ d := by
  unfold take
  split
  · rename_i hd
    rw [hd, append_nil]
  · rw [writeSnap_data, writeFile_data]

theorem Sound.take (h : Sound r s.data s.data s) (i : Nat) (d : Bytes) :
    Sound r (take r i d s).data (take r i d s).data (take r i d s) := by
  rw [take_data]
  unfold BackupRun.take
  split
  · rename_i hd
    rw [hd, append_nil]
    exact h
  · have hdata : Sound r s.data s.data {s with data := s.data ++ d} := ⟨⟨h.frame, h.file, h.gone⟩, h.snap, h.ended⟩
    exact (hdata.writeFile i d).writeSnap i d

theorem Sound.receive {ms : List Message} {i : Nat} {b : Bool} (h : Sound r s.data s.data s) :
    Sound r (receive r i ms b s).1.data (receive r i ms b s).1.data (receive r i ms b s).1 ∧
      ∀ b', (receive r i ms b s).2 = .ok b' → (receive r i ms b s).1.data = s.data ++ ms.flatMap (·.data) := by
  induction ms generalizing i b s with
  | nil =>
    unfold BackupRun.receive
    cases r.recvErr with
    | some e => exact ⟨h, by simp⟩
    | none => exact ⟨h, by simp⟩
  | cons m ms ih =>
    unfold BackupRun.receive
    have htake := h.take i m.data
    dsimp only
    split
    · exact ⟨htake, by simp⟩
    obtain ⟨hsound, hdata⟩ := ih (i := i + 1) (b := b || m.summary) htake
    refine ⟨hsound, fun b' hb' => ?_⟩
    rw [hdata b' hb', take_data, flatMap_cons, append_assoc]

inductive Opened (r : Run) : Sinks → Prop
  | missing (created : r.created = false) (msg : String) :
      Opened r (Sinks.problem ⟨r.dir, none, none, none, [], []⟩ msg)
  | removed (created : r.created = true) (chmod : r.chmodErr ≠ none) (msg : String) :
      Opened r ((Sinks.dropFile r ⟨r.dir.insert r.temp (.file []), none, none, none, [], []⟩).problem msg)
  | opened (created : r.created = true) (chmod : r.chmodErr = none) :
      Opened r ⟨r.dir.insert r.temp (.file []), some [], none, none, [], []⟩

theorem openFile_opened (r : Run) : Opened r (openFile r) := by
  unfold openFile
  by_cases hdir : r.bundleDir = []
  · rw [if_pos hdir]
    exact .missing (by simp [Run.created, hdir]) _
  rw [if_neg hdir]
  cases hc : r.createErr with
  | some e => exact .missing (by simp [Run.created, hc]) _
  | none =>
    have hcreated : r.created = true := by simp [Run.created, hdir, hc]
    cases hm : r.chmodErr with
    | some e => exact .removed hcreated (by simp [hm]) _
    | none => exact .opened hcreated hm

theorem Opened.sound (h : Opened r s) : FileSound r [] s := by
  have htemp : r.temp ∈ r.dir.insert r.temp (.file []) := (AList.mem_insert _).2 (.inl rfl)
  cases h with
  | missing created msg =>
    refine ⟨fun _ _ => rfl, ?_, ?_⟩
    · intro w hw
      cases hw
    · -- the name is free
      intro _
      refine ⟨?_, problem_ne_nil _⟩
      rw [created]
      exact iff_of_false r.fresh (by simp)
  | removed created chmod msg =>
    refine ⟨?_, ?_, ?_⟩
    · intro n hn
      exact (dropFile_frame n hn).trans (AList.lookup_insert_ne hn)
    · intro w hw
      cases hw
    · intro _
      refine ⟨?_, problem_ne_nil _⟩
      rw [created]
      exact (temp_mem_dropFile htemp).trans (by simp)
  | opened created chmod =>
    refine ⟨?_, ?_, ?_⟩
    · intro n hn
      exact AList.lookup_insert_ne hn
    · intro w hw
      exact ⟨(Option.some.inj hw).symm, created, htemp⟩
    · intro hno
      cases hno

theorem Opened.data (h : Opened r s) : s.data = [] := by
  cases h <;> rfl

theorem Opened.snap (h : Opened r s) : s.snap = none := by
  cases h <;> rfl

theorem Opened.isSome (h : Opened r s) : s.file.isSome = true ↔ r.created = true ∧ r.chmodErr = none := by
  cases h with
  | missing created msg => simp [Sinks.problem, created]
  | removed created chmod msg => simp [Sinks.problem, Sinks.dropFile, chmod]
  | opened created chmod => simp [created, chmod]

theorem FileSound.problem (h : FileSound r fd s) (msg : String) : FileSound r fd (s.problem msg) := by
  refine ⟨h.frame, h.file, ?_⟩
  intro hf
  exact ⟨(h.gone hf).1, problem_ne_nil _⟩

theorem Opened.start_sound (h : Opened r s) : Sound r [] [] (startSnapshot r s) := by
  have hproblem : ∀ msg, Sound r [] [] (s.problem msg) := by
    intro msg
    refine ⟨h.sound.problem msg, ?_, fun _ => problem_ne_nil _⟩
    intro got hgot
    rw [Sinks.problem, h.snap] at hgot
    cases hgot
  unfold startSnapshot
  split
  · exact hproblem _
  cases r.getErr with
  | some e => exact hproblem _
  | none =>
    refine ⟨⟨h.sound.frame, h.sound.file, h.sound.gone⟩, ?_, ?_⟩
    · intro got hgot
      exact (Option.some.inj hgot).symm
    · intro hno
      cases hno

theorem startSnapshot_kept : (startSnapshot r s).data = s.data ∧ (startSnapshot r s).file = s.file := by
  unfold startSnapshot
  split
  · exact ⟨rfl, rfl⟩
  · cases r.getErr <;> exact ⟨rfl, rfl⟩

theorem writeFile_isSome (d : Bytes) :
    (writeFile r i d s).file.isSome = true ↔ s.file.isSome = true ∧ r.writeErr i = none := by
  unfold writeFile Sinks.abortFile
  cases hf : s.file with
  | none => simp [hf]
  | some w =>
    cases r.writeErr i with
    | some e => simp [Sinks.problem, Sinks.dropFile]
    | none => simp

theorem writeSnap_file (d : Bytes) : (writeSnap r i d s).file = s.file := by
  unfold writeSnap
  cases s.snap with
  | none => rfl
  | some got => cases r.snapEnds i <;> rfl

theorem take_isSome (d : Bytes) :
    (take r i d s).file.isSome = true ↔ s.file.isSome = true ∧ (d ≠ [] → r.writeErr i = none) := by
  unfold take
  split
  · rename_i hd
    simp [hd]
  rename_i hd
  rw [writeSnap_file, writeFile_isSome]
  simp [hd]

theorem receive_isSome {ms : List Message} {i : Nat} {b : Bool} : (receive r i ms b s).1.file.isSome = true ↔
      s.file.isSome = true ∧ ∀ j m, ms[j]? = some m → m.data ≠ [] → r.writeErr (i + j) = none := by
  induction ms generalizing i b s with
  | nil =>
    unfold receive
    cases r.recvErr <;> simp
  | cons m ms ih =>
    have hsplit : (∀ j m', (m :: ms)[j]? = some m' → m'.data ≠ [] → r.writeErr (i + j) = none) ↔
        (m.data ≠ [] → r.writeErr i = none) ∧
          ∀ j m', ms[j]? = some m' → m'.data ≠ [] → r.writeErr (i + 1 + j) = none := by
      constructor
      · intro h
        refine ⟨h 0 m rfl, fun j m' hm' => ?_⟩
        rw [Nat.add_right_comm, Nat.add_assoc]
        exact h (j + 1) m' hm'
      · rintro ⟨hzero, hsucc⟩ j m' hm'
        cases j with
        | zero =>
          obtain rfl := Option.some.inj hm'
          exact hzero
        | succ j =>
          rw [Nat.add_comm j 1, ← Nat.add_assoc]
          exact hsucc j m' hm'
    rw [hsplit, ← and_assoc, ← take_isSome]
    unfold receive
    dsimp only
    split
    · rename_i hstop
      simp [hstop.2.1]
    · exact ih

/-- The whole export has been received, or it has failed, or there is no file to write it to. -/
inductive Received (r : Run) (summary : Bool) : Sinks × Except Err Bool → Prop
  | complete {s : Sinks} (recv : r.recvErr = none) : Received r summary (s, .ok summary)
  | failed {s : Sinks} (recv : r.recvErr ≠ none) (e : Err) : Received r summary (s, .error e)
  | stopped {s : Sinks} (file : s.file = none) (e : Err) : Received r summary (s, .error e)

theorem receive_received (ms : List Message) (i : Nat) (b : Bool) :
    Received r (b || ms.any (·.summary)) (receive r i ms b s) := by
  induction ms generalizing i b s with
  | nil =>
    unfold receive
    rw [any_nil, Bool.or_false]
    cases hr : r.recvErr with
    | some e => exact .failed (by simp [hr]) e
    | none => exact .complete hr
  | cons m ms ih =>
    unfold receive
    dsimp only
    split
    · rename_i hstop
      exact .stopped hstop.2.1 _
    · rw [any_cons, ← Bool.or_assoc]
      exact ih (i + 1) (b || m.summary)

theorem abort_gone (h : Sound r fd sd s) : r.temp ∈ (s.abort r).dir ↔ r.created = true ∧ r.removeFails = true := by
  have hsnap : FileSound r fd (s.abortSnap r) := by
    unfold Sinks.abortSnap
    cases s.snap with
    | none => exact h.toFileSound
    | some got => exact ⟨h.frame, h.file, h.gone⟩
  unfold Sinks.abort Sinks.abortFile
  cases hf : (s.abortSnap r).file with
  | none => exact (hsnap.gone hf).1
  | some w =>
    obtain ⟨-, hcreated, htemp⟩ := hsnap.file w hf
    rw [hcreated]
    exact (temp_mem_dropFile htemp).trans (by simp)

structure SnapFinished (r : Run) (s s₁ : Sinks) (snapshotID : String) : Prop where
  file : FileSound r s.data s₁
  kept : s₁.file = s.file
  data : s₁.data = s.data
  reported : snapshotID ≠ "" → s₁.snapshots = some (snapshotID, s.data)
  clear : s₁.problems = [] → ∃ id, s₁.snapshots = some (id, s.data)

/-- How the snapshot ends. -/
theorem finishSnap_spec (h : Sound r s.data s.data s) : SnapFinished r s (finishSnap r s).1 (finishSnap r s).2 := by
  unfold finishSnap
  cases hs : s.snap with
  | none => exact ⟨h.toFileSound, rfl, rfl, fun hne => absurd rfl hne, fun hno => absurd hno (h.ended hs)⟩
  | some got =>
    obtain rfl := h.snap got hs
    cases he : r.snapErr with
    | some e =>
      refine ⟨(h.endSnap _ s.data _).toFileSound, rfl, rfl, fun hne => absurd rfl hne, fun hno => ?_⟩
      exact absurd hno (problem_ne_nil _)
    | none =>
      obtain ⟨id, hid⟩ : ∃ id, r.recorded s.data = some (id, s.data) := by
        unfold Run.snapErr at he
        unfold Run.recorded
        cases hsnap : r.snapshot with
        | error e => simp [hsnap] at he
        | ok p => exact ⟨p.1, rfl⟩
      have hreported : ((r.recorded s.data).map (·.1)).getD "" = id := by rw [hid]; rfl
      refine ⟨⟨h.frame, h.file, h.gone⟩, rfl, rfl, fun _ => ?_, fun _ => ⟨id, hid⟩⟩
      dsimp only
      rw [hreported]
      exact hid

theorem commitErr_eq_none_iff (h : FileSound r fd s) : commitErr r s = none ↔
    r.syncErr = none ∧ r.closeErr = none ∧ r.dir.lookup r.name ≠ some .other ∧ r.renameErr = none := by
  unfold commitErr
  rw [h.frame r.name (name_ne_temp r)]
  by_cases hother : r.dir.lookup r.name = some .other
  · simp [hother]
  · simp [hother]

/-- What the end of the file leaves: no file and a problem, or the file under its name. -/
inductive FileFinished (r : Run) (s s₁ : Sinks) : Text → Prop
  | dropped (uncommitted : ¬ r.Commits) (gone : r.temp ∈ s₁.dir ↔ r.created = true ∧ r.removeFails = true)
      (problem : s₁.problems ≠ []) : FileFinished r s s₁ []
  | committed (commits : r.Commits) (problems : s₁.problems = s.problems)
      (dir : s₁.dir = prune r ((s.dir.erase r.temp).insert r.name (.file s.data))) :
      FileFinished r s s₁ (join r.bundleDir r.name)

/-- The file is renamed exactly when every call for it succeeds. -/
theorem finishFile_spec (h : FileSound r s.data s) (hwrites : s.file.isSome = true ↔ r.Writes)
    (hcomplete : r.Complete) : FileFinished r s (finishFile r s).1 (finishFile r s).2 ∧
      (finishFile r s).1.data = s.data ∧ (finishFile r s).1.snapshots = s.snapshots := by
  have hcommit := commitErr_eq_none_iff h
  unfold finishFile
  cases hf : s.file with
  | none =>
    refine ⟨.dropped (fun hc => ?_) (h.gone hf).1 (h.gone hf).2, rfl, rfl⟩
    have hsome := hwrites.2 hc.toWrites
    rw [hf] at hsome
    cases hsome
  | some w =>
    obtain ⟨rfl, hcreated, htemp⟩ := h.file w hf
    cases he : commitErr r s with
    | some e =>
      refine ⟨.dropped (fun hc => ?_) ?_ (problem_ne_nil _), rfl, rfl⟩
      · rw [hcommit.2 ⟨hc.sync, hc.close, hc.rename⟩] at he
        cases he
      · rw [hcreated]
        exact (temp_mem_dropFile htemp).trans (by simp)
    | none =>
      obtain ⟨hsync, hclose, hrename⟩ := hcommit.1 he
      have hw := hwrites.1 (by rw [hf]; rfl)
      exact ⟨.committed ⟨hw, hcomplete, hsync, hclose, hrename⟩ rfl rfl, rfl, rfl⟩

end

namespace Run
variable (r : Run)

def newer : List Text := r.dir.keys.filter fun n => isBundle r.dir n && decide (r.name < n)

def Survives : Prop :=
  r.readDirFails = true ∨ r.pruneFails r.name = true ∨ r.newer.length < r.keepCount

instance instDecidableSurvives : Decidable r.Survives := inferInstanceAs (Decidable (_ ∨ _ ∨ _))

end Run

theorem foldl_remove_lookup (l : List Text) (d : Dir) (n : Text) :
    (l.foldl (remove r) d).lookup n = if n ∈ l ∧ r.pruneFails n = false then none else d.lookup n := by
  induction l generalizing d with
  | nil => simp
  | cons m l ih =>
    rw [foldl_cons, ih]
    unfold remove
    by_cases hn : n ∈ l ∧ r.pruneFails n = false
    · rw [if_pos hn, if_pos ⟨mem_cons_of_mem _ hn.1, hn.2⟩]
    rw [if_neg hn]
    by_cases hm : n = m
    · subst hm
      cases hf : r.pruneFails n with
      | true => simp
      | false => simp
    have hcons : ¬ (n ∈ m :: l ∧ r.pruneFails n = false) := by
      rintro ⟨hmem, hf⟩
      exact hn ⟨(mem_cons.1 hmem).resolve_left hm, hf⟩
    rw [if_neg hcons]
    cases r.pruneFails m with
    | true => rfl
    | false => exact AList.lookup_erase_ne hm

theorem prune_lookup_none {r : Run} {d : Dir} {n : Text} (h : d.lookup n = none) : (prune r d).lookup n = none := by
  unfold prune
  split
  · exact h
  rw [foldl_remove_lookup]
  split
  · rfl
  · exact h

theorem bundles_descending (d : Dir) : (bundles d).Pairwise (· > ·) := by
  have hnd : (bundles d).Nodup :=
    (perm_insertionSort _ _).nodup_iff.2 (d.keys_nodup.filter _)
  have hge : (bundles d).Pairwise (· ≥ ·) := pairwise_insertionSort _ _
  exact (hge.and hnd).imp fun h => lt_of_le_of_ne h.1 (Ne.symm h.2)

theorem mem_bundles {d : Dir} {n : Text} : n ∈ bundles d ↔ n ∈ d ∧ isBundle d n = true := by
  rw [bundles, mem_insertionSort, mem_filter, AList.mem_keys]

theorem newer_length {r : Run} {d : Dir} (w : Bytes) (hframe : ∀ n, n ≠ r.temp → d.lookup n = r.dir.lookup n) :
    ((bundles ((d.erase r.temp).insert r.name (.file w))).filter (r.name < ·)).length = r.newer.length := by
  apply List.Perm.length_eq
  have hnd : (bundles ((d.erase r.temp).insert r.name (.file w))).Nodup :=
    (bundles_descending _).imp fun h => ne_of_gt h
  apply (perm_ext_iff_of_nodup (hnd.filter _) (r.dir.keys_nodup.filter _)).2
  intro n
  rw [mem_filter, mem_bundles, mem_filter, ← AList.mem_keys]
  by_cases hlt : r.name < n
  · by_cases htemp : n = r.temp
    · have hno : ∀ d, isBundle d n = false := by
        intro d
        rw [isBundle, htemp, hasPrefix_temp]
        simp
      simp [hno]
    -- any other name is on both sides what it was
    have hlookup : ((d.erase r.temp).insert r.name (.file w)).lookup n = r.dir.lookup n := by
      rw [AList.lookup_insert_ne (ne_of_gt hlt), AList.lookup_erase_ne htemp, hframe n htemp]
    have hbundle : isBundle ((d.erase r.temp).insert r.name (.file w)) n = isBundle r.dir n := by
      unfold isBundle
      rw [hlookup]
    have hmem : n ∈ (d.erase r.temp).insert r.name (.file w) ↔ n ∈ r.dir := by
      rw [← AList.lookup_isSome, hlookup, AList.lookup_isSome]
    rw [hbundle, hmem]
    simp [hlt]
  · simp [hlt]

theorem prune_keeps_iff {r : Run} {d : Dir} (w : Bytes) (hframe : ∀ n, n ≠ r.temp → d.lookup n = r.dir.lookup n) :
    (prune r ((d.erase r.temp).insert r.name (.file w))).lookup r.name = some (.file w) ↔ r.Survives := by
  have hlookup : ((d.erase r.temp).insert r.name (.file w)).lookup r.name = some (.file w) := AList.lookup_insert _
  have hmem : r.name ∈ bundles ((d.erase r.temp).insert r.name (.file w)) := by
    rw [mem_bundles, isBundle, hlookup, hasPrefix_name, isSuffixOf_name]
    exact ⟨(AList.mem_insert _).2 (.inl rfl), rfl⟩
  unfold prune Run.Survives
  cases r.readDirFails with
  | true => simp [hlookup]
  | false =>
    have hdrop := Lib.mem_drop_iff (bundles_descending _) hmem (fun _ => decide_eq_true_iff) r.keepCount
    rw [newer_length w hframe] at hdrop
    rw [if_neg Bool.false_ne_true, foldl_remove_lookup, hlookup]
    simp only [hdrop]
    cases r.pruneFails r.name with
    | true => simp
    | false => simp

/-- What prune leaves of a directory: a file goes exactly if it is a bundle, at least `keepCount` bundles
have later names and its removal does not fail, and nothing else changes. -/
theorem prune_exact (r : Run) (d : Dir) (n : Text) :
    (prune r d).lookup n = if r.readDirFails = false ∧ n ∈ bundles d ∧
      r.keepCount ≤ ((bundles d).filter (n < ·)).length ∧ r.pruneFails n = false then none else d.lookup n := by
  unfold prune
  cases r.readDirFails with
  | true => simp
  | false =>
    rw [if_neg Bool.false_ne_true, foldl_remove_lookup]
    by_cases hmem : n ∈ bundles d
    · simp [Lib.mem_drop_iff (bundles_descending d) hmem (fun _ => decide_eq_true_iff) r.keepCount, hmem]
    · simp [mt mem_of_mem_drop hmem, hmem]

section
variable (sha256 : Bytes → Bytes)

namespace Run

def outcome (r : Run) : Except Err Outcome := (runPlatformBackup sha256 r).2

def after (r : Run) : Dir := (runPlatformBackup sha256 r).1.dir

def snapshots (r : Run) : Option (String × Bytes) := (runPlatformBackup sha256 r).1.snapshots

structure Truthful (r : Run) : Prop where
  bundle : ∀ out, r.outcome sha256 = .ok out → out.bundlePath ≠ "" →
    out.bundlePath = String.ofList (join r.bundleDir r.name) ∧ (r.after sha256).lookup r.name = some (.file r.received)
  digest : ∀ out, r.outcome sha256 = .ok out →
    out.sizeBytes = r.received.length ∧ out.sha256 = String.ofList (text (hexEncode (sha256 r.received)))
  snapshot : ∀ out, r.outcome sha256 = .ok out → out.snapshotID ≠ "" →
    r.snapshots sha256 = some (out.snapshotID, r.received)
  success : ∀ out, r.outcome sha256 = .ok out → out.state = .succeeded →
    out.bundlePath ≠ "" ∧ ∃ id, r.snapshots sha256 = some (id, r.received)
  cleared : r.temp ∉ r.after sha256

/-- A bundle that gets its name survives the pruning, and a temporary file that cannot be removed gets
its name. -/
structure Settles (r : Run) : Prop where
  survives : r.Commits → r.Survives
  removed : r.created = true → r.removeFails = true → r.Commits

end Run

inductive Ends (r : Run) : Sinks × Except Err Outcome → Prop
  | failed {s : Sinks} (e : Err) (uncommitted : ¬ r.Commits)
      (gone : r.temp ∈ s.dir ↔ r.created = true ∧ r.removeFails = true) : Ends r (s, .error e)
  | finished {s s₁ s₂ : Sinks} {snapshotID : String} {path : Text} (data : s.data = r.received)
      (snap : SnapFinished r s s₁ snapshotID) (file : FileFinished r s₁ s₂ path)
      (kept : s₂.data = s₁.data ∧ s₂.snapshots = s₁.snapshots) :
      Ends r (s₂, outcomeOf sha256 r s₂ snapshotID path)

theorem copyExport_ends {r : Run} {s : Sinks} (hstart : Sound r [] [] s) (hdata : s.data = [])
    (hsome : s.file.isSome = true ↔ r.created = true ∧ r.chmodErr = none) (hexp : r.exportErr = none) :
    Ends sha256 r (copyExport sha256 r s) := by
  rw [← hdata] at hstart
  obtain ⟨hsound, hall⟩ := @Sound.receive r s r.messages 0 false hstart
  rw [hdata, nil_append] at hall
  have hwrites : (receive r 0 r.messages false s).1.file.isSome = true ↔ r.Writes := by
    rw [receive_isSome, hsome]
    simp only [Nat.zero_add]
    exact ⟨fun h => ⟨h.1.1, h.1.2, h.2⟩, fun h => ⟨⟨h.created, h.chmod⟩, h.write⟩⟩
  have hreceived := receive_received (r := r) (s := s) r.messages 0 false
  rw [Bool.false_or] at hreceived
  unfold copyExport
  generalize receive r 0 r.messages false s = res at *
  cases hreceived with
  | failed recv e => exact .failed _ (fun hc => recv hc.recv) (abort_gone hsound)
  | stopped file e =>
    refine .failed _ (fun hc => ?_) (abort_gone hsound)
    have h := hwrites.2 hc.toWrites
    rw [file] at h
    cases h
  | complete recv =>
    cases hany : r.messages.any (·.summary) with
    | false =>
      refine .failed _ (fun hc => ?_) (abort_gone hsound)
      rw [hc.summary] at hany
      cases hany
    | true =>
      have hsnap := finishSnap_spec hsound
      have hsnapFile := hsnap.file
      rw [← hsnap.data] at hsnapFile
      rw [← hsnap.kept] at hwrites
      obtain ⟨hfinished, hkept⟩ := finishFile_spec hsnapFile hwrites ⟨hexp, recv, hany⟩
      exact .finished (hall _ rfl) hsnap hfinished hkept

theorem run_ends (r : Run) : Ends sha256 r (runPlatformBackup sha256 r) := by
  have hopened := openFile_opened r
  have hstart := hopened.start_sound
  obtain ⟨hdata, hfile⟩ := startSnapshot_kept (r := r) (s := openFile r)
  rw [hopened.data] at hdata
  have hsome := hopened.isSome
  rw [← hfile] at hsome
  unfold runPlatformBackup
  dsimp only
  split
  · rename_i hnone
    refine .failed _ (fun hc => ?_) (hstart.gone hnone.1).1
    have h := hsome.2 ⟨hc.created, hc.chmod⟩
    rw [hnone.1] at h
    cases h
  cases hexp : r.exportErr with
  | some e =>
    refine .failed _ (fun hc => ?_) (abort_gone hstart)
    rw [hc.exported] at hexp
    cases hexp
  | none => exact copyExport_ends sha256 hstart hdata hsome hexp

variable {sha256}

theorem ofList_ne_empty {t : Text} (h : t ≠ []) : String.ofList t ≠ "" := by
  intro he
  apply h
  have htext := congrArg String.toList he
  rwa [String.toList_ofList] at htext

theorem settles_iff_of_not_commits {r : Run} (hno : ¬ r.Commits)
    (hgone : r.temp ∈ r.after sha256 ↔ r.created = true ∧ r.removeFails = true) :
    r.Settles ↔ r.temp ∉ r.after sha256 := by
  rw [hgone]
  constructor
  · rintro h ⟨hc, hr⟩
    exact hno (h.removed hc hr)
  · intro h
    exact ⟨fun hc => absurd hc hno, fun hc hr => absurd ⟨hc, hr⟩ h⟩

theorem truthful_of_error {r : Run} {e : Err} (ho : r.outcome sha256 = .error e)
    (hcleared : r.temp ∉ r.after sha256) : r.Truthful sha256 := by
  have hnone : ∀ out, r.outcome sha256 ≠ .ok out := by simp [ho]
  exact ⟨fun out hout => absurd hout (hnone out), fun out hout => absurd hout (hnone out),
    fun out hout => absurd hout (hnone out), fun out hout => absurd hout (hnone out), hcleared⟩

section
variable {r : Run} {s s₁ s₂ : Sinks} {snapshotID : String} {path : Text}
  (hrun : runPlatformBackup sha256 r = (s₂, outcomeOf sha256 r s₂ snapshotID path))
  (hdata : s.data = r.received) (hsnap : SnapFinished r s s₁ snapshotID)
  (hkept : s₂.data = s₁.data ∧ s₂.snapshots = s₁.snapshots)
include hrun hdata hsnap hkept

theorem outcome_eq {out : Outcome} (ho : r.outcome sha256 = .ok out) :
    (out.sizeBytes = r.received.length ∧ out.sha256 = String.ofList (text (hexEncode (sha256 r.received)))) ∧
      out.bundlePath = String.ofList path ∧
      (out.snapshotID ≠ "" → r.snapshots sha256 = some (out.snapshotID, r.received)) ∧
      (out.state = .succeeded → s₂.problems = []) := by
  have hall := hkept.1.trans (hsnap.data.trans hdata)
  rw [Run.outcome, hrun] at ho
  rw [Run.snapshots, hrun]
  unfold outcomeOf at ho
  split at ho
  · cases ho
  obtain rfl := Except.ok.inj ho
  refine ⟨⟨by rw [hall], by rw [hall]⟩, rfl, fun hne => ?_, fun hstate => ?_⟩
  · show s₂.snapshots = _
    rw [hkept.2, hsnap.reported hne, hdata]
  · by_contra hno
    rw [if_neg hno] at hstate
    cases hstate

theorem truthful_of_finished (hbundle : ∀ out, r.outcome sha256 = .ok out → out.bundlePath ≠ "" →
      out.bundlePath = String.ofList (join r.bundleDir r.name) ∧
        (r.after sha256).lookup r.name = some (.file r.received))
    (hsuccess : ∀ out, r.outcome sha256 = .ok out → s₂.problems = [] →
      out.bundlePath ≠ "" ∧ ∃ id, r.snapshots sha256 = some (id, r.received))
    (hcleared : r.temp ∉ r.after sha256) : r.Truthful sha256 := by
  constructor
  · exact hbundle
  · intro out ho
    exact (outcome_eq hrun hdata hsnap hkept ho).1
  · intro out ho
    exact (outcome_eq hrun hdata hsnap hkept ho).2.2.1
  · intro out ho hstate
    exact hsuccess out ho ((outcome_eq hrun hdata hsnap hkept ho).2.2.2 hstate)
  · exact hcleared

theorem truthful_of_dropped (hpath : path = []) (hproblem : s₂.problems ≠ [])
    (hcleared : r.temp ∉ r.after sha256) : r.Truthful sha256 := by
  subst hpath
  apply truthful_of_finished hrun hdata hsnap hkept
  · intro out ho hne
    exact absurd (outcome_eq hrun hdata hsnap hkept ho).2.1 hne
  · intro out ho hnone
    exact absurd hnone hproblem
  · exact hcleared

theorem truthful_of_committed (hpath : path = join r.bundleDir r.name) (hcommits : r.Commits)
    (hproblems : s₂.problems = s₁.problems)
    (hdir : s₂.dir = prune r ((s₁.dir.erase r.temp).insert r.name (.file s₁.data))) :
    r.Truthful sha256 ↔ r.Settles := by
  subst hpath
  have hbundleDir : r.bundleDir ≠ [] := by
    have h := (Bool.and_eq_true_iff.1 hcommits.created).1
    simpa using h
  have hjoin : join r.bundleDir r.name ≠ [] := by
    rw [join, if_pos hbundleDir]
    exact clean_ne_nil _
  have hnamed : ∀ out, r.outcome sha256 = .ok out → out.bundlePath ≠ "" := by
    intro out ho
    rw [(outcome_eq hrun hdata hsnap hkept ho).2.1]
    exact ofList_ne_empty hjoin
  have hall := hsnap.data.trans hdata
  have hkeeps : (r.after sha256).lookup r.name = some (.file r.received) ↔ r.Survives := by
    rw [Run.after, hrun, ← hall]
    rw [hdir]
    exact prune_keeps_iff _ hsnap.file.frame
  constructor
  · intro h
    obtain ⟨out, ho⟩ : ∃ out, r.outcome sha256 = .ok out := by
      rw [Run.outcome, hrun]
      exact ⟨_, if_neg (by simp [hjoin])⟩
    exact ⟨fun _ => hkeeps.1 (h.bundle out ho (hnamed out ho)).2, fun _ _ => hcommits⟩
  · intro h
    apply truthful_of_finished hrun hdata hsnap hkept
    · intro out ho _
      exact ⟨(outcome_eq hrun hdata hsnap hkept ho).2.1, hkeeps.2 (h.survives hcommits)⟩
    · intro out ho hnone
      refine ⟨hnamed out ho, ?_⟩
      rw [Run.snapshots, hrun, ← hdata]
      rw [hkept.2]
      exact hsnap.clear (hproblems ▸ hnone)
    · -- the rename has taken the temporary file away
      rw [← AList.lookup_eq_none, Run.after, hrun]
      rw [hdir]
      apply prune_lookup_none
      rw [AList.lookup_insert_ne (Ne.symm (name_ne_temp r)), AList.lookup_erase]

end

/-- What RunPlatformBackup reports is true exactly if the bundle that it names is not pruned at once,
because too many have later names, and the temporary file can be removed where it is not renamed. -/
theorem outcome_truthful (sha256 : Bytes → Bytes) (r : Run) : r.Truthful sha256 ↔ r.Settles := by
  have hends := run_ends sha256 r
  cases hrun : runPlatformBackup sha256 r with
  | mk s₂ res =>
    rw [hrun] at hends
    cases hends with
    | failed e uncommitted gone =>
      have hafter : r.after sha256 = s₂.dir := by rw [Run.after, hrun]
      rw [settles_iff_of_not_commits uncommitted (hafter ▸ gone)]
      exact ⟨fun h => h.cleared, truthful_of_error (by rw [Run.outcome, hrun])⟩
    | finished data snap file kept =>
      cases file with
      | dropped uncommitted gone problem =>
        have hafter : r.after sha256 = s₂.dir := by rw [Run.after, hrun]
        rw [settles_iff_of_not_commits uncommitted (hafter ▸ gone)]
        exact ⟨fun h => h.cleared, truthful_of_dropped hrun data snap kept rfl problem⟩
      | committed commits problems dir => exact truthful_of_committed hrun data snap kept rfl commits problems dir

end

def later : Clock := ⟨2027, 1, 1, 0, 0, 0⟩

def behind : Run where
  bundleDir := ['/', 'b']
  keep := 1
  backupID := 1
  systemRepositoryID := "system"
  now := ⟨2026, 1, 1, 0, 0, 0⟩
  dir := (∅ : Dir).insert (fileName later) (.file [7])
  random := [1]
  fresh := by decide
  createErr := none
  chmodErr := none
  removeFails := false
  getErr := none
  exportErr := none
  messages := [⟨[8], true⟩]
  recvErr := none
  writeErr := fun _ => none
  snapEnds := fun _ => none
  snapshot := .ok ("snapshot", 0)
  syncErr := none
  closeErr := none
  renameErr := none
  readDirFails := false
  pruneFails := fun _ => false

/-- The run succeeds and names the bundle that it has just removed. -/
theorem new_bundle_pruned : (∃ out, behind.outcome id = .ok out ∧ out.state = .succeeded ∧
      out.bundlePath = "/b/dbr2-platform-20260101T000000Z.tar.zst.age") ∧
    behind.name ∉ behind.after id ∧ ¬ behind.Truthful id := by
  have hout : ∃ out, behind.outcome id = .ok out ∧ out.state = .succeeded ∧
      out.bundlePath = "/b/dbr2-platform-20260101T000000Z.tar.zst.age" := ⟨_, rfl, rfl, rfl⟩
  have hgone : (behind.after id).lookup behind.name = none := rfl
  refine ⟨hout, AList.lookup_eq_none.1 hgone, fun h => ?_⟩
  obtain ⟨out, ho, -, hpath⟩ := hout
  have hfile := (h.bundle out ho (by rw [hpath]; decide)).2
  rw [hgone] at hfile
  cases hfile

end Dbr2.Platform.BackupRun
