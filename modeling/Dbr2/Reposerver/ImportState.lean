import Dbr2.Lib.GoPath
import Dbr2.Lib.Utf8

/-! Importing an exported state (`ImportState`, `ParseStateArchive` and `checkState` in
`internal/reposerver/platform.go`).

The members of the archive replace the files of the state directory one by one, the repository is
opened with the new password, and `repository.json` is written last. -/
namespace Dbr2.Reposerver
open Lib.GoPath
open Lib.Utf8 (Bytes)

/-- A file of the state directory. -/
inductive Member
  | password | control | cert | key | info | config
  deriving DecidableEq

def Member.name : Member → String
  | .password => "repository-password"
  | .control => "control-password"
  | .cert => "tls.crt"
  | .key => "tls.key"
  | .info => "repository.json"
  | .config => "kopia/repository.config"

def stateMembers : List Member := [.password, .control, .cert, .key, .info, .config]

def optionalMembers : List Member := [.info]

abbrev Files := Member → Option Bytes

/-- `repository.json`. -/
structure RepoInfo where
  (repositoryID splitter : String)
  initializedAt : Nat
  deriving DecidableEq

/-- What clients of the server are given. -/
structure ServerCreds where
  certSHA256 : String
  controlPassword : Bytes
  deriving DecidableEq

/-- What a service holds in memory between two operations. There is no password before the
repository is initialized. -/
structure Memory where
  password : Option Bytes
  info : Option RepoInfo
  creds : Option ServerCreds
  idle : info = none → password = none
  deriving DecidableEq

def Memory.empty : Memory := ⟨none, none, none, fun _ => rfl⟩

/-- The password is forgotten. -/
def Memory.locked (m : Memory) : Memory := ⟨none, m.info, m.creds, fun _ => rfl⟩

def Memory.serving (password : Bytes) (info : RepoInfo) (creds : Option ServerCreds) : Memory :=
  ⟨some password, some info, creds, by simp⟩

/-- The state directory and the memory of the service. -/
structure Service where
  files : Files
  memory : Memory

inductive Err
  | alreadyInitialized
  | statePresent
  | invalidPassword
  | invalidState (text : String)
  | storageNotReady (text : String)
  | other (text : String)
  deriving DecidableEq

inductive Json
  | str (s : String)
  | obj (fields : List (String × Json))
  | other (text : String)

def Json.get (j : Json) (key : String) : Option Json :=
  match j with
  | .obj fields => fields.lookup key
  | _ => none

def Json.set (j : Json) (key : String) (v : Json) : Json :=
  match j with
  | .obj fields => .obj ((key, v) :: fields.filter (·.1 != key))
  | j => j

inductive TarType
  | dir | reg | other
  deriving DecidableEq

structure TarEntry where
  name : String
  type : TarType
  data : Except String Bytes

/-- The library functions that are called; nothing is assumed of them. `strings.TrimSpace`
is one of them here, since the bytes of a file need not be UTF-8. -/
structure Library where
  trimSpace : Bytes → Bytes
  /-- The entries of a tar stream, and the error at which reading them ends. -/
  tar : Bytes → List TarEntry × Option String
  x509KeyPair : Bytes → Bytes → Option String
  pemDecode : Bytes → Option (String × Bytes)
  parseCertificate : Bytes → Option String
  fingerprint : Bytes → String
  unmarshal : Bytes → Except String Json
  marshalIndent : Json → Except String Bytes
  unmarshalInfo : Bytes → Except String RepoInfo
  marshalInfo : RepoInfo → Bytes

structure Config where
  (storagePath repositoryID : String)

variable (lib : Library) (cfg : Config)

def maxStateArchive : Nat := 4 <<< 20

def minRepositoryPassword : Nat := 32

def maxPassword : Nat := 1024

def validPassword (p : Bytes) (minLen : Nat) : Bool :=
  decide (minLen ≤ p.length) && decide (p.length ≤ maxPassword) && !p.any ([0, 10, 13].contains ·)

/-- One entry of the archive. -/
def addMember (files : Files) (e : TarEntry) : Except Err Files :=
  let name := trimPrefix e.name.toList ['.', '/']
  if e.type = .dir ∧ trimSuffix name = "kopia".toList then .ok files
  else
    match stateMembers.find? (·.name.toList = name) with
    | none => .error (.invalidState ("unexpected member " ++ e.name.quote))
    | some m =>
      if name ≠ clean name then .error (.invalidState ("unexpected member " ++ e.name.quote))
      else if e.type ≠ .reg then .error (.invalidState (m.name ++ " is not a regular file"))
      else if (files m).isSome then .error (.invalidState ("duplicate member " ++ m.name))
      else
        match e.data with
        | .error text => .error (.invalidState (m.name ++ ": " ++ text))
        | .ok data => .ok (Function.update files m (some (data.take maxStateArchive)))

/-- `parseStateArchive`: known members only, none twice. -/
def parseStateArchive (archive : Bytes) : Except Err Files :=
  let (entries, err) := lib.tar archive
  match entries.foldlM addMember (fun _ => none) with
  | .error e => .error e
  | .ok files =>
    match err with
    | some text => .error (.invalidState text)
    | none =>
      match stateMembers.find? fun m => (files m).isNone && !optionalMembers.contains m with
      | some m => .error (.invalidState ("missing " ++ m.name))
      | none => .ok files

structure Checked where
  fp : String
  (password control config : Bytes)
  info : Option RepoInfo

/-- The config of a filesystem repository, with the path replaced by that of this service. -/
def checkConfig (b : Bytes) : Except Err Bytes :=
  match lib.unmarshal b with
  | .error text => .error (.invalidState ("Kopia repository config: " ++ text))
  | .ok c =>
    match c.get "storage" with
    | some (.obj fields) =>
      let st := Json.obj fields
      match st.get "type", st.get "config" with
      | some (.str "filesystem"), some (.obj sc) =>
        let c := c.set "storage" (st.set "config" ((Json.obj sc).set "path" (.str cfg.storagePath)))
        match lib.marshalIndent c with
        | .error text => .error (.other text)
        | .ok b => .ok b
      | _, _ => .error (.invalidState "the Kopia repository config is not a filesystem repository")
    | _ => .error (.invalidState "the Kopia repository config is not a filesystem repository")

def checkInfo (b : Option Bytes) : Except Err (Option RepoInfo) :=
  match b with
  | none => .ok none
  | some b =>
    match lib.unmarshalInfo b with
    | .error text => .error (.invalidState ("repository.json: " ++ text))
    | .ok info =>
      if info.repositoryID ≠ cfg.repositoryID then
        .error (.invalidState ("the archive is for repository " ++ info.repositoryID.quote ++
          ", this reposerver serves " ++ cfg.repositoryID.quote))
      else .ok (some info)

/-- All that is checked before anything is written. -/
def checkState (files : Files) : Except Err Checked := do
  let file (m : Member) : Bytes := (files m).getD []
  let password := lib.trimSpace (file .password)
  let control := lib.trimSpace (file .control)
  if !validPassword password minRepositoryPassword then
    throw (.invalidState "the repository password is malformed")
  if control = [] ∨ control.any ([0, 10, 13].contains ·) then
    throw (.invalidState "the control password is malformed")
  if let some text := lib.x509KeyPair (file .cert) (file .key) then
    throw (.invalidState ("TLS certificate and key: " ++ text))
  match lib.pemDecode (file .cert) with
  | some ("CERTIFICATE", der) =>
    if let some text := lib.parseCertificate der then
      throw (.invalidState ("TLS certificate: " ++ text))
    let config ← checkConfig lib cfg (file .config)
    let info ← checkInfo lib cfg (files .info)
    return ⟨lib.fingerprint der, password, control, config, info⟩
  | _ => throw (.invalidState "tls.crt does not start with a PEM certificate")

/-- What the calls of an import give: the guard, the look at the storage, preparing the directory,
every read and write of a member, and the repository. -/
structure Draws where
  (guard stat prepare : Option String)
  readable : Member → Bool
  written : Member → Bool
  splitter : Except String String
  saved : Bool
  undone : Member → Bool
  now : Nat

/-- The writes, in order; a failed one leaves the old file. -/
def writeAll (d : Draws) (files : Files) : List Member → Files → Option Member × Files
  | [], disk => (none, disk)
  | m :: ms, disk =>
    match files m with
    | none => writeAll d files ms disk
    | some b => if d.written m then writeAll d files ms (Function.update disk m (some b)) else (some m, disk)

/-- The undo of the writes: what could be read before is written back, the rest is removed. -/
def rollback (d : Draws) (files before disk : Files) : Files := fun m =>
  if (files m).isSome && d.undone m then if d.readable m then before m else none else disk m

/-- The service is in use, or has state of its own. -/
def refused (d : Draws) (s : Service) : Option Err :=
  if s.memory.info.isSome then some .alreadyInitialized
  else
    match s.files .password with
    | none => none
    | some b =>
      if !d.readable .password then some (.other "read repository-password")
      else if lib.trimSpace b ≠ [] then some .statePresent
      else none

/-- Writes the files and opens the repository; a failure takes them back. -/
def install (d : Draws) (files : Files) (c : Checked) (s : Service) : Except Err Unit × Service :=
  let undo (disk : Files) : Service :=
    ⟨rollback d files s.files disk, s.memory.locked⟩
  match writeAll d files stateMembers s.files with
  | (some m, disk) => (.error (.other ("write " ++ m.name)), undo disk)
  | (none, disk) =>
    match d.splitter with
    | .error text =>
      (.error (if contains text then .invalidPassword else .other text), undo disk)
    | .ok actual =>
      let info := {c.info.getD ⟨cfg.repositoryID, "", d.now⟩ with splitter := actual}
      if d.saved then
        (.ok (), ⟨Function.update disk .info (some (lib.marshalInfo info ++ [10])),
          .serving c.password info (some ⟨c.fp, c.control⟩)⟩)
      else (.error (.other "save repository.json"), undo disk)
where
  contains (text : String) : Bool := text.toList.tails.any (hasPrefix · "invalid repository password".toList)

/-- `ImportState`. -/
def importState (d : Draws) (archive : Bytes) (s : Service) : Except Err Unit × Service :=
  match refused lib d s with
  | some e => (.error e, s)
  | none =>
    match parseStateArchive lib archive with
    | .error e => (.error e, s)
    | .ok files =>
      match checkState lib cfg files with
      | .error e => (.error e, s)
      | .ok c =>
        match d.guard, d.stat, d.prepare with
        | some text, _, _ => (.error (.storageNotReady text), s)
        | none, some text, _ => (.error (.storageNotReady text), s)
        | none, none, some text => (.error (.other text), s)
        | none, none, none =>
          install lib cfg d (Function.update (Function.update files .config (some c.config)) .info none) c s

variable {lib cfg} {d : Draws} {files : Files}

theorem writeAll_of_none {m : Member} (h : files m = none) (ms : List Member) (disk : Files) :
    (writeAll d files ms disk).2 m = disk m := by
  induction ms generalizing disk with
  | nil => rfl
  | cons x ms ih =>
    unfold writeAll
    split
    · exact ih disk
    rename_i b hx
    have hne : m ≠ x := by
      rintro rfl
      rw [h] at hx
      cases hx
    split
    · rw [ih, Function.update_of_ne hne]
    · rfl

theorem writeAll_of_some {m : Member} {b : Bytes} (h : files m = some b) {ms : List Member} {disk disk' : Files}
    (hw : writeAll d files ms disk = (none, disk')) (hm : m ∈ ms ∨ disk m = some b) : disk' m = some b := by
  induction ms generalizing disk with
  | nil =>
    cases hw
    simpa using hm
  | cons x ms ih =>
    unfold writeAll at hw
    split at hw
    · rename_i hx
      refine ih hw (hm.imp_left fun hm => ?_)
      rcases List.mem_cons.mp hm with rfl | hm
      · rw [h] at hx
        cases hx
      · exact hm
    rename_i b' hx
    split at hw
    · by_cases hmx : m = x
      · subst hmx
        rw [h] at hx
        cases hx
        exact ih hw (.inr (Function.update_self ..))
      · refine ih hw (hm.imp (fun hm => (List.mem_cons.mp hm).resolve_left hmx) fun hm => ?_)
        rw [Function.update_of_ne hmx, hm]
    · cases hw

theorem rollback_apply {m : Member} (hread : d.readable m = true) (hundo : d.undone m = true) {before disk : Files}
    (h : files m = none → disk m = before m) : rollback d files before disk m = before m := by
  unfold rollback
  rw [hread, hundo]
  cases hm : files m with
  | none => simpa using h hm
  | some b => rfl

theorem install_cases (lib : Library) (cfg : Config) (d : Draws) (files : Files) (c : Checked) (s : Service) :
    (∃ e disk, (∀ m, files m = none → disk m = s.files m) ∧ install lib cfg d files c s =
      (.error e, ⟨rollback d files s.files disk, s.memory.locked⟩)) ∨
    ∃ info disk, (∀ m b, files m = some b → disk m = some b) ∧ install lib cfg d files c s =
      (.ok (), ⟨Function.update disk .info (some (lib.marshalInfo info ++ [10])),
        .serving c.password info (some ⟨c.fp, c.control⟩)⟩) := by
  have hdisk : ∀ m, files m = none → (writeAll d files stateMembers s.files).2 m = s.files m :=
    fun m hm => writeAll_of_none hm stateMembers s.files
  unfold install
  split
  · rename_i m disk hw
    rw [hw] at hdisk
    exact .inl ⟨_, disk, hdisk, rfl⟩
  rename_i disk hw
  rw [hw] at hdisk
  split
  · exact .inl ⟨_, disk, hdisk, rfl⟩
  dsimp only
  split
  · exact .inr ⟨_, disk, fun m b hm => writeAll_of_some hm hw (.inl (by cases m <;> decide)), rfl⟩
  · exact .inl ⟨_, disk, hdisk, rfl⟩

theorem idle_of_not_refused {s : Service} (h : refused lib d s = none) : s.memory.info = none := by
  unfold refused at h
  split at h
  · cases h
  · rename_i hinfo
    simpa using hinfo

theorem importState_cases (lib : Library) (cfg : Config) (d : Draws) (archive : Bytes) (s : Service) :
    (∃ e, importState lib cfg d archive s = (.error e, s)) ∨
    (s.memory.info = none ∧ ∃ files c, parseStateArchive lib archive = .ok files ∧
      checkState lib cfg files = .ok c ∧ importState lib cfg d archive s =
        install lib cfg d (Function.update (Function.update files .config (some c.config)) .info none) c s) := by
  unfold importState
  split
  · exact .inl ⟨_, rfl⟩
  rename_i hrefused
  split
  · exact .inl ⟨_, rfl⟩
  rename_i files hfiles
  split
  · exact .inl ⟨_, rfl⟩
  rename_i c hc
  split
  · exact .inl ⟨_, rfl⟩
  · exact .inl ⟨_, rfl⟩
  · exact .inl ⟨_, rfl⟩
  · exact .inr ⟨idle_of_not_refused hrefused, files, c, hfiles, hc, rfl⟩

theorem Memory.locked_of_idle {m : Memory} (h : m.info = none) : m.locked = m := by
  obtain ⟨password, info, creds, idle⟩ := m
  cases idle h
  rfl

/-- **A failed import changes nothing**, if the files that are there can be read and the undo works. -/
theorem importState_failed (lib : Library) (cfg : Config) (d : Draws) (archive : Bytes) (s : Service)
    (hread : ∀ m, d.readable m = true) (hundo : ∀ m, d.undone m = true) (e : Err) (s' : Service)
    (h : importState lib cfg d archive s = (.error e, s')) : s' = s := by
  obtain ⟨e', he⟩ | ⟨hidle, files, c, -, -, hins⟩ := importState_cases lib cfg d archive s
  · rw [he] at h
    exact (Prod.mk.inj h).2.symm
  · rw [hins] at h
    obtain ⟨e', disk, hdisk, he⟩ | ⟨info, disk, -, hok⟩ := install_cases lib cfg d _ c s
    · rw [he] at h
      rw [← (Prod.mk.inj h).2, Memory.locked_of_idle hidle]
      exact congrArg (Service.mk · s.memory) (funext fun m => rollback_apply (hread m) (hundo m) (hdisk m))
    · rw [hok] at h
      cases h

def oneArchive : Library where
  trimSpace b := b.filter (· != 10)
  tar _ := ([.password, .control, .cert, .key, .config].map fun (m : Member) =>
    ⟨m.name, .reg, .ok (List.replicate 32 65 ++ [10])⟩, none)
  x509KeyPair _ _ := none
  pemDecode b := some ("CERTIFICATE", b)
  parseCertificate _ := none
  fingerprint _ := "fp"
  unmarshal _ := .ok (.obj [("storage", .obj [("type", .str "filesystem"), ("config", .obj [])])])
  marshalIndent _ := .ok []
  unmarshalInfo _ := .error "no info"
  marshalInfo _ := []

/-- A service before its first initialization, with the control password of its start. -/
def started : Service := ⟨fun m => if m = .control then some [66, 10] else none, .empty⟩

def wrongPassword : Draws :=
  ⟨none, none, none, fun _ => true, fun _ => true, .error "invalid repository password", true, fun _ => true, 7⟩

theorem importState_failed_wrongPassword :
    (importState oneArchive ⟨"/storage", "r1"⟩ wrongPassword [] started).1 = .error .invalidPassword ∧
      (importState oneArchive ⟨"/storage", "r1"⟩ wrongPassword [] started).2 = started := by
  have herr : (importState oneArchive ⟨"/storage", "r1"⟩ wrongPassword [] started).1 = .error .invalidPassword := by
    decide +kernel
  exact ⟨herr, importState_failed oneArchive ⟨"/storage", "r1"⟩ wrongPassword [] started (fun _ => rfl) (fun _ => rfl)
    _ _ (Prod.ext herr rfl)⟩

end Dbr2.Reposerver
