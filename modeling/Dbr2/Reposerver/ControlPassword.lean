import Dbr2.Lib.Run
import Dbr2.Platform.Bundle
import Dbr2.Reposerver.ImportState

/-! The control password of the Kopia server (`EnsureControlPassword` in
`internal/reposerver/state.go`; `Load`, `Initialize`, `ServerInvocation`, `controlPassword` and
`refresh` in `service.go`).

It is in three places: the state directory, the field the service is built with, and the credentials
that refresh prefers once an import stored them. The server is started with the field. -/
namespace Dbr2.Reposerver
open Lib List
open Lib.Utf8 (Bytes)
open Platform.RecoveryBundle (hexEncode)

structure Process where
  /-- The field `ControlPassword`, read when the service was built. -/
  ctrl : Bytes
  memory : Memory
  server : Option Bytes

def Process.controlPassword (p : Process) : Bytes :=
  match p.memory.creds with
  | some c => c.controlPassword
  | none => p.ctrl

structure System where
  files : Files
  process : Option Process

structure StartDraws where
  readable : Member → Bool
  random : Bytes
  written : Bool

variable (lib : Library) (cfg : Config)

def secret (file : Option Bytes) : Bytes := (file.map lib.trimSpace).getD []

def ensureControlPassword (d : StartDraws) (files : Files) : Option (Bytes × Files) :=
  if (files .control).isSome && !d.readable .control then none
  else if secret lib (files .control) ≠ [] then some (secret lib (files .control), files)
  else
    let pw := hexEncode d.random
    if d.written then some (pw, Function.update files .control (some (pw ++ [10]))) else none

def load (d : StartDraws) (files : Files) : Option Memory :=
  match files .info with
  | none => some .empty
  | some b =>
    if !d.readable .info then none
    else
      match lib.unmarshalInfo b with
      | .error _ => none
      | .ok ri =>
        if !d.readable .password ∨ secret lib (files .password) = [] ∨ (files .config).isNone then none
        else some (.serving (secret lib (files .password)) ri none)

def start (d : StartDraws) (files : Files) : System :=
  match ensureControlPassword lib d files with
  | none => ⟨files, none⟩
  | some (ctrl, files) => ⟨files, (load lib d files).map (⟨ctrl, ·, none⟩)⟩

structure InitDraws where
  guard : Option String
  (removed present : Bool)
  connected : Option String
  config : Option Bytes
  written : Bool
  setup : Except String String
  saved : Bool
  now : Nat

def initializeService (password : Bytes) (d : InitDraws) (s : Service) : Except Err Unit × Service :=
  if s.memory.info.isSome then (.error .alreadyInitialized, s)
  else
    match d.guard with
    | some text => (.error (.storageNotReady text), s)
    | none =>
      if (s.files .config).isSome && !d.removed then (.error (.other "remove the Kopia config"), s)
      else
        let failed (e : Err) (files : Files) : Except Err Unit × Service :=
          (.error e, ⟨files, s.memory.locked⟩)
        let files := Function.update s.files .config d.config
        match d.connected with
        | some text => failed (if d.present && install.contains text then .invalidPassword else .other text) files
        | none =>
          if !d.written then failed (.other "write repository password") files
          else
            let files := Function.update files .password (some (password ++ [10]))
            match d.setup with
            | .error text => failed (.other text) files
            | .ok actual =>
              let info : RepoInfo := ⟨cfg.repositoryID, actual, d.now⟩
              if !d.saved then failed (.other "save repository.json") files
              else
                (.ok (), ⟨Function.update files .info (some (lib.marshalInfo info ++ [10])),
                  .serving password info s.memory.creds⟩)

/-- The control password in the environment of `server start`; none without a repository password. -/
def serverInvocation (p : Process) : Option Bytes :=
  if p.memory.password.getD [] = [] then none else some p.ctrl

inductive Event
  | start (d : StartDraws)
  | stop
  | init (password : Bytes) (d : InitDraws)
  | importState (archive : Bytes) (d : Draws)
  | serve
  | exit

def System.after (p : Process) (r : Except Err Unit × Service) : System :=
  ⟨r.2.files, some {p with memory := r.2.memory}⟩

def step (s : System) (e : Event) : System :=
  match e, s.process with
  | .start d, none => start lib d s.files
  | .stop, some _ => ⟨s.files, none⟩
  | .init password d, some p => .after p (initializeService lib cfg password d ⟨s.files, p.memory⟩)
  | .importState archive d, some p => .after p (importState lib cfg d archive ⟨s.files, p.memory⟩)
  | .serve, some p => ⟨s.files, some {p with server := serverInvocation p}⟩
  | .exit, some p => ⟨s.files, some {p with server := none}⟩
  | _, _ => s

/-- The running server has the password that refresh authenticates with, and it is the one on disk. -/
def Consistent (s : System) : Prop :=
  ∀ p, s.process = some p → ∀ c, p.server = some c →
    c = p.controlPassword ∧ (s.files .control).map lib.trimSpace = some c

/-- No server is started with another control password than an import stored, and an import reads
the control password that is there and can put it back. -/
def Careful (s : System) (e : Event) : Prop :=
  match e, s.process with
  | .serve, some p => ∀ c, p.memory.creds = some c → c.controlPassword = p.ctrl
  | .importState _ d, some _ => d.readable .control = true ∧ d.undone .control = true
  | _, _ => True

/-- Trimming takes the newline from a generated password, and no more. -/
def TrimsNewline : Prop :=
  ∀ raw, lib.trimSpace (hexEncode raw ++ [10]) = hexEncode raw

structure Agreed (files : Files) (p : Process) : Prop where
  persisted : (files .control).map lib.trimSpace = some p.controlPassword
  served : ∀ c, p.server = some c → c = p.controlPassword ∧ p.memory.info ≠ none

variable {lib cfg} {files : Files} {p : Process}

theorem ensureControlPassword_persisted (hlib : TrimsNewline lib) {d : StartDraws} {ctrl : Bytes} {files' : Files}
    (h : ensureControlPassword lib d files = some (ctrl, files')) :
    (files' .control).map lib.trimSpace = some ctrl := by
  unfold ensureControlPassword at h
  split at h
  · cases h
  split at h
  · rename_i hne
    cases h
    revert hne
    cases files .control <;> simp [secret]
  dsimp only at h
  split at h
  · cases h
    rw [Function.update_self]
    exact congrArg some (hlib d.random)
  · cases h

theorem load_creds {d : StartDraws} {m : Memory} (h : load lib d files = some m) : m.creds = none := by
  unfold load at h
  split at h
  · cases h
    rfl
  split at h
  · cases h
  split at h
  · cases h
  split at h
  · cases h
  · cases h
    rfl

theorem start_agreed (hlib : TrimsNewline lib) (d : StartDraws) (h : (start lib d files).process = some p) :
    Agreed lib (start lib d files).files p := by
  unfold start at h ⊢
  split at h
  · cases h
  rename_i ctrl files' hctrl
  obtain ⟨m, hm, rfl⟩ := Option.map_eq_some_iff.mp h
  have hp : Process.controlPassword ⟨ctrl, m, none⟩ = ctrl := by
    simp only [Process.controlPassword, load_creds hm]
  exact ⟨by rw [hp]; exact ensureControlPassword_persisted hlib hctrl, nofun⟩

theorem initializeService_keeps (lib : Library) (cfg : Config) (password : Bytes) (d : InitDraws) (s : Service) :
    (initializeService lib cfg password d s).2.files .control = s.files .control ∧
      (initializeService lib cfg password d s).2.memory.creds = s.memory.creds ∧
      (s.memory.info ≠ none → (initializeService lib cfg password d s).2.memory.info ≠ none) := by
  unfold initializeService
  split
  · exact ⟨rfl, rfl, id⟩
  split
  · exact ⟨rfl, rfl, id⟩
  split
  · exact ⟨rfl, rfl, id⟩
  dsimp only
  split
  · exact ⟨rfl, rfl, id⟩
  split
  · exact ⟨rfl, rfl, id⟩
  split
  · exact ⟨rfl, rfl, id⟩
  split
  · exact ⟨rfl, rfl, id⟩
  · exact ⟨rfl, rfl, fun _ => Option.some_ne_none _⟩

theorem parseStateArchive_control {archive : Bytes} {files : Files} (h : parseStateArchive lib archive = .ok files) :
    ∃ b, files .control = some b := by
  unfold parseStateArchive at h
  dsimp only at h
  split at h
  · cases h
  split at h
  · cases h
  split at h
  · cases h
  rename_i hfind
  cases h
  have hsome := find?_eq_none.mp hfind .control (by decide)
  rw [Bool.not_eq_true, show optionalMembers.contains Member.control = false from rfl] at hsome
  exact Option.isSome_iff_exists.mp (by simpa using hsome)

theorem checkState_control {c : Checked} (h : checkState lib cfg files = .ok c) :
    c.control = lib.trimSpace ((files .control).getD []) := by
  unfold checkState at h
  dsimp only [bind, Except.bind, throw, throwThe, MonadExceptOf.throw, pure, Except.pure] at h
  split at h
  · cases h
  split at h
  · cases h
  split at h
  · cases h
  split at h
  · split at h
    · cases h
    split at h
    · cases h
    split at h
    · cases h
    · cases h
      rfl
  · cases h

theorem importState_control (lib : Library) (cfg : Config) {d : Draws} (hread : d.readable .control = true)
    (hundo : d.undone .control = true) (archive : Bytes) (s : Service) :
    ((importState lib cfg d archive s).2.files .control = s.files .control ∧
      (importState lib cfg d archive s).2.memory.creds = s.memory.creds ∧
      (importState lib cfg d archive s).2.memory.info = s.memory.info) ∨
    s.memory.info = none ∧ ∃ cr, (importState lib cfg d archive s).2.memory.creds = some cr ∧
      ((importState lib cfg d archive s).2.files .control).map lib.trimSpace = some cr.controlPassword := by
  obtain ⟨e, he⟩ | ⟨hidle, files, c, hparse, hcheck, hins⟩ := importState_cases lib cfg d archive s
  · rw [he]
    exact .inl ⟨rfl, rfl, rfl⟩
  · rw [hins]
    obtain ⟨b, hb⟩ := parseStateArchive_control hparse
    have hctrl : c.control = lib.trimSpace b := by rw [checkState_control hcheck, hb, Option.getD_some]
    obtain ⟨e, disk, hdisk, he⟩ | ⟨info, disk, hdisk, hok⟩ := install_cases lib cfg d _ c s
    · rw [he]
      exact .inl ⟨rollback_apply hread hundo (hdisk .control), rfl, rfl⟩
    · rw [hok]
      refine .inr ⟨hidle, _, rfl, ?_⟩
      change (disk .control).map lib.trimSpace = some c.control
      rw [hdisk .control b hb, hctrl]
      rfl

theorem Agreed.after (h : Agreed lib files p) {s : Service} (hfile : s.files .control = files .control)
    (hcreds : s.memory.creds = p.memory.creds) (hinfo : p.memory.info ≠ none → s.memory.info ≠ none) :
    Agreed lib s.files {p with memory := s.memory} := by
  have hp : Process.controlPassword {p with memory := s.memory} = p.controlPassword := by
    simp only [Process.controlPassword, hcreds]
  constructor
  · rw [hfile, hp]
    exact h.persisted
  · intro c hc
    rw [hp]
    exact (h.served c hc).imp_right hinfo

theorem importState_agreed (h : Agreed lib files p) {d : Draws} (hread : d.readable .control = true)
    (hundo : d.undone .control = true) (archive : Bytes) :
    Agreed lib (importState lib cfg d archive ⟨files, p.memory⟩).2.files
      {p with memory := (importState lib cfg d archive ⟨files, p.memory⟩).2.memory} := by
  obtain ⟨hfile, hcreds, hinfo⟩ | ⟨hidle, cr, hcreds, hfile⟩ :=
    importState_control lib cfg hread hundo archive ⟨files, p.memory⟩
  · exact h.after hfile hcreds (hinfo ▸ id)
  · constructor
    · rw [hfile]
      simp only [Process.controlPassword, hcreds]
    · -- before an import there is no server
      intro c hc
      exact absurd hidle (h.served c hc).2

theorem serve_agreed (h : Agreed lib files p) (hcareful : ∀ c, p.memory.creds = some c → c.controlPassword = p.ctrl) :
    Agreed lib files {p with server := serverInvocation p} := by
  refine ⟨h.persisted, fun c hc => ?_⟩
  change serverInvocation p = some c at hc
  unfold serverInvocation at hc
  split at hc
  · cases hc
  rename_i hpassword
  cases hc
  constructor
  · simp only [Process.controlPassword]
    split
    · exact (hcareful _ ‹_›).symm
    · rfl
  · intro hinfo
    rw [p.memory.idle hinfo] at hpassword
    exact hpassword rfl

theorem step_agreed (hlib : TrimsNewline lib) (s : System) (e : Event)
    (h : ∀ p, s.process = some p → Agreed lib s.files p) (he : Careful s e) :
    ∀ p, (step lib cfg s e).process = some p → Agreed lib (step lib cfg s e).files p := by
  obtain ⟨files, process⟩ := s
  intro p' hp'
  cases process with
  | none =>
    cases e with
    | start d => exact start_agreed hlib d hp'
    | _ => cases hp'
  | some p =>
    have hp := h p rfl
    cases e with
    | start d =>
      cases hp'
      exact hp
    | stop => cases hp'
    | init password d =>
      cases hp'
      obtain ⟨hfile, hcreds, hinfo⟩ := initializeService_keeps lib cfg password d ⟨files, p.memory⟩
      exact hp.after hfile hcreds hinfo
    | importState archive d =>
      cases hp'
      exact importState_agreed hp he.1 he.2 archive
    | serve =>
      cases hp'
      exact serve_agreed hp he
    | exit =>
      cases hp'
      exact ⟨hp.persisted, nofun⟩

/-- **In every run whose steps are careful the running server has the control password that refresh
authenticates with, and that is the persisted one.** -/
theorem controlPassword_consistent (lib : Library) (cfg : Config) (hlib : TrimsNewline lib) (files : Files)
    (es : List Event) (h : Along (step lib cfg) Careful ⟨files, none⟩ es) :
    Consistent lib (run (step lib cfg) ⟨files, none⟩ es) := by
  intro p hp c hc
  have hagreed := h.invariant (I := fun s => ∀ p, s.process = some p → Agreed lib s.files p) nofun
    (step_agreed hlib) p hp
  obtain ⟨rfl, -⟩ := hagreed.served c hc
  exact ⟨rfl, hagreed.persisted⟩

theorem hexEncode_no_newline (raw : Bytes) : (hexEncode raw).all (· != 10) = true := by
  have hdigit : ∀ n : Fin 16, (Platform.RecoveryBundle.hexDigit n != 10) = true := by decide
  unfold hexEncode
  rw [all_flatMap]
  refine all_eq_true.mpr fun b _ => ?_
  have hb := b.toNat_lt
  simp only [all_cons, all_nil, Bool.and_true, Bool.and_eq_true]
  exact ⟨hdigit ⟨b.toNat / 16, by omega⟩, hdigit ⟨b.toNat % 16, by omega⟩⟩

theorem oneArchive_trimsNewline : TrimsNewline oneArchive := by
  intro raw
  change (hexEncode raw ++ [10]).filter (· != 10) = hexEncode raw
  rw [filter_append, filter_eq_self.mpr (all_eq_true.mp (hexEncode_no_newline raw))]
  exact append_nil _

def firstStart : StartDraws := ⟨fun _ => true, [1, 2], true⟩

def opened : Draws := ⟨none, none, none, fun _ => true, fun _ => true, .ok "FIXED", true, fun _ => true, 7⟩

/-- The start generates a control password, the import replaces it, and a second start, which reads
the imported one, serves. -/
def restarted : List Event := [.start firstStart, .importState [] opened, .stop, .start firstStart, .serve]

theorem controlPassword_consistent_restarted :
    Along (step oneArchive ⟨"/storage", "r1"⟩) Careful ⟨fun _ => none, none⟩ restarted ∧
      Consistent oneArchive (run (step oneArchive ⟨"/storage", "r1"⟩) ⟨fun _ => none, none⟩ restarted) := by
  have h : Along (step oneArchive ⟨"/storage", "r1"⟩) Careful ⟨fun _ => none, none⟩ restarted :=
    ⟨trivial, ⟨rfl, rfl⟩, trivial, trivial, trivial, trivial⟩
  exact ⟨h, controlPassword_consistent oneArchive ⟨"/storage", "r1"⟩ oneArchive_trimsNewline _ _ h⟩

/-- Without the second start the server gets the generated password, and refresh the imported one. -/
theorem serve_after_import_differs :
    ¬ Consistent oneArchive (run (step oneArchive ⟨"/storage", "r1"⟩) ⟨fun _ => none, none⟩
      [.start firstStart, .importState [] opened, .serve]) := by
  intro h
  have hne := (h _ rfl _ rfl).1
  revert hne
  decide +kernel

end Dbr2.Reposerver
