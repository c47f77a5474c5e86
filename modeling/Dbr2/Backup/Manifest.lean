import Mathlib.Data.List.Nodup

/-! Recovery manifests (`internal/manifest/manifest.go`) and how the worker builds one
(`BuildManifest` in `workflows/backup/activities.go`).

A manifest lists the components of a recovery point with their outcomes. `validate`
collects what is wrong with one, in the words of the source; `validate_eq_nil_iff`
says what an accepted manifest is: `Valid`. -/
namespace Dbr2.Backup
open List

inductive Kind
  | config | volume | bindMount | database | image | fsmeta
  | unknown
  deriving DecidableEq

def Kind.name : Kind → String
  | .config => "config"
  | .volume => "volume"
  | .bindMount => "bind_mount"
  | .database => "database"
  | .image => "image"
  | .fsmeta => "fsmeta"
  | .unknown => "unknown"

inductive ComponentStatus
  | succeeded | failed | skipped
  | other (s : String)
  deriving DecidableEq

def ComponentStatus.name : ComponentStatus → String
  | .succeeded => "succeeded"
  | .failed => "failed"
  | .skipped => "skipped"
  | .other s => s

def ComponentStatus.isKnown : ComponentStatus → Bool
  | .other _ => false
  | _ => true

inductive Mode
  | live | quiesced | offline
  | other (s : String)
  deriving DecidableEq

def Mode.name : Mode → String
  | .live => "live"
  | .quiesced => "quiesced"
  | .offline => "offline"
  | .other s => s

def Mode.isKnown : Mode → Bool
  | .other _ => false
  | _ => true

inductive Status
  | complete | partly
  deriving DecidableEq

structure Component where
  name : String
  kind : Kind
  required : Bool
  status : ComponentStatus
  (error snapshotId snapshotSource : String)
  sizeBytes : Nat
  parent : String
  deriving DecidableEq

structure Manifest where
  schemaVersion : Nat
  recoveryPointId : String
  status : Status
  createdAt : Nat
  consistencyMode : Mode
  consistencyPoint : Nat
  crashConsistentOnly : Bool
  (applicationId hostId agentId repositoryId workflowId runId : String)
  components : List Component
  deriving DecidableEq

def schemaVersion : Nat := 1

/-- The digits of a ULID: `0-9A-HJKMNP-TV-Z`. -/
def isULIDDigit (c : Char) : Bool :=
  c.isDigit || (c.isUpper && c != 'I' && c != 'L' && c != 'O' && c != 'U')

def isRecoveryPointID (s : String) : Bool :=
  match s.toList with
  | 'r' :: 'p' :: '_' :: ds => ds.length == 26 && ds.all isULIDDigit
  | _ => false

def complaint (c : Prop) [Decidable c] (msg : String) : List String := if c then [msg] else []

@[simp] theorem complaint_eq_nil {c : Prop} [Decidable c] {msg : String} : complaint c msg = [] ↔ ¬ c := by
  unfold complaint
  split <;> simp_all

namespace Manifest

def headerErrors (m : Manifest) : List String :=
  complaint (m.schemaVersion ≠ Backup.schemaVersion) ("schema_version must be " ++ toString Backup.schemaVersion) ++
  complaint (isRecoveryPointID m.recoveryPointId = false)
    ("recovery_point_id " ++ m.recoveryPointId.quote ++ " is not rp_<ULID>") ++
  complaint (m.consistencyMode.isKnown = false)
    ("consistency_mode " ++ m.consistencyMode.name.quote ++ " is invalid") ++
  complaint (m.consistencyMode = .live ∧ m.crashConsistentOnly = false)
    "live recovery points must be crash_consistent_only" ++
  complaint (m.applicationId = "" ∨ m.agentId = "" ∨ m.hostId = "" ∨ m.repositoryId = "")
    "application.id, source.host_id, source.agent_id and repository.id are required" ++
  complaint (m.workflowId = "" ∨ m.runId = "") "workflow.workflow_id and workflow.run_id are required" ++
  complaint (m.createdAt = 0 ∨ m.consistencyPoint = 0) "created_at and consistency_point are required" ++
  complaint (m.components = []) "at least one component is required"

def outcomeErrors (c : Component) : List String :=
  if c.status = .succeeded then
    complaint (c.snapshotId = "" ∨ c.snapshotSource = "")
      ("component " ++ c.name ++ ": succeeded without snapshot_id and snapshot_source")
  else
    complaint (c.required = true)
      ("component " ++ c.name ++ ": required component did not succeed (no recovery point may exist)")

def componentErrors (i : Nat) (seen : List String) : List Component → List String
  | [] => []
  | c :: cs =>
    complaint (c.name = "" ∨ c.name ∈ seen)
      ("component " ++ toString i ++ ": name " ++ c.name.quote ++ " is empty or duplicated") ++
    complaint (c.kind = .unknown) ("component " ++ c.name ++ ": kind " ++ c.kind.name.quote ++ " is invalid") ++
    complaint (c.status.isKnown = false)
      ("component " ++ c.name ++ ": status " ++ c.status.name.quote ++ " is invalid") ++
    outcomeErrors c ++ componentErrors (i + 1) (c.name :: seen) cs

/-- The component a name stands for: the last one. -/
def named (cs : List Component) (name : String) : Option Component :=
  cs.reverse.find? (·.name == name)

def isFilesystem (k : Kind) : Bool := k == .volume || k == .bindMount

def companionErrors (cs : List Component) (c : Component) : List String :=
  if c.kind = .fsmeta then
    match named cs c.parent with
    | none => ["fsmeta component " ++ c.name ++ ": parent " ++ c.parent.quote ++ " is not a filesystem component"]
    | some p =>
      if isFilesystem p.kind = false then
        ["fsmeta component " ++ c.name ++ ": parent " ++ c.parent.quote ++ " is not a filesystem component"]
      else complaint (p.status = .succeeded ∧ c.status ≠ .succeeded)
        ("fsmeta component " ++ c.name ++ ": required whenever " ++ p.name ++ " is present")
  else []

def failedOptional (cs : List Component) : Bool :=
  cs.any fun c => c.status != .succeeded && !c.required

def statusErrors (m : Manifest) : List String :=
  complaint (m.status = .complete ∧ failedOptional m.components = true)
    "status complete but optional components failed; must be partial" ++
  complaint (m.status = .partly ∧ failedOptional m.components = false)
    "status partial but every component succeeded; must be complete"

def validate (m : Manifest) : List String :=
  m.headerErrors ++ componentErrors 0 [] m.components ++
    m.components.flatMap (companionErrors m.components) ++ m.statusErrors

def validateSources (agentUser : String) (m : Manifest) : Option Component :=
  m.components.find? fun c =>
    c.status == .succeeded && !decide ((agentUser ++ "@" ++ m.agentId ++ ":").toList <+: c.snapshotSource.toList)

/-- StatusFor: none if a required component did not succeed. -/
def statusFor : List Component → Option Status
  | [] => some .complete
  | c :: cs =>
    if c.status = .succeeded then statusFor cs
    else if c.required then none
    else (statusFor cs).map fun _ => .partly

structure ValidHeader (m : Manifest) : Prop where
  schema : m.schemaVersion = Backup.schemaVersion
  recoveryPointId : isRecoveryPointID m.recoveryPointId = true
  mode : m.consistencyMode.isKnown = true
  live : m.consistencyMode = .live → m.crashConsistentOnly = true
  ids : m.applicationId ≠ "" ∧ m.agentId ≠ "" ∧ m.hostId ≠ "" ∧ m.repositoryId ≠ ""
  workflow : m.workflowId ≠ "" ∧ m.runId ≠ ""
  times : m.createdAt ≠ 0 ∧ m.consistencyPoint ≠ 0

structure ValidComponent (c : Component) : Prop where
  name : c.name ≠ ""
  kind : c.kind ≠ .unknown
  status : c.status.isKnown = true
  snapshot : c.status = .succeeded → c.snapshotId ≠ "" ∧ c.snapshotSource ≠ ""
  required : c.required = true → c.status = .succeeded

/-- A companion has a filesystem component as its parent, and has succeeded with it. -/
def ValidCompanion (cs : List Component) (c : Component) : Prop :=
  c.kind = .fsmeta → ∃ p, named cs c.parent = some p ∧ isFilesystem p.kind = true ∧
    (p.status = .succeeded → c.status = .succeeded)

structure Valid (m : Manifest) : Prop where
  header : m.ValidHeader
  nonempty : m.components ≠ []
  names : (m.components.map (·.name)).Nodup
  component : ∀ c ∈ m.components, ValidComponent c
  companion : ∀ c ∈ m.components, ValidCompanion m.components c
  status : m.status = if failedOptional m.components then .partly else .complete

variable {cs : List Component} {m : Manifest}

theorem headerErrors_eq_nil : m.headerErrors = [] ↔ m.ValidHeader ∧ m.components ≠ [] := by
  simp only [headerErrors, append_eq_nil_iff, complaint_eq_nil, not_or, not_and, not_not, Bool.not_eq_false]
  constructor
  · rintro ⟨⟨⟨⟨⟨⟨⟨h1, h2⟩, h3⟩, h4⟩, h5⟩, h6⟩, h7⟩, h8⟩
    exact ⟨⟨h1, h2, h3, h4, h5, h6, h7⟩, h8⟩
  · rintro ⟨⟨h1, h2, h3, h4, h5, h6, h7⟩, h8⟩
    exact ⟨⟨⟨⟨⟨⟨⟨h1, h2⟩, h3⟩, h4⟩, h5⟩, h6⟩, h7⟩, h8⟩

theorem outcomeErrors_eq_nil {c : Component} : outcomeErrors c = [] ↔
    (c.status = .succeeded → c.snapshotId ≠ "" ∧ c.snapshotSource ≠ "") ∧
      (c.required = true → c.status = .succeeded) := by
  unfold outcomeErrors
  by_cases h : c.status = .succeeded <;> simp [h]

theorem componentErrors_eq_nil {i : Nat} {seen : List String} :
    componentErrors i seen cs = [] ↔ (∀ c ∈ cs, ValidComponent c ∧ c.name ∉ seen) ∧ (cs.map (·.name)).Nodup := by
  induction cs generalizing i seen with
  | nil => simp [componentErrors]
  | cons c cs ih =>
    rw [forall_mem_cons, map_cons, nodup_cons]
    simp only [componentErrors, append_eq_nil_iff, complaint_eq_nil, not_or, outcomeErrors_eq_nil,
      ih, Bool.not_eq_false, mem_cons]
    constructor
    · rintro ⟨⟨⟨⟨⟨hn, hs⟩, hk⟩, hst⟩, ho⟩, hcs, hnodup⟩
      refine ⟨⟨⟨⟨hn, hk, hst, ho.1, ho.2⟩, hs⟩, fun d hd => ⟨(hcs d hd).1, (hcs d hd).2.2⟩⟩, ?_, hnodup⟩
      intro hmem
      obtain ⟨d, hd, hdn⟩ := mem_map.1 hmem
      exact (hcs d hd).2.1 hdn
    · rintro ⟨⟨⟨hv, hs⟩, hcs⟩, hmem, hnodup⟩
      refine ⟨⟨⟨⟨⟨hv.name, hs⟩, hv.kind⟩, hv.status⟩, hv.snapshot, hv.required⟩, fun d hd => ?_, hnodup⟩
      exact ⟨(hcs d hd).1, fun hdn => hmem (mem_map.2 ⟨d, hd, hdn⟩), (hcs d hd).2⟩

theorem companionErrors_eq_nil {c : Component} : companionErrors cs c = [] ↔ ValidCompanion cs c := by
  unfold companionErrors ValidCompanion
  by_cases hk : c.kind = .fsmeta
  · rw [if_pos hk]
    cases hp : named cs c.parent with
    | none => simp [hk]
    | some p =>
      by_cases hfs : isFilesystem p.kind = true <;> simp [hk, hfs]
  · simp [hk]

theorem statusErrors_eq_nil : m.statusErrors = [] ↔
    m.status = if failedOptional m.components then .partly else .complete := by
  unfold statusErrors
  cases hs : m.status <;> cases hf : failedOptional m.components <;> simp

theorem validate_eq_nil_iff : m.validate = [] ↔ m.Valid := by
  simp only [validate, append_eq_nil_iff, headerErrors_eq_nil, componentErrors_eq_nil,
    flatMap_eq_nil_iff, companionErrors_eq_nil, statusErrors_eq_nil]
  constructor
  · rintro ⟨⟨⟨⟨hh, hne⟩, hc, hn⟩, hcomp⟩, hst⟩
    exact ⟨hh, hne, hn, fun c hc' => (hc c hc').1, hcomp, hst⟩
  · rintro ⟨hh, hne, hn, hc, hcomp, hst⟩
    exact ⟨⟨⟨⟨hh, hne⟩, fun c hc' => ⟨hc c hc', not_mem_nil⟩, hn⟩, hcomp⟩, hst⟩

theorem statusFor_eq (h : ∀ c ∈ cs, c.required = true → c.status = .succeeded) :
    statusFor cs = some (if failedOptional cs then .partly else .complete) := by
  induction cs with
  | nil => rfl
  | cons c cs ih =>
    rw [forall_mem_cons] at h
    rw [statusFor, ih h.2]
    by_cases hs : c.status = .succeeded
    · simp [hs, failedOptional]
    have hr : c.required = false := by
      cases hreq : c.required with
      | false => rfl
      | true => exact absurd (h.1 hreq) hs
    simp [hs, hr, failedOptional]

end Manifest
end Dbr2.Backup
