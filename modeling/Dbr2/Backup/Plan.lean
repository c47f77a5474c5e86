import Dbr2.Backup.Manifest

/-! Backup plans, component results and the manifest that is made of them
(`workflows/backup/backup.go`, `BuildManifest` in `workflows/backup/activities.go`).

The server plans which components to capture; the agent answers with a list of
results; the worker turns the list into a manifest. `buildManifest_eq_ok`: it does so
exactly when the manifest is valid and every snapshot is the agent's own. -/
namespace Dbr2.Backup

structure ComponentSpec where
  name : String
  kind : Kind
  required : Bool
  path : String
  captureFsmeta : Bool
  deriving DecidableEq

structure ComponentResult where
  name : String
  kind : Kind
  required : Bool
  status : ComponentStatus
  (error snapshotId source : String)
  sizeBytes : Nat
  parent : String
  deriving DecidableEq

structure ManifestSeed where
  (applicationId hostId agentId : String)
  deriving DecidableEq

structure Plan where
  (recoveryPointId agentId repositoryId : String)
  consistencyMode : Mode
  components : List ComponentSpec
  (seedComponents preHooks postHooks containerIds : List String)
  /-- application_json; none if it cannot be decoded. -/
  applicationJson : Option ManifestSeed
  waitForWindowSeconds : Nat
  deriving DecidableEq

def Plan.dbComps (p : Plan) : List ComponentSpec := p.components.filter (·.kind == .database)

def Plan.fsComps (p : Plan) : List ComponentSpec := p.components.filter (·.kind != .database)

def firstNonEmpty (ss : List String) : String := (ss.find? (· != "")).getD ""

def failedRequired (rs : List ComponentResult) : List String :=
  (rs.filter fun r => r.required && r.status != .succeeded).map fun r =>
    r.name ++ ": " ++ firstNonEmpty [r.error, r.status.name]

def agentKopiaUser : String := "agent"

structure CommitInput where
  plan : Plan
  results : List ComponentResult
  (workflowId runId : String)
  startedAt : Nat
  quiesceStartedAt : Option Nat
  deriving DecidableEq

def ComponentResult.toComponent (r : ComponentResult) : Component where
  name := r.name
  kind := r.kind
  required := r.required
  status := r.status
  error := r.error
  snapshotId := r.snapshotId
  snapshotSource := r.source
  sizeBytes := r.sizeBytes
  parent := r.parent

def CommitInput.draft (i : CommitInput) (seed : ManifestSeed) (now : Nat) (status : Status) : Manifest where
  schemaVersion := schemaVersion
  recoveryPointId := i.plan.recoveryPointId
  status := status
  createdAt := now
  consistencyMode := i.plan.consistencyMode
  consistencyPoint :=
    if i.plan.consistencyMode = .live then i.startedAt else i.quiesceStartedAt.getD i.startedAt
  crashConsistentOnly := i.plan.consistencyMode == .live
  applicationId := seed.applicationId
  hostId := seed.hostId
  agentId := seed.agentId
  repositoryId := i.plan.repositoryId
  workflowId := i.workflowId
  runId := i.runId
  components := i.results.map ComponentResult.toComponent

def buildManifest (i : CommitInput) (now : Nat) : Except String Manifest :=
  match i.plan.applicationJson with
  | none => .error "plan application_json"
  | some seed =>
    match Manifest.statusFor (i.results.map ComponentResult.toComponent) with
    | none => .error "a required component did not succeed"
    | some status =>
      let m := i.draft seed now status
      if m.validate ≠ [] then
        .error ("manifest: invalid: " ++ "; ".intercalate m.validate)
      else match m.validateSources agentKopiaUser with
        | some c => .error ("manifest: component " ++ c.name ++ " source " ++ c.snapshotSource.quote ++
            " was not written by agent " ++ m.agentId)
        | none => .ok m

variable {i : CommitInput} {now : Nat} {m : Manifest}

theorem buildManifest_eq_ok : buildManifest i now = .ok m ↔ ∃ seed status, i.plan.applicationJson = some seed ∧
      Manifest.statusFor (i.results.map ComponentResult.toComponent) = some status ∧
      m = i.draft seed now status ∧ m.Valid ∧ m.validateSources agentKopiaUser = none := by
  unfold buildManifest
  cases hseed : i.plan.applicationJson with
  | none => simp
  | some seed =>
    cases hst : Manifest.statusFor (i.results.map ComponentResult.toComponent) with
    | none => simp
    | some status =>
      simp only [Option.some.injEq, exists_and_left, exists_eq_left']
      rw [← Manifest.validate_eq_nil_iff]
      by_cases hv : (i.draft seed now status).validate = []
      · rw [if_neg (not_not.2 hv)]
        cases hsrc : (i.draft seed now status).validateSources agentKopiaUser with
        | none =>
          constructor
          · intro h
            obtain rfl := Except.ok.inj h
            exact ⟨rfl, hv, hsrc⟩
          · rintro ⟨rfl, -, -⟩
            rfl
        | some c =>
          constructor
          · intro h
            cases h
          · rintro ⟨rfl, -, hn⟩
            rw [hsrc] at hn
            cases hn
      rw [if_pos hv]
      constructor
      · intro h
        cases h
      · rintro ⟨rfl, hv', -⟩
        exact absurd hv' hv

end Dbr2.Backup
