import Dbr2.Protection.Planning

/-! The protection status of an application (`ProtectionFor` and `computeProtection` in
`internal/protection/status.go`).

The status is computed from a plan that is made again, under settings without the post hooks. If
that plan cannot be made there are no components, and nothing is missing from the latest recovery
point. -/
namespace Dbr2.Protection.Planning
open List
open Backup (Kind)

inductive PointState
  | pending | committed | failed | missing | deleting
  deriving DecidableEq

structure RecoveryPoint where
  id : String
  state : PointState
  status : Option Backup.Status
  createdAt : Nat
  committedAt : Option Nat
  consistencyMode : String
  error : Option String
  manifest : Option (List Backup.Component)
  deriving DecidableEq

inductive ProtectionStatus
  | isProtected | atRisk | failed | unprotected
  deriving DecidableEq

inductive Operation
  | backup | restore
  deriving DecidableEq

structure ComponentCoverage where
  name : String
  kind : Kind
  (required isProtected : Bool)
  lastSizeBytes : Nat
  deriving DecidableEq

structure AppProtection where
  status : ProtectionStatus
  reasons : List String
  lastBackupAt : Option Nat
  lastRecoveryPointId : String
  lastStatus : Option Backup.Status
  lastMode : String
  lastAttemptAt : Option Nat
  lastAttemptState : Option PointState
  lastError : String
  running : Option Operation
  components : List ComponentCoverage
  (componentsTotal componentsProtected unresolvedDependencies : Nat)
  deriving DecidableEq

def backupSettings (row : Option BackupSettings) : BackupSettings := row.getD ⟨[], [], [], [], .both⟩

def coverageSettings : Option BackupSettings → BackupSettings
  | none => ⟨[], [], [], [], .unset⟩
  | some row => {row with postHooks := []}

/-- What the recovery point has of a component; the last one of its name that succeeded. -/
def capturedAs (m : List Backup.Component) (name : String) : Option Backup.Component :=
  m.reverse.find? fun c => c.status == .succeeded && c.name == name

def coverage (m : List Backup.Component) (c : ComponentSpec) : ComponentCoverage :=
  ⟨c.name, c.kind, c.required, (capturedAs m c.name).isSome, ((capturedAs m c.name).map (·.sizeBytes)).getD 0⟩

def currentComponents (app : Application) (bs : BackupSettings) : List ComponentSpec :=
  match buildPlan app bs with
  | .ok p => p.components
  | .error _ => []

def statusOf (ok attempt : Option RecoveryPoint) (got total : Nat) : ProtectionStatus × List String :=
  match ok, attempt with
  | none, attempt =>
    if attempt.any (·.state == .failed) then (.failed, ["no backup has succeeded; the last attempt failed"])
    else (.unprotected, ["no recovery point exists"])
  | some r, attempt =>
    if attempt.any fun a => a.state == .failed && decide (r.createdAt < a.createdAt) then
      (.failed, ["the last backup attempt failed"])
    else
      let partly := r.status == some .partly
      let short := decide (got < total)
      (if partly || short then .atRisk else .isProtected,
        (if partly then ["the latest recovery point is Partial"] else []) ++
        (if short then [toString (total - got) ++ " of " ++ toString total ++
          " components are not in the latest recovery point"] else []))

def computeProtection (app : Application) (bs : BackupSettings) (ok attempt : Option RecoveryPoint)
    (restoring : Bool) : AppProtection :=
  let components := (currentComponents app bs).map (coverage ((ok.bind (·.manifest)).getD []))
  let total := components.length
  let got := components.countP (·.isProtected)
  let unresolved := (app.analysis.map (·.dependencies.length)).getD 0
  let s := statusOf ok attempt got total
  { status := s.1
    reasons := (if app.analysis.isNone then ["the application is missing from its host's latest inventory"] else []) ++
      s.2 ++ (if 0 < unresolved then [toString unresolved ++ " external dependencies are not protected by DBR²"] else [])
    lastBackupAt := ok.bind (·.committedAt)
    lastRecoveryPointId := (ok.map (·.id)).getD ""
    lastStatus := ok.bind (·.status)
    lastMode := (ok.map (·.consistencyMode)).getD ""
    lastAttemptAt := attempt.map (·.createdAt)
    lastAttemptState := attempt.map (·.state)
    lastError := (attempt.bind (·.error)).getD ""
    running := if restoring then some .restore else if attempt.any (·.state == .pending) then some .backup else none
    components
    componentsTotal := total
    componentsProtected := got
    unresolvedDependencies := unresolved }

def latestCommitted (history : List RecoveryPoint) : Option RecoveryPoint := history.find? (·.state == .committed)

/-- ProtectionFor, for one application: its row of settings, its recovery points and whether a
restore of it is running. -/
def protectionFor (app : Application) (row : Option BackupSettings) (history : List RecoveryPoint)
    (restoring : Bool) : AppProtection :=
  computeProtection app (coverageSettings row) (latestCommitted history) history.head? restoring

/-- The plan of the actual settings can be made, and each component of it has succeeded in the
manifest of the latest committed recovery point. -/
def Covered (app : Application) (row : Option BackupSettings) (history : List RecoveryPoint) : Prop :=
  ∃ p, buildPlan app (backupSettings row) = .ok p ∧ ∀ c ∈ p.components, ∃ r m, latestCommitted history = some r ∧
    r.manifest = some m ∧ ∃ got ∈ m, got.name = c.name ∧ got.status = .succeeded

variable {app : Application} {row : Option BackupSettings} {history : List RecoveryPoint} {restoring : Bool}
  {x : Analysis} {inv : Option (List Container)}

theorem components_coverageSettings :
    components x inv (coverageSettings row) = components x inv (backupSettings row) := by
  cases row with
  | none => rfl
  | some set => rfl

theorem hooks_coverageSettings {h : HookSpec}
    (hh : h ∈ (coverageSettings row).preHooks ++ (coverageSettings row).postHooks) :
    h ∈ (backupSettings row).preHooks ++ (backupSettings row).postHooks := by
  cases row with
  | none => exact hh
  | some set =>
    have hpre : h ∈ set.preHooks := by simpa [coverageSettings] using hh
    exact mem_append_left _ hpre

theorem currentComponents_of_plannable (h : Plannable app (backupSettings row) x) :
    currentComponents app (coverageSettings row) = components x app.inventory (backupSettings row) := by
  have hcover : Plannable app (coverageSettings row) x :=
    ⟨h.analysis, h.containers, fun k hk => h.hooks k (hooks_coverageSettings hk)⟩
  obtain ⟨p, hp⟩ := buildPlan_isOk_iff.2 ⟨x, hcover⟩
  obtain ⟨x', pre, post, hx', -, -, -, rfl⟩ := buildPlan_eq_ok.1 hp
  obtain rfl := Option.some.inj (h.analysis.symm.trans hx')
  rw [currentComponents, hp]
  exact components_coverageSettings

theorem statusOf_isProtected {ok attempt : Option RecoveryPoint} {n total : Nat}
    (h : (statusOf ok attempt n total).1 = .isProtected) : ok.isSome = true ∧ total ≤ n := by
  unfold statusOf at h
  split at h
  · split at h <;> cases h
  split at h
  · cases h
  dsimp only at h
  split at h
  · cases h
  rename_i hshort
  simp only [Bool.or_eq_true, decide_eq_true_eq, not_or] at hshort
  exact ⟨rfl, by omega⟩

theorem captured_of_isProtected (h : (protectionFor app row history restoring).status = .isProtected) :
    ∃ r, latestCommitted history = some r ∧
      ∀ c ∈ currentComponents app (coverageSettings row), (capturedAs (r.manifest.getD []) c.name).isSome = true := by
  obtain ⟨hsome, hall⟩ := statusOf_isProtected h
  obtain ⟨r, hr⟩ := Option.isSome_iff_exists.1 hsome
  refine ⟨r, hr, ?_⟩
  rw [hr] at hall
  have hcount := Nat.le_antisymm countP_le_length hall
  rw [countP_eq_length, forall_mem_map] at hcount
  exact hcount

theorem capturedAs_isSome {m : List Backup.Component} {name : String} (h : (capturedAs m name).isSome = true) :
    ∃ got ∈ m, got.name = name ∧ got.status = .succeeded := by
  obtain ⟨got, hgot⟩ := Option.isSome_iff_exists.1 h
  have hmem := mem_reverse.1 (mem_of_find?_eq_some hgot)
  have hok := find?_some hgot
  simp only [Bool.and_eq_true, beq_iff_eq] at hok
  exact ⟨got, hmem, hok.2, hok.1⟩

/-- An application that is called protected is covered exactly if it is in the inventory with a
container, and each hook of its settings, before and after, names a container of it. -/
theorem protected_covered_iff (app : Application) (row : Option BackupSettings) (history : List RecoveryPoint)
    (restoring : Bool) (h : (protectionFor app row history restoring).status = .isProtected) :
    Covered app row history ↔ ∃ x, Plannable app (backupSettings row) x := by
  constructor
  · rintro ⟨p, hp, -⟩
    exact buildPlan_isOk_iff.1 ⟨p, hp⟩
  · rintro ⟨x, hplan⟩
    obtain ⟨p, hp⟩ := buildPlan_isOk_iff.2 ⟨x, hplan⟩
    obtain ⟨r, hr, hcaptured⟩ := captured_of_isProtected h
    refine ⟨p, hp, fun c hc => ?_⟩
    obtain ⟨x', pre, post, hx', -, -, -, rfl⟩ := buildPlan_eq_ok.1 hp
    obtain rfl := Option.some.inj (hplan.analysis.symm.trans hx')
    obtain ⟨got, hgot, hname, hok⟩ :=
      capturedAs_isSome (hcaptured c (by rw [currentComponents_of_plannable hplan]; exact hc))
    cases hm : r.manifest with
    | none =>
      rw [hm] at hgot
      cases hgot
    | some m =>
      rw [hm] at hgot
      exact ⟨r, m, hr, hm, got, hgot, hname, hok⟩

def smallApp : Application where
  analysis := some
    { workingDir := "", services := [⟨"web", "nginx", [⟨"1", "/web"⟩]⟩], volumes := [], bindSources := []
      configFiles := [], envFiles := [], dependencies := [] }
  inventory := none

def hooksAfter (container : String) : BackupSettings := ⟨[], [⟨container, ["true"], 0, false⟩], [], [], .both⟩

def configCaptured : List RecoveryPoint :=
  [⟨"rp", .committed, some .complete, 1, some 1, "live", none,
    some [⟨"config", .config, true, .succeeded, "", "s", "a@b:c", 1, ""⟩]⟩]

theorem protected_covered_iff_small : (protectionFor smallApp (some (hooksAfter "web")) configCaptured false).status =
      .isProtected ∧ Covered smallApp (some (hooksAfter "web")) configCaptured :=
  ⟨by decide, (protected_covered_iff smallApp (some (hooksAfter "web")) configCaptured false (by decide)).2
    ⟨_, rfl, by decide, by decide⟩⟩

/-- The post hook names a container that is gone, or the application is missing: it is called
protected, and there is no plan. -/
theorem protected_without_plan :
    ((protectionFor smallApp (some (hooksAfter "gone")) configCaptured false).status = .isProtected ∧
      ¬ Covered smallApp (some (hooksAfter "gone")) configCaptured) ∧
    ((protectionFor ⟨none, none⟩ none configCaptured false).status = .isProtected ∧
      ¬ Covered ⟨none, none⟩ none configCaptured) := by
  refine ⟨⟨by decide, ?_⟩, ⟨by decide, ?_⟩⟩
  · rintro ⟨p, hp, -⟩
    cases hp
  · rintro ⟨p, hp, -⟩
    cases hp

end Dbr2.Protection.Planning
