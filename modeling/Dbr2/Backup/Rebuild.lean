import Dbr2.Backup.Repository
import Dbr2.Protection.Retention

/-! The index, written by a backup and rebuilt from its Repository (`PrepareBackup`,
`CompleteBackup` and `IndexRecoveryPoints` in `internal/protection/platform.go`, `readManifests` in
`workflows/backup/maintenance.go`, `db/queries/backups.sql`).

A row of the index is created when the backup starts, with the database's clock, and completed from
the manifest when it ends; reindexing an empty index makes the same row of the manifest alone. The
two agree in everything the manifest decides. -/
namespace Dbr2.Backup
open List
open Protection (RecoveryPointState Time Location Period)

/-- The manifest with the fields that only the index reads. -/
structure Document extends Manifest where
  (applicationName hostname trigger : String)
  deriving DecidableEq

/-- A snapshot of the Repository and the document in it. -/
structure Stored where
  snapshot : Snapshot
  document : Option Document
  same : snapshot.manifest = document.map Document.toManifest

/-- The instants of manifests count nanoseconds, those of the index microseconds. -/
def micros (t : Nat) : Time := (t / 1000 : Nat)

/-- A row of `recovery_points`. -/
structure IndexRow where
  (id repositoryId applicationId applicationName agentId hostname : String)
  state : RecoveryPointState
  status : Option Status
  consistencyMode : Mode
  consistencyPoint : Option Time
  crashConsistentOnly : Bool
  trigger : String
  requestedBy : Option String
  (workflowId runId : String)
  (sizeBytes componentCount : Nat)
  manifest : Option Document
  manifestSnapshotId : Option String
  createdAt : Time
  committedAt : Option Time
  deriving DecidableEq

/-- PrepareBackupRequest; `requestedBy` is none if it is not a user's id. -/
structure BackupRequest where
  (applicationId workflowId runId trigger : String)
  requestedBy : Option String
  consistencyMode : Option Mode
  deriving DecidableEq

/-- An attempt of PrepareBackup: the new identifier, what it reads, and the clock of the
database. -/
structure PrepareAttempt where
  (id repositoryId applicationName agentId hostname : String)
  (settingsMode policyMode : Option Mode)
  hooks : Bool
  clock : Time
  deriving DecidableEq

/-- The request's mode, or the application's, or the policy's, or the default. -/
def PrepareAttempt.mode (a : PrepareAttempt) (req : BackupRequest) : Mode :=
  req.consistencyMode.getD (a.settingsMode.getD (a.policyMode.getD (if a.hooks then .quiesced else .live)))

/-- CreateRecoveryPoint: the creation time is the column's default. -/
def createRecoveryPoint (req : BackupRequest) (a : PrepareAttempt) : IndexRow where
  id := a.id
  repositoryId := a.repositoryId
  applicationId := req.applicationId
  applicationName := a.applicationName
  agentId := a.agentId
  hostname := a.hostname
  state := .pending
  status := none
  consistencyMode := a.mode req
  consistencyPoint := none
  crashConsistentOnly := false
  trigger := firstNonEmpty [req.trigger, "manual"]
  requestedBy := req.requestedBy
  workflowId := req.workflowId
  runId := req.runId
  sizeBytes := 0
  componentCount := 0
  manifest := none
  manifestSnapshotId := none
  createdAt := a.clock
  committedAt := none

/-- PrepareBackup, given the pending row of the workflow run, if there is one. -/
def prepareBackup (req : BackupRequest) (pending : Option IndexRow) (a : PrepareAttempt) : IndexRow :=
  pending.getD (createRecoveryPoint req a)

/-- PrepareBackup and its repetitions. -/
def prepared (req : BackupRequest) (first : PrepareAttempt) (retries : List PrepareAttempt) : IndexRow :=
  retries.foldl (fun row a => prepareBackup req (some row) a) (prepareBackup req none first)

structure DocumentInput where
  commit : CommitInput
  (applicationName hostname trigger : String)
  deriving DecidableEq

def buildDocument (i : DocumentInput) (now : Nat) : Except String Document :=
  (buildManifest i.commit now).map fun m =>
    {m with applicationName := i.applicationName, hostname := i.hostname, trigger := i.trigger}

/-- An attempt of the activity that writes the manifest. -/
structure CommitAttempt where
  now : Nat
  id : String
  fate : Fate
  deriving DecidableEq

def Document.stored (d : Document) (id : String) (startTime : Int) : Stored where
  snapshot := d.toManifest.snapshot id startTime
  document := some d
  same := rfl

/-- The manifests of the recovery point that are there already. -/
def existingIn (repo : List Stored) (d : Document) : List Stored :=
  repo.filter fun s => s.snapshot.source == manifestSource d.applicationId &&
    s.snapshot.tags.rp == d.recoveryPointId && s.snapshot.tags.kind == "manifest"

def Stored.parsed (s : Stored) : Option Document := s.document.filter (·.validate = [])

/-- What an attempt returns, if it succeeds, and the Repository after it. A manifest that is
there already is returned. An attempt that stops at one of its components fails, and writes
nothing. -/
def commitAttempt (i : DocumentInput) (repo : List Stored) (a : CommitAttempt) :
    Option (Document × String) × List Stored :=
  match buildDocument i a.now with
  | .error _ => (none, repo)
  | .ok d =>
    match existingIn repo d with
    | s :: _ => (if a.fate = .done then s.parsed.map (·, s.snapshot.id) else none, repo)
    | [] => (if a.fate = .done then some (d, a.id) else none,
        if a.fate.performed then repo ++ [d.stored a.id a.now] else repo)

/-- The attempts, up to the first that succeeds. -/
def commitAll (i : DocumentInput) (repo : List Stored) : List CommitAttempt → Option (Document × String) × List Stored
  | [] => (none, repo)
  | a :: as =>
    match commitAttempt i repo a with
    | (some r, repo) => (some r, repo)
    | (none, repo) => commitAll i repo as

def CommitAttempt.writes (i : DocumentInput) (a : CommitAttempt) : Bool :=
  a.fate.performed && (buildDocument i a.now).toOption.isSome

/-- The clock of the attempt that wrote the manifest. -/
def wroteAt (i : DocumentInput) (as : List CommitAttempt) : Option Nat :=
  (as.find? (·.writes i)).map (·.now)

def sizeOf (m : Manifest) : Nat := m.components.foldl (fun n c => n + c.sizeBytes) 0

def IndexRow.commit (row : IndexRow) (d : Document) (snapshotId : String) (clock : Time) : IndexRow :=
  {row with
    state := .committed
    status := some d.status
    consistencyMode := d.consistencyMode
    consistencyPoint := some (micros d.consistencyPoint)
    crashConsistentOnly := d.crashConsistentOnly
    sizeBytes := sizeOf d.toManifest
    componentCount := d.components.length
    manifest := some d
    manifestSnapshotId := some snapshotId
    committedAt := some (row.committedAt.getD clock)}

/-- `CompleteBackup`. -/
def completeBackup (row : IndexRow) (d : Document) (snapshotId : String) (clock : Time) :
    Except String IndexRow :=
  if d.validate ≠ [] then .error ("manifest: invalid: " ++ "; ".intercalate d.validate)
  else if d.recoveryPointId ≠ row.id ∨ d.agentId ≠ row.agentId then
    .error "manifest does not match the recovery point"
  else .ok (row.commit d snapshotId clock)

/-- The manifests found, with their snapshots; `seen` are the recovery points found before. -/
def readManifests (seen : List String) : List Stored → List (Document × String)
  | [] => []
  | s :: rest =>
    if trustedManifest s.snapshot = false ∨ seen.contains s.snapshot.tags.rp = true then
      readManifests seen rest
    else
      match s.parsed with
      | none => readManifests seen rest
      | some d =>
        if d.validateSources agentKopiaUser = none ∧ d.recoveryPointId = s.snapshot.tags.rp then
          (d, s.snapshot.id) :: readManifests (d.recoveryPointId :: seen) rest
        else readManifests seen rest

abbrev Rows := String → Option IndexRow

/-- The row that a reindex inserts. -/
def indexedRow (repositoryId : String) (d : Document) (snapshotId : String) : IndexRow where
  id := d.recoveryPointId
  repositoryId := repositoryId
  applicationId := d.applicationId
  applicationName := d.applicationName
  agentId := d.agentId
  hostname := d.hostname
  state := .committed
  status := some d.status
  consistencyMode := d.consistencyMode
  consistencyPoint := some (micros d.consistencyPoint)
  crashConsistentOnly := d.crashConsistentOnly
  trigger := firstNonEmpty [d.trigger, "manual"]
  requestedBy := none
  workflowId := d.workflowId
  runId := d.runId
  sizeBytes := sizeOf d.toManifest
  componentCount := d.components.length
  manifest := some d
  manifestSnapshotId := some snapshotId
  createdAt := micros d.createdAt
  committedAt := some (micros d.createdAt)

/-- What a reindex changes in a row that is there. -/
def IndexRow.upsert (new : IndexRow) (old : IndexRow) : IndexRow :=
  {old with
    state := .committed
    status := new.status
    repositoryId := new.repositoryId
    consistencyMode := new.consistencyMode
    consistencyPoint := new.consistencyPoint
    crashConsistentOnly := new.crashConsistentOnly
    sizeBytes := new.sizeBytes
    componentCount := new.componentCount
    manifest := new.manifest
    manifestSnapshotId := new.manifestSnapshotId
    committedAt := some (old.committedAt.getD (new.committedAt.getD 0))}

def Rows.upsert (rows : Rows) (new : IndexRow) : Rows :=
  Function.update rows new.id (some (((rows new.id).map new.upsert).getD new))

/-- Committed rows whose manifest was not found. -/
def Rows.markMissing (rows : Rows) (repositoryId : String) (present : List String) : Rows := fun id =>
  (rows id).map fun row =>
    if row.repositoryId = repositoryId ∧ row.state = .committed ∧ row.id ∉ present then
      {row with state := .missing}
    else row

section Reindex
variable (isUUID : String → Bool) (repositoryId : String)

/-- The loop of IndexRecoveryPoints; one manifest with a bad identity undoes it all. That the
manifests are valid was checked when they were read. -/
def upsertAll (rows : Rows) : List (Document × String) → Except String Rows
  | [] => .ok rows
  | (d, snapshotId) :: rest =>
    if isUUID d.applicationId && isUUID d.agentId then
      upsertAll (rows.upsert (indexedRow repositoryId d snapshotId)) rest
    else .error ("manifest " ++ d.recoveryPointId ++ " has non-UUID identities")

/-- ReindexRepository, from an index `rows`. -/
def reindex (repo : List Stored) (rows : Rows) : Except String Rows :=
  let found := readManifests [] (repo.filter (·.snapshot.tags.kind == "manifest"))
  (upsertAll isUUID repositoryId rows found).map fun rows =>
    rows.markMissing repositoryId (found.map (·.1.recoveryPointId))

end Reindex

def IndexRow.age (row : IndexRow) (now : Time) : Time := now - row.createdAt

/-- Two rows that say the same of a recovery point, and so give it the same retention
periods, the same place among the others and the same age. -/
structure SameRecord (a b : IndexRow) : Prop where
  state : a.state = b.state
  status : a.status = b.status
  consistencyMode : a.consistencyMode = b.consistencyMode
  consistencyPoint : a.consistencyPoint = b.consistencyPoint
  sizeBytes : a.sizeBytes = b.sizeBytes
  componentCount : a.componentCount = b.componentCount
  trigger : a.trigger = b.trigger
  createdAt : a.createdAt = b.createdAt
  manifest : a.manifest = b.manifest
  periods : ∀ (loc : Location) (p : Period), loc.key p a.createdAt = loc.key p b.createdAt
  newer : ∀ t, t < a.createdAt ↔ t < b.createdAt
  age : ∀ now, a.age now = b.age now

/-- A backup that went through PrepareBackup, Commit and CompleteBackup, and a listing of its
Repository at some later time. -/
structure CompletedRun (isUUID : String → Bool) where
  request : BackupRequest
  first : PrepareAttempt
  retries : List PrepareAttempt
  input : DocumentInput
  attempts : List CommitAttempt
  (before after : List Stored)
  document : Document
  snapshotId : String
  clock : Time
  row : IndexRow
  listed : List Stored
  planned : input.commit.plan.recoveryPointId = first.id
  triggered : input.trigger = request.trigger
  fresh : ∀ s ∈ before, trustedManifest s.snapshot = true → s.snapshot.tags.rp ≠ first.id
  committed : commitAll input before attempts = (some (document, snapshotId), after)
  completed : completeBackup (prepared request first retries) document snapshotId clock = .ok row
  kept : ∀ s, trustedManifest s.snapshot = true → s.snapshot.tags.rp = first.id → (s ∈ listed ↔ s ∈ after)
  identities : ∀ s ∈ listed, ∀ d, s.parsed = some d → isUUID d.applicationId = true ∧ isUUID d.agentId = true

theorem prepared_eq (req : BackupRequest) (first : PrepareAttempt) (retries : List PrepareAttempt) :
    prepared req first retries = createRecoveryPoint req first := by
  induction retries with
  | nil => rfl
  | cons a as ih => exact ih

section Commit
variable {i : DocumentInput} {now : Nat} {d : Document} {repo : List Stored}

/-- What a document says about its input. -/
structure Built (i : DocumentInput) (now : Nat) (d : Document) : Prop where
  recoveryPointId : d.recoveryPointId = i.commit.plan.recoveryPointId
  createdAt : d.createdAt = now
  application : ∃ seed, i.commit.plan.applicationJson = some seed ∧ d.applicationId = seed.applicationId
  trigger : d.trigger = i.trigger
  valid : d.validate = []
  sources : d.validateSources agentKopiaUser = none

theorem built_of_ok (h : buildDocument i now = .ok d) : Built i now d := by
  unfold buildDocument at h
  cases hm : buildManifest i.commit now with
  | error e =>
    rw [hm] at h
    cases h
  | ok m =>
    rw [hm] at h
    obtain rfl := Except.ok.inj h
    obtain ⟨seed, status, hseed, -, rfl, hv, hsrc⟩ := buildManifest_eq_ok.1 hm
    exact ⟨rfl, rfl, ⟨seed, hseed, rfl⟩, rfl, Manifest.validate_eq_nil_iff.2 hv, hsrc⟩

theorem Built.rp_ne_empty (h : Built i now d) : d.recoveryPointId ≠ "" := by
  intro he
  have hid := (Manifest.validate_eq_nil_iff.1 h.valid).header.recoveryPointId
  rw [he] at hid
  exact absurd hid (by decide)

theorem stored_trusted (h : Built i now d) (id : String) (t : Int) :
    trustedManifest (d.stored id t).snapshot = true := by
  simp [trustedManifest, Document.stored, Manifest.snapshot, manifestSource, h.rp_ne_empty]

theorem stored_parsed (h : Built i now d) (id : String) (t : Int) : (d.stored id t).parsed = some d := by
  simp [Stored.parsed, Document.stored, h.valid]

theorem trusted_of_mem_existing (h : Built i now d) {s : Stored} (hs : s ∈ existingIn repo d) :
    s ∈ repo ∧ trustedManifest s.snapshot = true ∧ s.snapshot.tags.rp = i.commit.plan.recoveryPointId := by
  obtain ⟨hmem, hp⟩ := mem_filter.1 hs
  simp only [Bool.and_eq_true, beq_iff_eq] at hp
  obtain ⟨⟨hsrc, hrp⟩, hkind⟩ := hp
  refine ⟨hmem, ?_, hrp.trans h.recoveryPointId⟩
  simp [trustedManifest, hsrc, hrp, hkind, manifestSource, h.rp_ne_empty]

def Unwritten (i : DocumentInput) (repo : List Stored) : Prop :=
  ∀ s ∈ repo, trustedManifest s.snapshot = true → s.snapshot.tags.rp ≠ i.commit.plan.recoveryPointId

section

variable (h : Unwritten i repo) (hb : Built i now d)
include h hb

theorem Unwritten.existing : existingIn repo d = [] := by
  apply eq_nil_iff_forall_not_mem.2
  intro s hs
  obtain ⟨hmem, ht, hrp⟩ := trusted_of_mem_existing hb hs
  exact h s hmem ht hrp

theorem Unwritten.existing_stored {now' : Nat} {d' : Document}
    (hb' : Built i now' d') (id : String) (t : Int) :
    existingIn (repo ++ [d.stored id t]) d' = [d.stored id t] := by
  have happ : d.applicationId = d'.applicationId := by
    obtain ⟨seed, hseed, ha⟩ := hb.application
    obtain ⟨seed', hseed', ha'⟩ := hb'.application
    obtain rfl := Option.some.inj (hseed.symm.trans hseed')
    exact ha.trans ha'.symm
  have hrp := hb.recoveryPointId.trans hb'.recoveryPointId.symm
  have hold := h.existing hb'
  unfold existingIn at hold ⊢
  rw [filter_append, hold]
  simp [Document.stored, Manifest.snapshot, happ, hrp]

theorem commitAll_stored (id : String) (t : Int) :
    ∀ (as : List CommitAttempt) {r : Document × String} {after : List Stored},
      commitAll i (repo ++ [d.stored id t]) as = (some r, after) → r = (d, id) ∧ after = repo ++ [d.stored id t] := by
  intro as
  induction as with
  | nil =>
    intro r after hr
    cases hr
  | cons a as ih =>
    intro r after hr
    unfold commitAll commitAttempt at hr
    cases hd : buildDocument i a.now with
    | error e =>
      simp only [hd] at hr
      exact ih hr
    | ok d' =>
      simp only [hd, h.existing_stored hb (built_of_ok hd), stored_parsed hb] at hr
      by_cases hf : a.fate = .done
      · simp only [hf, if_pos, Option.map_some, Prod.mk.injEq, Option.some.injEq] at hr
        exact ⟨hr.1.symm, hr.2.symm⟩
      · simp only [if_neg hf] at hr
        exact ih hr

end

theorem wroteAt_of_writes {a : CommitAttempt} (as : List CommitAttempt) (h : a.writes i = true) :
    wroteAt i (a :: as) = some a.now := by
  rw [wroteAt, find?_cons_of_pos h]
  rfl

theorem wroteAt_of_not_writes {a : CommitAttempt} (as : List CommitAttempt) (h : a.writes i = false) :
    wroteAt i (a :: as) = wroteAt i as := by
  rw [wroteAt, find?_cons_of_neg (by simp [h])]
  rfl

theorem commitAll_fresh (h : Unwritten i repo) : ∀ (as : List CommitAttempt) {id : String}
    {after : List Stored}, commitAll i repo as = (some (d, id), after) →
      ∃ t, wroteAt i as = some t ∧ Built i t d ∧ after = repo ++ [d.stored id t] := by
  intro as
  induction as with
  | nil =>
    intro id after hr
    cases hr
  | cons a as ih =>
    intro id after hr
    unfold commitAll commitAttempt at hr
    cases hd : buildDocument i a.now with
    | error e =>
      have hskip : a.writes i = false := by simp [CommitAttempt.writes, hd, Except.toOption]
      simp only [hd] at hr
      rw [wroteAt_of_not_writes as hskip]
      exact ih hr
    | ok d' =>
      have hb := built_of_ok hd
      have hwrites : a.writes i = a.fate.performed := by simp [CommitAttempt.writes, hd, Except.toOption]
      simp only [hd, h.existing hb] at hr
      cases hf : a.fate with
      | done =>
        simp only [hf, if_pos, Fate.performed, Prod.mk.injEq, Option.some.injEq] at hr
        obtain ⟨⟨rfl, rfl⟩, rfl⟩ := hr
        exact ⟨a.now, wroteAt_of_writes as (by rw [hwrites, hf]; rfl), hb, rfl⟩
      | failed performed =>
        simp only [hf, reduceCtorEq, if_false, Fate.performed] at hr
        cases performed with
        | true =>
          obtain ⟨he, rfl⟩ := commitAll_stored h hb a.id a.now as hr
          obtain ⟨rfl, rfl⟩ := Prod.mk.inj he
          exact ⟨a.now, wroteAt_of_writes as (by rw [hwrites, hf]; rfl), hb, rfl⟩
        | false =>
          rw [wroteAt_of_not_writes as (by rw [hwrites, hf]; rfl)]
          exact ih hr

end Commit

theorem mem_readManifests {repo : List Stored} : ∀ {seen : List String} {d : Document} {id : String},
    (d, id) ∈ readManifests seen repo → ∃ s ∈ repo, trustedManifest s.snapshot = true ∧
      s.parsed = some d ∧ s.snapshot.id = id ∧ d.recoveryPointId = s.snapshot.tags.rp := by
  induction repo with
  | nil =>
    intro seen d id h
    cases h
  | cons s rest ih =>
    intro seen d id h
    have later : ∀ {seen : List String}, (d, id) ∈ readManifests seen rest → ∃ s' ∈ s :: rest,
        trustedManifest s'.snapshot = true ∧ s'.parsed = some d ∧ s'.snapshot.id = id ∧
          d.recoveryPointId = s'.snapshot.tags.rp := by
      intro seen h
      obtain ⟨s', hs', hp⟩ := ih h
      exact ⟨s', mem_cons_of_mem _ hs', hp⟩
    unfold readManifests at h
    split at h
    · exact later h
    rename_i hskip
    split at h
    · exact later h
    rename_i d' hd'
    split at h
    · rename_i hok
      cases h with
      | head => exact ⟨s, mem_cons_self, by simpa using (not_or.1 hskip).1, hd', rfl, hok.2⟩
      | tail _ h => exact later h
    · exact later h

theorem readManifests_finds {s : Stored} {d : Document} (ht : trustedManifest s.snapshot = true)
    (hd : s.parsed = some d) (hsrc : d.validateSources agentKopiaUser = none)
    (hrp : d.recoveryPointId = s.snapshot.tags.rp) {repo : List Stored} : ∀ {seen : List String},
      s.snapshot.tags.rp ∉ seen →
      (∀ s' ∈ repo, trustedManifest s'.snapshot = true → s'.snapshot.tags.rp = s.snapshot.tags.rp → s' = s) →
      s ∈ repo → (d, s.snapshot.id) ∈ readManifests seen repo := by
  induction repo with
  | nil =>
    intro seen _ _ hs
    cases hs
  | cons s' rest ih =>
    intro seen hseen honly hs
    have hrest : ∀ s'' ∈ rest, trustedManifest s''.snapshot = true →
        s''.snapshot.tags.rp = s.snapshot.tags.rp → s'' = s := fun s'' h =>
      honly s'' (mem_cons_of_mem _ h)
    by_cases he : s' = s
    · subst he
      unfold readManifests
      rw [if_neg (by simp [ht, hseen])]
      simp only [hd, if_pos (And.intro hsrc hrp)]
      exact mem_cons_self
    have hs := (mem_cons.1 hs).resolve_left (Ne.symm he)
    unfold readManifests
    split
    · exact ih hseen hrest hs
    rename_i hskip
    have ht' : trustedManifest s'.snapshot = true := by simpa using (not_or.1 hskip).1
    have hne : s'.snapshot.tags.rp ≠ s.snapshot.tags.rp := fun h => he (honly s' mem_cons_self ht' h)
    split
    · exact ih hseen hrest hs
    rename_i d' _
    split
    · rename_i hok
      apply mem_cons_of_mem
      refine ih ?_ hrest hs
      rw [mem_cons, not_or, hok.2]
      exact ⟨hne.symm, hseen⟩
    · exact ih hseen hrest hs

theorem IndexRow.upsert_self (row : IndexRow) (h : row.state = .committed) (hc : row.committedAt.isSome) :
    row.upsert row = row := by
  obtain ⟨t, ht⟩ := Option.isSome_iff_exists.1 hc
  cases row
  simp_all [IndexRow.upsert]

section Upsert
variable {isUUID : String → Bool} (repositoryId : String) {d : Document} {snapshotId : String}

theorem upsertAll_ok {found : List (Document × String)} : ∀ (rows : Rows),
    (∀ p ∈ found, isUUID p.1.applicationId = true ∧ isUUID p.1.agentId = true) →
      ∃ rows', upsertAll isUUID repositoryId rows found = .ok rows' := by
  induction found with
  | nil =>
    intro rows _
    exact ⟨rows, rfl⟩
  | cons p rest ih =>
    intro rows h
    obtain ⟨d, id⟩ := p
    have hid := h _ mem_cons_self
    simp only [upsertAll, hid.1, hid.2, Bool.and_self, if_true]
    exact ih _ fun p hp => h p (mem_cons_of_mem _ hp)

theorem upsertAll_row {found : List (Document × String)} : ∀ {rows rows' : Rows},
    (∀ p ∈ found, p.1.recoveryPointId = d.recoveryPointId → p = (d, snapshotId)) →
      rows d.recoveryPointId = none ∨ rows d.recoveryPointId = some (indexedRow repositoryId d snapshotId) →
      upsertAll isUUID repositoryId rows found = .ok rows' →
      (d, snapshotId) ∈ found ∨ rows d.recoveryPointId = some (indexedRow repositoryId d snapshotId) →
      rows' d.recoveryPointId = some (indexedRow repositoryId d snapshotId) := by
  induction found with
  | nil =>
    intro rows rows' _ _ h hin
    obtain rfl := Except.ok.inj h
    exact hin.resolve_left not_mem_nil
  | cons p rest ih =>
    intro rows rows' honly hrow h hin
    obtain ⟨d', id'⟩ := p
    unfold upsertAll at h
    split at h
    · have hrest : ∀ p ∈ rest, p.1.recoveryPointId = d.recoveryPointId → p = (d, snapshotId) := fun p hp =>
        honly p (mem_cons_of_mem _ hp)
      by_cases he : d'.recoveryPointId = d.recoveryPointId
      · -- its own manifest: the row is made, or stays as it was made
        obtain ⟨rfl, rfl⟩ := Prod.mk.inj (honly (d', id') mem_cons_self he)
        have hnew : rows.upsert (indexedRow repositoryId d' id') d'.recoveryPointId =
            some (indexedRow repositoryId d' id') := by
          unfold Rows.upsert
          rw [show d'.recoveryPointId = (indexedRow repositoryId d' id').id from rfl, Function.update_self]
          rcases hrow with hrow | hrow
          · simp [indexedRow, hrow]
          · rw [show rows (indexedRow repositoryId d' id').id = _ from hrow]
            simp [IndexRow.upsert_self _ (rfl : (indexedRow repositoryId d' id').state = _) rfl]
        exact ih hrest (.inr hnew) h (.inr hnew)
      have hframe : rows.upsert (indexedRow repositoryId d' id') d.recoveryPointId = rows d.recoveryPointId :=
        Function.update_of_ne (Ne.symm he) _ _
      apply ih hrest (by rw [hframe]; exact hrow) h
      rw [hframe]
      apply hin.imp_left
      intro hmem
      apply (mem_cons.1 hmem).resolve_left
      intro heq
      exact he (congrArg (fun p => p.1.recoveryPointId) heq).symm
    · cases h

end Upsert

namespace CompletedRun
variable {isUUID : String → Bool} (r : CompletedRun isUUID)

def rebuilt : Except String Rows := reindex isUUID r.first.repositoryId r.listed fun _ => none

theorem unwritten : Unwritten r.input r.before := by
  intro s hs ht hrp
  exact r.fresh s hs ht (hrp.trans r.planned)

theorem row_eq : r.row = (createRecoveryPoint r.request r.first).commit r.document r.snapshotId r.clock := by
  have h := r.completed
  rw [prepared_eq] at h
  unfold completeBackup at h
  split at h
  · cases h
  split at h
  · cases h
  · exact (Except.ok.inj h).symm

theorem listed_iff {t : Nat} (hb : Built r.input t r.document)
    (hafter : r.after = r.before ++ [r.document.stored r.snapshotId t]) {s : Stored}
    (ht : trustedManifest s.snapshot = true) (hrp : s.snapshot.tags.rp = r.document.recoveryPointId) :
    s ∈ r.listed ↔ s = r.document.stored r.snapshotId t := by
  have hid := hrp.trans (hb.recoveryPointId.trans r.planned)
  rw [r.kept s ht hid, hafter, mem_append, mem_singleton]
  constructor
  · intro hs
    apply hs.resolve_left
    intro hold
    exact r.fresh s hold ht hid
  · exact .inr

def found : List (Document × String) := readManifests [] (r.listed.filter (·.snapshot.tags.kind == "manifest"))

theorem document_found {t : Nat} (hb : Built r.input t r.document)
    (hafter : r.after = r.before ++ [r.document.stored r.snapshotId t]) :
    (r.document, r.snapshotId) ∈ r.found := by
  have ht := stored_trusted hb r.snapshotId t
  apply readManifests_finds ht (stored_parsed hb _ _) hb.sources rfl not_mem_nil
  · intro s hs hts hrp
    exact (r.listed_iff hb hafter hts hrp).1 (mem_filter.1 hs).1
  · exact mem_filter.2 ⟨(r.listed_iff hb hafter ht rfl).2 rfl, rfl⟩

theorem found_unique {t : Nat} (hb : Built r.input t r.document)
    (hafter : r.after = r.before ++ [r.document.stored r.snapshotId t]) {p : Document × String} (hp : p ∈ r.found)
    (hrp : p.1.recoveryPointId = r.document.recoveryPointId) : p = (r.document, r.snapshotId) := by
  obtain ⟨d, id⟩ := p
  obtain ⟨s, hs, ht, hparsed, rfl, hrp'⟩ := mem_readManifests hp
  obtain rfl := (r.listed_iff hb hafter ht (hrp'.symm.trans hrp)).1 (mem_filter.1 hs).1
  rw [stored_parsed hb] at hparsed
  cases hparsed
  rfl

theorem found_identities {p : Document × String} (hp : p ∈ r.found) :
    isUUID p.1.applicationId = true ∧ isUUID p.1.agentId = true := by
  obtain ⟨d, id⟩ := p
  obtain ⟨s, hs, -, hparsed, -⟩ := mem_readManifests hp
  exact r.identities s (mem_filter.1 hs).1 d hparsed

theorem rebuilt_row : ∃ rows, r.rebuilt = .ok rows ∧
    rows r.row.id = some (indexedRow r.first.repositoryId r.document r.snapshotId) := by
  obtain ⟨t, -, hb, hafter⟩ := commitAll_fresh r.unwritten r.attempts r.committed
  have hfound := r.document_found hb hafter
  obtain ⟨rows, hrows⟩ := upsertAll_ok r.first.repositoryId (fun _ => none) fun p hp => r.found_identities hp
  have hrow := upsertAll_row r.first.repositoryId (fun p hp => r.found_unique hb hafter hp) (.inl rfl) hrows
    (.inl hfound)
  refine ⟨rows.markMissing r.first.repositoryId (r.found.map (·.1.recoveryPointId)), ?_, ?_⟩
  · show (upsertAll isUUID r.first.repositoryId (fun _ => none) r.found).map _ = _
    rw [hrows]
    rfl
  · have hrowid : r.row.id = r.document.recoveryPointId := by
      rw [r.row_eq, hb.recoveryPointId]
      exact r.planned.symm
    unfold Rows.markMissing
    rw [hrowid, hrow, Option.map_some, if_neg]
    intro h
    exact h.2.2 (mem_map.2 ⟨_, hfound, rfl⟩)

theorem sameRecord_iff {t : Nat} (hb : Built r.input t r.document) :
    SameRecord (indexedRow r.first.repositoryId r.document r.snapshotId) r.row ↔ micros t = r.first.clock := by
  rw [r.row_eq]
  constructor
  · intro h
    rw [← hb.createdAt]
    exact h.createdAt
  · intro h
    rw [← hb.createdAt] at h
    have htrigger : firstNonEmpty [r.document.trigger, "manual"] = firstNonEmpty [r.request.trigger, "manual"] := by
      rw [hb.trigger, r.triggered]
    refine ⟨rfl, rfl, rfl, rfl, rfl, rfl, htrigger, h, rfl, ?_, ?_, ?_⟩
    · intro loc p
      exact congrArg (loc.key p) h
    · intro t
      exact Iff.of_eq (congrArg (t < ·) h)
    · intro now
      exact congrArg (now - ·) h

end CompletedRun

/-- Rebuilding the index gives back the row that CompleteBackup left, exactly if the database
saw at PrepareBackup the time at which the worker wrote the manifest. -/
theorem rebuilt_iff {isUUID : String → Bool} (r : CompletedRun isUUID) :
    (∃ rows row, r.rebuilt = .ok rows ∧ rows r.row.id = some row ∧ SameRecord row r.row) ↔
      ∃ t, wroteAt r.input r.attempts = some t ∧ micros t = r.first.clock := by
  obtain ⟨t, ht, hb, -⟩ := commitAll_fresh r.unwritten r.attempts r.committed
  obtain ⟨rows, hrows, hrow⟩ := r.rebuilt_row
  constructor
  · rintro ⟨rows', row, hrows', hrow', hsame⟩
    obtain rfl := Except.ok.inj (hrows.symm.trans hrows')
    cases (hrow.symm.trans hrow')
    exact ⟨t, ht, (r.sameRecord_iff hb).1 hsame⟩
  · rintro ⟨t', ht', hclock⟩
    cases (ht.symm.trans ht')
    exact ⟨rows, _, hrows, hrow, (r.sameRecord_iff hb).2 hclock⟩

/-! A backup whose only component is committed an hour after it was prepared. -/

/-- The text form of a UUID. -/
def isUUIDText (s : String) : Bool :=
  let cs := s.toList
  cs.length == 36 && (List.range 36).all fun i =>
    if i ∈ [8, 13, 18, 23] then cs[i]? == some '-' else (cs[i]?).any fun c => c.isDigit || "abcdef".toList.contains c

def hourApp : String := "6f1d4c1e-2b7a-4c58-9a55-0d2c8e3b7f10"

def hourAgent : String := "b3a8f0d2-7c41-4e0b-8f6e-91c5d2a4e673"

def hourPlan : Plan where
  recoveryPointId := "rp_01ARZ3NDEKTSV4RRFFQ69G5FAV"
  agentId := hourAgent
  repositoryId := "repo"
  consistencyMode := .live
  components := [⟨"config", .config, true, "", false⟩]
  seedComponents := []
  preHooks := []
  postHooks := []
  containerIds := []
  applicationJson := some ⟨hourApp, hourAgent, hourAgent⟩
  waitForWindowSeconds := 0

def hourInput : DocumentInput where
  commit := ⟨hourPlan, [⟨"config", .config, true, .succeeded, "", "x", "agent@" ++ hourAgent ++ ":/" ++ hourApp ++ "/config", 0, ""⟩],
    "wf", "run", 1000, none⟩
  applicationName := "shop"
  hostname := "host"
  trigger := "manual"

def hour : Nat := 3600000000000

def hourRequest : BackupRequest := ⟨hourApp, "wf", "run", "manual", none, none⟩

def hourPrepare : PrepareAttempt :=
  ⟨"rp_01ARZ3NDEKTSV4RRFFQ69G5FAV", "repo", "shop", hourAgent, "host", none, none, false, 1⟩

def hourDocument : Document where
  toManifest := hourInput.commit.draft ⟨hourApp, hourAgent, hourAgent⟩ hour .complete
  applicationName := "shop"
  hostname := "host"
  trigger := "manual"

/-- The worker writes the manifest an hour after the backup began. -/
def hourLater : CompletedRun isUUIDText where
  request := hourRequest
  first := hourPrepare
  retries := []
  input := hourInput
  attempts := [⟨hour, "m", .done⟩]
  before := []
  after := [hourDocument.stored "m" hour]
  document := hourDocument
  snapshotId := "m"
  clock := 3600000001
  row := (createRecoveryPoint hourRequest hourPrepare).commit hourDocument "m" 3600000001
  listed := [hourDocument.stored "m" hour]
  planned := rfl
  triggered := rfl
  fresh := by simp
  committed := by
    have h : buildDocument hourInput hour = .ok hourDocument := by decide +kernel
    simp only [commitAll, commitAttempt, h, existingIn, filter_nil]
    rfl
  completed := by decide +kernel
  kept := fun _ _ _ => Iff.rfl
  identities := fun s hs d hd => by
    obtain rfl := mem_singleton.1 hs
    obtain rfl := Option.some.inj hd
    exact ⟨by decide +kernel, by decide +kernel⟩

/-- Its rebuilt row is an hour younger. -/
theorem hour_later_younger : ¬ ∃ rows row, hourLater.rebuilt = .ok rows ∧ rows hourLater.row.id = some row ∧
      SameRecord row hourLater.row := by
  rintro ⟨rows, row, hrows, hrow, hsame⟩
  obtain ⟨rows', hrows', hrow'⟩ := hourLater.rebuilt_row
  obtain rfl := Except.ok.inj (hrows'.symm.trans hrows)
  cases (hrow'.symm.trans hrow)
  exact absurd hsame.createdAt (by decide +kernel)

end Dbr2.Backup
