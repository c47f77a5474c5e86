import Dbr2.Reposerver.Acls
import Dbr2.Reposerver.ControlPassword

/-! Initialization over several attempts (`Initialize` in `internal/reposerver/service.go`).

`initializeService` is the service's part; here the storage is added, and with it what the Kopia
commands do there. A command that fails may still have done its work, or a part of it, and after a failed
attempt the process may be gone and start anew. -/
namespace Dbr2.Reposerver
open Lib List
open Lib.Utf8 (Bytes)
open Access (Acl)

abbrev PolicySettings := String → Option String

structure Repo where
  password : Bytes
  splitter : String
  policy : PolicySettings
  acls : Acls

def defaultSplitter : String := "DYNAMIC-1M-BUZHASH"

def globalPolicyArgs : List (String × String) :=
  [("compression", "zstd-fastest"), ("keep-latest", "1000000000"), ("keep-hourly", "1000000000"), ("keep-daily", "1000000000"),
    ("keep-weekly", "1000000000"), ("keep-monthly", "1000000000"), ("keep-annual", "1000000000")]

def setGlobalPolicy (p : PolicySettings) : PolicySettings := fun flag => (globalPolicyArgs.lookup flag).or (p flag)

structure Site where
  storage : Option Repo
  service : Service

/-- A call of Initialize, and what the commands and the file operations of it answer. -/
structure Attempt where
  password : Bytes
  splitter : String
  guard : Option String
  removed : Bool
  openFails : Option String
  /-- What a create that failed has left: none, or a repository with so much of Kopia's own settings. -/
  created : Option PolicySettings
  config : Option Bytes
  written : Bool
  statusFails : Option String
  /-- With whether the policy has been set. -/
  policyFails : Option (String × Bool)
  acls : AclReplies
  aclError : String
  saved : Bool
  now : Nat

variable (lib : Library) (cfg : Config) (k : Kopia) (settings : PolicySettings)

/-- The repository that `repository create` makes; `settings` are Kopia's own. It stores them after the format
blob, which is what Initialize looks for. -/
def Attempt.repo (a : Attempt) : Repo :=
  ⟨a.password, if a.splitter = "" then defaultSplitter else a.splitter, settings, .empty⟩

/-- The error of `repository connect`, or of `repository create` when there is no repository. -/
def Attempt.connected (a : Attempt) (storage : Option Repo) : Option String :=
  match storage with
  | some r => if r.password = a.password then a.openFails else some "invalid repository password"
  | none => a.openFails

def Attempt.opened (a : Attempt) (storage : Option Repo) : Option Repo :=
  match storage with
  | some r => some r
  | none => if a.openFails.isNone then some (a.repo settings) else a.created.map a.repo

def Attempt.setup (a : Attempt) (r : Repo) : Except String String × Repo :=
  match a.statusFails, a.policyFails with
  | some text, _ => (.error text, r)
  | none, some (text, performed) =>
    (.error text, if performed then {r with policy := setGlobalPolicy r.policy} else r)
  | none, none =>
    let (ok, acls) := reconcileACLs k a.acls r.acls
    (if ok then .ok r.splitter else .error a.aclError, {r with policy := setGlobalPolicy r.policy, acls})

def Attempt.draws (a : Attempt) (storage : Option Repo) : InitDraws where
  guard := a.guard
  removed := a.removed
  present := storage.isSome
  connected := a.connected storage
  config := a.config
  written := a.written
  setup := ((a.opened settings storage).map fun r => (a.setup k r).1).getD (.error "")
  saved := a.saved
  now := a.now

def Attempt.admitted (a : Attempt) (s : Service) : Bool :=
  s.memory.info.isNone && a.guard.isNone && ((s.files .config).isNone || a.removed)

def Attempt.storage (a : Attempt) (s : Site) : Option Repo :=
  if !a.admitted s.service then s.storage
  else if (a.connected s.storage).isSome || !a.written then a.opened settings s.storage
  else (a.opened settings s.storage).map fun r => (a.setup k r).2

def attempt (a : Attempt) (s : Site) : Except Err Unit × Site :=
  let (result, service) := initializeService lib cfg a.password (a.draws k settings s.storage) s.service
  (result, ⟨a.storage k settings s, service⟩)

/-- A start of the process; one that does not come up is not initialized either. -/
def Site.restart (s : Site) (d : StartDraws) : Site :=
  ⟨s.storage, s.service.files, (load lib d s.service.files).getD .empty⟩

/-- Attempts that fail, each with the crash or the start after it. -/
def failures : List (Attempt × Option StartDraws) → Site → Site
  | [], s => s
  | (a, crash) :: rest, s =>
    let s' := (attempt lib cfg k settings a s).2
    failures rest (crash.elim s' (s'.restart lib))

def Failing : List (Attempt × Option StartDraws) → Site → Prop
  | [], _ => True
  | (a, crash) :: rest, s =>
    (attempt lib cfg k settings a s).1 ≠ .ok () ∧ Failing rest (failures lib cfg k settings [(a, crash)] s)

/-- No create was cut short after it had made the repository and before it had stored what `policy set` does
not set. -/
def Attempt.Whole (a : Attempt) : Prop := ∀ p, a.created = some p → setGlobalPolicy p = setGlobalPolicy settings

/-- The same repository but for what Initialize sets again, and for Kopia's own settings unless `whole`. -/
structure Repo.Like (whole : Prop) (r r' : Repo) : Prop where
  password : r.password = r'.password
  splitter : r.splitter = r'.splitter
  policy : whole → setGlobalPolicy r.policy = setGlobalPolicy r'.policy
  others : others r.acls = others r'.acls

def Attempt.base (a : Attempt) (s : Site) : Repo := s.storage.getD (a.repo settings)

def Uninitialized (s : Site) : Prop := s.service.memory.info = none ∧ s.service.files .info = none

/-- What stands in the end: the repository, the password and the info, up to its time. The policy is the same in
what Initialize sets, and as a whole if `whole`. -/
structure SameOutcome (whole : Prop) (t u : Site) : Prop where
  storage : ∃ r r' : Repo, t.storage = some r ∧ u.storage = some r' ∧ r.password = r'.password ∧
    r.splitter = r'.splitter ∧ (∀ arg ∈ globalPolicyArgs, r.policy arg.1 = r'.policy arg.1) ∧
    (whole → r.policy = r'.policy) ∧ others r.acls = others r'.acls ∧
    ∀ e, managed e = true → (e ∈ r.acls.rows.map Acl.entry ↔ e ∈ r'.acls.rows.map Acl.entry)
  password : t.service.memory.password = u.service.memory.password ∧
    t.service.files .password = u.service.files .password
  info : ∃ i j : RepoInfo, t.service.memory.info = some i ∧ u.service.memory.info = some j ∧
    i.repositoryID = j.repositoryID ∧ i.splitter = j.splitter ∧
    t.service.files .info = some (lib.marshalInfo i ++ [10]) ∧ u.service.files .info = some (lib.marshalInfo j ++ [10])

variable {lib : Library} {cfg : Config} {k : Kopia} {settings : PolicySettings} {s s₀ : Site} {a : Attempt} {r r' r₀ : Repo}
variable {attempts : List (Attempt × Option StartDraws)} {whole : Prop}

theorem setGlobalPolicy_idem (p : PolicySettings) : setGlobalPolicy (setGlobalPolicy p) = setGlobalPolicy p := by
  funext flag
  unfold setGlobalPolicy
  rw [← Option.or_assoc, Option.or_self]

theorem setGlobalPolicy_sets (p q : PolicySettings) :
    ∀ arg ∈ globalPolicyArgs, setGlobalPolicy p arg.1 = setGlobalPolicy q arg.1 := by
  intro arg harg
  obtain ⟨v, hv⟩ := Option.isSome_iff_exists.1 ((by decide : ∀ x ∈ globalPolicyArgs, (globalPolicyArgs.lookup x.1).isSome) arg harg)
  simp only [setGlobalPolicy, hv, Option.some_or]

theorem Repo.Like.refl (r : Repo) : r.Like whole r := ⟨rfl, rfl, fun _ => rfl, rfl⟩

theorem Repo.Like.trans (h : r.Like whole r') (h' : r'.Like whole r₀) : r.Like whole r₀ :=
  ⟨h.password.trans h'.password, h.splitter.trans h'.splitter, fun hw => (h.policy hw).trans (h'.policy hw),
    h.others.trans h'.others⟩

theorem setup_like (a : Attempt) (r : Repo) : (a.setup k r).2.Like whole r := by
  unfold Attempt.setup
  split
  · exact .refl r
  · dsimp only
    split
    · exact ⟨rfl, rfl, fun _ => setGlobalPolicy_idem _, rfl⟩
    · exact .refl r
  · exact ⟨rfl, rfl, fun _ => setGlobalPolicy_idem _, (reconcileACLs_spec k a.acls r.acls).1⟩

theorem opened_like (hw : whole → a.Whole settings) (h : a.opened settings s.storage = some r) :
    r.Like whole (a.base settings s) := by
  unfold Attempt.opened at h
  unfold Attempt.base
  cases hs : s.storage with
  | some r₁ =>
    rw [hs] at h
    obtain rfl := Option.some.inj h
    exact .refl _
  | none =>
    rw [hs] at h
    dsimp only at h
    split at h
    · obtain rfl := Option.some.inj h
      exact .refl _
    · obtain ⟨p, hp, rfl⟩ := Option.map_eq_some_iff.1 h
      exact ⟨rfl, rfl, fun hwhole => hw hwhole p hp, rfl⟩

theorem storage_like (k : Kopia) (hw : whole → a.Whole settings) (s : Site) :
    a.storage k settings s = s.storage ∨
      ∃ r, a.storage k settings s = some r ∧ r.Like whole (a.base settings s) := by
  unfold Attempt.storage
  cases hopen : a.opened settings s.storage with
  | none =>
    have hnone : s.storage = none := by
      cases hs : s.storage with
      | none => rfl
      | some r => rw [hs] at hopen; cases hopen
    rw [hnone]
    split_ifs <;> exact .inl rfl
  | some r =>
    have hbase := opened_like hw hopen
    split_ifs
    · exact .inl rfl
    · exact .inr ⟨r, rfl, hbase⟩
    · exact .inr ⟨_, rfl, (setup_like a r).trans hbase⟩

theorem initializeService_cases (lib : Library) (cfg : Config) (password : Bytes) (d : InitDraws) {s : Service} (hs : s.memory.info = none) :
    (∃ e s', initializeService lib cfg password d s = (.error e, s') ∧ s'.memory.info = none ∧
      s'.files .info = s.files .info) ∨
    ∃ actual, d.guard = none ∧ ¬ ((s.files .config).isSome && !d.removed) = true ∧ d.connected = none ∧
      d.written = true ∧ d.setup = .ok actual ∧
      initializeService lib cfg password d s =
        (.ok (), ⟨Function.update (Function.update (Function.update s.files .config d.config) .password
            (some (password ++ [10]))) .info (some (lib.marshalInfo ⟨cfg.repositoryID, actual, d.now⟩ ++ [10])),
          .serving password ⟨cfg.repositoryID, actual, d.now⟩ s.memory.creds⟩) := by
  unfold initializeService
  rw [if_neg (by rw [hs]; exact Bool.false_ne_true)]
  split
  · exact .inl ⟨_, _, rfl, hs, rfl⟩
  rename_i hguard
  split
  · exact .inl ⟨_, _, rfl, hs, rfl⟩
  rename_i hconfig
  split
  · exact .inl ⟨_, _, rfl, hs, rfl⟩
  rename_i hconnected
  split
  · exact .inl ⟨_, _, rfl, hs, rfl⟩
  rename_i hwritten
  split
  · exact .inl ⟨_, _, rfl, hs, rfl⟩
  rename_i actual hsetup
  split
  · exact .inl ⟨_, _, rfl, hs, rfl⟩
  · exact .inr ⟨actual, hguard, hconfig, hconnected, by simpa using hwritten, hsetup, rfl⟩

theorem attempt_uninitialized (hs : Uninitialized s) (h : (attempt lib cfg k settings a s).1 ≠ .ok ()) :
    Uninitialized (attempt lib cfg k settings a s).2 := by
  unfold attempt Uninitialized at *
  rcases initializeService_cases lib cfg a.password (a.draws k settings s.storage) hs.1 with ⟨e, s', heq, hmem, hfile⟩ | ⟨actual, -, -, -, -, -, heq⟩
  · rw [heq]
    exact ⟨hmem, hfile.trans hs.2⟩
  · rw [heq] at h
    exact absurd rfl h

theorem setup_ok {actual : String} (h : (a.setup k r).1 = .ok actual) :
    actual = r.splitter ∧ (a.setup k r).2.policy = setGlobalPolicy r.policy ∧
      ∀ e, managed e = true → (e ∈ (a.setup k r).2.acls.rows.map Acl.entry ↔ e ∈ desiredACLs) := by
  revert h
  unfold Attempt.setup
  split
  · exact nofun
  · exact nofun
  have hspec := reconcileACLs_spec k a.acls r.acls
  dsimp only
  split
  · rename_i hok
    intro h
    rw [hspec.2 hok]
    exact ⟨(Except.ok.inj h).symm, rfl, (applyPlan_reconciled k _).managed⟩
  · exact nofun

theorem opened_ok (settings : PolicySettings) (h : a.connected s.storage = none) :
    a.opened settings s.storage = some (a.base settings s) := by
  unfold Attempt.connected at h
  unfold Attempt.opened Attempt.base
  cases hs : s.storage with
  | some r => rfl
  | none =>
    rw [hs] at h
    rw [show a.openFails = none from h]
    rfl

theorem attempt_ok (hs : Uninitialized s) (h : (attempt lib cfg k settings a s).1 = .ok ()) :
    (∃ r, (attempt lib cfg k settings a s).2.storage = some r ∧ (∀ whole, r.Like whole (a.base settings s)) ∧
      r.policy = setGlobalPolicy (a.base settings s).policy ∧
      ∀ e, managed e = true → (e ∈ r.acls.rows.map Acl.entry ↔ e ∈ desiredACLs)) ∧
    (attempt lib cfg k settings a s).2.service.memory.password = some a.password ∧
    (attempt lib cfg k settings a s).2.service.files .password = some (a.password ++ [10]) ∧
    (attempt lib cfg k settings a s).2.service.memory.info = some ⟨cfg.repositoryID, (a.base settings s).splitter, a.now⟩ ∧
    (attempt lib cfg k settings a s).2.service.files .info =
      some (lib.marshalInfo ⟨cfg.repositoryID, (a.base settings s).splitter, a.now⟩ ++ [10]) := by
  unfold attempt at h ⊢
  rcases initializeService_cases lib cfg a.password (a.draws k settings s.storage) hs.1 with
    ⟨e, s', heq, -⟩ | ⟨actual, hguard, hconfig, hconnected, hwritten, hsetup, heq⟩
  · rw [heq] at h
    cases h
  rw [heq]
  dsimp only [Attempt.draws] at hguard hconfig hconnected hwritten hsetup ⊢
  have hadmitted : a.admitted s.service = true := by
    unfold Attempt.admitted
    rw [hs.1, hguard]
    cases hfile : s.service.files .config <;> simp_all
  have hopen := opened_ok settings hconnected
  rw [hopen] at hsetup
  obtain ⟨rfl, hpolicy, hmanaged⟩ := setup_ok hsetup
  refine ⟨⟨_, ?_, fun _ => setup_like a _, hpolicy, hmanaged⟩, rfl, ?_, rfl, ?_⟩
  · unfold Attempt.storage
    rw [hadmitted, hconnected, hwritten, hopen]
    rfl
  · simp [Function.update]
  · simp [Function.update]

/-- The attempts share the password and the splitter, and so the repository that they would make. -/
def Alike (attempts : List (Attempt × Option StartDraws)) (last : Attempt) : Prop :=
  ∀ a ∈ attempts, a.1.password = last.password ∧ a.1.splitter = last.splitter

theorem base_congr {b : Attempt} (hpw : a.password = b.password) (hsplitter : a.splitter = b.splitter) :
    a.base settings s = b.base settings s := by
  unfold Attempt.base Attempt.repo
  rw [hpw, hsplitter]

theorem failure_uninitialized {crash : Option StartDraws} (hs : Uninitialized s)
    (h : (attempt lib cfg k settings a s).1 ≠ .ok ()) : Uninitialized (failures lib cfg k settings [(a, crash)] s) := by
  have hun := attempt_uninitialized hs h
  cases crash with
  | none => exact hun
  | some d =>
    refine ⟨?_, hun.2⟩
    dsimp only [failures, Option.elim_some, Site.restart, load]
    rw [hun.2]
    rfl

theorem failures_uninitialized (hs : Uninitialized s) (hfail : Failing lib cfg k settings attempts s) :
    Uninitialized (failures lib cfg k settings attempts s) := by
  induction attempts generalizing s with
  | nil => exact hs
  | cons x rest ih => exact ih (failure_uninitialized hs hfail.1) hfail.2

theorem failures_keep (lib : Library) (cfg : Config) (k : Kopia) (s : Site) {last : Attempt} (halike : Alike attempts last)
    (hw : whole → ∀ a ∈ attempts, a.1.Whole settings) :
    (failures lib cfg k settings attempts s).storage = s.storage ∨
      ∃ r, (failures lib cfg k settings attempts s).storage = some r ∧ r.Like whole (last.base settings s) := by
  induction attempts generalizing s with
  | nil => exact .inl rfl
  | cons x rest ih =>
    obtain ⟨a, crash⟩ := x
    have hstorage : (failures lib cfg k settings [(a, crash)] s).storage = a.storage k settings s := by
      cases crash <;> rfl
    have hlike := ih (failures lib cfg k settings [(a, crash)] s) (fun b hb => halike b (mem_cons_of_mem _ hb)) fun hwhole b hb => hw hwhole b (mem_cons_of_mem _ hb)
    obtain ⟨hpw, hsplitter⟩ := halike _ mem_cons_self
    have hfirst := storage_like k (fun hwhole => hw hwhole _ mem_cons_self) s
    rw [← hstorage, base_congr hpw hsplitter] at hfirst
    rcases hlike with hsame | ⟨r, hr, hbase⟩
    · exact hfirst.imp hsame.trans fun ⟨r, hr, hbase⟩ => ⟨r, hsame.trans hr, hbase⟩
    unfold Attempt.base at hbase hfirst ⊢
    rcases hfirst with hkeep | ⟨r₁, hr₁, hbase₁⟩
    · rw [hkeep] at hbase
      exact .inr ⟨r, hr, hbase⟩
    · rw [hr₁] at hbase
      exact .inr ⟨r, hr, hbase.trans hbase₁⟩

/-- After any number of attempts with one password and one splitter that fail or crash, the service is not
initialized, and an attempt that then succeeds leaves what a single run leaves. -/
theorem initialize_resumes (lib : Library) (cfg : Config) (k : Kopia) (settings : PolicySettings) (s : Site)
    (attempts : List (Attempt × Option StartDraws)) (hs : Uninitialized s)
    (hfail : Failing lib cfg k settings attempts s) :
    Uninitialized (failures lib cfg k settings attempts s) ∧
      ∀ last single : Attempt, Alike attempts last →
        single.password = last.password → single.splitter = last.splitter →
        (attempt lib cfg k settings last (failures lib cfg k settings attempts s)).1 = .ok () →
        (attempt lib cfg k settings single s).1 = .ok () →
        SameOutcome lib (∀ a ∈ attempts, a.1.Whole settings)
          (attempt lib cfg k settings last (failures lib cfg k settings attempts s)).2
          (attempt lib cfg k settings single s).2 := by
  have hun := failures_uninitialized hs hfail
  refine ⟨hun, fun last single halike hpw hsplitter hok hsingle => ?_⟩
  have hbase : (last.base settings (failures lib cfg k settings attempts s)).Like
      (∀ a ∈ attempts, a.1.Whole settings) (last.base settings s) := by
    have hwhole : (∀ a ∈ attempts, a.1.Whole settings) → ∀ a ∈ attempts, a.1.Whole settings := id
    have hstorage := failures_keep lib cfg k s halike hwhole
    unfold Attempt.base at hstorage ⊢
    rcases hstorage with hsame | ⟨r, hr, hlike⟩
    · rw [hsame]
      exact .refl _
    · rw [hr]
      exact hlike
  obtain ⟨⟨r, hr, hlike, hpolicy, hmanaged⟩, hmem, hfile, hinfo, hinfoFile⟩ := attempt_ok hun hok
  obtain ⟨⟨r', hr', hlike', hpolicy', hmanaged'⟩, hmem', hfile', hinfo', hinfoFile'⟩ := attempt_ok hs hsingle
  rw [base_congr hpw hsplitter] at hlike' hpolicy' hinfo' hinfoFile'
  have hall := (hlike _).trans hbase
  have hone := hlike' True
  refine ⟨⟨r, r', hr, hr', hall.password.trans hone.password.symm, hall.splitter.trans hone.splitter.symm, ?_,
    fun hwhole => ?_, hall.others.trans hone.others.symm, ?_⟩, ⟨?_, ?_⟩, _, _, hinfo, hinfo', rfl, hbase.splitter,
    hinfoFile, hinfoFile'⟩
  · rw [hpolicy, hpolicy']
    exact setGlobalPolicy_sets _ _
  · rw [hpolicy, hpolicy', hbase.policy hwhole]
  · exact fun e he => (hmanaged e he).trans (hmanaged' e he).symm
  · rw [hmem, hmem', hpw]
  · rw [hfile, hfile', hpw]

/-- A first attempt that creates the repository and fails at the policy. -/
def firstTry : Attempt :=
  ⟨[1], "", none, true, none, none, none, true, none, some ("exit status 1", false), ⟨true, none, true, none, []⟩, "", true, 7⟩

def secondTry : Attempt := {firstTry with policyFails := none}

def emptySite : Site := ⟨none, fun _ => none, .empty⟩

theorem initialize_resumes_second_try :
    Uninitialized (failures oneArchive ⟨"/repo", "r1"⟩ ownDefaults (fun _ => none) [(firstTry, none)] emptySite) ∧
      SameOutcome oneArchive (∀ a ∈ [(firstTry, (none : Option StartDraws))], a.1.Whole fun _ => none)
        (attempt oneArchive ⟨"/repo", "r1"⟩ ownDefaults (fun _ => none) secondTry
          (failures oneArchive ⟨"/repo", "r1"⟩ ownDefaults (fun _ => none) [(firstTry, none)] emptySite)).2
        (attempt oneArchive ⟨"/repo", "r1"⟩ ownDefaults (fun _ => none) secondTry emptySite).2 := by
  have h := initialize_resumes oneArchive ⟨"/repo", "r1"⟩ ownDefaults (fun _ => none) emptySite [(firstTry, none)]
    ⟨rfl, rfl⟩ ⟨(fun h => by cases h), trivial⟩
  exact ⟨h.1, h.2 secondTry secondTry (fun _ ha => mem_singleton.1 ha ▸ ⟨rfl, rfl⟩) rfl rfl rfl rfl⟩

/-- The first attempt asks for another splitter: the repository keeps it, and a single run of the second has the
default. -/
theorem splitter_of_first_try :
    ¬ SameOutcome oneArchive False
        (attempt oneArchive ⟨"/repo", "r1"⟩ ownDefaults (fun _ => none) secondTry
          (failures oneArchive ⟨"/repo", "r1"⟩ ownDefaults (fun _ => none)
            [({firstTry with splitter := "FIXED-1M"}, none)] emptySite)).2
        (attempt oneArchive ⟨"/repo", "r1"⟩ ownDefaults (fun _ => none) secondTry emptySite).2 := by
  intro h
  obtain ⟨i, j, hi, hj, -, hsplitter, -⟩ := h.info
  cases hi
  cases hj
  exact absurd hsplitter (by decide)

end Dbr2.Reposerver
