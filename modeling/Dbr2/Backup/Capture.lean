import Dbr2.Backup.Plan

/-! What the agent's capture of a plan returns (`internal/agent/snapshot.go`), and what becomes of
it.

`snapshotComponents` captures the components one by one. A volume or bind mount may have a
companion, its filesystem metadata, which is captured only after its parent succeeded; after a
required component has failed everything else is skipped. How a single capture goes is drawn. -/
namespace Dbr2.Backup
open List

/-- How the capture of one component goes. The engine names every snapshot. -/
inductive Capture
  | cancelled
  | error (msg : String)
  | snapshot (id : {s : String // s ≠ ""}) (sizeBytes : Nat) (unreadable : Nat)
  deriving DecidableEq

instance : Inhabited Capture := ⟨.snapshot ⟨"k", by decide⟩ 0 0⟩

structure SnapshotJob where
  (user host applicationId : String)
  deriving DecidableEq

def SnapshotJob.source (j : SnapshotJob) (name : String) : String :=
  j.user ++ "@" ++ j.host ++ ":" ++ ("/" ++ j.applicationId ++ "/" ++ name)

def hasFSMeta (s : ComponentSpec) : Bool := s.captureFsmeta && Manifest.isFilesystem s.kind

def fsmetaName (parent : String) : String := "fsmeta:" ++ parent

def ComponentSpec.base (s : ComponentSpec) (name : String) (kind : Kind) (parent : String)
    (status : ComponentStatus) (error : String) : ComponentResult :=
  ⟨name, kind, s.required, status, error, "", "", 0, parent⟩

def skipped (s : ComponentSpec) (reason : String) : ComponentResult :=
  s.base s.name s.kind "" .skipped reason

def skippedFSMeta (s : ComponentSpec) (reason : String) : ComponentResult :=
  s.base (fsmetaName s.name) .fsmeta s.name .skipped reason

section Job
variable (j : SnapshotJob)

/-- finish: a snapshot with entries that could not be read is a failure. -/
def finish (r : ComponentResult) : Capture → Option ComponentResult
  | .cancelled => none
  | .error msg => some {r with status := .failed, error := msg}
  | .snapshot id size unreadable =>
    let r := {r with snapshotId := id.val, source := j.source r.name, sizeBytes := size}
    if 0 < unreadable then
      some {r with status := .failed, error := toString unreadable ++ " entries could not be read"}
    else some {r with status := .succeeded}

def component (s : ComponentSpec) (d : Capture) : Option ComponentResult :=
  let r := s.base s.name s.kind "" .failed ""
  if s.name = "" then finish j r (if d = .cancelled then d else .error "component has no name")
  else match s.kind with
    | .unknown => finish j r (if d = .cancelled then d else .error "unsupported component kind")
    | .image => some {r with
        status := .skipped
        error := "image capture is not supported (images are pulled by digest on restore)"}
    | .fsmeta => finish j r (if d = .cancelled then d
        else .error "fsmeta components are produced by capture_fsmeta on their parent")
    | .database | .config | .volume | .bindMount => finish j r d

def fsmeta (s : ComponentSpec) (d : Capture) : Option ComponentResult :=
  finish j (s.base (fsmetaName s.name) .fsmeta s.name .failed "") d

def stopAfter (stop : String) (r : ComponentResult) : String :=
  if r.required ∧ r.status = .failed ∧ stop = "" then
    "skipped: required component " ++ r.name ++ " failed"
  else stop

def captureOne (stop : String) (s : ComponentSpec) (d : Capture × Capture) : Option (List ComponentResult × String) :=
  if stop ≠ "" then
    some (skipped s stop :: (if hasFSMeta s then [skippedFSMeta s stop] else []), stop)
  else
    (component j s d.1).bind fun r =>
      let stop := stopAfter stop r
      if hasFSMeta s = false then some ([r], stop)
      else if r.status ≠ .succeeded then
        let reason :=
          if stop = "" then "skipped: parent component " ++ s.name ++ " did not succeed" else stop
        some ([r, skippedFSMeta s reason], stop)
      else (fsmeta j s d.2).map fun f => ([r, f], stopAfter stop f)

def captureLoop (stop : String) : List ComponentSpec → List (Capture × Capture) → Option (List ComponentResult)
  | [], _ => some []
  | s :: ss, ds =>
    (captureOne j stop s (ds.headD default)).bind fun g =>
      (captureLoop g.2 ss ds.tail).map fun rs => g.1 ++ rs

def snapshotComponents (specs : List ComponentSpec) (ds : List (Capture × Capture)) :
    Option (List ComponentResult) := captureLoop j "" specs ds

structure ResultFor (s : ComponentSpec) (name : String) (kind : Kind) (parent : String)
    (r : ComponentResult) : Prop where
  name : r.name = name
  kind : r.kind = kind
  required : r.required = s.required
  parent : r.parent = parent
  status : r.status.isKnown = true
  snapshot : r.status = .succeeded → r.snapshotId ≠ "" ∧ r.source = j.source r.name

/-- The results of one component: its own, and its companion's if it has one, which
has only succeeded with it. -/
def ResultsOf (s : ComponentSpec) (g : List ComponentResult) : Prop :=
  ∃ r, ResultFor j s s.name s.kind "" r ∧
    if hasFSMeta s then ∃ f, g = [r, f] ∧ ResultFor j s (fsmetaName s.name) .fsmeta s.name f ∧
      (f.status = .succeeded → r.status = .succeeded)
    else g = [r]

variable {j}

variable {r : ComponentResult} {s : ComponentSpec} {specs : List ComponentSpec}

theorem finish_shape {name parent : String} {kind : Kind} {d : Capture} (h : finish j (s.base name kind parent .failed "") d = some r) :
    ResultFor j s name kind parent r := by
  cases d with
  | cancelled => cases h
  | error msg =>
    cases h
    exact ⟨rfl, rfl, rfl, rfl, rfl, fun h => by cases h⟩
  | snapshot id size unreadable =>
    simp only [finish] at h
    split at h
    · cases h
      exact ⟨rfl, rfl, rfl, rfl, rfl, fun h => by cases h⟩
    · cases h
      exact ⟨rfl, rfl, rfl, rfl, rfl, fun _ => ⟨id.property, rfl⟩⟩

theorem component_shape {d : Capture} (h : component j s d = some r) : ResultFor j s s.name s.kind "" r := by
  unfold component at h
  split at h
  · exact finish_shape h
  split at h
  all_goals first
    | exact finish_shape h
    | (obtain rfl := Option.some.inj h; exact ⟨rfl, rfl, rfl, rfl, rfl, fun h => by cases h⟩)

theorem skipped_shape {name parent reason : String} {kind : Kind} :
    ResultFor j s name kind parent (s.base name kind parent .skipped reason) :=
  ⟨rfl, rfl, rfl, rfl, rfl, fun h => by cases h⟩

theorem captureOne_shape {stop : String} {d : Capture × Capture}
    {g : List ComponentResult × String} (h : captureOne j stop s d = some g) : ResultsOf j s g.1 := by
  unfold captureOne at h
  split at h
  · obtain rfl := Option.some.inj h
    refine ⟨skipped s stop, skipped_shape, ?_⟩
    split
    · exact ⟨_, rfl, skipped_shape, fun h => by cases h⟩
    · rfl
  obtain ⟨r, hr, h⟩ := Option.bind_eq_some_iff.1 h
  refine ⟨r, component_shape hr, ?_⟩
  simp only at h
  split at h
  · rename_i hno
    obtain rfl := Option.some.inj h
    rw [hno]
    rfl
  rename_i hfs
  rw [if_pos (by simpa using hfs)]
  split at h
  · obtain rfl := Option.some.inj h
    exact ⟨_, rfl, skipped_shape, fun h => by cases h⟩
  rename_i hok
  obtain ⟨f, hf, rfl⟩ := Option.map_eq_some_iff.1 h
  exact ⟨f, rfl, finish_shape hf, fun _ => not_not.1 hok⟩

theorem snapshotComponents_shape {ds : List (Capture × Capture)}
    {rs : List ComponentResult} (h : snapshotComponents j specs ds = some rs) :
    ∃ gs, List.Forall₂ (ResultsOf j) specs gs ∧ rs = gs.flatten := by
  unfold snapshotComponents at h
  generalize "" = stop at h
  induction specs generalizing stop ds rs with
  | nil =>
    obtain rfl := Option.some.inj h
    exact ⟨[], .nil, rfl⟩
  | cons s ss ih =>
    obtain ⟨g, hg, h⟩ := Option.bind_eq_some_iff.1 h
    obtain ⟨rs', hrs', rfl⟩ := Option.map_eq_some_iff.1 h
    obtain ⟨gs, hgs, rfl⟩ := ih _ hrs'
    exact ⟨g.1 :: gs, .cons (captureOne_shape hg) hgs, rfl⟩

theorem mem_groups {gs : List (List ComponentResult)}
    (h : List.Forall₂ (ResultsOf j) specs gs) (hr : r ∈ gs.flatten) :
    ∃ s ∈ specs, ∃ g, ResultsOf j s g ∧ r ∈ g ∧ ∀ x ∈ g, x ∈ gs.flatten := by
  induction h with
  | nil => cases hr
  | @cons s g ss gs hg _ ih =>
    rw [flatten_cons, mem_append] at hr
    rcases hr with hr | hr
    · exact ⟨s, mem_cons_self, g, hg, hr, fun x hx => by simp [hx]⟩
    · obtain ⟨s', hs', g', hg', hr', hsub⟩ := ih hr
      exact ⟨s', mem_cons_of_mem _ hs', g', hg', hr', fun x hx => by simp [hsub x hx]⟩

def resultNames (s : ComponentSpec) : List String :=
  s.name :: if hasFSMeta s then [fsmetaName s.name] else []

theorem groups_names {gs : List (List ComponentResult)} (h : List.Forall₂ (ResultsOf j) specs gs) :
    gs.flatten.map (·.name) = specs.flatMap resultNames := by
  induction h with
  | nil => rfl
  | @cons s g ss gs hg _ ih =>
    rw [flatten_cons, map_append, ih, flatMap_cons]
    congr 1
    obtain ⟨r, hr, hg⟩ := hg
    unfold resultNames
    split at hg
    · rename_i hfs
      obtain ⟨f, rfl, hf, -⟩ := hg
      simp [hr.name, hf.name, hfs]
    rename_i hfs
    subst hg
    simp [hr.name, hfs]

end Job

/-- What PrepareBackup promises of a plan: its identities are there, and its components
are named apart, their companions included. -/
structure Plan.WellFormed (p : Plan) (seed : ManifestSeed) : Prop where
  known : p.applicationJson = some seed
  agent : seed.agentId = p.agentId
  recoveryPointId : isRecoveryPointID p.recoveryPointId = true
  mode : p.consistencyMode.isKnown = true
  ids : seed.applicationId ≠ "" ∧ p.agentId ≠ "" ∧ seed.hostId ≠ "" ∧ p.repositoryId ≠ ""
  nonempty : p.components ≠ []
  names : (p.components.flatMap resultNames).Nodup
  named : ∀ s ∈ p.components, s.name ≠ ""
  kinds : ∀ s ∈ p.components, s.kind ≠ .unknown ∧ s.kind ≠ .fsmeta

structure CommitInput.Dated (i : CommitInput) : Prop where
  workflow : i.workflowId ≠ "" ∧ i.runId ≠ ""
  started : i.startedAt ≠ 0
  quiesced : i.quiesceStartedAt ≠ some 0

theorem fsmetaName_ne_empty (s : String) : fsmetaName s ≠ "" := by
  intro h
  have := congrArg String.length h
  simp [fsmetaName] at this

theorem Manifest.named_of_mem {cs : List Component} (hn : (cs.map (·.name)).Nodup) {c : Component}
    (hc : c ∈ cs) : Manifest.named cs c.name = some c := by
  unfold Manifest.named
  cases hf : cs.reverse.find? (fun x => x.name == c.name) with
  | none => exact absurd (find?_eq_none.1 hf c (mem_reverse.2 hc)) (by simp)
  | some x =>
    have hx := mem_reverse.1 (mem_of_find?_eq_some hf)
    have hid : x.name = c.name := by simpa using find?_some hf
    rw [inj_on_of_nodup_map hn hx hc hid]

structure Captured (i : CommitInput) (j : SnapshotJob) (specs : List ComponentSpec)
    (gs : List (List ComponentResult)) : Prop where
  groups : List.Forall₂ (ResultsOf j) specs gs
  perm : specs.Perm i.plan.components
  results : i.results = gs.flatten

theorem captured_of_phases {i : CommitInput} {j : SnapshotJob} {ds ds' : List (Capture × Capture)}
    {rs rs' : List ComponentResult} (hdb : snapshotComponents j i.plan.dbComps ds = some rs)
    (hfs : snapshotComponents j i.plan.fsComps ds' = some rs') (hres : i.results = rs ++ rs') :
    ∃ specs gs, Captured i j specs gs := by
  obtain ⟨gs, hgs, rfl⟩ := snapshotComponents_shape hdb
  obtain ⟨gs', hgs', rfl⟩ := snapshotComponents_shape hfs
  refine ⟨_, gs ++ gs', rel_append hgs hgs', ?_, by rw [hres, flatten_append]⟩
  have h : i.plan.fsComps = i.plan.components.filter fun s => !(s.kind == .database) := rfl
  rw [h]
  exact filter_append_perm _ _

/-- No companion has failed, or was skipped, next to a component that succeeded. -/
def CompanionsSucceed (rs : List ComponentResult) : Prop :=
  ∀ r ∈ rs, ∀ f ∈ rs, f.kind = .fsmeta → f.parent = r.name → r.status = .succeeded → f.status = .succeeded

instance (rs : List ComponentResult) : Decidable (CompanionsSucceed rs) := by
  unfold CompanionsSucceed
  infer_instance

namespace Captured
variable {i : CommitInput} {j : SnapshotJob} {specs : List ComponentSpec}
  {gs : List (List ComponentResult)} {seed : ManifestSeed}

section

variable (h : Captured i j specs gs)
include h

theorem names (hp : i.plan.WellFormed seed) :
    ((i.results.map ComponentResult.toComponent).map (·.name)).Nodup := by
  have hmap : (i.results.map ComponentResult.toComponent).map (·.name) = i.results.map (·.name) := by
    rw [map_map]
    rfl
  rw [hmap, h.results, groups_names h.groups]
  exact ((h.perm.flatMap_right resultNames).nodup_iff).2 hp.names

theorem nonempty (hp : i.plan.WellFormed seed) : i.results ≠ [] := by
  intro hnil
  have hn := groups_names h.groups
  rw [← h.results, hnil, map_nil] at hn
  have hspecs : specs ≠ [] := fun he => hp.nonempty ((he ▸ h.perm).nil_eq).symm
  obtain ⟨s, ss, rfl⟩ := exists_cons_of_ne_nil hspecs
  simp [resultNames] at hn

theorem result_cases {r : ComponentResult} (hr : r ∈ i.results) :
    ∃ s ∈ i.plan.components, ResultFor j s s.name s.kind "" r ∨
      (hasFSMeta s = true ∧ ResultFor j s (fsmetaName s.name) .fsmeta s.name r ∧
        ∃ p ∈ i.results, ResultFor j s s.name s.kind "" p) := by
  rw [h.results] at hr
  obtain ⟨s, hs, g, ⟨p, hp, hg⟩, hrg, hsub⟩ := mem_groups h.groups hr
  refine ⟨s, h.perm.mem_iff.1 hs, ?_⟩
  split at hg
  · rename_i hfs
    obtain ⟨f, rfl, hf, -⟩ := hg
    have hpm := h.results ▸ hsub p mem_cons_self
    rcases mem_pair.1 hrg with rfl | rfl
    · exact .inl hp
    · exact .inr ⟨hfs, hf, p, hpm, hp⟩
  subst hg
  obtain rfl := mem_singleton.1 hrg
  exact .inl hp

theorem valid_component (hp : i.plan.WellFormed seed)
    (hreq : ∀ r ∈ i.results, r.required = true → r.status = .succeeded)
    (hsrc : ∀ name, j.source name ≠ "") {r : ComponentResult} (hr : r ∈ i.results) :
    Manifest.ValidComponent r.toComponent := by
  obtain ⟨s, hs, hown | ⟨-, hf, -⟩⟩ := h.result_cases hr
  · exact ⟨fun he => hp.named s hs (hown.name.symm.trans he), fun hk => (hp.kinds s hs).1 (hown.kind.symm.trans hk), hown.status,
      fun hok => ⟨(hown.snapshot hok).1, fun he => hsrc r.name ((hown.snapshot hok).2.symm.trans he)⟩,
      hreq r hr⟩
  · refine ⟨fun he => fsmetaName_ne_empty s.name (hf.name.symm.trans he), fun hk => ?_, hf.status,
      fun hok => ⟨(hf.snapshot hok).1, fun he => hsrc r.name ((hf.snapshot hok).2.symm.trans he)⟩,
      hreq r hr⟩
    cases hf.kind.symm.trans hk

theorem companion_iff (hp : i.plan.WellFormed seed) :
    (∀ c ∈ i.results.map ComponentResult.toComponent,
      Manifest.ValidCompanion (i.results.map ComponentResult.toComponent) c) ↔
      CompanionsSucceed i.results := by
  have hn := h.names hp
  constructor
  · intro hv r hr f hf hk hpar hok
    obtain ⟨p, hpn, -, hst⟩ := hv _ (mem_map_of_mem hf) hk
    have hr' := Manifest.named_of_mem hn (mem_map_of_mem hr)
    have hpn :=
      (show f.toComponent.parent = r.toComponent.name from hpar) ▸ hpn
    rw [hr'] at hpn
    exact hst (Option.some.inj hpn ▸ hok)
  · rintro hcs c hc hk
    obtain ⟨f, hf, rfl⟩ := mem_map.1 hc
    obtain ⟨s, hs, hown | ⟨hfs, hfor, p, hpm, hpfor⟩⟩ := h.result_cases hf
    · exact absurd (hown.kind.symm.trans hk) (hp.kinds s hs).2
    · have hpar := hfor.parent.trans hpfor.name.symm
      refine ⟨p.toComponent, ?_, ?_, fun hok => hcs p hpm f hf hk hpar hok⟩
      · show Manifest.named _ f.parent = _
        rw [hpar]
        exact Manifest.named_of_mem hn (mem_map_of_mem hpm)
      · show Manifest.isFilesystem p.kind = true
        rw [hpfor.kind]
        exact (Bool.and_eq_true_iff.1 hfs).2

end

end Captured

/-- The agent's identity in the Repository, as EnsureAgentAccess sets it up. -/
def Plan.job (p : Plan) (applicationId : String) : SnapshotJob := ⟨agentKopiaUser, p.agentId, applicationId⟩

theorem job_source (p : Plan) (app name : String) :
    (agentKopiaUser ++ "@" ++ p.agentId ++ ":").toList <+: ((p.job app).source name).toList := by
  simp only [SnapshotJob.source, Plan.job, String.toList_append]
  exact prefix_append _ _

def outcomeStatus (rs : List ComponentResult) : Status :=
  if rs.all (·.status == .succeeded) then .complete else .partly

theorem outcomeStatus_eq {rs : List ComponentResult} (hreq : ∀ r ∈ rs, r.required = true → r.status = .succeeded) :
    outcomeStatus rs = if Manifest.failedOptional (rs.map ComponentResult.toComponent)
      then .partly else .complete := by
  have h : Manifest.failedOptional (rs.map ComponentResult.toComponent) = !rs.all (·.status == .succeeded) := by
    induction rs with
    | nil => rfl
    | cons r rs ih =>
      rw [forall_mem_cons] at hreq
      have hr : (r.status != .succeeded && !r.required) = !(r.status == .succeeded) := by
        cases hq : r.required with
        | false => simp [bne]
        | true => simp [hreq.1 hq]
      rw [map_cons, Manifest.failedOptional, any_cons, ← Manifest.failedOptional, ih hreq.2,
        all_cons, Bool.not_and, ← hr]
      rfl
  rw [outcomeStatus, h]
  cases rs.all (·.status == .succeeded) <;> rfl

/-- **Partial recovery points are committed.** Of every capture of a well-formed plan
in which every required component succeeded, a manifest is built that Validate accepts,
complete if all its components succeeded and partial if not, exactly if each companion
of a component that succeeded has succeeded with it. -/
theorem partial_committed (i : CommitInput) (seed : ManifestSeed) (app : String) (now : Nat)
    (hp : i.plan.WellFormed seed) (hd : i.Dated) (hnow : now ≠ 0) (ds ds' : List (Capture × Capture))
    (rs rs' : List ComponentResult)
    (hdb : snapshotComponents (i.plan.job app) i.plan.dbComps ds = some rs)
    (hfs : snapshotComponents (i.plan.job app) i.plan.fsComps ds' = some rs')
    (hres : i.results = rs ++ rs')
    (hreq : ∀ r ∈ i.results, r.required = true → r.status = .succeeded) :
    (∃ m, buildManifest i now = .ok m ∧ m.validate = [] ∧ m.status = outcomeStatus i.results) ↔
      CompanionsSucceed i.results := by
  obtain ⟨specs, gs, hcap⟩ := captured_of_phases hdb hfs hres
  have hsrc : ∀ name, (i.plan.job app).source name ≠ "" := by
    intro name he
    have hpre := job_source i.plan app name
    rw [he] at hpre
    have := hpre.length_le
    simp [agentKopiaUser] at this
  have hall : ∀ c ∈ i.results.map ComponentResult.toComponent, c.required = true → c.status = .succeeded := by
    simpa [ComponentResult.toComponent] using hreq
  have hstatus := Manifest.statusFor_eq hall
  rw [← outcomeStatus_eq hreq] at hstatus
  constructor
  · rintro ⟨m, hm, -, -⟩
    obtain ⟨seed', status, -, -, rfl, hv, -⟩ := buildManifest_eq_ok.1 hm
    exact (hcap.companion_iff hp).1 hv.companion
  · intro hcs
    have hv : (i.draft seed now (outcomeStatus i.results)).Valid := by
      refine ⟨⟨rfl, hp.recoveryPointId, hp.mode, fun h => beq_iff_eq.2 h,
        ?_, hd.workflow, hnow, ?_⟩, ?_, hcap.names hp, ?_, (hcap.companion_iff hp).2 hcs,
        outcomeStatus_eq hreq⟩
      · show seed.applicationId ≠ "" ∧ seed.agentId ≠ "" ∧ seed.hostId ≠ "" ∧ i.plan.repositoryId ≠ ""
        rw [hp.agent]
        exact hp.ids
      · show (if _ then _ else _) ≠ 0
        split
        · exact hd.started
        cases hq : i.quiesceStartedAt with
        | none => exact hd.started
        | some t =>
          rintro rfl
          exact hd.quiesced hq
      · exact fun he => hcap.nonempty hp (map_eq_nil_iff.1 he)
      · intro c hc
        obtain ⟨r, hr, rfl⟩ := mem_map.1 hc
        exact hcap.valid_component hp hreq hsrc hr
    refine ⟨_, buildManifest_eq_ok.2 ⟨seed, _, hp.known, hstatus, rfl, hv, ?_⟩,
      Manifest.validate_eq_nil_iff.2 hv, rfl⟩
    refine find?_eq_none.2 fun c hc hbad => ?_
    obtain ⟨r, hr, rfl⟩ := mem_map.1 hc
    have hbad : r.status = .succeeded ∧
        ¬ (agentKopiaUser ++ "@" ++ seed.agentId ++ ":").toList <+: r.source.toList := by
      simpa [ComponentResult.toComponent, CommitInput.draft] using hbad
    have hrsrc : r.source = (i.plan.job app).source r.name := by
      obtain ⟨s, -, hown | ⟨-, hf, -⟩⟩ := hcap.result_cases hr
      · exact (hown.snapshot hbad.1).2
      · exact (hf.snapshot hbad.1).2
    rw [hrsrc, hp.agent] at hbad
    exact hbad.2 (job_source i.plan app r.name)

def Plan.small : Plan where
  recoveryPointId := "rp_01ARZ3NDEKTSV4RRFFQ69G5FAV"
  agentId := "a"
  repositoryId := "repo"
  consistencyMode := .live
  components := [⟨"config", .config, true, "", false⟩, ⟨"volume:v", .volume, false, "/v", true⟩]
  seedComponents := []
  preHooks := []
  postHooks := []
  containerIds := ["c"]
  applicationJson := some ⟨"app", "a", "a"⟩
  waitForWindowSeconds := 0

def smallResults (companion : Capture) : List ComponentResult :=
  (snapshotComponents (Plan.small.job "app") Plan.small.fsComps [default, (default, companion)]).getD []

def smallInput (companion : Capture) : CommitInput where
  plan := .small
  results := smallResults companion
  workflowId := "wf"
  runId := "run"
  startedAt := 1
  quiesceStartedAt := none

theorem small_wellFormed : Plan.small.WellFormed ⟨"app", "a", "a"⟩ where
  known := rfl
  agent := rfl
  recoveryPointId := by decide
  mode := rfl
  ids := by decide
  nonempty := by decide
  names := by decide
  named := by decide
  kinds := by decide

theorem partial_committed_small :
    ∃ m, buildManifest (smallInput default) 2 = .ok m ∧ m.validate = [] ∧ m.status = .complete := by
  have h := partial_committed (smallInput default) ⟨"app", "a", "a"⟩ "app" 2 small_wellFormed
    ⟨by decide, by decide, by decide⟩ (by decide) [] [default, (default, default)] []
    (smallResults default) rfl rfl rfl (by decide)
  exact h.2 (by decide)

/-- Every required component succeeds, the metadata of the optional volume does not:
there is no manifest. -/
theorem companion_failure_refused :
    snapshotComponents (Plan.small.job "app") Plan.small.fsComps [default, (default, .error "walk")] =
      some (smallResults (.error "walk")) ∧
    (∀ r ∈ smallResults (.error "walk"), r.required = true → r.status = .succeeded) ∧
    buildManifest (smallInput (.error "walk")) 2 = .error
      "manifest: invalid: fsmeta component fsmeta:volume:v: required whenever volume:v is present" := by
  refine ⟨rfl, by decide, by decide⟩

end Dbr2.Backup
