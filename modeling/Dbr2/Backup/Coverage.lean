import Dbr2.Backup.Recording

/-! Does a committed recovery point cover its plan?

The worker checks the agent's results against themselves and against the Repository, not against the
plan. So a manifest covers the plan exactly if the agent answered the plan (`covers_iff`): for a
list that leaves a required component out, nothing asks for it. -/
namespace Dbr2.Backup
open Lib List

def returned (p : Phase) (calls : List Call) : List ComponentResult :=
  ((calls.find? fun c => c.activity == .snapshot p && c.ok).map (·.reply.results)).getD []

/-- Every required component of the plan is answered, and nothing but the plan and its
companions is. -/
structure Answers (plan : Plan) (rs : List ComponentResult) : Prop where
  required : ∀ s ∈ plan.components, s.required = true →
    ∃ r ∈ rs, r.name = s.name ∧ r.kind = s.kind ∧ r.required = true
  planned : ∀ r ∈ rs, ∃ s ∈ plan.components,
    (r.name = s.name ∧ r.kind = s.kind) ∨ (r.kind = .fsmeta ∧ r.parent = s.name)

/-- Every required component of the plan has a snapshot in the manifest, and nothing but the
plan and its companions is there. -/
structure Covers (plan : Plan) (m : Manifest) : Prop where
  required : ∀ s ∈ plan.components, s.required = true →
    ∃ c ∈ m.components, c.name = s.name ∧ c.kind = s.kind ∧ c.required = true ∧
      c.status = .succeeded ∧ c.snapshotId ≠ ""
  planned : ∀ c ∈ m.components, ∃ s ∈ plan.components,
    (c.name = s.name ∧ c.kind = s.kind) ∨ (c.kind = .fsmeta ∧ c.parent = s.name)

theorem covers_iff_answers {i : CommitInput} {now : Nat} {m : Manifest}
    (h : buildManifest i now = .ok m) : Covers i.plan m ↔ Answers i.plan i.results := by
  obtain ⟨seed, status, -, -, hm, hv, -⟩ := buildManifest_eq_ok.1 h
  have hcs : m.components = i.results.map ComponentResult.toComponent := by rw [hm]; rfl
  constructor
  · intro hc
    refine ⟨fun s hs hreq => ?_, fun r hr => ?_⟩
    · obtain ⟨c, hc, hn, hk, hr, -⟩ := hc.required s hs hreq
      rw [hcs] at hc
      obtain ⟨r, hr', rfl⟩ := mem_map.1 hc
      exact ⟨r, hr', hn, hk, hr⟩
    · exact hc.planned r.toComponent (by rw [hcs]; exact mem_map_of_mem hr)
  · intro ha
    refine ⟨fun s hs hreq => ?_, fun c hc => ?_⟩
    · obtain ⟨r, hr, hn, hk, hreq⟩ := ha.required s hs hreq
      have hmem : r.toComponent ∈ m.components := by rw [hcs]; exact mem_map_of_mem hr
      have hvc := hv.component _ hmem
      exact ⟨_, hmem, hn, hk, hreq, hvc.required hreq, (hvc.snapshot (hvc.required hreq)).1⟩
    · rw [hcs] at hc
      obtain ⟨r, hr, rfl⟩ := mem_map.1 hc
      exact ha.planned r hr

@[simp] theorem returned_cons (p : Phase) (c : Call) (calls : List Call) : returned p (c :: calls) =
      if c.activity = .snapshot p ∧ c.ok = true then c.reply.results else returned p calls := by
  unfold returned
  rw [find?_cons]
  by_cases h : c.activity = .snapshot p ∧ c.ok = true
  · simp [h.1, h.2]
  rw [if_neg h]
  have hf : (c.activity == .snapshot p && c.ok) = false := by
    simpa [Bool.and_eq_false_iff] using fun ha hok => h ⟨ha, hok⟩
  rw [hf]

structure Blank (db snap : List ComponentResult) (s : Run) : Prop where
  manifest : s.manifest = none
  dump : returned .dump s.calls = db
  protect : returned .protect s.calls = snap

def Made (plan : Plan) (s : Run) : Prop :=
  ∀ m, s.manifest = some m → ∃ i now, i.plan = plan ∧
    i.results = returned .dump s.calls ++ returned .protect s.calls ∧ buildManifest i now = .ok m

theorem returned_quiet {s s' : Run} {p : Phase} (hp : (Activity.snapshot p).records = true)
    (hc : s'.calls = s.calls ∨ ∃ c : Call, c.activity.records = false ∧ s'.calls = c :: s.calls) :
    returned p s'.calls = returned p s.calls := by
  rcases hc with hc | ⟨c, hc, hcs⟩
  · rw [hc]
  · rw [hcs, returned_cons, if_neg fun h => ne_of_records hc hp h.1]

theorem blank_quiet {db snap : List ComponentResult} : Quiet (Blank db snap) := fun _ _ h _ hm hc =>
  ⟨hm.trans h.manifest, (returned_quiet rfl hc).trans h.dump, (returned_quiet rfl hc).trans h.protect⟩

theorem made_quiet {plan : Plan} : Quiet (Made plan) := by
  intro s s' h _ hm hc m hs
  rw [returned_quiet rfl hc, returned_quiet rfl hc]
  exact h m (hm.symm.trans hs)

theorem made_of_none {plan : Plan} {s : Run} (h : s.manifest = none) : Made plan s := by
  intro m hm
  rw [h] at hm
  cases hm

section Workflow
variable {plan : Plan} {workflowId runId : String} {startedAt now : Nat} {ctx : Context}
  {db snap : List ComponentResult} {C : Run → Prop} {E : String → Run → Prop}

theorem dumpPhase_blank : Triple (Blank [] []) (dumpPhase plan) (fun rs => Blank rs []) (fun _ => Made plan) C := by
  unfold dumpPhase
  by_cases hdb : plan.dbComps = []
  · rw [if_pos hdb]
    exact .pure fun _ h => h
  rw [if_neg hdb]
  refine .bind (Q := fun r => Blank r.results []) (.mapError (activity_triple
    (fun s d h hf => ⟨h.manifest, by simp [Call.ok, hf], by simpa using h.protect⟩)
    fun s d _ h _ => made_of_none h.manifest) fun _ _ h => h) fun r => ?_
  exact ((checkRequired_triple _ _).error fun _ _ h => made_of_none h.manifest).bind
    fun _ => .pure fun _ h => h.1

theorem protectPhase_blank :
    Triple (Blank db []) (protectPhase plan) (fun rs => Blank db rs) (fun _ => Made plan) C := by
  refine (activity_triple (Q := fun r => Blank db r.results) (E := fun _ => Made plan)
    (fun s d h hf => ⟨h.manifest, by simpa using h.dump, by simp [Call.ok, hf]⟩)
    fun s d _ h _ => made_of_none h.manifest).attempted.bind fun r => ?_
  cases r with
  | error e =>
    exact ((resumePhase_quiet made_quiet).mapError fun _ _ h => h).bind fun _ => .throw fun _ h => h
  | ok d =>
    exact ((resumePhase_quiet blank_quiet).mapError fun _ _ h => made_of_none h.manifest).bind
      fun _ => .pure fun _ h => h

theorem commitPhase_made : Triple (Blank db snap) (commitPhase plan workflowId runId startedAt now (db ++ snap))
      (fun _ => Made plan) (fun _ => Made plan) C := by
  refine get_quiet.bind fun a => ?_
  cases hb : buildManifest ⟨plan, db ++ snap, workflowId, runId, startedAt, a.quiescedAt⟩ now with
  | error e =>
    exact .mapError (F := fun _ => Made plan) (.prim fun d s h => made_of_none h.manifest) fun _ _ h => h
  | ok m =>
    have hmade (s : Run) (d : Reply) (h : Blank db snap s) : Made plan
        {s with calls := ⟨.commit, .workflow, d⟩ :: s.calls, manifest := some (s.manifest.getD m)} := by
      intro m' hm
      obtain rfl : m = m' := by simpa [h.manifest] using hm
      exact ⟨_, now, rfl, by simp [h.dump, h.protect], hb⟩
    refine .bind (Q := fun _ => Made plan) (.mapError (execute_triple
      (fun s d h _ => hmade s d h) (fun s d _ h _ _ => hmade s d h)
      fun s d _ h _ _ => made_of_none h.manifest) fun _ _ h => h) fun _ => .pure fun _ h => h

theorem record_made {a : Activity} (hd : a ≠ .snapshot .dump) (hp : a ≠ .snapshot .protect)
    {f : Run → Run} (hm : ∀ s, (f s).manifest = s.manifest) (hc : ∀ s, (f s).calls = s.calls) :
    Triple (Made plan) (execute a ctx f) (fun _ => Made plan) (fun _ => Made plan) C := by
  have hcall (s s' : Run) (d : Reply) (h : Made plan s) (hm : s'.manifest = s.manifest)
      (hc : s'.calls = ⟨a, ctx, d⟩ :: s.calls) : Made plan s' := by
    intro m hs
    rw [hc, returned_cons, if_neg fun h => hd h.1, returned_cons, if_neg fun h => hp h.1]
    exact h m (hm.symm.trans hs)
  exact execute_triple (fun s d h _ => hcall s _ d h (hm _) (hc _))
    (fun s d _ h _ _ => hcall s _ d h (hm _) (hc _)) fun s d _ h _ _ => hcall s _ d h rfl rfl

theorem recordCommitted_made : Triple (Made plan) recordCommitted (fun _ => Made plan) E C :=
  record_keeps (record_made (by simp) (by simp) (fun _ => rfl) fun _ => rfl)

theorem recordFailed_made : Triple (Made plan) recordFailed (fun _ => Made plan) E C :=
  record_keeps (record_made (by simp) (by simp) (fun _ => rfl) fun _ => rfl)

theorem main_made : Triple (Blank [] []) (main plan workflowId runId startedAt now) (fun _ => Made plan)
      (fun _ => Made plan) C := by
  have herr {α : Type} {m : Flow α} {db snap : List ComponentResult}
      (h : Triple (Blank db snap) m (fun _ => Blank db snap) (fun _ => Blank db snap) C) :
      Triple (Blank db snap) m (fun _ => Blank db snap) (fun _ => Made plan) C :=
    h.error fun _ _ h => made_of_none h.manifest
  refine .bind (Q := fun _ => Blank [] []) (.when (fun _ =>
    (herr (activity_quiet blank_quiet rfl)).bind fun _ => .pure fun _ h => h)
    fun _ _ h => h) fun _ => ?_
  refine (herr (activity_quiet blank_quiet rfl)).bind fun _ => ?_
  refine (seedPass_quiet blank_quiet).bind fun _ => ?_
  refine dumpPhase_blank.bind fun db => ?_
  refine (herr (quiescePhase_quiet blank_quiet)).bind fun _ => ?_
  refine protectPhase_blank.bind fun snap => ?_
  refine (herr checkAutoResumed_quiet).bind fun _ => ?_
  refine (herr ((checkRequired_triple _ _).post fun _ _ h => h.1)).bind fun _ => ?_
  exact commitPhase_made.bind fun _ => recordCommitted_made

theorem afterPrepare_made :
    Triple (Blank [] []) (afterPrepare plan workflowId runId startedAt now) (fun _ => Made plan)
      (fun _ => Made plan) C := by
  refine (main_made.attempt (R := fun _ => Made plan) (fun _ _ h => h) fun _ _ h => h).bind fun r => ?_
  refine (sagaRun_quiet made_quiet).bind fun p => ?_
  cases r with
  | ok _ => exact .when (fun _ => .throw fun _ h => h) fun _ _ h => h
  | error e => exact recordFailed_made.bind fun _ => .throw fun _ h => h

end Workflow

theorem finalRun_made (plan : Plan) (workflowId runId : String) (startedAt now : Nat)
    (o : List Reply) : Made plan (finalRun plan workflowId runId startedAt now o) := by
  have hrun : Triple (Blank [] []) (backupWorkflow plan workflowId runId startedAt now)
      (fun _ => Made plan) (fun _ => Made plan) (Made plan) :=
    ((activity_quiet blank_quiet rfl).error fun _ _ h => made_of_none h.manifest).bind fun _ => afterPrepare_made
  exact hrun.final ⟨rfl, rfl, rfl⟩ o

/-- **A manifest covers the plan** exactly if the agent answered the plan. -/
theorem covers_iff (plan : Plan) (workflowId runId : String) (startedAt now : Nat) (o : List Reply)
    (m : Manifest) (hm : (finalRun plan workflowId runId startedAt now o).manifest = some m) :
    Covers plan m ↔ Answers plan (returned .dump (finalRun plan workflowId runId startedAt now o).calls ++
        returned .protect (finalRun plan workflowId runId startedAt now o).calls) := by
  obtain ⟨i, now', hplan, hres, hb⟩ := finalRun_made plan workflowId runId startedAt now o m hm
  have h := covers_iff_answers hb
  rw [hplan, hres] at h
  exact h

def smallRun (rs : List ComponentResult) : Run :=
  finalRun .small "wf" "run" 1 2 [default, default, {(default : Reply) with results := rs}]

theorem covers_iff_small : ∃ m, (smallRun (smallResults default)).manifest = some m ∧
    Covers .small m := by
  obtain ⟨m, hm⟩ := Option.isSome_iff_exists.1
    (show (smallRun (smallResults default)).manifest.isSome = true by decide)
  exact ⟨m, hm, (covers_iff _ _ _ _ _ _ m hm).2 ⟨by decide, by decide⟩⟩

/-- The agent leaves the required configuration out of its answer, and is believed. -/
theorem missing_required_committed : ∃ m, (smallRun ((smallResults default).drop 1)).manifest = some m ∧
    ¬ Covers .small m := by
  have hnames : (smallRun ((smallResults default).drop 1)).manifest.map
      (fun m => m.components.map (·.name)) = some ["volume:v", "fsmeta:volume:v"] := by decide
  obtain ⟨m, hm, hcs⟩ := Option.map_eq_some_iff.1 hnames
  refine ⟨m, hm, fun h => ?_⟩
  obtain ⟨c, hc, hname, -⟩ := h.required ⟨"config", .config, true, "", false⟩ (by decide) rfl
  have : c.name ∈ m.components.map (·.name) := mem_map_of_mem hc
  rw [hcs, hname] at this
  exact absurd this (by decide)

end Dbr2.Backup
