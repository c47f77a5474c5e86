import Dbr2.Restore.Workflow

/-! Who lets a stopped application go.

A restore stops the application under a lease, and resumes it inline once the data is in place; the
saga resumes it if the run ends before. One flag tells the saga whether it has to, and the inline
resume sets it before it is called. -/
namespace Dbr2.Restore
open Lib List

def Activity.holds : Activity → Option String
  | .quiesce lease _ _ => some lease
  | _ => none

def Activity.frees : Activity → Option String
  | .resume lease => some lease
  | _ => none

/-- One of the later calls resumed the lease, or is a compensation that tried to. -/
def Call.ReleasedBy (c : Call) (later : List Call) : Prop :=
  ∀ lease ∈ c.activity.holds, ∃ r ∈ later, r.activity.frees = some lease ∧ (r.ok = true ∨ r.context = .disconnected)

instance Call.ReleasedBy.decidable (c : Call) (later : List Call) : Decidable (c.ReleasedBy later) :=
  inferInstanceAs (Decidable (∀ lease ∈ c.activity.holds, _))

/-- Each Quiesce among the calls is released after it; `later` are the calls after these. -/
def Released (later : List Call) : List Call → Prop
  | [] => True
  | c :: older => c.ReleasedBy later ∧ Released (c :: later) older

instance Released.decidable (later calls : List Call) : Decidable (Released later calls) :=
  match calls with
  | [] => .isTrue trivial
  | c :: older => @instDecidableAnd _ _ _ (Released.decidable (c :: later) older)

def InlineResumed (calls : List Call) : Prop :=
  ∀ c ∈ calls, c.activity.frees.isSome = true → c.context = .workflow → c.ok = true

def Activity.leases (a : Activity) : Bool := a.holds.isSome || a.frees.isSome

def trail (calls : List Call) : List Call := calls.filter (·.activity.leases)

variable {c : Call} {calls : List Call}

@[simp] theorem trail_nil : trail [] = [] := rfl

theorem trail_cons : trail (c :: calls) = if c.activity.leases then c :: trail calls else trail calls :=
  filter_cons

theorem mem_trail (h : c.activity.frees.isSome = true) : c ∈ trail calls ↔ c ∈ calls := by
  simp [trail, Activity.leases, h]

theorem releasedBy_trail {later : List Call} : c.ReleasedBy (trail later) ↔ c.ReleasedBy later := by
  apply forall₂_congr
  intro lease _
  constructor
  · rintro ⟨r, hr, hfrees, hok⟩
    exact ⟨r, (mem_trail (by simp [hfrees])).1 hr, hfrees, hok⟩
  · rintro ⟨r, hr, hfrees, hok⟩
    exact ⟨r, (mem_trail (by simp [hfrees])).2 hr, hfrees, hok⟩

theorem released_trail {later : List Call} : Released (trail later) (trail calls) ↔ Released later calls := by
  induction calls generalizing later with
  | nil => exact Iff.rfl
  | cons c older ih =>
    have ih : Released (trail (c :: later)) (trail older) ↔ Released (c :: later) older := ih
    rw [trail_cons] at ih ⊢
    by_cases hc : c.activity.leases = true
    · rw [if_pos hc] at ih ⊢
      exact and_congr releasedBy_trail ih
    rw [if_neg hc] at ih ⊢
    have hnone : c.activity.holds = none := by
      cases h : c.activity.holds with
      | none => rfl
      | some lease => simp [Activity.leases, h] at hc
    have htriv : c.ReleasedBy later := by
      intro lease hl
      rw [hnone] at hl
      cases hl
    rw [ih]
    exact ⟨fun h => ⟨htriv, h⟩, fun h => h.2⟩

theorem inlineResumed_trail : InlineResumed (trail calls) ↔ InlineResumed calls := by
  constructor
  · intro h c hc hfrees
    exact h c ((mem_trail hfrees).2 hc) hfrees
  · intro h c hc hfrees
    exact h c ((mem_trail hfrees).1 hc) hfrees

section Stages
variable (restoreId : String)

structure Idle (s : Run) : Prop where
  trail : trail s.calls = []
  resumed : s.resumed = true

structure Held (pending : List Compensation) (s : Run) : Prop where
  trail : ∃ q, trail s.calls = [q] ∧ q.activity.holds = some restoreId
  resumed : s.resumed = false
  pending : .resume ∈ pending

structure Called (ctx : Context) (s : Run) : Prop where
  trail : ∃ r q, trail s.calls = [r, q] ∧ r.activity = .resume restoreId ∧ r.context = ctx ∧
    q.activity.holds = some restoreId
  resumed : s.resumed = true

def Early (s : Run) : Prop := Idle s ∨ Held restoreId s.saga s

def Late (s : Run) : Prop := Idle s ∨ Called restoreId .workflow s

def Ended (s : Run) : Prop := Early restoreId s ∨ Called restoreId .workflow s

def Settled (s : Run) : Prop := Late restoreId s ∨ Called restoreId .disconnected s

variable {restoreId}

theorem frees_of_holds {a : Activity} (h : a.holds = some restoreId) : a.frees = none := by
  cases a <;> first | rfl | cases h

theorem released_pair {r q : Call} (hr : r.activity = .resume restoreId) (hq : q.activity.holds = some restoreId) :
    Released [] [r, q] ↔ (r.ok = true ∨ r.context = .disconnected) := by
  have hrh : r.activity.holds = none := by rw [hr]; rfl
  have hrf : r.activity.frees = some restoreId := by rw [hr]; rfl
  simp [Released, Call.ReleasedBy, hrh, hrf, hq]

theorem inlineResumed_pair {r q : Call} (hr : r.activity = .resume restoreId)
    (hq : q.activity.holds = some restoreId) :
    InlineResumed [r, q] ↔ (r.context = .workflow → r.ok = true) := by
  have hrf : r.activity.frees = some restoreId := by rw [hr]; rfl
  simp [InlineResumed, hrf, frees_of_holds hq]

theorem Settled.released_inlineResumed {s : Run} (h : Settled restoreId s) :
    Released [] s.calls ↔ InlineResumed s.calls := by
  rw [← released_trail, ← inlineResumed_trail, trail_nil]
  rcases h with (h | h) | h
  · rw [h.trail]
    simp [Released, InlineResumed]
  · obtain ⟨r, q, htrail, hr, hctx, hq⟩ := h.trail
    rw [htrail, released_pair hr hq, inlineResumed_pair hr hq, hctx]
    simp
  · obtain ⟨r, q, htrail, hr, hctx, hq⟩ := h.trail
    rw [htrail, released_pair hr hq, inlineResumed_pair hr hq, hctx]
    simp

end Stages

def Quiet (J : Run → Prop) : Prop :=
  ∀ s s', J s → trail s'.calls = trail s.calls → s'.resumed = s.resumed → s.saga ⊆ s'.saga → J s'

section Quiet
variable {restoreId : String} {J K : Run → Prop}

theorem idle_quiet : Quiet Idle := by
  intro s s' h ht hr _
  exact ⟨ht.trans h.trail, hr.trans h.resumed⟩

theorem held_quiet : Quiet fun s => Held restoreId s.saga s := by
  intro s s' h ht hr hs
  exact ⟨ht ▸ h.trail, hr.trans h.resumed, hs h.pending⟩

theorem pending_quiet {xs : List Compensation} : Quiet (Held restoreId xs) := by
  intro s s' h ht hr _
  exact ⟨ht ▸ h.trail, hr.trans h.resumed, h.pending⟩

theorem called_quiet {ctx : Context} : Quiet (Called restoreId ctx) := by
  intro s s' h ht hr _
  exact ⟨ht ▸ h.trail, hr.trans h.resumed⟩

theorem Quiet.or (hJ : Quiet J) (hK : Quiet K) : Quiet fun s => J s ∨ K s := by
  intro s s' h ht hr hs
  exact h.imp (fun h => hJ s s' h ht hr hs) fun h => hK s s' h ht hr hs

theorem early_quiet : Quiet (Early restoreId) := idle_quiet.or held_quiet

theorem late_quiet : Quiet (Late restoreId) := idle_quiet.or called_quiet

theorem settled_quiet : Quiet (Settled restoreId) := late_quiet.or called_quiet

variable {plan : Plan} {ctx : Context} {C : Run → Prop} {E : String → Run → Prop}

theorem Quiet.call (hJ : Quiet J) {s : Run} (h : J s) {c : Call} (hc : c.activity.leases = false) :
    J {s with calls := c :: s.calls} := by
  apply hJ s _ h
  · rw [trail_cons, if_neg (by simp [hc])]
  · rfl
  · exact List.Subset.refl _

theorem Quiet.flags (hJ : Quiet J) {s s' : Run} (h : J s) (hc : s'.calls = s.calls)
    (hr : s'.resumed = s.resumed) (hs : s'.saga = s.saga) : J s' :=
  hJ s s' h (by rw [hc]) hr (hs ▸ List.Subset.refl _)

variable {a : Activity}

theorem activity_triple {Q : Reply → Run → Prop} {P : Run → Prop}
    (hok : ∀ s d, P s → d.fails = none → Q d {s with calls := ⟨a, ctx, d⟩ :: s.calls})
    (herr : ∀ s d e, P s → d.fails = some e → E e {s with calls := ⟨a, ctx, d⟩ :: s.calls}) :
    Triple P (activity a ctx) Q E C := by
  apply Triple.prim
  intro d s hs
  cases hd : d.fails with
  | none => simpa [Outcome.meets, hd] using hok s d hs hd
  | some e => simpa [Outcome.meets, hd] using herr s d e hs hd

theorem activity_quiet (hJ : Quiet J) (ha : a.leases = false) :
    Triple J (activity a ctx) (fun _ => J) (fun _ => J) C :=
  activity_triple (fun _ _ h _ => hJ.call h ha) fun _ _ _ h _ => hJ.call h ha

theorem worded_quiet (hJ : Quiet J) (ha : a.leases = false) (f : String → String) :
    Triple J (Act.mapError f (activity a ctx)) (fun _ => J) (fun _ => J) C :=
  (activity_quiet hJ ha).mapError fun _ _ h => h

theorem modify_quiet (hJ : Quiet J) {f : Run → Run} (hc : ∀ s, (f s).calls = s.calls)
    (hr : ∀ s, (f s).resumed = s.resumed) (hs : ∀ s, (f s).saga = s.saga) :
    Triple J (Act.modify f : Flow Unit) (fun _ => J) E C :=
  Triple.modify fun s h => hJ.flags h (hc s) (hr s) (hs s)

theorem sagaAdd_quiet (hJ : Quiet J) (c : Compensation) : Triple J (sagaAdd c) (fun _ => J) E C :=
  Triple.modify fun s h => hJ s _ h rfl rfl (subset_cons_self c s.saga)

theorem get_quiet : Triple J (Act.get : Flow Run) (fun _ => J) E C := Triple.get fun _ h => h

theorem pure_quiet {α : Type} (a : α) : Triple J (pure a : Flow α) (fun _ => J) E C :=
  Triple.pure fun _ h => h

theorem seq_quiet {α β : Type} {m : Flow α} {f : α → Flow β} (hm : Triple J m (fun _ => J) E C)
    (hf : ∀ a, Triple J (f a) (fun _ => J) E C) : Triple J (m >>= f) (fun _ => J) E C :=
  Triple.bind hm hf

theorem when_quiet {c : Prop} [Decidable c] {m : Flow Unit}
    (h : Triple J m (fun _ => J) E C) : Triple J (Act.when c m) (fun _ => J) E C :=
  Triple.when (fun _ => h) fun _ _ h => h

theorem attempt_quiet {α : Type} {m : Flow α} (h : Triple J m (fun _ => J) (fun _ => J) C) :
    Triple J (Act.attempt m) (fun _ => J) E C :=
  h.attempt (fun _ _ h => h) fun _ _ h => h

section

variable (hJ : Quiet J)
include hJ

theorem step_quiet (name : String) : Triple J (step name) (fun _ => J) E C := by
  apply seq_quiet
  · exact attempt_quiet (activity_quiet hJ rfl)
  · intro _
    exact pure_quiet _

theorem phase_quiet (ha : a.leases = false) {name : String}
    {f : String → String} {g : Reply → Run → Run} (hc : ∀ r s, (g r s).calls = s.calls)
    (hr : ∀ r s, (g r s).resumed = s.resumed) (hs : ∀ r s, (g r s).saga = s.saga) :
    Triple J (do
        step name
        let r ← Act.mapError f (activity a ctx)
        Act.modify (g r) : Flow Unit)
      (fun _ => J) (fun _ => J) C := by
  apply seq_quiet
  · exact step_quiet hJ name
  intro _
  apply seq_quiet
  · exact worded_quiet hJ ha f
  intro r
  exact modify_quiet hJ (hc r) (hr r) (hs r)

theorem grantPhase_quiet : Triple J (grantPhase plan) (fun _ => J) (fun _ => J) C := by
  apply when_quiet
  apply seq_quiet
  · exact step_quiet hJ _
  intro _
  apply seq_quiet
  · exact activity_quiet hJ rfl
  intro r
  exact sagaAdd_quiet hJ _

theorem accessPhase_quiet : Triple J accessPhase (fun _ => J) (fun _ => J) C := by
  apply seq_quiet
  · exact step_quiet hJ _
  intro _
  exact seq_quiet (activity_quiet hJ rfl) fun _ => pure_quiet _

theorem imagePhase_quiet : Triple J (imagePhase plan) (fun _ => J) (fun _ => J) C := by
  apply when_quiet
  exact phase_quiet hJ rfl (fun _ _ => rfl) (fun _ _ => rfl) fun _ _ => rfl

theorem touchPhase_quiet : Triple J touchPhase (fun _ => J) E C := by
  apply seq_quiet
  · exact modify_quiet hJ (fun _ => rfl) (fun _ => rfl) fun _ => rfl
  intro _
  exact sagaAdd_quiet hJ _

theorem dataPhase_quiet : Triple J (dataPhase plan) (fun _ => J) (fun _ => J) C := by
  apply when_quiet
  exact phase_quiet hJ rfl (fun _ _ => rfl) (fun _ _ => rfl) fun _ _ => rfl

theorem recreatePhase_quiet : Triple J (recreatePhase plan) (fun _ => J) (fun _ => J) C := by
  unfold recreatePhase
  split
  · apply seq_quiet
    · exact step_quiet hJ _
    intro _
    apply seq_quiet
    · exact worded_quiet hJ rfl _
    intro r
    apply seq_quiet
    · exact modify_quiet hJ (fun _ => rfl) (fun _ => rfl) fun _ => rfl
    intro _
    exact pure_quiet _
  · exact pure_quiet _

theorem startPhase_quiet (start : List String) :
    Triple J (startPhase start) (fun _ => J) (fun _ => J) C := by
  apply when_quiet
  exact seq_quiet (worded_quiet hJ rfl _) fun _ => pure_quiet _

theorem restoreDatabase_quiet (db : String) :
    Triple J (restoreDatabase db) (fun _ => J) (fun _ => J) C :=
  phase_quiet hJ rfl (fun _ _ => rfl) (fun _ _ => rfl) fun _ _ => rfl

theorem healthPhase_quiet (start : List String) :
    Triple J (healthPhase plan start) (fun _ => J) (fun _ => J) C := by
  apply seq_quiet get_quiet
  intro s
  apply when_quiet
  apply seq_quiet
  · exact step_quiet hJ _
  intro _
  apply seq_quiet
  · exact worded_quiet hJ rfl _
  intro r
  apply seq_quiet
  · exact modify_quiet hJ (fun _ => rfl) (fun _ => rfl) fun _ => rfl
  intro _
  apply when_quiet
  exact .throw fun _ h => h

theorem commitPhase_quiet : Triple J commitPhase (fun _ => J) (fun _ => J) C :=
  phase_quiet hJ rfl (fun _ _ => rfl) (fun _ _ => rfl) fun _ _ => rfl

theorem finish_quiet (state : RunState) (error : String) :
    Triple J (finish state error) (fun _ => J) E C := by
  apply seq_quiet
  · exact attempt_quiet (activity_quiet hJ rfl)
  · intro _
    exact pure_quiet _

theorem record_quiet (error : String) : Triple J (record error) (fun _ => J) E C := by
  apply seq_quiet get_quiet
  intro s
  split
  · exact finish_quiet hJ _ _
  split
  · apply seq_quiet
    · exact modify_quiet hJ (fun _ => rfl) (fun _ => rfl) fun _ => rfl
    intro _
    exact finish_quiet hJ _ _
  · exact finish_quiet hJ _ _

end

end Quiet

section Run
variable {restoreId : String} {plan : Plan} {C : Run → Prop} {E : String → Run → Prop}

variable {pending : List Compensation} {s : Run}

theorem Idle.quiesce (h : Idle s) {c : Call} (hc : c.activity.holds = some restoreId) :
    Held restoreId (.resume :: s.saga)
      {s with resumed := false, saga := .resume :: s.saga, calls := c :: s.calls} := by
  refine ⟨⟨c, ?_, hc⟩, rfl, mem_cons_self⟩
  rw [trail_cons, if_pos (by simp [Activity.leases, hc]), h.trail]

theorem stopPhase_triple : Triple Idle (stopPhase restoreId plan) (fun _ => Early restoreId)
    (fun _ => Early restoreId) C := by
  refine .when (fun _ => ?_) fun _ _ h => .inl h
  apply Triple.bind (Q := fun _ => Idle)
  · exact step_quiet idle_quiet _
  intro _
  apply Triple.bind (Q := fun _ s => ∃ s₀, Idle s₀ ∧ s = {s₀ with resumed := false})
  · exact .modify fun s h => ⟨s, h, rfl⟩
  intro _
  apply Triple.bind (Q := fun _ s => ∃ s₀, Idle s₀ ∧ s = {s₀ with resumed := false, saga := .resume :: s₀.saga})
  · apply Triple.modify
    rintro _ ⟨s₀, h, rfl⟩
    exact ⟨s₀, h, rfl⟩
  intro _
  apply Triple.bind (Q := fun _ => Early restoreId)
  · refine .mapError (F := fun _ => Early restoreId) ?_ fun _ _ h => h
    apply activity_triple
    · rintro _ d ⟨s₀, h, rfl⟩ _
      exact .inr (h.quiesce rfl)
    · rintro _ d _ ⟨s₀, h, rfl⟩ _
      exact .inr (h.quiesce rfl)
  · intro r
    exact modify_quiet early_quiet (fun _ => rfl) (fun _ => rfl) fun _ => rfl

theorem Held.resume (h : Held restoreId pending s) {c : Call} (hc : c.activity = .resume restoreId) :
    Called restoreId c.context {s with resumed := true, calls := c :: s.calls} := by
  obtain ⟨q, hq, hqh⟩ := h.trail
  refine ⟨⟨c, q, ?_, hc, rfl, hqh⟩, rfl⟩
  rw [trail_cons, if_pos (by rw [hc]; rfl), hq]

theorem resume_triple {ctx : Context} :
    Triple (fun s => ∃ s₀, Held restoreId pending s₀ ∧ s = {s₀ with resumed := true})
      (activity (.resume restoreId) ctx) (fun _ => Called restoreId ctx)
      (fun _ => Called restoreId ctx) C := by
  apply activity_triple
  · rintro _ d ⟨s₀, h, rfl⟩ _
    exact h.resume (c := ⟨.resume restoreId, ctx, d⟩) rfl
  · rintro _ d _ ⟨s₀, h, rfl⟩ _
    exact h.resume (c := ⟨.resume restoreId, ctx, d⟩) rfl

theorem resumeOnce_triple {J : Run → Prop} {α : Type} {m : Flow α} (A : Run → Prop) (pending : Run → List Compensation)
    (hA : ∀ s, A s → s.resumed = true) (hJ : ∀ s, A s → J s)
    (hm : ∀ xs, Triple (fun s => ∃ s₀, Held restoreId xs s₀ ∧ s = {s₀ with resumed := true}) m (fun _ => J) (fun _ => J) C) :
    Triple (fun s => A s ∨ Held restoreId (pending s) s) (do
      let s ← Act.get
      Act.when (s.resumed = false) do
        Act.modify fun s => {s with resumed := true}
        let _ ← m) (fun _ => J) (fun _ => J) C := by
  apply Triple.bind (Q := fun s s' => s' = s ∧ (A s ∨ Held restoreId (pending s) s))
  · exact .get fun s h => ⟨rfl, h⟩
  intro s
  refine .when (fun hr => ?_) fun hr _ h => ?_
  · apply Triple.bind (Q := fun _ s' => ∃ s₀, Held restoreId (pending s) s₀ ∧ s' = {s₀ with resumed := true})
    · apply Triple.modify
      rintro _ ⟨rfl, h | h⟩
      · rw [hA _ h] at hr
        cases hr
      · exact ⟨_, h, rfl⟩
    · intro _
      exact (hm _).bind fun _ => pure_quiet _
  · obtain ⟨rfl, h | h⟩ := h
    · exact hJ _ h
    · exact absurd h.resumed hr

theorem resumePhase_triple : Triple (Early restoreId) (resumePhase restoreId)
    (fun _ => Late restoreId) (fun _ => Late restoreId) C := by
  apply Triple.bind (Q := fun _ => Early restoreId)
  · exact step_quiet early_quiet _
  intro _
  refine resumeOnce_triple Idle (·.saga) (fun _ h => h.resumed) (fun _ h => .inl h) fun _ => ?_
  refine .mapError (F := fun _ => Late restoreId) ?_ fun _ _ h => h
  exact resume_triple.conseq (fun _ h => h) (fun _ _ h => .inr h) (fun _ _ h => .inr h) fun _ h => h

theorem Early.ended (h : Early restoreId s) : Ended restoreId s := .inl h

theorem Late.ended (h : Late restoreId s) : Ended restoreId s := by
  rcases h with h | h
  · exact .inl (.inl h)
  · exact .inr h

theorem afterResume_triple (start : List String) : Triple (Late restoreId) (do
        startPhase start
        Act.each restoreDatabase plan.databases
        healthPhase plan start
        commitPhase : Flow Unit)
      (fun _ => Late restoreId) (fun _ => Late restoreId) C := by
  apply seq_quiet
  · exact startPhase_quiet late_quiet start
  intro _
  apply seq_quiet
  · exact .each_keeps fun db _ => restoreDatabase_quiet late_quiet db
  intro _
  apply seq_quiet
  · exact healthPhase_quiet late_quiet start
  intro _
  exact commitPhase_quiet late_quiet

theorem main_triple : Triple Idle (main restoreId plan) (fun _ => Late restoreId) (fun _ => Ended restoreId) C := by
  have hidle : ∀ (e : String) s, Idle s → Ended restoreId s := fun _ _ h => .inl (.inl h)
  have hearly : ∀ (e : String) s, Early restoreId s → Ended restoreId s := fun _ _ h => h.ended
  have hlate : ∀ (e : String) s, Late restoreId s → Ended restoreId s := fun _ _ h => h.ended
  apply Triple.bind ((grantPhase_quiet idle_quiet).error hidle)
  intro _
  apply Triple.bind ((accessPhase_quiet idle_quiet).error hidle)
  intro _
  apply Triple.bind ((imagePhase_quiet idle_quiet).error hidle)
  intro _
  apply Triple.bind (stopPhase_triple.error hearly)
  intro _
  apply Triple.bind (touchPhase_quiet early_quiet)
  intro _
  apply Triple.bind ((dataPhase_quiet early_quiet).error hearly)
  intro _
  apply Triple.bind ((recreatePhase_quiet early_quiet).error hearly)
  intro start
  apply Triple.bind (resumePhase_triple.error hlate)
  intro _
  exact (afterResume_triple start).error hlate

def Unwinding (restoreId : String) (pending : List Compensation) (s : Run) : Prop :=
  Settled restoreId s ∨ Held restoreId pending s

theorem unwinding_quiet : Quiet (Unwinding restoreId pending) :=
  settled_quiet.or pending_quiet

theorem Unwinding.rest {x : Compensation} {xs : List Compensation} (hx : x ≠ .resume)
    (h : Unwinding restoreId (x :: xs) s) : Unwinding restoreId xs s := by
  apply h.imp_right
  intro h
  refine ⟨h.trail, h.resumed, ?_⟩
  rcases mem_cons.1 h.pending with heq | hmem
  · exact absurd heq.symm hx
  · exact hmem

theorem Settled.resumed (h : Settled restoreId s) : s.resumed = true := by
  rcases h with (h | h) | h
  · exact h.resumed
  · exact h.resumed
  · exact h.resumed

theorem compensate_resume {xs : List Compensation} :
    Triple (Unwinding restoreId (.resume :: xs)) (compensate restoreId .resume)
      (fun _ => Unwinding restoreId xs) (fun _ => Unwinding restoreId xs) C := by
  refine resumeOnce_triple (Settled restoreId) (fun _ => .resume :: xs) (fun _ h => h.resumed) (fun _ h => .inl h) fun _ => ?_
  exact resume_triple.conseq (fun _ h => h) (fun _ _ h => .inl (.inr h)) (fun _ _ h => .inl (.inr h)) fun _ h => h

theorem compensate_triple (x : Compensation) (xs : List Compensation) :
    Triple (Unwinding restoreId (x :: xs)) (compensate restoreId x)
      (fun _ => Unwinding restoreId xs) (fun _ => Unwinding restoreId xs) C := by
  cases x with
  | revokeAccess grant =>
    have h : Triple (Unwinding restoreId (.revokeAccess grant :: xs)) (compensate restoreId (.revokeAccess grant))
        (fun _ => Unwinding restoreId (.revokeAccess grant :: xs))
        (fun _ => Unwinding restoreId (.revokeAccess grant :: xs)) C :=
      seq_quiet (activity_quiet unwinding_quiet rfl) fun _ => pure_quiet _
    exact h.conseq (fun _ h => h) (fun _ _ h => h.rest (by simp)) (fun _ _ h => h.rest (by simp)) fun _ h => h
  | resume => exact compensate_resume
  | rollback =>
    have h : Triple (Unwinding restoreId (.rollback :: xs)) (compensate restoreId .rollback)
        (fun _ => Unwinding restoreId (.rollback :: xs))
        (fun _ => Unwinding restoreId (.rollback :: xs)) C := by
      apply seq_quiet get_quiet
      intro s
      apply when_quiet
      exact seq_quiet (activity_quiet unwinding_quiet rfl) fun _ => pure_quiet _
    exact h.conseq (fun _ h => h) (fun _ _ h => h.rest (by simp)) (fun _ _ h => h.rest (by simp)) fun _ h => h

theorem Ended.unwinding (h : Ended restoreId s) : Unwinding restoreId s.saga s := by
  rcases h with (h | h) | h
  · exact .inl (.inl (.inl h))
  · exact .inr h
  · exact .inl (.inl (.inr h))

theorem Unwinding.take (h : Unwinding restoreId pending s) : Unwinding restoreId pending {s with saga := []} := by
  rcases h with ((h | h) | h) | h
  · exact .inl (.inl (.inl ⟨h.trail, h.resumed⟩))
  · exact .inl (.inl (.inr ⟨h.trail, h.resumed⟩))
  · exact .inl (.inr ⟨h.trail, h.resumed⟩)
  · exact .inr ⟨h.trail, h.resumed, h.pending⟩

theorem sagaRun_triple : Triple (Ended restoreId) (sagaRun restoreId) (fun _ => Settled restoreId)
    E C := by
  apply Triple.bind (Q := fun s s' => s' = s ∧ Unwinding restoreId s.saga s)
  · exact .get fun s h => ⟨rfl, h.unwinding⟩
  intro s
  apply Triple.bind (Q := fun _ => Unwinding restoreId s.saga)
  · apply Triple.modify
    rintro _ ⟨rfl, h⟩
    exact h.take
  intro _
  refine (Triple.collect_all (I := Unwinding restoreId) compensate_triple s.saga).post ?_
  intro _ s h
  rcases h with h | h
  · exact h
  · cases h.pending

theorem afterPrepare_triple : Triple Idle (afterPrepare restoreId plan)
    (fun _ => Settled restoreId) (fun _ => Settled restoreId) C := by
  apply Triple.bind (Q := fun _ => Ended restoreId)
  · exact main_triple.attempt (fun _ _ h => h.ended) fun _ _ h => h
  intro r
  apply Triple.bind sagaRun_triple
  intro errs
  apply seq_quiet
  · apply when_quiet
    exact modify_quiet settled_quiet (fun _ => rfl) (fun _ => rfl) fun _ => rfl
  intro _
  apply seq_quiet
  · exact record_quiet settled_quiet _
  intro _
  apply when_quiet
  exact .throw fun _ h => h

theorem restoreWorkflow_triple : Triple Idle (restoreWorkflow restoreId plan)
    (fun _ => Settled restoreId) (fun _ => Settled restoreId) C := by
  have hidle : ∀ s, Idle s → Settled restoreId s := fun _ h => .inl (.inl h)
  apply Triple.bind (Q := fun _ => Idle)
  · exact attempt_quiet (activity_quiet idle_quiet rfl)
  intro r
  cases r with
  | error e =>
    apply Triple.bind ((finish_quiet idle_quiet .failed e).post fun _ s h => hidle s h)
    intro _
    exact .throw fun _ h => h
  | ok d => exact afterPrepare_triple

end Run

/-- **An application that a restore may have stopped** is resumed, or its Resume is called in
the disconnected context, exactly if the inline Resume does not fail. -/
theorem released_iff (restoreId : String) (plan : Plan) (o : List Reply) :
    Released [] (finalRun restoreId plan o).calls ↔ InlineResumed (finalRun restoreId plan o).calls := by
  have hnew : Idle Run.new := ⟨rfl, rfl⟩
  have hend : Settled restoreId (finalRun restoreId plan o) := restoreWorkflow_triple.final hnew o
  exact hend.released_inlineResumed

def stopOnly : Plan := ⟨false, [], ["web"], 86400, [], false, "", [], [], 0⟩

/-- The replies of a run whose inline Resume, the seventh call, is cancelled. -/
def cancelledResume : List Reply :=
  List.replicate 6 default ++ [{(default : Reply) with fails := some "canceled"}]

/-- The inline Resume is cancelled, and nobody calls Resume again. -/
theorem cancelled_resume_unreleased : ¬ Released [] (finalRun "rs" stopOnly cancelledResume).calls := by
  decide

end Dbr2.Restore
