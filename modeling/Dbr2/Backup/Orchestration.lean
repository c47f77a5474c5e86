import Dbr2.Backup.Capture
import Dbr2.Backup.Workflow

/-! The order of the calls of a backup run.

Whatever fails, and wherever the run is cancelled: Commit is called only on captures that succeeded,
of an application that was resumed by the workflow and not before; an application that may have been
quiesced is resumed, or its failed Resume ends in an alert; and post hooks undo pre hooks once,
after the last Resume. -/
namespace Dbr2.Backup
open Lib List

variable (plan : Plan)

def after (a : Activity) (calls : List Call) : List Call := calls.takeWhile (·.activity != a)

def tried (a : Activity) (calls : List Call) : Prop := ∃ c ∈ calls, c.activity = a

def DumpDone (rs : List ComponentResult) (calls : List Call) : Prop :=
  if plan.dbComps = [] then rs = []
  else ∃ c ∈ calls, c.activity = .snapshot .dump ∧ c.ok = true ∧ c.reply.results = rs

def ProtectDone (rs : List ComponentResult) (calls : List Call) : Prop :=
  ∃ c ∈ calls, c.activity = .snapshot .protect ∧ c.ok = true ∧ c.reply.results = rs

def ResumeDone (autoResumed : Bool) (calls : List Call) : Prop :=
  plan.consistencyMode ≠ .live → ∃ c ∈ calls, c.activity = .resume ∧ c.ok = true ∧ c.reply.autoResumed = autoResumed

/-- What Commit needs before it: the dumps and the captures succeeded with no required
component failed, and the application was resumed by the workflow. -/
structure Ready (past : List Call) : Prop where
  captured : ∃ db snap, DumpDone plan db past ∧ ProtectDone snap past ∧ failedRequired (db ++ snap) = []
  resumed : ResumeDone plan false past

def CommitsReady : List Call → Prop
  | [] => True
  | c :: past => (c.activity = .commit → Ready plan past) ∧ CommitsReady past

/-- The last Resume is after every Quiesce, and succeeded, or was a compensation whose
failure was followed by the alert. -/
def ResumedOrAlerted (calls : List Call) : Prop :=
  ∃ r, calls.find? (·.activity == .resume) = some r ∧ (∀ c ∈ after .resume calls, c.activity ≠ .quiesce) ∧
    (r.ok = true ∨ (r.context = .disconnected ∧
      ∃ c ∈ after .resume calls, c.activity = .recordEvent ∧ c.context = .disconnected))

def PostedOnce (calls : List Call) : Prop :=
  (calls.filter (·.activity == .postHooks)).length = 1 ∧ ∀ c ∈ after .postHooks calls, c.activity ≠ .resume

structure Orchestrated (calls : List Call) : Prop where
  commits : CommitsReady plan calls
  resumes : tried .quiesce calls → ResumedOrAlerted calls
  posts : tried .preHooks calls → plan.postHooks ≠ [] → PostedOnce calls

variable {a : Activity} {c : Call} {calls : List Call} {xs : List Compensation} {s : Run}

@[simp] theorem after_cons (a : Activity) (c : Call) (calls : List Call) :
    after a (c :: calls) = if c.activity = a then [] else c :: after a calls := by
  unfold after
  by_cases h : c.activity = a <;> simp [h]

@[simp] theorem tried_cons : tried a (c :: calls) ↔ c.activity = a ∨ tried a calls := by simp [tried]

@[simp] theorem not_tried_nil : ¬ tried a [] := by simp [tried]

variable {plan}

theorem DumpDone.cons {rs : List ComponentResult} (h : DumpDone plan rs calls)
    (c : Call) : DumpDone plan rs (c :: calls) := by
  unfold DumpDone at h ⊢
  by_cases hdb : plan.dbComps = []
  · rw [if_pos hdb] at h ⊢
    exact h
  rw [if_neg hdb] at h ⊢
  obtain ⟨d, hd, h⟩ := h
  exact ⟨d, mem_cons_of_mem _ hd, h⟩

theorem ProtectDone.cons {rs : List ComponentResult} (h : ProtectDone rs calls)
    (c : Call) : ProtectDone rs (c :: calls) := by
  obtain ⟨d, hd, h⟩ := h
  exact ⟨d, mem_cons_of_mem _ hd, h⟩

theorem ResumeDone.cons {a : Bool} (h : ResumeDone plan a calls) (c : Call) : ResumeDone plan a (c :: calls) := by
  intro hm
  obtain ⟨d, hd, h⟩ := h hm
  exact ⟨d, mem_cons_of_mem _ hd, h⟩

theorem ResumedOrAlerted.cons (h : ResumedOrAlerted calls)
    (hr : c.activity ≠ .resume) (hq : c.activity ≠ .quiesce) : ResumedOrAlerted (c :: calls) := by
  obtain ⟨r, hf, hno, hok⟩ := h
  refine ⟨r, by simpa [find?_cons, hr] using hf, ?_, ?_⟩
  · rw [after_cons, if_neg hr]
    exact forall_mem_cons.2 ⟨hq, hno⟩
  · rw [after_cons, if_neg hr]
    exact hok.imp_right fun ⟨hd, x, hx, hxa⟩ => ⟨hd, x, mem_cons_of_mem _ hx, hxa⟩

theorem PostedOnce.cons (h : PostedOnce calls)
    (hr : c.activity ≠ .resume) (hp : c.activity ≠ .postHooks) : PostedOnce (c :: calls) := by
  refine ⟨by simpa [hp] using h.1, ?_⟩
  rw [after_cons, if_neg hp]
  exact forall_mem_cons.2 ⟨hr, h.2⟩

theorem PostedOnce.tried (h : PostedOnce calls) : tried .postHooks calls := by
  obtain ⟨c, hc⟩ := exists_mem_of_length_pos (l := calls.filter (·.activity == .postHooks)) (by rw [h.1]; decide)
  exact ⟨c, (mem_filter.1 hc).1, by simpa using (mem_filter.1 hc).2⟩

theorem postedOnce_of_first (h : ¬ tried .postHooks calls) (hc : c.activity = .postHooks) : PostedOnce (c :: calls) := by
  have hnone : calls.filter (fun c => c.activity == .postHooks) = [] := by
    refine filter_eq_nil_iff.2 fun d hd hda => h ⟨d, hd, by simpa using hda⟩
  refine ⟨by simp [hc, hnone], ?_⟩
  simp [hc]

theorem resumedOrAlerted_of_ok {l : List Call} (hc : c.activity = .resume)
    (hok : c.ok = true) : ResumedOrAlerted (c :: l) :=
  ⟨c, by simp [hc], by simp [hc], .inl hok⟩

theorem resumedOrAlerted_of_alert {l : List Call} {d : Call} (hc : c.activity = .resume)
    (hctx : c.context = .disconnected) (hd : d.activity = .recordEvent)
    (hdctx : d.context = .disconnected) : ResumedOrAlerted (d :: c :: l) := by
  refine ⟨c, by simp [hc, hd], ?_, .inr ⟨hctx, d, ?_, hd, hdctx⟩⟩
  · simp [hc, hd]
  · simp [hc, hd]

def Stack (xs : List Compensation) : Prop :=
  xs = [] ∨ xs = [.postHooks] ∨ xs = [.resume] ∨ xs = [.resume, .postHooks]

structure Unwinding (plan : Plan) (xs : List Compensation) (s : Run) : Prop where
  stack : Stack xs
  commits : CommitsReady plan s.calls
  quiesced : tried .quiesce s.calls → .resume ∈ xs ∨ ResumedOrAlerted s.calls
  hooked : tried .preHooks s.calls → .postHooks ∈ xs ∨ plan.postHooks = [] ∨ PostedOnce s.calls
  resumed : s.resumed = true → ResumedOrAlerted s.calls
  posted : s.postHooksDone = true → PostedOnce s.calls ∧ (.resume ∈ xs → s.resumed = true)
  unposted : s.postHooksDone = false → ¬ tried .postHooks s.calls

structure Open (plan : Plan) (xs : List Compensation) (s : Run) : Prop where
  stack : Stack xs
  saga : s.saga = xs
  resumed : s.resumed = false
  autoResumed : s.autoResumed = false
  postHooksDone : s.postHooksDone = false
  commit : ¬ tried .commit s.calls
  posts : ¬ tried .postHooks s.calls
  quiesced : tried .quiesce s.calls → .resume ∈ xs
  hooked : tried .preHooks s.calls → .postHooks ∈ xs

theorem commitsReady_of_not_tried (h : ¬ tried .commit calls) :
    CommitsReady plan calls := by
  induction calls with
  | nil => trivial
  | cons c cs ih =>
    rw [tried_cons, not_or] at h
    exact ⟨fun hc => absurd hc h.1, ih h.2⟩

theorem Open.unwinding (h : Open plan xs s) : Unwinding plan xs s where
  stack := h.stack
  commits := commitsReady_of_not_tried h.commit
  quiesced hq := .inl (h.quiesced hq)
  hooked hp := .inl (h.hooked hp)
  resumed hr := absurd (h.resumed.symm.trans hr) (by simp)
  posted hp := absurd (h.postHooksDone.symm.trans hp) (by simp)
  unposted _ := h.posts

theorem Open.self (h : Open plan xs s) : Open plan s.saga s := by
  rw [h.saga]
  exact h

def Activity.neutral : Activity → Bool
  | .preHooks | .postHooks | .quiesce | .resume | .commit => false
  | _ => true

/-- What a call of such an activity keeps, whatever it does to the recovery point. -/
def Steady (J : Run → Prop) : Prop :=
  ∀ s s' c, J s → c.activity.neutral = true → s'.calls = c :: s.calls → s'.saga = s.saga →
    s'.resumed = s.resumed → s'.autoResumed = s.autoResumed → s'.postHooksDone = s.postHooksDone → J s'

theorem Steady.and {J K : Run → Prop} (hJ : Steady J) (hK : Steady K) :
    Steady fun s => J s ∧ K s := fun s s' c h hn h1 h2 h3 h4 h5 =>
  ⟨hJ s s' c h.1 hn h1 h2 h3 h4 h5, hK s s' c h.2 hn h1 h2 h3 h4 h5⟩

theorem steady_of_cons {K : List Call → Prop} (h : ∀ c cs, K cs → K (c :: cs)) : Steady fun s => K s.calls := by
  intro s s' c hk _ hc _ _ _ _
  rw [hc]
  exact h c s.calls hk

theorem neutral_ne {b : Activity} (ha : a.neutral = true) (hb : b.neutral = false) : a ≠ b := by
  rintro rfl
  rw [ha] at hb
  cases hb

theorem open_steady : Steady (Open plan xs) := by
  intro s s' c h hn hc hsaga hr ha hp
  have hne {a : Activity} (ha : a.neutral = false) : c.activity ≠ a := neutral_ne hn ha
  have htried {a : Activity} (ha : a.neutral = false) : tried a s'.calls ↔ tried a s.calls := by
    rw [hc, tried_cons, or_iff_right (hne ha)]
  exact ⟨h.stack, hsaga.trans h.saga, hr.trans h.resumed, ha.trans h.autoResumed,
    hp.trans h.postHooksDone, fun ht => h.commit ((htried rfl).1 ht),
    fun ht => h.posts ((htried rfl).1 ht), fun ht => h.quiesced ((htried rfl).1 ht),
    fun ht => h.hooked ((htried rfl).1 ht)⟩

theorem unwinding_steady : Steady (Unwinding plan xs) := by
  intro s s' c h hn hc _ hr _ hp
  have hne {a : Activity} (ha : a.neutral = false) : c.activity ≠ a := neutral_ne hn ha
  have htried {a : Activity} (ha : a.neutral = false) : tried a s'.calls ↔ tried a s.calls := by
    rw [hc, tried_cons, or_iff_right (hne ha)]
  have hres (h : ResumedOrAlerted s.calls) : ResumedOrAlerted s'.calls :=
    hc ▸ h.cons (hne rfl) (hne rfl)
  have hpost (h : PostedOnce s.calls) : PostedOnce s'.calls := hc ▸ h.cons (hne rfl) (hne rfl)
  constructor
  · exact h.stack
  · rw [hc]
    exact ⟨fun ha => absurd ha (hne rfl), h.commits⟩
  · exact fun hq => (h.quiesced ((htried rfl).1 hq)).imp_right hres
  · exact fun ht => (h.hooked ((htried rfl).1 ht)).imp_right (Or.imp_right hpost)
  · exact fun hr' => hres (h.resumed (hr ▸ hr'))
  · exact fun hp' => ⟨hpost (h.posted (hp ▸ hp')).1, fun hx => hr.trans ((h.posted (hp ▸ hp')).2 hx)⟩
  · exact fun hp' ht => h.unposted (hp ▸ hp') ((htried rfl).1 ht)

theorem open_self_steady : Steady fun s => Open plan s.saga s := by
  intro s s' c h hn hc hsaga hr ha hp
  rw [hsaga]
  exact open_steady s s' c h hn hc hsaga hr ha hp

theorem unwinding_self_steady : Steady fun s => Unwinding plan s.saga s := by
  intro s s' c h hn hc hsaga hr ha hp
  rw [hsaga]
  exact unwinding_steady s s' c h hn hc hsaga hr ha hp

section Calls
variable {ctx : Context} {C : Run → Prop}

variable {a : Activity} {J : Run → Prop} {E : String → Run → Prop}

theorem execute_triple {effect : Run → Run} {P : Run → Prop} {Q : Reply → Run → Prop}
    (hok : ∀ s d, P s → d.fails = none → Q d (effect {s with calls := ⟨a, ctx, d⟩ :: s.calls}))
    (herr : ∀ s d e, P s → d.fails = some e → d.performed = true →
      E e (effect {s with calls := ⟨a, ctx, d⟩ :: s.calls}))
    (hno : ∀ s d e, P s → d.fails = some e → d.performed = false →
      E e {s with calls := ⟨a, ctx, d⟩ :: s.calls}) : Triple P (execute a ctx effect) Q E C := by
  refine .prim fun d s hs => ?_
  cases hf : d.fails with
  | none =>
    simp only [Call.took, Call.ok, hf, Option.isNone_none, Bool.true_or, if_true]
    exact hok s d hs hf
  | some e =>
    cases hp : d.performed with
    | true =>
      simp only [Call.took, Call.ok, hf, hp, Option.isNone_some, Bool.false_or, if_true]
      exact herr s d e hs hf hp
    | false =>
      simp only [Call.took, Call.ok, hf, hp, Option.isNone_some, Bool.false_or, Bool.false_eq_true, if_false]
      exact hno s d e hs hf hp

theorem activity_triple {P : Run → Prop} {Q : Reply → Run → Prop}
    (hok : ∀ s d, P s → d.fails = none → Q d {s with calls := ⟨a, ctx, d⟩ :: s.calls})
    (herr : ∀ s d e, P s → d.fails = some e → E e {s with calls := ⟨a, ctx, d⟩ :: s.calls}) :
    Triple P (activity a ctx) Q E C :=
  execute_triple hok (fun s d e hs hf _ => herr s d e hs hf) fun s d e hs hf _ => herr s d e hs hf

theorem activity_steady (ha : a.neutral = true) (hJ : Steady J) :
    Triple J (activity a ctx) (fun r s => J s ∧ ⟨a, ctx, r⟩ ∈ s.calls ∧ r.fails = none) (fun _ => J) C :=
  activity_triple (fun s d hs hf => ⟨hJ s _ ⟨a, ctx, d⟩ hs ha rfl rfl rfl rfl rfl, mem_cons_self, hf⟩)
    fun s d _ hs _ => hJ s _ ⟨a, ctx, d⟩ hs ha rfl rfl rfl rfl rfl

theorem attempt_steady (ha : a.neutral = true) (hJ : Steady J) : Triple J (Act.attempt (activity a ctx)) (fun _ => J) E C :=
  (activity_steady ha hJ).attempt (fun _ _ h => h.1) fun _ _ h => h

theorem execute_steady (ha : a.neutral = true) (hJ : Steady J)
    {effect : Run → Run} (hc : ∀ s, (effect s).calls = s.calls) (hsg : ∀ s, (effect s).saga = s.saga)
    (hr : ∀ s, (effect s).resumed = s.resumed) (hau : ∀ s, (effect s).autoResumed = s.autoResumed)
    (hp : ∀ s, (effect s).postHooksDone = s.postHooksDone) :
    Triple J (execute a ctx effect) (fun _ => J) (fun _ => J) C :=
  execute_triple (fun s d hs _ => hJ s _ ⟨a, ctx, d⟩ hs ha (hc _) (hsg _) (hr _) (hau _) (hp _))
    (fun s d _ hs _ _ => hJ s _ ⟨a, ctx, d⟩ hs ha (hc _) (hsg _) (hr _) (hau _) (hp _))
    fun s d _ hs _ _ => hJ s _ ⟨a, ctx, d⟩ hs ha rfl rfl rfl rfl rfl

end Calls

section Saga
variable {xs : List Compensation} {ctx : Context} {C : Run → Prop}

theorem Unwinding.post {s : Run} (h : Unwinding plan xs s) (hp : s.postHooksDone = false)
    (hr : .resume ∈ xs → s.resumed = true) (d : Reply) :
    Unwinding plan xs {s with postHooksDone := true, calls := ⟨.postHooks, ctx, d⟩ :: s.calls} where
  stack := h.stack
  commits := ⟨fun hc => (by cases hc), h.commits⟩
  quiesced hq := (h.quiesced (by simpa using hq)).imp_right (·.cons (by simp) (by simp))
  hooked _ := .inr (.inr (postedOnce_of_first (h.unposted hp) rfl))
  resumed hr' := (h.resumed hr').cons (by simp) (by simp)
  posted _ := ⟨postedOnce_of_first (h.unposted hp) rfl, hr⟩
  unposted hn := (by cases hn)

theorem runPost_unwinding (plan : Plan) (xs : List Compensation) (ctx : Context) {F : Run → Prop}
    (hF : ∀ s c, F s → F {s with postHooksDone := true, calls := c :: s.calls}) :
    Triple (fun s => Unwinding plan xs s ∧ (.resume ∈ xs → s.resumed = true) ∧ F s) (runPost plan ctx)
      (fun _ s => Unwinding plan xs s ∧ (plan.postHooks = [] ∨ PostedOnce s.calls) ∧ F s)
      (fun _ s => Unwinding plan xs s ∧ (plan.postHooks = [] ∨ PostedOnce s.calls) ∧ F s) C := by
  refine .of_forall fun s ⟨h, hr, hf⟩ => ?_
  unfold runPost
  refine (Triple.get (R := fun a b => a = s ∧ b = s) fun _ hs => ⟨hs, hs⟩).bind fun a => ?_
  refine .when (fun hc => ?_) fun hc t ht => ?_
  · refine (Triple.modify (R := fun _ t => t = {s with postHooksDone := true} ∧ a = s)
      fun t ht => ⟨by rw [ht.2], ht.1⟩).bind fun _ => ?_
    have hend (d : Reply) (t : Run) (ht : t = {s with postHooksDone := true} ∧ a = s) :
        Unwinding plan xs {t with calls := ⟨.postHooks, ctx, d⟩ :: t.calls} ∧
          (plan.postHooks = [] ∨ PostedOnce (⟨.postHooks, ctx, d⟩ :: t.calls)) ∧
          F {t with calls := ⟨.postHooks, ctx, d⟩ :: t.calls} := by
      obtain ⟨rfl, rfl⟩ := ht
      have hp : Unwinding plan xs {a with postHooksDone := true, calls := ⟨.postHooks, ctx, d⟩ :: a.calls} :=
        h.post hc.1 hr d
      exact ⟨hp, .inr (hp.posted rfl).1, hF a ⟨.postHooks, ctx, d⟩ hf⟩
    exact (activity_triple (fun t d ht _ => hend d t ht) fun t d _ ht _ => hend d t ht).bind
      fun _ => .pure fun _ hs => hs
  · obtain ⟨rfl, rfl⟩ := ht
    refine ⟨h, ?_, hf⟩
    by_cases hp : t.postHooksDone = true
    · exact .inr (h.posted hp).1
    · exact .inl (by_contra fun hne => hc ⟨by simpa using hp, hne⟩)

theorem Unwinding.rest (h : Unwinding plan (.resume :: xs) s) : Stack xs ∧ .resume ∉ xs := by
  rcases h.stack with he | he | he | he <;> simp_all [Stack]

theorem Unwinding.resume {s' : Run} (h : Unwinding plan (.resume :: xs) s)
    (hun : s.postHooksDone = false) (hun' : s'.postHooksDone = s.postHooksDone)
    (hcommits : CommitsReady plan s'.calls)
    (hpre : tried .preHooks s'.calls → tried .preHooks s.calls)
    (hpost : tried .postHooks s'.calls → tried .postHooks s.calls)
    (hdone : ResumedOrAlerted s'.calls) : Unwinding plan xs s' where
  stack := h.rest.1
  commits := hcommits
  quiesced _ := .inr hdone
  hooked ht := (h.hooked (hpre ht)).imp (fun hm => by simpa using hm)
    (Or.imp_right fun hp => absurd hp.tried (h.unposted hun))
  resumed _ := hdone
  posted hp := absurd ((hun'.trans hun).symm.trans hp) (by simp)
  unposted _ ht := h.unposted hun (hpost ht)

theorem doResume_unwinding :
    Triple (Unwinding plan (.resume :: xs)) (doResume .disconnected) (fun _ => Unwinding plan xs)
      (fun _ => Unwinding plan xs) C := by
  refine .of_forall fun s h => ?_
  refine (Triple.get (R := fun a t => a = s ∧ t = s) fun _ hs => ⟨hs, hs⟩).bind fun a => ?_
  refine .of_forall fun t ht => ?_
  obtain ⟨rfl, rfl⟩ := ht
  refine .when (fun hr => ?_) fun hr t ht => ?_
  · have hun : t.postHooksDone = false := by
      cases hp : t.postHooksDone with
      | false => rfl
      | true => rw [(h.posted hp).2 (by simp)] at hr; cases hr
    refine ((activity_triple
      (Q := fun d u => u = {t with calls := ⟨.resume, .disconnected, d⟩ :: t.calls} ∧ d.fails = none)
      (E := fun _ u => ∃ d : Reply, u = {t with calls := ⟨.resume, .disconnected, d⟩ :: t.calls})
      (fun u d hu hf => ⟨by rw [hu], hf⟩) (fun u d e hu hf => ⟨d, by rw [hu]⟩)).attempted).bind
      fun r => ?_
    cases r with
    | error e =>
      have hend (d : Reply) (u : Run)
          (hu : ∃ d : Reply, u = {t with calls := ⟨.resume, .disconnected, d⟩ :: t.calls}) :
          Unwinding plan xs {u with calls := ⟨.recordEvent, .disconnected, d⟩ :: u.calls} := by
        obtain ⟨d', rfl⟩ := hu
        exact h.resume hun rfl ⟨fun hc => (by cases hc), fun hc => (by cases hc), h.commits⟩
          (fun ht => by simpa using ht) (fun ht => by simpa using ht)
          (resumedOrAlerted_of_alert rfl rfl rfl rfl)
      exact ((activity_triple (Q := fun _ => Unwinding plan xs) (E := fun _ => Unwinding plan xs)
        (fun u d hu _ => hend d u hu) fun u d _ hu _ => hend d u hu).attempt
        (R := fun _ => Unwinding plan xs) (fun _ _ h => h) (fun _ _ h => h)).bind
        fun _ => .throw fun _ hs => hs
    | ok d =>
      refine .modify fun u hu => ?_
      obtain ⟨rfl, hf⟩ := hu
      exact h.resume hun rfl ⟨fun hc => (by cases hc), h.commits⟩ (fun ht => by simpa using ht)
        (fun ht => by simpa using ht) (resumedOrAlerted_of_ok rfl (by simp [Call.ok, hf]))
  · -- the workflow itself has resumed the application
    subst ht
    have hr : t.resumed = true := by simpa using hr
    exact ⟨h.rest.1, h.commits, fun _ => .inr (h.resumed hr),
      fun ht => (h.hooked ht).imp_left fun hm => by simpa using hm, h.resumed,
      fun hp => ⟨(h.posted hp).1, fun hm => absurd hm h.rest.2⟩, h.unposted⟩

theorem compensate_unwinding (x : Compensation) :
    Triple (Unwinding plan (x :: xs)) (compensate plan x) (fun _ => Unwinding plan xs)
      (fun _ => Unwinding plan xs) C := by
  cases x with
  | resume => exact doResume_unwinding
  | postHooks =>
    have hnil (s : Run) (h : Unwinding plan (.postHooks :: xs) s) : xs = [] := by
      rcases h.stack with he | he | he | he <;> simp_all
    -- the stack is empty afterwards, and the hooks are undone
    have hend (s : Run) (h : Unwinding plan (.postHooks :: xs) s ∧
        (plan.postHooks = [] ∨ PostedOnce s.calls) ∧ True) : Unwinding plan xs s := by
      obtain ⟨h, hp, -⟩ := h
      obtain rfl := hnil s h
      exact ⟨.inl rfl, h.commits, fun hq => (h.quiesced hq).imp_left (by simp), fun _ => .inr hp,
        h.resumed, fun hd => ⟨(h.posted hd).1, by simp⟩, h.unposted⟩
    refine (runPost_unwinding plan (.postHooks :: xs) .disconnected (F := fun _ => True) fun _ _ h => h).conseq
      (fun s h => ⟨h, ?_, trivial⟩) (fun _ => hend) (fun _ => hend) (fun _ h => h)
    obtain rfl := hnil s h
    simp

theorem sagaRun_unwinding {E : String → Run → Prop} :
    Triple (fun s => Unwinding plan s.saga s) (sagaRun plan) (fun _ => Unwinding plan []) E C := by
  refine .of_forall fun s h => ?_
  refine (Triple.get (R := fun a b => a = s ∧ b = s) fun _ hs => ⟨hs, hs⟩).bind fun a => ?_
  refine (Triple.modify (R := fun _ t => Unwinding plan a.saga t) fun t ht => ?_).bind fun _ => ?_
  · obtain ⟨rfl, rfl⟩ := ht
    exact ⟨h.stack, h.commits, h.quiesced, h.hooked, h.resumed, h.posted, h.unposted⟩
  · exact .collect_all (I := fun xs => Unwinding plan xs) (fun x xs => compensate_unwinding x) a.saga

end Saga

theorem Open.cons (h : Open plan xs s) (hc : c.activity ≠ .commit) (hp : c.activity ≠ .postHooks)
    (hq : c.activity = .quiesce → .resume ∈ xs) (hh : c.activity = .preHooks → .postHooks ∈ xs) :
    Open plan xs {s with calls := c :: s.calls} where
  stack := h.stack
  saga := h.saga
  resumed := h.resumed
  autoResumed := h.autoResumed
  postHooksDone := h.postHooksDone
  commit ht := (tried_cons.1 ht).elim hc h.commit
  posts ht := (tried_cons.1 ht).elim hp h.posts
  quiesced ht := (tried_cons.1 ht).elim hq h.quiesced
  hooked ht := (tried_cons.1 ht).elim hh h.hooked

theorem Open.push (h : Open plan xs s) {x : Compensation}
    (hx : Stack (x :: xs)) : Open plan (x :: xs) {s with saga := x :: s.saga} where
  stack := hx
  saga := congrArg (x :: ·) h.saga
  resumed := h.resumed
  autoResumed := h.autoResumed
  postHooksDone := h.postHooksDone
  commit := h.commit
  posts := h.posts
  quiesced ht := mem_cons_of_mem _ (h.quiesced ht)
  hooked ht := mem_cons_of_mem _ (h.hooked ht)

theorem Unwinding.commit {s' : Run} (h : Unwinding plan xs s)
    (hready : Ready plan s.calls) (hc : c.activity = .commit) (hcalls : s'.calls = c :: s.calls)
    (hr : s'.resumed = s.resumed) (hp : s'.postHooksDone = s.postHooksDone) : Unwinding plan xs s' where
  stack := h.stack
  commits := by rw [hcalls]; exact ⟨fun _ => hready, h.commits⟩
  quiesced hq := by
    rw [hcalls] at hq ⊢
    exact (h.quiesced (by simpa [hc] using hq)).imp_right (·.cons (by simp [hc]) (by simp [hc]))
  hooked hh := by
    rw [hcalls] at hh ⊢
    exact (h.hooked (by simpa [hc] using hh)).imp_right (Or.imp_right (·.cons (by simp [hc]) (by simp [hc])))
  resumed hr' := by
    rw [hcalls]
    exact (h.resumed (hr.symm.trans hr')).cons (by simp [hc]) (by simp [hc])
  posted hp' := by
    rw [hcalls]
    have := h.posted (hp.symm.trans hp')
    exact ⟨this.1.cons (by simp [hc]) (by simp [hc]), fun hx => hr.trans (this.2 hx)⟩
  unposted hn := by
    rw [hcalls]
    simpa [hc] using h.unposted (hp.symm.trans hn)

section Main
variable {C : Run → Prop} {E : String → Run → Prop}

variable {startedAt now : Nat} {J : Run → Prop} {workflowId runId : String}

theorem seedPass_steady (hJ : Steady J) : Triple J (seedPass plan) (fun _ => J) E C :=
  Triple.when (fun _ => (attempt_steady rfl hJ).bind fun _ => .pure fun _ h => h) fun _ _ h => h

theorem checkRequired_triple (what : String) (rs : List ComponentResult) :
    Triple J (checkRequired what rs) (fun _ s => J s ∧ failedRequired rs = []) (fun _ => J) C :=
  Triple.when (fun _ => .throw fun _ h => h) fun hn _ h => ⟨h, by simpa using hn⟩

theorem dumpPhase_steady (hJ : Steady J) :
    Triple J (dumpPhase plan) (fun rs s => J s ∧ DumpDone plan rs s.calls) (fun _ => J) C := by
  unfold dumpPhase
  by_cases hdb : plan.dbComps = []
  · rw [if_pos hdb]
    exact .pure fun s h => ⟨h, by rw [DumpDone, if_pos hdb]⟩
  rw [if_neg hdb]
  refine ((activity_steady rfl hJ).mapError fun _ _ h => h).bind fun r => ?_
  refine ((checkRequired_triple (J := fun s => J s ∧ DumpDone plan r.results s.calls) _ _).conseq
    (fun s h => ⟨h.1, ?_⟩) (fun _ _ h => h) (fun _ _ h => h.1) fun _ h => h).bind
    fun _ => .pure fun _ h => h.1
  rw [DumpDone, if_neg hdb]
  exact ⟨_, h.2.1, rfl, by simp [Call.ok, h.2.2], rfl⟩

section Phases
variable {K : List Call → Prop} (hK : ∀ c cs, K cs → K (c :: cs))
include hK

theorem preHookPhase_open : Triple (fun s => Open plan [] s ∧ K s.calls) (preHookPhase plan)
      (fun _ s => Open plan s.saga s ∧ .resume ∉ s.saga ∧ K s.calls)
      (fun _ s => Unwinding plan s.saga s) C := by
  refine .when (fun _ => ?_) fun _ s h => ?_
  · unfold sagaAlways
    refine (Triple.modify (R := fun _ s => Open plan [.postHooks] s ∧ K s.calls)
      fun s h => ⟨h.1.push (.inr (.inl rfl)), h.2⟩).bind fun _ => ?_
    have hend (s : Run) (d : Reply) (h : Open plan [.postHooks] s) :
        Open plan [.postHooks] {s with calls := ⟨.preHooks, .workflow, d⟩ :: s.calls} :=
      h.cons (by simp) (by simp) (by simp) (by simp)
    refine ((activity_triple (Q := fun _ s => Open plan s.saga s ∧ .resume ∉ s.saga ∧ K s.calls)
      (E := fun _ s => Unwinding plan s.saga s) (fun s d h _ => ?_) fun s d e h _ => ?_).mapError
      fun _ _ h => h).bind fun _ => .pure fun _ h => h
    · exact ⟨(hend s d h.1).self, by simp [h.1.saga], hK _ _ h.2⟩
    · exact (hend s d h.1).self.unwinding
  · exact ⟨h.1.self, by simp [h.1.saga], h.2⟩

theorem quiescePhase_open : Triple (fun s => Open plan [] s ∧ K s.calls) (quiescePhase plan)
      (fun _ s => Open plan s.saga s ∧ K s.calls) (fun _ s => Unwinding plan s.saga s) C := by
  refine .when (fun _ => (preHookPhase_open hK).bind fun _ => ?_) fun _ s h => ?_
  · have hstack (xs : List Compensation) (hs : Stack xs) (hx : .resume ∉ xs) : Stack (.resume :: xs) := by
      rcases hs with rfl | rfl | rfl | rfl
      · exact .inr (.inr (.inl rfl))
      · exact .inr (.inr (.inr rfl))
      · simp at hx
      · simp at hx
    refine (Triple.modify (R := fun _ s => (Open plan s.saga s ∧ .resume ∈ s.saga) ∧ K s.calls)
      fun s h => ⟨⟨h.1.push (hstack _ h.1.stack h.2.1), by simp⟩, h.2.2⟩).bind fun _ => ?_
    have hend (s : Run) (d : Reply) (h : Open plan s.saga s ∧ .resume ∈ s.saga) :
        Open plan s.saga {s with calls := ⟨.quiesce, .workflow, d⟩ :: s.calls} :=
      h.1.cons (by simp) (by simp) (fun _ => h.2) (by simp)
    refine (Triple.mapError (activity_triple (Q := fun _ s => Open plan s.saga s ∧ K s.calls)
      (E := fun _ s => Unwinding plan s.saga s) (fun s d h _ => ⟨hend s d h.1, hK _ _ h.2⟩)
      fun s d e h _ => (hend s d h.1).unwinding) fun _ _ h => h).bind fun r => ?_
    exact .modify fun s h => ⟨⟨h.1.stack, rfl, h.1.resumed, h.1.autoResumed, h.1.postHooksDone,
      h.1.commit, h.1.posts, h.1.quiesced, h.1.hooked⟩, h.2⟩
  · exact ⟨h.1.self, h.2⟩

theorem doResume_open : Triple (fun s => Open plan s.saga s ∧ K s.calls) (doResume .workflow)
      (fun _ s => (Unwinding plan s.saga s ∧ s.resumed = true) ∧ K s.calls ∧
        ResumeDone plan s.autoResumed s.calls) (fun _ s => Unwinding plan s.saga s) C := by
  refine .of_forall fun s ⟨h, hk⟩ => ?_
  refine (Triple.get (R := fun a t => a = s ∧ t = s) fun _ hs => ⟨hs, hs⟩).bind fun a => ?_
  refine .when (fun hr => Triple.pre (A := fun t => t = s) ?_ fun _ ht => ht.2) fun hr t ht =>
    absurd (ht.1 ▸ h.resumed) hr
  · refine ((activity_triple
      (Q := fun d t => t = {s with calls := ⟨.resume, .workflow, d⟩ :: s.calls} ∧ d.fails = none)
      (E := fun _ t => Open plan t.saga t)
      (fun t d ht hf => by rw [ht]; exact ⟨rfl, hf⟩)
      (fun t d e ht hf => by
        rw [ht]; exact h.cons (by simp) (by simp) (by simp) (by simp))).attempted).bind fun r => ?_
    cases r with
    | error e =>
      exact (attempt_steady rfl open_self_steady).bind fun _ => .throw fun _ h => h.unwinding
    | ok d =>
      refine .modify fun t ht => ?_
      obtain ⟨rfl, hf⟩ := ht
      have hok := resumedOrAlerted_of_ok (l := s.calls) (c := ⟨.resume, .workflow, d⟩) rfl (by simp [Call.ok, hf])
      refine ⟨⟨⟨h.stack, ⟨fun hc => (by cases hc), commitsReady_of_not_tried h.commit⟩, fun _ => .inr hok,
        fun ht => .inl (h.hooked (by simpa using ht)), fun _ => hok,
        fun hp => absurd (h.postHooksDone.symm.trans hp) (by simp),
        fun _ ht => h.posts (by simpa using ht)⟩, rfl⟩, hK _ _ hk, fun _ => ?_⟩
      exact ⟨_, mem_cons_self, rfl, by simp [Call.ok, hf], rfl⟩

theorem resumePhase_open : Triple (fun s => Open plan s.saga s ∧ K s.calls) (resumePhase plan)
      (fun _ s => Unwinding plan s.saga s ∧ K s.calls ∧ ResumeDone plan s.autoResumed s.calls)
      (fun _ s => Unwinding plan s.saga s) C := by
  refine .when (fun _ => ?_) fun hm s h => ⟨h.1.unwinding, h.2, fun hn => absurd hn hm⟩
  refine ((doResume_open hK).mapError fun _ _ h => h).bind fun _ => ?_
  refine .bind (Q := fun _ s =>
    Unwinding plan s.saga s ∧ K s.calls ∧ ResumeDone plan s.autoResumed s.calls)
    (.of_forall fun s ⟨⟨h, hr⟩, hk, hd⟩ => ?_) fun _ => .pure fun _ h => h
  have hpost := runPost_unwinding plan s.saga .workflow (C := C)
    (F := fun t => t.saga = s.saga ∧ K t.calls ∧ ResumeDone plan t.autoResumed t.calls)
    fun t c hf => ⟨hf.1, hK _ _ hf.2.1, hf.2.2.cons c⟩
  exact (hpost.attempt (fun _ t ht => ⟨ht.2.2.1 ▸ ht.1, ht.2.2.2⟩)
    fun _ t ht => ⟨ht.2.2.1 ▸ ht.1, ht.2.2.2⟩).pre fun t ht => by
      rw [ht]
      exact ⟨h, fun _ => hr, rfl, hk, hd⟩

theorem protectPhase_open : Triple (fun s => Open plan s.saga s ∧ K s.calls) (protectPhase plan)
      (fun rs s => Unwinding plan s.saga s ∧ (K s.calls ∧ ProtectDone rs s.calls) ∧
        ResumeDone plan s.autoResumed s.calls)
      (fun _ s => Unwinding plan s.saga s) C := by
  refine ((activity_steady rfl (open_self_steady.and (steady_of_cons hK))).post
    (Q := fun d s => Open plan s.saga s ∧ K s.calls ∧ ProtectDone d.results s.calls)
    fun d s h => ⟨h.1.1, h.1.2, _, h.2.1, rfl, by simp [Call.ok, h.2.2], rfl⟩).attempted.bind
    fun r => ?_
  cases r with
  | error e =>
    exact ((resumePhase_open hK).mapError fun _ _ h => h).bind fun _ => .throw fun _ h => h.1
  | ok d =>
    exact ((resumePhase_open (K := fun cs => K cs ∧ ProtectDone d.results cs)
      fun c cs h => ⟨hK c cs h.1, h.2.cons c⟩).mapError fun _ _ h => h).bind
      fun _ => .pure fun _ h => h

end Phases

theorem checkAutoResumed_unwinding {K : List Call → Prop} :
    Triple (fun s => Unwinding plan s.saga s ∧ K s.calls ∧ ResumeDone plan s.autoResumed s.calls) checkAutoResumed
      (fun _ s => Unwinding plan s.saga s ∧ K s.calls ∧ ResumeDone plan false s.calls)
      (fun _ s => Unwinding plan s.saga s) C := by
  refine (Triple.get (R := fun a s => a = s ∧ Unwinding plan s.saga s ∧ K s.calls ∧
    ResumeDone plan s.autoResumed s.calls) fun _ h => ⟨rfl, h⟩).bind fun a => ?_
  refine .when (fun _ => .throw fun _ h => h.2.1) fun hn s ⟨ha, hu, hk, hd⟩ => ?_
  rw [← ha, show a.autoResumed = false by simpa using hn, ha] at hd
  exact ⟨hu, hk, hd⟩

theorem commitPhase_unwinding {results : List ComponentResult} :
    Triple (fun s => Unwinding plan s.saga s ∧ Ready plan s.calls)
      (commitPhase plan workflowId runId startedAt now results)
      (fun _ s => Unwinding plan s.saga s) (fun _ s => Unwinding plan s.saga s) C := by
  refine (Triple.get (R := fun _ s => Unwinding plan s.saga s ∧ Ready plan s.calls) fun _ h => h).bind fun a => ?_
  cases buildManifest ⟨plan, results, workflowId, runId, startedAt, a.quiescedAt⟩ now with
  | error e =>
    refine .mapError (F := fun _ s => Unwinding plan s.saga s) (.prim fun d s h => ?_) fun _ _ h => h
    exact h.1.commit (c := ⟨.commit, .workflow, _⟩) h.2 rfl rfl rfl rfl
  | ok m =>
    refine (Triple.mapError (execute_triple (Q := fun _ s => Unwinding plan s.saga s)
      (E := fun _ s => Unwinding plan s.saga s) ?_ ?_ ?_) fun _ _ h => h).bind
      fun _ => .pure fun _ h => h
    · exact fun s d h _ => h.1.commit (c := ⟨.commit, .workflow, d⟩) h.2 rfl rfl rfl rfl
    · exact fun s d _ h _ _ => h.1.commit (c := ⟨.commit, .workflow, d⟩) h.2 rfl rfl rfl rfl
    · exact fun s d _ h _ _ => h.1.commit (c := ⟨.commit, .workflow, d⟩) h.2 rfl rfl rfl rfl

theorem record_keeps {a : Activity} {ctx : Context} {f : Run → Run}
    (h : Triple J (execute a ctx f) (fun _ => J) (fun _ => J) C) :
    Triple J (do let _ ← Act.attempt (execute a ctx f)) (fun _ => J) E C :=
  (h.attempt (R := fun _ => J) (fun _ _ h => h) fun _ _ h => h).bind fun _ => .pure fun _ h => h

theorem recordCommitted_steady (hJ : Steady J) : Triple J recordCommitted (fun _ => J) E C := by
  refine record_keeps (execute_steady rfl hJ ?_ ?_ ?_ ?_ ?_)
  all_goals exact fun _ => rfl

theorem recordFailed_steady (hJ : Steady J) : Triple J recordFailed (fun _ => J) E C := by
  refine record_keeps (execute_steady rfl hJ ?_ ?_ ?_ ?_ ?_)
  all_goals exact fun _ => rfl

theorem main_unwinding : Triple (Open plan []) (main plan workflowId runId startedAt now)
      (fun _ s => Unwinding plan s.saga s) (fun _ s => Unwinding plan s.saga s) C := by
  have hopen (s : Run) (h : Open plan [] s) : Unwinding plan s.saga s := h.self.unwinding
  refine .bind (Q := fun _ => Open plan []) (.when (fun _ =>
    ((activity_steady rfl open_steady).conseq (fun _ h => h) (fun _ _ h => h.1)
      (fun _ s => hopen s) fun _ h => h).bind fun _ => .pure fun _ h => h)
    fun _ _ h => h) fun _ => ?_
  refine ((activity_steady rfl open_steady).conseq (fun _ h => h) (fun _ _ h => h.1)
    (fun _ s => hopen s) fun _ h => h).bind fun _ => ?_
  refine (seedPass_steady open_steady).bind fun _ => ?_
  refine ((dumpPhase_steady open_steady).conseq (fun _ h => h) (fun _ _ h => h)
    (fun _ s => hopen s) fun _ h => h).bind fun db => ?_
  refine (quiescePhase_open (K := DumpDone plan db) fun c _ h => h.cons c).bind fun _ => ?_
  refine (protectPhase_open (K := DumpDone plan db) fun c _ h => h.cons c).bind fun snap => ?_
  refine (checkAutoResumed_unwinding (K := fun cs => DumpDone plan db cs ∧ ProtectDone snap cs)).bind fun _ => ?_
  refine ((checkRequired_triple _ _).conseq (fun _ h => h) (fun _ _ h => h)
    (fun _ _ h => h.1) fun _ h => h).bind fun _ => ?_
  refine (commitPhase_unwinding.pre fun s h =>
    ⟨h.1.1, ⟨db, snap, h.1.2.1.1, h.1.2.1.2, h.2⟩, h.1.2.2⟩).bind fun _ => ?_
  exact recordCommitted_steady unwinding_self_steady

theorem afterPrepare_unwinding : Triple (Open plan []) (afterPrepare plan workflowId runId startedAt now)
      (fun _ => Unwinding plan []) (fun _ => Unwinding plan []) C := by
  refine (main_unwinding.attempt (R := fun _ s => Unwinding plan s.saga s)
    (fun _ _ h => h) fun _ _ h => h).bind fun r => ?_
  refine sagaRun_unwinding.bind fun p => ?_
  cases r with
  | ok _ => exact .when (fun _ => .throw fun _ h => h) fun _ _ h => h
  | error e =>
    exact (recordFailed_steady unwinding_steady).bind fun _ => .throw fun _ h => h

end Main

theorem finalRun_unwinding (plan : Plan) (workflowId runId : String) (startedAt now : Nat)
    (o : List Reply) : Unwinding plan [] (finalRun plan workflowId runId startedAt now o) := by
  have hnew : Open plan [] .new :=
    ⟨.inl rfl, rfl, rfl, rfl, rfl, not_tried_nil, not_tried_nil, fun h => absurd h not_tried_nil,
      fun h => absurd h not_tried_nil⟩
  have hrun : Triple (Open plan []) (backupWorkflow plan workflowId runId startedAt now)
      (fun _ => Unwinding plan []) (fun _ => Unwinding plan []) (Unwinding plan []) :=
    ((activity_steady rfl open_steady).conseq (fun _ h => h) (fun _ _ h => h.1)
      (fun _ _ h => h.unwinding) fun _ h => h).bind fun _ => afterPrepare_unwinding
  exact hrun.final hnew o

/-- **The order of every run**: whatever its activities do, its calls are orchestrated. -/
theorem finalRun_orchestrated (plan : Plan) (workflowId runId : String) (startedAt now : Nat)
    (o : List Reply) : Orchestrated plan (finalRun plan workflowId runId startedAt now o).calls := by
  have h := finalRun_unwinding plan workflowId runId startedAt now o
  refine ⟨h.commits, fun hq => ?_, fun hp hne => ?_⟩
  · exact (h.quiesced hq).resolve_left (by simp)
  · exact ((h.hooked hp).resolve_left (by simp)).resolve_left hne

def Plan.paused : Plan :=
  {Plan.small with
    consistencyMode := .quiesced, seedComponents := ["volume:v"], preHooks := ["flush"]}

def Reply.lost : Reply := {(default : Reply) with fails := some "agent is not connected"}

def pausedCalls (o : List Reply) : List Call := (finalRun .paused "wf" "run" 1 2 o).calls

def seedLost : List Reply :=
  [default, default, .lost, default, default, {(default : Reply) with results := smallResults default}]

def quiesceLost : List Reply := [default, default, default, default, .lost, .lost, .lost]

/-- The seed pass fails and the run commits; without post hooks none are called; and the alert
can fail like the Resume before it. -/
theorem orchestration_exceptions : ((∃ c ∈ pausedCalls seedLost, c.activity = .snapshot .seed ∧ c.ok = false) ∧
      (∃ c ∈ pausedCalls seedLost, c.activity = .commit ∧ c.ok = true) ∧
      (∃ c ∈ pausedCalls seedLost, c.activity = .preHooks) ∧
      ∀ c ∈ pausedCalls seedLost, c.activity ≠ .postHooks) ∧
    (∃ c ∈ pausedCalls quiesceLost, c.activity = .quiesce) ∧
      (∃ c ∈ pausedCalls quiesceLost, c.activity = .recordEvent) ∧
      (∀ c ∈ pausedCalls quiesceLost, c.activity = .resume → c.ok = false) ∧
      ∀ c ∈ pausedCalls quiesceLost, c.activity = .recordEvent → c.ok = false := by
  decide

end Dbr2.Backup
