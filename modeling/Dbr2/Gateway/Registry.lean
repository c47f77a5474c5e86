import Dbr2.Lib.Broadcast

/-! The sessions of one agent (`register`, `unregister` and `waitSession` in
`internal/gateway/gateway.go`).

What stands under the lock is one event. A register then sends the session it has replaced a message,
and waits while that one's queue is full and it is not closed (`rejecting`), before it closes it; an unregister
only closes its session (`closing`). The channel is that of all agents, so a change to another agent's session
(`other`) replaces it too. -/
namespace Dbr2.Gateway.Registry
open Lib List

structure Sessions where
  session : Option Nat
  changed : Broadcast
  (waiters results : Nat → Option Nat)
  (rejecting closing closed : List Nat)
  full : Nat → Bool

/-- Each round of a waitSession is an event, and so is the end of its context. -/
inductive Event
  | register (s : Nat)
  | unregister (s : Nat)
  | other
  | queue (s : Nat) (full : Bool)
  | enqueue (s : Nat)
  | close (s : Nat)
  | waitSession (k : Nat)
  | cancel (k : Nat)
  deriving DecidableEq

def empty : Sessions := ⟨none, .init, fun _ => none, fun _ => none, [], [], [], fun _ => false⟩

def look (w : Sessions) (k : Nat) : Sessions :=
  match w.session with
  | some s => {w with waiters := Function.update w.waiters k none, results := Function.update w.results k (some s)}
  | none => {w with waiters := Function.update w.waiters k (some w.changed.current)}

def step (w : Sessions) : Event → Sessions
  | .register s =>
    {w with session := some s, changed := w.changed.notify, rejecting := w.session.toList ++ w.rejecting}
  | .unregister s =>
    if w.session = some s then {w with session := none, changed := w.changed.notify, closing := s :: w.closing}
    else {w with closing := s :: w.closing}
  | .other => {w with changed := w.changed.notify}
  | .queue s full => {w with full := Function.update w.full s full}
  | .enqueue s =>
    if s ∈ w.rejecting ∧ (w.full s = true → s ∈ w.closed) then
      {w with rejecting := w.rejecting.erase s, closing := s :: w.closing}
    else w
  | .close s => if s ∈ w.closing then {w with closing := w.closing.erase s, closed := s :: w.closed} else w
  -- a call that waits goes on when its channel is closed
  | .waitSession k => if (w.waiters k).all (· ∈ w.changed.closed) then look w k else w
  | .cancel k => {w with waiters := Function.update w.waiters k none}

/-- The session is closed, or a call that closes it has not returned yet. -/
def Ends (w : Sessions) (s : Nat) : Prop := s ∈ w.rejecting ∨ s ∈ w.closing ∨ s ∈ w.closed

/-- The calls that are under way close the session when they go on. -/
def Closes (w : Sessions) (s : Nat) : Prop := s ∈ (run step w [.enqueue s, .close s]).closed

def Watched (w : Sessions) : Prop := w.changed.Watches (w.session ≠ none) w.waiters

variable {w : Sessions} {s : Nat} {es : List Event}

theorem step_waitSession (w : Sessions) (k : Nat) : step w (.waitSession k) = look w k ∨ step w (.waitSession k) = w := by
  dsimp only [step]
  split
  · exact .inl rfl
  · exact .inr rfl

theorem step_session (e : Event) (he : ∀ s, e ≠ .register s) :
    (step w e).session = w.session ∨ ∃ s, e = .unregister s ∧ w.session = some s ∧ (step w e).session = none := by
  cases e with
  | register s => exact absurd rfl (he s)
  | unregister s =>
    dsimp only [step]
    split
    · exact .inr ⟨s, rfl, ‹_›, rfl⟩
    · exact .inl rfl
  | other => exact .inl rfl
  | queue s full => exact .inl rfl
  | enqueue s =>
    dsimp only [step]
    split <;> exact .inl rfl
  | close s =>
    dsimp only [step]
    split <;> exact .inl rfl
  | waitSession k =>
    rcases step_waitSession w k with h | h
    · rw [h, look]
      split <;> exact .inl rfl
    · rw [h]
      exact .inl rfl
  | cancel k => exact .inl rfl

theorem step_ends (e : Event) (h : Ends w s) : Ends (step w e) s := by
  cases e with
  | register s' => exact h.imp_left (mem_append_right _)
  | unregister s' =>
    dsimp only [step]
    split <;> exact h.imp_right (·.imp_left (mem_cons_of_mem _))
  | other => exact h
  | queue s' full => exact h
  | enqueue s' =>
    dsimp only [step]
    split
    · by_cases hs : s = s'
      · exact .inr (.inl (hs ▸ mem_cons_self))
      · exact h.imp (mem_erase_of_ne hs).2 (·.imp_left (mem_cons_of_mem _))
    · exact h
  | close s' =>
    dsimp only [step]
    split
    · by_cases hs : s = s'
      · exact .inr (.inr (hs ▸ mem_cons_self))
      · exact h.imp_right (·.imp (mem_erase_of_ne hs).2 (mem_cons_of_mem _))
    · exact h
  | waitSession k =>
    rcases step_waitSession w k with hk | hk
    · rw [hk, look]
      split <;> exact h
    · rw [hk]
      exact h
  | cancel k => exact h

theorem mem_closed_close : s ∈ (step w (.close s)).closed ↔ s ∈ w.closing ∨ s ∈ w.closed := by
  dsimp only [step]
  split
  · exact ⟨fun _ => .inl ‹_›, fun _ => mem_cons_self⟩
  · exact ⟨.inr, fun h => h.resolve_left ‹_›⟩

/-- Nothing but a full queue keeps the call that has replaced a session from closing it. -/
theorem Ends.closes_iff (h : Ends w s) : Closes w s ↔ (w.full s = true → s ∈ w.closing ∨ s ∈ w.closed) := by
  show s ∈ (step (step w (.enqueue s)) (.close s)).closed ↔ _
  rw [mem_closed_close]
  constructor
  · intro hc hfull
    dsimp only [step] at hc
    split at hc
    next hgo => exact .inr (hgo.2 hfull)
    · exact hc
  · intro hroom
    by_cases hgo : s ∈ w.rejecting ∧ (w.full s = true → s ∈ w.closed)
    · dsimp only [step]
      rw [if_pos hgo]
      exact .inl mem_cons_self
    · dsimp only [step]
      rw [if_neg hgo]
      rcases h with hr | hc
      · by_cases hfull : w.full s = true
        · exact hroom hfull
        · exact absurd ⟨hr, fun hf => absurd hf hfull⟩ hgo
      · exact hc

theorem step_watched (e : Event) (h : Watched w) : Watched (step w e) := by
  cases e with
  | register s => exact h.notify _
  | unregister s =>
    dsimp only [step]
    split
    · exact h.notify _
    · exact h
  | other => exact h.notify _
  | queue s full => exact h
  | enqueue s =>
    dsimp only [step]
    split <;> exact h
  | close s =>
    dsimp only [step]
    split <;> exact h
  | waitSession k =>
    rcases step_waitSession w k with hk | hk
    · rw [hk, look]
      split
      · exact h.leave k
      · rename_i hnone
        exact h.wait (fun hne => hne hnone) k
    · rw [hk]
      exact h
  | cancel k => exact h.leave k

theorem run_none (hnew : ∀ s, .register s ∉ es) (h : w.session = none) : (run step w es).session = none := by
  induction es generalizing w with
  | nil => exact h
  | cons e es ih =>
    refine ih (fun s hs => hnew s (mem_cons_of_mem _ hs)) ?_
    obtain hs | ⟨s, -, hs, -⟩ := step_session e fun s hs => hnew s (hs ▸ mem_cons_self)
    · exact hs.trans h
    · cases h.symm.trans hs

theorem run_some (hnew : ∀ s, .register s ∉ es) (h : w.session = some s) :
    (run step w es).session = if .unregister s ∈ es then none else some s := by
  induction es generalizing w with
  | nil => exact h
  | cons e es ih =>
    have hes : ∀ s, .register s ∉ es := fun s hs => hnew s (mem_cons_of_mem _ hs)
    obtain hs | ⟨s', rfl, hs', hnone⟩ := step_session (w := w) e fun s hs => hnew s (hs ▸ mem_cons_self)
    · have hne : e ≠ .unregister s := by
        rintro rfl
        rw [h, step, if_pos h] at hs
        cases hs
      simp only [run_cons, ih hes (hs.trans h), mem_cons, hne.symm, false_or]
    · obtain rfl := Option.some.inj (h.symm.trans hs')
      rw [run_cons, if_pos mem_cons_self]
      exact run_none hes hnone

theorem run_watched (es : List Event) : Watched (run step empty es) :=
  run_invariant (.init _) (fun _ e h => step_watched e h) es

theorem run_ends {pre post : List Event} {s' : Nat} (hs : (run step empty pre).session = some s) :
    Ends (run step empty (pre ++ .register s' :: post)) s := by
  rw [run_append]
  refine run_invariant (I := fun w => Ends w s) (.inl ?_) (fun _ e h => step_ends e h) post
  dsimp only [step]
  rw [hs]
  exact mem_cons_self

theorem step_look {k : Nat} (h : ∀ ch, w.waiters k = some ch → ch ∈ w.changed.closed) :
    step w (.waitSession k) = look w k := by
  refine if_pos ?_
  cases hk : w.waiters k with
  | none => rfl
  | some ch => exact decide_eq_true (h ch hk)

/-- What is registered is the last session registered, unless it was unregistered; an older one removes no
newer one; the call that has replaced a session closes it if and only if it does not find that one's queue
full; a first round returns the session or waits on an open channel; and a call that waits while a session
is registered can go on, and then returns it. -/
theorem registry_sound_iff (es : List Event) :
    ((∀ s, .register s ∉ es) → (run step empty es).session = none) ∧
    (∀ pre s post, es = pre ++ .register s :: post → (∀ s', .register s' ∉ post) →
      (run step empty es).session = if .unregister s ∈ post then none else some s) ∧
    (∀ s s', (run step empty es).session = some s' → s ≠ s' →
      (step (run step empty es) (.unregister s)).session = some s') ∧
    (∀ pre s s' post, es = pre ++ .register s' :: post → (run step empty pre).session = some s →
      Ends (run step empty es) s ∧ (Closes (run step empty es) s ↔ ((run step empty es).full s = true →
        s ∈ (run step empty es).closing ∨ s ∈ (run step empty es).closed))) ∧
    (∀ k, (run step empty es).waiters k = none →
      (∀ s, (run step empty es).session = some s →
        (step (run step empty es) (.waitSession k)).results k = some s) ∧
      ((run step empty es).session = none → ∃ ch,
        (step (run step empty es) (.waitSession k)).waiters k = some ch ∧ ch ∉ (run step empty es).changed.closed)) ∧
    ∀ k ch s, (run step empty es).waiters k = some ch → (run step empty es).session = some s →
      ch ∈ (run step empty es).changed.closed ∧
      (step (run step empty es) (.waitSession k)).waiters k = none ∧
      (step (run step empty es) (.waitSession k)).results k = some s := by
  refine ⟨fun hnew => run_none hnew rfl, ?_, ?_, ?_, ?_, ?_⟩
  · rintro pre s post rfl hnew
    rw [run_append]
    exact run_some hnew rfl
  · intro s s' hs' hne
    dsimp only [step]
    rw [if_neg fun hs => hne (Option.some.inj (hs.symm.trans hs')), hs']
  · rintro pre s s' post rfl hs
    exact ⟨run_ends hs, (run_ends hs).closes_iff⟩
  · intro k hk
    rw [step_look fun ch hch => by cases hk.symm.trans hch]
    refine ⟨fun s hs => ?_, fun hs => ?_⟩
    · rw [look, hs]
      exact Function.update_self ..
    · rw [look, hs]
      exact ⟨_, Function.update_self .., fun hch => Nat.lt_irrefl _ ((run_watched es).isOpen _ hch)⟩
  · intro k ch s hk hs
    have hch := (run_watched es).awake hk fun hnone => by cases hnone.symm.trans hs
    rw [step_look fun ch' hch' => Option.some.inj (hk.symm.trans hch') ▸ hch, look, hs]
    exact ⟨hch, Function.update_self .., Function.update_self ..⟩

/-- A call waits, a session is registered, and the call's next round returns it. -/
theorem registry_sound_iff_awake :
    0 ∈ (run step empty [.waitSession 7, .register 1]).changed.closed ∧
      (step (run step empty [.waitSession 7, .register 1]) (.waitSession 7)).results 7 = some 1 :=
  have h := (registry_sound_iff [.waitSession 7, .register 1]).2.2.2.2.2 7 0 1 rfl rfl
  ⟨h.1, h.2.2⟩

/-- The queue of session 1 is full when session 2 replaces it: however often the call goes on, it waits. -/
theorem superseded_left_open :
    1 ∉ (run step empty [.register 1, .queue 1 true, .register 2]).closed ∧
    run step empty [.register 1, .queue 1 true, .register 2, .enqueue 1, .close 1] =
      run step empty [.register 1, .queue 1 true, .register 2] :=
  ⟨by decide, rfl⟩

end Dbr2.Gateway.Registry
