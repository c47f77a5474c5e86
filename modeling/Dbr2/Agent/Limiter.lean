import Dbr2.Lib.Broadcast

/-! The job limiter of the agent (`internal/agent/limiter.go`).

What stands under the lock is one event. `jobs` has, for every job that was admitted and not yet
released, the limit in force when it was admitted, the last one first; a release names its job, and
one that names none matches no acquire. -/
namespace Dbr2.Agent
open Lib

structure Limiter where
  (limit active : Int)
  changed : Broadcast
  waiters : Nat → Option Nat
  jobs : List Int

namespace Limiter

/-- Each round of an acquire is an event, and so is the end of its context. -/
inductive Event
  | setLimit (n : Int)
  | tryAcquire
  | acquire (k : Nat)
  | cancel (k : Nat)
  | release (job : Nat)

def newLimiter (n : Int) : Limiter := ⟨n, 0, .init, fun _ => none, []⟩

def admitted (l : Limiter) : Limiter := {l with active := l.active + 1, jobs := l.limit :: l.jobs}

def step (l : Limiter) : Event → Limiter
  | .setLimit n => {l with limit := if n < 1 then 1 else n, changed := l.changed.notify}
  | .tryAcquire => if l.active < l.limit then admitted l else l
  | .acquire k =>
    -- one that waits goes on when its channel is closed
    if (l.waiters k).all (· ∈ l.changed.closed) then
      if l.active < l.limit then {admitted l with waiters := Function.update l.waiters k none}
      else {l with waiters := Function.update l.waiters k (some l.changed.current)}
    else l
  | .cancel k => {l with waiters := Function.update l.waiters k none}
  | .release job => {l with active := l.active - 1, changed := l.changed.notify, jobs := l.jobs.eraseIdx job}

def Matched (l : Limiter) (e : Event) : Prop := ∀ job, e = .release job → job < l.jobs.length

/-- The jobs up to any of them are not more than the limit at its admission. -/
structure Inv (l : Limiter) : Prop where
  bound : ∀ (i : Nat) n, l.jobs[i]? = some n → l.active - i ≤ n
  watched : l.changed.Watches (l.active < l.limit) l.waiters

variable {l : Limiter}

theorem Inv.admitted (h : Inv l) (hfree : l.active < l.limit) : Inv (admitted l) where
  bound i n hi := by
    cases i with
    | zero =>
      obtain rfl := Option.some.inj hi
      dsimp only [Limiter.admitted]
      omega
    | succ i =>
      have hbound := h.bound i n hi
      dsimp only [Limiter.admitted]
      omega
  watched := h.watched.imp fun hc => by
    dsimp only [Limiter.admitted] at hc
    omega

/-- Acquiring, releasing, cancelling and resizing. -/
theorem Inv.step (h : Inv l) (e : Event) : Inv (step l e) := by
  cases e with
  | setLimit n => exact ⟨h.bound, h.watched.notify _⟩
  | tryAcquire =>
    dsimp only [Limiter.step]
    split
    · exact h.admitted ‹_›
    · exact h
  | acquire k =>
    dsimp only [Limiter.step]
    split
    · split
      · have hnew := h.admitted ‹_›
        exact ⟨hnew.bound, hnew.watched.leave k⟩
      · exact ⟨h.bound, h.watched.wait ‹_› k⟩
    · exact h
  | cancel k => exact ⟨h.bound, h.watched.leave k⟩
  | release job =>
    refine ⟨fun i n hi => ?_, h.watched.notify _⟩
    dsimp only [Limiter.step] at hi ⊢
    rw [List.getElem?_eraseIdx] at hi
    split at hi
    · have hbound := h.bound i n hi
      omega
    · have hbound := h.bound (i + 1) n hi
      omega

theorem step_active (e : Event) (hmatched : Matched l e) (h : l.active = l.jobs.length) :
    (step l e).active = (step l e).jobs.length := by
  have hadmitted : (admitted l).active = (admitted l).jobs.length := by
    simp [admitted, h]
  cases e with
  | setLimit n => exact h
  | tryAcquire =>
    dsimp only [step]
    split
    · exact hadmitted
    · exact h
  | acquire k =>
    dsimp only [step]
    split
    · split
      · exact hadmitted
      · exact h
    · exact h
  | cancel k => exact h
  | release job =>
    have hjob := hmatched job rfl
    dsimp only [step]
    rw [List.length_eraseIdx_of_lt hjob]
    omega

/-- The active jobs are not more than the limit was when the last of them was admitted, and not fewer than
none if each release is that of a job; a call that waits on an open channel has no slot free, and a
channel that was replaced is closed. -/
theorem limiter_sound (n : Int) (es : List Event) :
    (∀ m ∈ (run step (newLimiter n) es).jobs.head?, (run step (newLimiter n) es).active ≤ m) ∧
    (Along step Matched (newLimiter n) es →
      (run step (newLimiter n) es).active = (run step (newLimiter n) es).jobs.length) ∧
    ∀ k ch, (run step (newLimiter n) es).waiters k = some ch →
      (ch ≠ (run step (newLimiter n) es).changed.current ∨
        (run step (newLimiter n) es).active < (run step (newLimiter n) es).limit) →
      ch ∈ (run step (newLimiter n) es).changed.closed := by
  have hinit : Inv (newLimiter n) := ⟨fun i m hi => by simp [newLimiter] at hi, .init _⟩
  have hinv := run_invariant hinit (fun _ e h => h.step e) es
  refine ⟨fun m hm => ?_, fun hes => ?_, fun k ch hk hfree => ?_⟩
  · have hbound := hinv.bound 0 m (by rw [← List.head?_eq_getElem?]; exact hm)
    omega
  · exact hes.invariant (I := fun l => l.active = l.jobs.length) rfl fun _ e h he => step_active e he h
  · rcases hfree with hne | hfree
    · exact hinv.watched.replaced ch (Nat.lt_of_le_of_ne (hinv.watched.sampled k ch hk) hne)
    · exact hinv.watched.awake hk hfree

end Limiter

end Dbr2.Agent
