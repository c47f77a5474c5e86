import Dbr2.Lib.Run

/-! Waiting on a channel that is closed and replaced at every change.

A party that finds its condition false waits on the channel that is current at that moment. Whoever
may make the condition true closes the current channel and puts a new one in its place. `Watches`
is what the users of this pattern keep: nobody waits on an open channel while the condition holds
(`Watches.awake`), so that no wake-up is lost. -/
namespace Dbr2.Lib

/-- The current channel, by its number, and those that were closed. -/
structure Broadcast where
  current : Nat
  closed : List Nat

namespace Broadcast

def init : Broadcast := ⟨0, []⟩

def notify (b : Broadcast) : Broadcast := ⟨b.current + 1, b.current :: b.closed⟩

/-- The channels that were replaced are those that are closed, and one that waits on the current channel has found the condition
false, which still is. -/
structure Watches (condition : Prop) (b : Broadcast) (waiters : Nat → Option Nat) : Prop where
  replaced : ∀ ch < b.current, ch ∈ b.closed
  isOpen : ∀ ch ∈ b.closed, ch < b.current
  sampled : ∀ k ch, waiters k = some ch → ch ≤ b.current
  current : ∀ k, waiters k = some b.current → ¬ condition

namespace Watches
variable {condition condition' : Prop} {b : Broadcast} {waiters : Nat → Option Nat} {k ch : Nat}

theorem init (condition : Prop) : Watches condition Broadcast.init fun _ => none where
  replaced _ h := absurd h (Nat.not_lt_zero _)
  isOpen _ h := by cases h
  sampled _ _ h := by cases h
  current _ h := by cases h

variable (h : Watches condition b waiters)
include h

/-- Without a notification the condition may only become false. -/
theorem imp (himp : condition' → condition) : Watches condition' b waiters :=
  {h with current := fun k hk hc => h.current k hk (himp hc)}

theorem notify (condition' : Prop) : Watches condition' b.notify waiters where
  replaced ch hch := by
    rcases Nat.lt_succ_iff_lt_or_eq.1 hch with hch | rfl
    · exact List.mem_cons_of_mem _ (h.replaced ch hch)
    · exact List.mem_cons_self
  isOpen ch hch := by
    rcases List.mem_cons.1 hch with rfl | hch
    · exact Nat.lt_succ_self _
    · exact Nat.lt_succ_of_lt (h.isOpen ch hch)
  sampled k ch hk := Nat.le_succ_of_le (h.sampled k ch hk)
  current k hk := absurd (h.sampled k _ hk) (Nat.not_succ_le_self _)

theorem wait (hfalse : ¬ condition) (k : Nat) : Watches condition b (Function.update waiters k (some b.current)) where
  replaced := h.replaced
  isOpen := h.isOpen
  sampled k' ch hk := by
    rcases update_some hk with ⟨-, hk⟩ | ⟨-, hk⟩
    · exact Nat.le_of_eq (Option.some.inj hk).symm
    · exact h.sampled k' ch hk
  current _ _ := hfalse

theorem leave (k : Nat) : Watches condition b (Function.update waiters k none) where
  replaced := h.replaced
  isOpen := h.isOpen
  sampled k' ch hk := h.sampled k' ch (update_none_some hk).2
  current k' hk := h.current k' (update_none_some hk).2

/-- Who waits while the condition holds waits on a channel that is closed. -/
theorem awake (hk : waiters k = some ch) (hc : condition) : ch ∈ b.closed := by
  rcases Nat.lt_or_eq_of_le (h.sampled k ch hk) with hlt | rfl
  · exact h.replaced ch hlt
  · exact absurd hc (h.current k hk)

end Watches

end Broadcast

end Dbr2.Lib
