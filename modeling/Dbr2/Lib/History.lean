import Mathlib.Data.List.Basic

/-! Histories: what happened, newest first.

`AtEach a P` says that `P` held of the past at every `a`; `since a p` whether
something that `p` tells happened since the last `a`. What never happened before an
`a` and not since the last one never happened (`any_eq_false_of_since`). -/
namespace Dbr2.Lib

variable {α : Type}

def AtEach (a : α) (P : List α → Prop) : List α → Prop
  | [] => True
  | x :: xs => (x = a → P xs) ∧ AtEach a P xs

instance AtEach.decidable [DecidableEq α] {a : α} {P : List α → Prop} [DecidablePred P]
    (xs : List α) : Decidable (AtEach a P xs) :=
  match xs with
  | [] => .isTrue trivial
  | x :: xs => @instDecidableAnd (x = a → P xs) (AtEach a P xs) inferInstance (AtEach.decidable xs)

variable {xs : List α} {P Q : List α → Prop} {a : α}

theorem AtEach.imp (h : AtEach a P xs) (hPQ : ∀ xs, P xs → Q xs) : AtEach a Q xs := by
  induction xs with
  | nil => trivial
  | cons x xs ih => exact ⟨fun he => hPQ _ (h.1 he), ih h.2⟩

theorem AtEach.and (hP : AtEach a P xs) (hQ : AtEach a Q xs) : AtEach a (fun xs => P xs ∧ Q xs) xs := by
  induction xs with
  | nil => trivial
  | cons x xs ih => exact ⟨fun he => ⟨hP.1 he, hQ.1 he⟩, ih hP.2 hQ.2⟩

/-- What holds of every past holds at every `a`. -/
theorem AtEach.of_tails {R : List α → Prop} (hR : R xs)
    (htail : ∀ x xs, R (x :: xs) → R xs) (h : ∀ xs, R xs → P xs) : AtEach a P xs := by
  induction xs with
  | nil => trivial
  | cons x xs ih => exact ⟨fun _ => h xs (htail x xs hR), ih (htail x xs hR)⟩

/-- What holds of the past at every `a` may use what holds of every past. -/
theorem AtEach.mono {R : List α → Prop} (h : AtEach a P xs) (hR : R xs)
    (htail : ∀ x xs, R (x :: xs) → R xs) (hPQ : ∀ xs, R xs → P xs → Q xs) : AtEach a Q xs := by
  induction xs with
  | nil => trivial
  | cons x xs ih =>
    have hR' := htail x xs hR
    exact ⟨fun he => hPQ xs hR' (h.1 he), ih h.2 hR'⟩

variable [DecidableEq α]

def since (a : α) (p : α → Bool) : List α → Bool
  | [] => false
  | x :: xs => if x = a then false else p x || since a p xs

theorem any_eq_false_of_since {p : α → Bool} (ha : p a = false)
    (h : AtEach a (fun xs => xs.any p = false) xs) (hs : since a p xs = false) :
    xs.any p = false := by
  induction xs with
  | nil => rfl
  | cons x xs ih =>
    rw [List.any_cons]
    by_cases hx : x = a
    · rw [hx, ha, h.1 hx]
      rfl
    rw [since, if_neg hx, Bool.or_eq_false_iff] at hs
    rw [hs.1, ih h.2 hs.2]
    rfl

end Dbr2.Lib
