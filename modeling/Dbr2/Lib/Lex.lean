import Mathlib.Data.List.Lex
import Mathlib.Order.Lattice

/-! The lexicographic order of lists, and prefixes.

Behind a list come the lists that begin with it, before all others (`prefix_of_between`), and
among them the rest decides (`append_lt_append_iff`). -/
namespace Dbr2.Lib
open List

variable {α : Type} [LinearOrder α]

theorem append_lt_append_iff (p x y : List α) : p ++ x < p ++ y ↔ x < y := by
  induction p with
  | nil => rfl
  | cons a p ih =>
    rw [cons_append, cons_append, cons_lt_cons_iff, ih]
    simp

theorem lt_append_cons (p : List α) (a : α) (x : List α) : p < p ++ a :: x := by
  have h := (append_lt_append_iff p [] (a :: x)).2 (nil_lt_cons a x)
  rwa [append_nil] at h

/-- What is not before `p` and not behind some list that begins with `p` begins with `p`. -/
theorem prefix_of_between {p r y : List α} (h : ¬ r < p) (h' : ¬ p ++ y < r) : p <+: r := by
  induction p generalizing r with
  | nil => exact List.nil_prefix
  | cons a p ih =>
    cases r with
    | nil => exact absurd (nil_lt_cons a p) h
    | cons b r =>
      rw [cons_lt_cons_iff] at h
      rw [cons_append, cons_lt_cons_iff] at h'
      have hab := le_antisymm (not_lt.1 fun hlt => h (.inl hlt)) (not_lt.1 fun hlt => h' (.inl hlt))
      subst hab
      exact cons_prefix_cons.2 ⟨rfl, ih (fun hlt => h (.inr ⟨rfl, hlt⟩)) fun hlt => h' (.inr ⟨rfl, hlt⟩)⟩

end Dbr2.Lib
