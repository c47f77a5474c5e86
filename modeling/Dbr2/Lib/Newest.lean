import Mathlib.Data.List.Sort

/-! The first elements of a list, latest first.

Where two elements are of the same time either may come first, so `Newest` says that there is an
arrangement. A sort of a part of the list gives the first elements of the whole exactly if nothing
that was left out is among them (`newest_iff`). -/
namespace Dbr2.Lib
open List

variable {α : Type} {time : α → Int} {n : Nat} {kept cut all out : List α}

/-- The elements, latest first; those of one time as they stand. -/
def latestFirst (time : α → Int) (l : List α) : List α := l.insertionSort fun a b => time b ≤ time a

/-- `out` is the first `n` of an arrangement of `all`, latest first. -/
def Newest (time : α → Int) (n : Nat) (all out : List α) : Prop :=
  ∃ l : List α, l.Perm all ∧ l.Pairwise (fun a b => time b ≤ time a) ∧ out = l.take n

theorem latestFirst_perm (time : α → Int) (l : List α) : (latestFirst time l).Perm l := perm_insertionSort _ _

theorem latestFirst_pairwise (time : α → Int) (l : List α) :
    (latestFirst time l).Pairwise fun a b => time b ≤ time a := by
  have : Std.Total fun a b : α => time b ≤ time a := ⟨fun a b => Int.le_total (time b) (time a)⟩
  have : IsTrans α fun a b => time b ≤ time a := ⟨fun _ _ _ h h' => Int.le_trans h' h⟩
  exact pairwise_insertionSort _ _

theorem Newest.congr {all' : List α} (h : all.Perm all') : Newest time n all out ↔ Newest time n all' out := by
  constructor
  · rintro ⟨l, hl, hrest⟩
    exact ⟨l, hl.trans h, hrest⟩
  · rintro ⟨l, hl, hrest⟩
    exact ⟨l, hl.trans h.symm, hrest⟩

/-- With `n` elements at least as late as `t`, the first `n` are. -/
theorem le_of_mem_take {l : List α} (hl : l.Pairwise fun a b => time b ≤ time a) {t : Int}
    (hn : n ≤ l.countP (t ≤ time ·)) {a : α} (ha : a ∈ l.take n) : t ≤ time a := by
  by_contra hlt
  rw [← take_append_drop n l, countP_append] at hn
  have hdrop : (l.drop n).countP (t ≤ time ·) = 0 := by
    rw [countP_eq_zero]
    intro b hb
    rw [← take_append_drop n l, pairwise_append] at hl
    have := hl.2.2 a ha b hb
    simp
    omega
  have hlen := length_take_le n l
  have hle := countP_le_length (p := fun x => decide (t ≤ time x)) (l := l.take n)
  have hall := countP_eq_length.1 (show (l.take n).countP (t ≤ time ·) = (l.take n).length by omega) a ha
  exact hlt (of_decide_eq_true hall)

/-- What is behind the cut of a sort has `n` elements before it that are as late. -/
theorem le_countP_take {l : List α} (hl : l.Pairwise fun a b => time b ≤ time a) {a : α} (ha : a ∈ l.drop n) :
    n ≤ (l.take n).countP (time a ≤ time ·) := by
  have hlen := length_pos_of_mem ha
  rw [length_drop] at hlen
  rw [← take_append_drop n l, pairwise_append] at hl
  rw [countP_eq_length.2 fun b hb => decide_eq_true (hl.2.2 b hb a ha), length_take]
  omega

theorem newest_iff : Newest time n (kept ++ cut) ((latestFirst time kept).take n) ↔
    ∀ j ∈ cut, n ≤ kept.countP (time j ≤ time ·) := by
  have hsort := latestFirst_perm time kept
  have hle := latestFirst_pairwise time kept
  generalize latestFirst time kept = s at hsort hle
  constructor
  · rintro ⟨l, hl, hpair, htake⟩ j hj
    -- the part of the arrangement that does not come out is the rest of the sort and the cut
    have hrest : (l.drop n).Perm (s.drop n ++ cut) := by
      rw [← perm_append_left_iff (l.take n), take_append_drop, ← htake, ← append_assoc,
        take_append_drop]
      exact hl.trans (hsort.symm.append_right cut)
    have hjdrop := hrest.mem_iff.2 (mem_append_right _ hj)
    have hlen : n ≤ l.length := by
      have := length_pos_of_mem hjdrop
      rw [length_drop] at this
      omega
    rw [← take_append_drop n l, pairwise_append] at hpair
    have hall : (s.take n).countP (time j ≤ time ·) = n := by
      rw [htake, countP_eq_length.2 fun a ha => decide_eq_true (hpair.2.2 a ha j hjdrop), length_take]
      omega
    rw [← hsort.countP_eq, ← take_append_drop n s, countP_append]
    omega
  · intro h
    refine ⟨s.take n ++ latestFirst time (s.drop n ++ cut), ?_, ?_, ?_⟩
    · have := (latestFirst_perm time (s.drop n ++ cut)).append_left (s.take n)
      rw [← append_assoc, take_append_drop] at this
      exact this.trans (hsort.append_right cut)
    · refine pairwise_append.2 ⟨hle.sublist (take_sublist n s), latestFirst_pairwise time _, ?_⟩
      intro a ha b hb
      rcases mem_append.1 ((latestFirst_perm time _).mem_iff.1 hb) with hb | hb
      · rw [← take_append_drop n s, pairwise_append] at hle
        exact hle.2.2 a ha b hb
      · exact le_of_mem_take hle (hsort.countP_eq _ ▸ h b hb) ha
    · rcases Nat.lt_or_ge s.length n with hlt | hge
      · -- with fewer than `n` elements there is nothing left out
        have hcut : cut = [] := by
          cases cut with
          | nil => rfl
          | cons j cut =>
            have hcount := h j mem_cons_self
            rw [← hsort.countP_eq] at hcount
            have := countP_le_length (p := fun x => decide (time j ≤ time x)) (l := s)
            omega
        rw [hcut, drop_of_length_le hlt.le]
        simp [latestFirst, take_of_length_le hlt.le]
      · rw [take_append_of_le_length (by rw [length_take]; omega), take_take, Nat.min_self]

end Dbr2.Lib
