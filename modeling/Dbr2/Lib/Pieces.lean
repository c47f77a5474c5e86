import Mathlib.Data.List.Infix

/-! A list in pieces, cut at a separator.

The pieces have no separator and stand in the list (`mem_splitOn`). Pieces without one are
told by what they are joined to (`intercalate_inj`). -/
namespace Dbr2.Lib
open List

variable {α : Type} [BEq α] [LawfulBEq α] {sep : α}

theorem mem_splitOn {s e : List α} : e ∈ s.splitOn sep → sep ∉ e ∧ e <:+: s := by
  -- The first piece also begins the list, which is what the induction needs.
  have hall : ∀ s : List α, ∃ h t, s.splitOn sep = h :: t ∧ (sep ∉ h ∧ h <+: s) ∧ ∀ e ∈ t, sep ∉ e ∧ e <:+: s := by
    intro s
    induction s with
    | nil => exact ⟨[], [], rfl, ⟨not_mem_nil, prefix_refl []⟩, by simp⟩
    | cons c s ih =>
      obtain ⟨h, t, hs, hhead, htail⟩ := ih
      have hin : ∀ e, e <:+: s → e <:+: c :: s := fun e he => he.trans (suffix_cons c s).isInfix
      unfold List.splitOn at hs ⊢
      rw [splitOnP_cons_eq_if_modifyHead, hs]
      by_cases hc : c = sep
      · rw [if_pos (by simpa using hc)]
        refine ⟨[], h :: t, rfl, ⟨not_mem_nil, List.nil_prefix⟩, ?_⟩
        intro e he
        rcases mem_cons.1 he with rfl | he
        · exact ⟨hhead.1, hin _ hhead.2.isInfix⟩
        · exact ⟨(htail e he).1, hin _ (htail e he).2⟩
      rw [if_neg (by simpa using hc)]
      refine ⟨c :: h, t, rfl, ⟨?_, cons_prefix_cons.2 ⟨rfl, hhead.2⟩⟩, ?_⟩
      · rw [mem_cons, not_or]
        exact ⟨Ne.symm hc, hhead.1⟩
      · intro e he
        exact ⟨(htail e he).1, hin _ (htail e he).2⟩
  intro he
  obtain ⟨h, t, hs, hhead, htail⟩ := hall s
  rw [hs] at he
  rcases mem_cons.1 he with rfl | he
  · exact ⟨hhead.1, hhead.2.isInfix⟩
  · exact htail e he

theorem intercalate_inj {ls ls' : List (List α)} (h : ∀ l ∈ ls, sep ∉ l) (h' : ∀ l ∈ ls', sep ∉ l)
    (hne : ls ≠ []) (hne' : ls' ≠ []) : [sep].intercalate ls = [sep].intercalate ls' ↔ ls = ls' := by
  constructor
  · intro heq
    rw [← splitOn_intercalate sep h hne, heq, splitOn_intercalate sep h' hne']
  · intro heq
    rw [heq]

end Dbr2.Lib
