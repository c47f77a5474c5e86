import Mathlib.Data.Finset.Max
import Mathlib.Data.Fintype.Card
import Mathlib.Data.List.Sort

/-! Lists: what is left when some elements go, and where an element stands.

A stable sort of a sublist is a sublist of the sort (`insertionSort_sublist`). In a descending list,
the place of an element is told by how many are greater (`mem_drop_iff`). The places of a list are
its head and the places of its tail (`exists_split_cons`). -/
namespace Dbr2.Lib
open List

variable {α : Type}

theorem insertionSort_sublist (r : α → α → Prop) [DecidableRel r] [Std.Total r] [IsTrans α r]
    {l l' : List α} (h : l'.Sublist l) : (l'.insertionSort r).Sublist (l.insertionSort r) := by
  induction h with
  | slnil => exact List.Sublist.refl _
  | cons a _ ih => exact ih.trans (sublist_orderedInsert a _)
  | cons_cons a _ ih => exact ih.orderedInsert_sublist a (pairwise_insertionSort r _)

theorem pair_sublist_iff [LinearOrder α] {l : List α} (h : l.Pairwise (· < ·)) {a b : α} (ha : a ∈ l) (hb : b ∈ l) :
    [a, b].Sublist l ↔ a < b := by
  constructor
  · intro hsub
    exact (pairwise_cons.1 (h.sublist hsub)).1 b mem_cons_self
  · intro hlt
    induction l with
    | nil => cases ha
    | cons c l ih =>
      obtain ⟨hc, hl⟩ := pairwise_cons.1 h
      rcases mem_cons.1 ha with rfl | ha'
      · rcases mem_cons.1 hb with rfl | hb'
        · exact absurd hlt (lt_irrefl _)
        · exact (singleton_sublist.2 hb').cons_cons _
      rcases mem_cons.1 hb with rfl | hb'
      · exact absurd hlt (lt_asymm (hc a ha'))
      · exact (ih hl ha' hb').cons c

theorem mem_drop_iff [LinearOrder α] {l : List α} (h : l.Pairwise (· > ·)) {a : α} (ha : a ∈ l) {p : α → Bool}
    (hp : ∀ b, p b = true ↔ a < b) (k : Nat) : a ∈ l.drop k ↔ k ≤ (l.filter p).length := by
  induction l generalizing k with
  | nil => cases ha
  | cons b l ih =>
    obtain ⟨hb, hl⟩ := pairwise_cons.1 h
    cases k with
    | zero => simpa using ha
    | succ k =>
      rw [drop_succ_cons]
      rcases mem_cons.1 ha with rfl | ha'
      · -- nothing after the first element is greater
        have hnone : (a :: l).filter p = [] := by
          apply filter_eq_nil_iff.2
          intro c hc
          rw [hp, not_lt]
          rcases mem_cons.1 hc with rfl | hc
          · exact le_refl _
          · exact (hb c hc).le
        rw [hnone]
        exact iff_of_false (fun hmem => lt_irrefl a (hb a (mem_of_mem_drop hmem))) (by simp)
      · rw [filter_cons_of_pos ((hp b).2 (hb a ha')), length_cons, Nat.succ_le_succ_iff]
        exact ih hl ha' k

theorem filter_map_sublist {p : α → Bool} {f : α → α} {l : List α}
    (h : ∀ a ∈ l, f a = a ∨ p (f a) = false) : ((l.map f).filter p).Sublist (l.filter p) := by
  induction l with
  | nil => exact List.Sublist.refl _
  | cons a l ih =>
    have ih := ih fun b hb => h b (mem_cons_of_mem _ hb)
    rw [map_cons]
    rcases h a mem_cons_self with ha | ha
    · rw [ha, filter_cons, filter_cons]
      split
      · exact ih.cons_cons a
      · exact ih
    · rw [filter_cons_of_neg (by simp [ha])]
      exact ih.trans ((sublist_cons_self a l).filter p)

theorem sublist_split {l newer older : List α} {u : α} (h : l.Sublist (newer ++ u :: older))
    (hd : (newer ++ u :: older).Nodup) (hu : u ∈ l) :
    ∃ newer' older', l = newer' ++ u :: older' ∧ newer'.Sublist newer := by
  obtain ⟨l₁, l₂, rfl, h₁, h₂⟩ := sublist_append_iff.1 h
  have hn : u ∉ newer := fun hm => (nodup_append.1 hd).2.2 u hm u mem_cons_self rfl
  have ho := (nodup_cons.1 (nodup_append.1 hd).2.1).1
  have hu₂ := (mem_append.1 hu).resolve_left fun hm => hn (h₁.subset hm)
  rcases sublist_cons_iff.1 h₂ with h₂ | ⟨r, rfl, -⟩
  · exact absurd (h₂.subset hu₂) ho
  · exact ⟨l₁, r, rfl, h₁⟩

theorem exists_split_cons (P : List α → α → Prop) (a : α) (l : List α) :
    (∃ before b after, a :: l = before ++ b :: after ∧ P before b) ↔
      P [] a ∨ ∃ before b after, l = before ++ b :: after ∧ P (a :: before) b := by
  constructor
  · rintro ⟨before, b, after, he, hP⟩
    cases before with
    | nil =>
      obtain ⟨rfl, -⟩ := List.cons.inj he
      exact .inl hP
    | cons c before =>
      obtain ⟨rfl, he'⟩ := List.cons.inj he
      exact .inr ⟨before, b, after, he', hP⟩
  · rintro (hP | ⟨before, b, after, rfl, hP⟩)
    · exact ⟨[], a, l, rfl, hP⟩
    · exact ⟨a :: before, b, after, rfl, hP⟩

theorem exists_split_iff_get (P : List α → α → Prop) (l : List α) :
    (∃ before b after, l = before ++ b :: after ∧ P before b) ↔ ∃ i : Fin l.length, P (l.take i) (l.get i) := by
  constructor
  · rintro ⟨before, b, after, rfl, hP⟩
    exact ⟨⟨before.length, by simp⟩, by simpa using hP⟩
  · rintro ⟨i, hP⟩
    refine ⟨l.take i, l.get i, l.drop (i + 1), ?_, hP⟩
    rw [get_eq_getElem, ← drop_eq_getElem_cons, take_append_drop]

theorem mem_map_take_iff {κ : Type} (f : α → κ) (l : List α) (i : Fin l.length) (v : κ) :
    v ∈ (l.take i).map f ↔ ∃ j : Fin l.length, j < i ∧ f (l.get j) = v := by
  constructor
  · intro h
    obtain ⟨a, ha, rfl⟩ := mem_map.1 h
    obtain ⟨j, hj, rfl⟩ := mem_take_iff_getElem.1 ha
    exact ⟨⟨j, by omega⟩, by simp only [Fin.lt_def]; omega, rfl⟩
  · rintro ⟨j, hj, rfl⟩
    refine mem_map.2 ⟨l.get j, ?_, rfl⟩
    exact mem_take_iff_getElem.2 ⟨j, by simp only [Fin.lt_def] at hj; omega, rfl⟩

theorem split_unique {κ : Type} (f : α → κ) {before before' after after' : List α} {a a' : α}
    (hd : ((before ++ a :: after).map f).Nodup) (he : before ++ a :: after = before' ++ a' :: after')
    (hf : f a = f a') : before = before' ∧ a = a' := by
  induction before generalizing before' with
  | nil =>
    cases before' with
    | nil => exact ⟨rfl, (List.cons.inj he).1⟩
    | cons b before' =>
      obtain ⟨rfl, rfl⟩ := List.cons.inj he
      refine absurd ?_ (nodup_cons.1 hd).1
      rw [hf]
      exact mem_map_of_mem (by simp)
  | cons b before ih =>
    cases before' with
    | nil =>
      obtain ⟨rfl, rfl⟩ := List.cons.inj he
      refine absurd ?_ (nodup_cons.1 hd).1
      rw [← hf]
      exact mem_map_of_mem (by simp)
    | cons b' before' =>
      obtain ⟨rfl, he'⟩ := List.cons.inj he
      obtain ⟨rfl, rfl⟩ := ih (nodup_cons.1 hd).2 he'
      exact ⟨rfl, rfl⟩

theorem eq_of_mem_flatMap {β : Type} {f : α → List β} {l : List α} (h : (l.flatMap f).Nodup) {a b : α} {x : β}
    (ha : a ∈ l) (hb : b ∈ l) (hxa : x ∈ f a) (hxb : x ∈ f b) : a = b := by
  induction l with
  | nil => cases ha
  | cons c l ih =>
    rw [flatMap_cons, nodup_append] at h
    have hapart {d : α} (hd : d ∈ l) (hxd : x ∈ f d) (hxc : x ∈ f c) : False :=
      h.2.2 x hxc x (mem_flatMap.2 ⟨d, hd, hxd⟩) rfl
    rcases mem_cons.1 ha with rfl | ha'
    · rcases mem_cons.1 hb with rfl | hb'
      · rfl
      · exact (hapart hb' hxb hxa).elim
    rcases mem_cons.1 hb with rfl | hb'
    · exact (hapart ha' hxa hxb).elim
    · exact ih h.2.1 ha' hb'

section Firsts

variable {ι κ : Type} [Fintype ι] [LinearOrder ι] [DecidableEq κ]

theorem card_firsts (f : ι → κ) (i : ι) {firsts : Finset ι}
    (hf : ∀ j, j ∈ firsts ↔ (∀ k, f k = f j → ¬ k < j) ∧ j < i) :
    firsts.card = ((Finset.univ.filter (· < i)).image f).card := by
  have himage : firsts.image f = (Finset.univ.filter (· < i)).image f := by
    apply Finset.Subset.antisymm
    · exact Finset.image_subset_image fun j hj => by simp [((hf j).1 hj).2]
    · intro v hv
      obtain ⟨j, hj, rfl⟩ := Finset.mem_image.1 hv
      -- the least index with the value of `j`
      obtain ⟨k, hk, hmin⟩ := Finset.exists_min_image (Finset.univ.filter fun k => f k = f j) id ⟨j, by simp⟩
      have hkj := (Finset.mem_filter.1 hk).2
      have hle (m : ι) (hm : f m = f j) : k ≤ m := hmin m (by simp [hm])
      refine Finset.mem_image.2 ⟨k, (hf k).2 ⟨fun m hm => ?_, ?_⟩, hkj⟩
      · exact not_lt.2 (hle m (hm.trans hkj))
      · exact lt_of_le_of_lt (hle j rfl) (Finset.mem_filter.1 hj).2
  rw [← himage, Finset.card_image_of_injOn]
  intro j hj k hk hjk
  have hj' := ((hf j).1 hj).1
  have hk' := ((hf k).1 hk).1
  exact le_antisymm (not_lt.1 (hj' k hjk.symm)) (not_lt.1 (hk' j hjk))

end Firsts

end Dbr2.Lib
