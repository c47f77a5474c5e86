import Mathlib.Data.List.Nodup

/-! A table and the copy that a reader has made of it.

The table changes entry by entry; the copy is made anew on `load` and says nothing of
the changes since. `added` and `deleted` are these changes. A key is given to one entry
only, between two loads. An entry of the table is in the copy unless it was added since
(`mem_loaded_iff`); a key that is not in the table is in the copy if its entry was
deleted since, and was there at the load (`mem_loaded_keys_iff`). -/
namespace Dbr2.Lib
open List

structure Mirror (α κ : Type) [DecidableEq κ] (key : α → κ) where
  stored : List α
  loaded : List α
  added : List α
  deleted : List κ
  distinct : ((loaded ++ added).map key).Nodup
  stored_eq : stored = (loaded ++ added).filter fun a => key a ∉ deleted
  deleted_known : ∀ k ∈ deleted, k ∈ (loaded ++ added).map key

namespace Mirror
variable {α κ : Type} [DecidableEq κ] {key : α → κ} (m : Mirror α κ key)

def ofStored (l : List α) (h : (l.map key).Nodup) : Mirror α κ key where
  stored := l
  loaded := l
  added := []
  deleted := []
  distinct := by simpa using h
  stored_eq := by simp
  deleted_known := by simp

def Fresh (k : κ) : Prop := k ∉ (m.loaded ++ m.added).map key

instance Fresh.decidable (k : κ) : Decidable (m.Fresh k) :=
  inferInstanceAs (Decidable (k ∉ (m.loaded ++ m.added).map key))

variable {m} in
theorem Fresh.not_deleted {k : κ} (h : m.Fresh k) : k ∉ m.deleted := fun hd => h (m.deleted_known k hd)

theorem mem_stored {a : α} : a ∈ m.stored ↔ (a ∈ m.loaded ∨ a ∈ m.added) ∧ key a ∉ m.deleted := by
  rw [m.stored_eq, mem_filter, mem_append, decide_eq_true_iff]

def add (a : α) (h : m.Fresh (key a)) : Mirror α κ key where
  stored := m.stored ++ [a]
  loaded := m.loaded
  added := m.added ++ [a]
  deleted := m.deleted
  distinct := by
    rw [← append_assoc, map_append, map_singleton]
    exact List.Nodup.append m.distinct (nodup_singleton _) (disjoint_singleton.2 h)
  stored_eq := by
    rw [← append_assoc, filter_append, m.stored_eq]
    simp [h.not_deleted]
  deleted_known := by
    intro k hk
    rw [← append_assoc, map_append]
    exact mem_append_left _ (m.deleted_known k hk)

def delete (k : κ) : Mirror α κ key where
  stored := m.stored.filter (key · ≠ k)
  loaded := m.loaded
  added := m.added
  deleted := if k ∈ m.stored.map key then k :: m.deleted else m.deleted
  distinct := m.distinct
  stored_eq := by
    conv_lhs => rw [m.stored_eq, filter_filter]
    apply List.filter_congr
    intro a ha
    split
    · simp only [mem_cons, not_or, Bool.decide_and]
    rename_i hk
    -- nothing is left to delete: an entry of this key was deleted before
    by_cases hd : key a ∈ m.deleted
    · simp [hd]
    have hne : key a ≠ k := by
      rintro rfl
      exact hk (mem_map_of_mem (m.mem_stored.2 ⟨mem_append.1 ha, hd⟩))
    simp [hd, hne]
  deleted_known := by
    intro k' hk'
    split at hk'
    · rename_i hk
      rcases mem_cons.1 hk' with rfl | hk'
      · obtain ⟨a, ha, rfl⟩ := mem_map.1 hk
        exact mem_map_of_mem (mem_append.2 (m.mem_stored.1 ha).1)
      · exact m.deleted_known k' hk'
    · exact m.deleted_known k' hk'

theorem stored_distinct : (m.stored.map key).Nodup := by
  rw [m.stored_eq]
  exact m.distinct.sublist (filter_sublist.map _)

def load : Mirror α κ key := ofStored m.stored m.stored_distinct

theorem mem_loaded_iff {a : α} (ha : a ∈ m.stored) : a ∈ m.loaded ↔ key a ∉ m.added.map key := by
  have hd := nodup_append.1 ((map_append (f := key)) ▸ m.distinct)
  constructor
  · intro hl hk
    exact hd.2.2 _ (mem_map_of_mem hl) _ hk rfl
  · intro hk
    exact (m.mem_stored.1 ha).1.resolve_right fun h => hk (mem_map_of_mem h)

theorem mem_loaded_keys_iff {k : κ} (hk : k ∉ m.stored.map key) :
    k ∈ m.loaded.map key ↔ k ∈ m.deleted ∧ k ∉ m.added.map key := by
  have hd := nodup_append.1 ((map_append (f := key)) ▸ m.distinct)
  constructor
  · intro hl
    refine ⟨?_, fun ha => hd.2.2 _ hl _ ha rfl⟩
    obtain ⟨a, ha, rfl⟩ := mem_map.1 hl
    by_contra hdel
    exact hk (mem_map_of_mem (m.mem_stored.2 ⟨.inl ha, hdel⟩))
  · rintro ⟨hdel, ha⟩
    have h := m.deleted_known k hdel
    rw [map_append] at h
    exact (mem_append.1 h).resolve_right ha

theorem eq_of_key {a b : α} (ha : a ∈ m.stored) (hb : b ∈ m.loaded) (h : key a = key b) : a = b :=
  inj_on_of_nodup_map m.distinct (mem_append.2 (m.mem_stored.1 ha).1) (mem_append_left _ hb) h

end Mirror
end Dbr2.Lib
