import Mathlib.Data.List.Nodup

/-! A table with a primary key.

No key stands twice among the rows. A statement changes the rows that its WHERE clause selects
(`update`), takes them out (`delete`), or adds a row unless its key is taken (`insert`). In a
`Serial` table the keys are generated: one that was used is not used again. What its caller hears of
a statement is an `Answer`. -/
namespace Dbr2.Lib
open List

/-- A statement may fail before its effect, or its answer may be lost after it. -/
inductive Answer
  | ok
  | refused
  | lost
  deriving DecidableEq

def Answer.applied : Answer → Bool
  | .refused => false
  | _ => true

structure Table {κ ρ : Type} (key : ρ → κ) where
  rows : List ρ
  keys : (rows.map key).Nodup

namespace Table
variable {κ ρ : Type} {key : ρ → κ} [DecidableEq κ] (t : Table key) {k : κ} {r : ρ} {p : ρ → Bool}

def empty : Table key := ⟨[], nodup_nil⟩

def find (k : κ) : Option ρ := t.rows.find? fun r => decide (key r = k)

/-- UPDATE of the rows with `p`; it leaves the key. -/
def update (p : ρ → Bool) (f : ρ → ρ) (hf : ∀ r, key (f r) = key r) : Table key where
  rows := t.rows.map fun r => if p r then f r else r
  keys := by
    have hsame : key ∘ (fun r => if p r then f r else r) = key := by
      funext r
      show key (if p r then f r else r) = key r
      split
      · exact hf r
      · rfl
    rw [map_map, hsame]
    exact t.keys

def delete (p : ρ → Bool) : Table key where
  rows := t.rows.filter (!p ·)
  keys := t.keys.sublist (filter_sublist.map key)

def insert (r : ρ) : Table key :=
  if h : key r ∈ t.rows.map key then t
  else
    { rows := t.rows ++ [r]
      keys := by
        rw [map_append]
        exact nodup_append.2 ⟨t.keys, nodup_singleton _,
          fun a ha b hb hab => h (mem_singleton.1 hb ▸ hab ▸ ha)⟩ }

variable {t}

theorem find_eq_some_iff : t.find k = some r ↔ r ∈ t.rows ∧ key r = k := by
  constructor
  · intro h
    exact ⟨mem_of_find?_eq_some h, by simpa using find?_some h⟩
  · intro ⟨hmem, hkey⟩
    obtain ⟨r', hr'⟩ : ∃ r', t.find k = some r' :=
      Option.isSome_iff_exists.1 (find?_isSome.2 ⟨r, hmem, decide_eq_true hkey⟩)
    have hkey' : key r' = k := by simpa using find?_some hr'
    rw [hr', inj_on_of_nodup_map t.keys (mem_of_find?_eq_some hr') hmem (hkey'.trans hkey.symm)]

theorem find_eq_none_iff : t.find k = none ↔ k ∉ t.rows.map key := by
  constructor
  · intro h hmem
    obtain ⟨r, hr, hk⟩ := mem_map.1 hmem
    rw [find_eq_some_iff.2 ⟨hr, hk⟩] at h
    cases h
  · intro h
    rw [Option.eq_none_iff_forall_ne_some]
    intro r hr
    obtain ⟨hmem, hk⟩ := find_eq_some_iff.1 hr
    exact h (mem_map.2 ⟨r, hmem, hk⟩)

theorem key_of_find (h : t.find k = some r) : key r = k := (find_eq_some_iff.1 h).2

theorem find_update (p : ρ → Bool) (f : ρ → ρ) (hf : ∀ r, key (f r) = key r) :
    (t.update p f hf).find k = (t.find k).map fun r => if p r then f r else r := by
  have hsame : (fun r => decide (key r = k)) ∘ (fun r => if p r then f r else r) = fun r => decide (key r = k) := by
    funext r
    show decide (key (if p r then f r else r) = k) = decide (key r = k)
    split
    · rw [hf]
    · rfl
  unfold find update
  rw [find?_map, hsame]

theorem find_delete (p : ρ → Bool) : (t.delete p).find k = (t.find k).filter (!p ·) := by
  apply Option.ext
  intro r
  rw [find_eq_some_iff, Option.filter_eq_some_iff, find_eq_some_iff]
  show r ∈ t.rows.filter (!p ·) ∧ key r = k ↔ _
  rw [mem_filter]
  exact and_right_comm

theorem find_insert (r : ρ) : (t.insert r).find k = if key r = k then some ((t.find k).getD r) else t.find k := by
  unfold insert
  split
  · rename_i h
    split
    · rename_i hk
      obtain ⟨r', hr'⟩ := Option.ne_none_iff_exists'.1 fun hnone => find_eq_none_iff.1 hnone (hk ▸ h)
      rw [hr']
      rfl
    · rfl
  rename_i h
  show (t.rows ++ [r]).find? (fun r => decide (key r = k)) = _
  rw [find?_append]
  split
  · rename_i hk
    have hnone := find_eq_none_iff.2 (hk ▸ h)
    rw [hnone, show t.rows.find? (fun r => decide (key r = k)) = none from hnone]
    simp [hk]
  · rename_i hk
    simp [find, hk]

end Table

structure Serial {ρ : Type} (key : ρ → Nat) where
  table : Table key
  next : Nat
  below : ∀ r ∈ table.rows, key r < next

namespace Serial
variable {ρ : Type} {key : ρ → Nat} (t : Serial key) {k : Nat} {r : ρ}

def find (k : Nat) : Option ρ := t.table.find k

def update (p : ρ → Bool) (f : ρ → ρ) (hf : ∀ r, key (f r) = key r) : Serial key where
  table := t.table.update p f hf
  next := t.next
  below := by
    intro r hr
    obtain ⟨r', hr', rfl⟩ := mem_map.1 hr
    split
    · rw [hf]
      exact t.below r' hr'
    · exact t.below r' hr'

def delete (p : ρ → Bool) : Serial key where
  table := t.table.delete p
  next := t.next
  below := fun r hr => t.below r (mem_filter.1 hr).1

/-- INSERT of the row that `f` makes of a new key. -/
def insert (f : Nat → ρ) (hf : ∀ n, key (f n) = n) : Serial key where
  table := t.table.insert (f t.next)
  next := t.next + 1
  below := by
    intro r hr
    have hfind := Table.find_eq_some_iff.2 ⟨hr, rfl⟩
    rw [Table.find_insert, hf] at hfind
    split at hfind
    · rename_i hk
      exact Nat.lt_succ_of_le (Nat.le_of_eq hk.symm)
    · exact Nat.lt_succ_of_lt (t.below r (Table.find_eq_some_iff.1 hfind).1)

variable {t}

theorem rows_insert (f : Nat → ρ) (hf : ∀ n, key (f n) = n) :
    (t.insert f hf).table.rows = t.table.rows ++ [f t.next] := by
  have hnew : key (f t.next) ∉ t.table.rows.map key := by
    intro hmem
    obtain ⟨r, hr, hk⟩ := mem_map.1 hmem
    exact absurd (t.below r hr) (by rw [hk, hf]; exact Nat.lt_irrefl _)
  show (t.table.insert (f t.next)).rows = _
  rw [Table.insert, dif_neg hnew]

theorem find_eq_some_iff : t.find k = some r ↔ r ∈ t.table.rows ∧ key r = k := Table.find_eq_some_iff

theorem lt_of_find (h : t.find k = some r) : k < t.next := by
  obtain ⟨hmem, rfl⟩ := find_eq_some_iff.1 h
  exact t.below r hmem

theorem find_next : t.find t.next = none := by
  cases h : t.find t.next with
  | none => rfl
  | some r => exact absurd (lt_of_find h) (Nat.lt_irrefl _)

theorem find_update (p : ρ → Bool) (f : ρ → ρ) (hf : ∀ r, key (f r) = key r) :
    (t.update p f hf).find k = (t.find k).map fun r => if p r then f r else r := Table.find_update p f hf

theorem find_delete (p : ρ → Bool) : (t.delete p).find k = (t.find k).filter (!p ·) := Table.find_delete p

theorem find_insert (f : Nat → ρ) (hf : ∀ n, key (f n) = n) :
    (t.insert f hf).find k = if k = t.next then some (f t.next) else t.find k := by
  have hnext : t.table.find t.next = none := find_next
  show (t.table.insert (f t.next)).find k = _
  rw [Table.find_insert, hf]
  by_cases hk : k = t.next
  · rw [if_pos hk.symm, if_pos hk, hk, hnext]
    rfl
  · rw [if_neg (Ne.symm hk), if_neg hk]
    rfl

end Serial
end Dbr2.Lib
