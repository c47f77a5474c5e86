import Dbr2.Lib.Row
import Dbr2.Lib.Table

/-! A table whose rows transactions lock and change.

A keyed row has columns that never change, its `data`, and columns that do, a `Row` under READ
COMMITTED. A statement changes the rows that it selects (`updateRows`), that of one key
(`setRow`), or those of a transaction that ends (`commit`, `rollback`); the data stays
(`data_updateRows`). -/
namespace Dbr2.Lib

structure KeyedRow (δ σ : Type) where
  id : Nat
  data : δ
  row : Row σ

abbrev KeyedRows (δ σ : Type) := Table (fun e : KeyedRow δ σ => e.id)

namespace KeyedRows
variable {δ σ : Type} (t : KeyedRows δ σ)

def row (id : Nat) : Option (Row σ) := (t.find id).map (·.row)

def data (id : Nat) : Option δ := (t.find id).map (·.data)

def updateRows (p : KeyedRow δ σ → Bool) (f : Row σ → Row σ) : KeyedRows δ σ :=
  t.update p (fun e => {e with row := f e.row}) fun _ => rfl

def setRow (id : Nat) (f : Row σ → Row σ) : KeyedRows δ σ := t.updateRows (·.id == id) f

def commit (k : Nat) : KeyedRows δ σ := t.updateRows (fun _ => true) (·.commit k)

def rollback (k : Nat) : KeyedRows δ σ := t.updateRows (fun _ => true) (·.rollback k)

def enter (id : Nat) (d : δ) (v : σ) : KeyedRows δ σ := t.insert ⟨id, d, Row.ofValue v⟩

variable {t} {id : Nat}

theorem row_of_find {e : KeyedRow δ σ} (h : t.find id = some e) : t.row id = some e.row := by
  rw [row, h]
  rfl

theorem data_of_find {e : KeyedRow δ σ} (h : t.find id = some e) : t.data id = some e.data := by
  rw [data, h]
  rfl

theorem row_ne_none {d : δ} (h : t.data id = some d) : t.row id ≠ none := by
  obtain ⟨e, he, -⟩ := Option.map_eq_some_iff.1 h
  rw [row_of_find he]
  exact Option.some_ne_none _

theorem row_updateRows (p : KeyedRow δ σ → Bool) (f : Row σ → Row σ) (j : Nat) :
    (t.updateRows p f).row j = (t.find j).map fun e => if p e then f e.row else e.row := by
  simp only [row, updateRows, Table.find_update, Option.map_map]
  congr 1
  funext e
  simp only [Function.comp]
  split <;> rfl

@[simp] theorem data_updateRows (p : KeyedRow δ σ → Bool) (f : Row σ → Row σ) : (t.updateRows p f).data = t.data := by
  funext j
  simp only [data, updateRows, Table.find_update, Option.map_map]
  congr 1
  funext e
  simp only [Function.comp]
  split <;> rfl

/-- A WHERE clause on the key and the row. -/
theorem row_updateRows_where (p : Nat → Row σ → Bool) (f : Row σ → Row σ) (j : Nat) :
    (t.updateRows (fun e => p e.id e.row) f).row j = (t.row j).map fun r => if p j r then f r else r := by
  rw [row_updateRows, row, Option.map_map]
  cases h : t.find j with
  | none => rfl
  | some e =>
    have hj := Table.key_of_find h
    simp [hj]

theorem row_setRow (f : Row σ → Row σ) (j : Nat) :
    (t.setRow id f).row j = (t.row j).map fun r => if j = id then f r else r := by
  rw [setRow, row_updateRows_where fun j _ => j == id]
  simp only [beq_iff_eq]

theorem row_commit (k j : Nat) : (t.commit k).row j = (t.row j).map (·.commit k) := by
  rw [commit, row_updateRows, row, Option.map_map]
  rfl

theorem row_rollback (k j : Nat) : (t.rollback k).row j = (t.row j).map (·.rollback k) := by
  rw [rollback, row_updateRows, row, Option.map_map]
  rfl

theorem row_setRow_some {r : Row σ} (h : t.row id = some r) (f : Row σ → Row σ) (j : Nat) :
    (t.setRow id f).row j = if j = id then some (f r) else t.row j := by
  by_cases hj : j = id <;> simp [row_setRow, hj, h]

theorem row_enter (d : δ) (v : σ) (j : Nat) :
    (t.enter id d v).row j = if id = j then some ((t.row j).getD (Row.ofValue v)) else t.row j := by
  unfold row enter
  rw [Table.find_insert]
  split
  · cases h : t.find j <;> rfl
  · rfl

theorem data_enter (d : δ) (v : σ) (j : Nat) :
    (t.enter id d v).data j = if id = j then some ((t.data j).getD d) else t.data j := by
  unfold data enter
  rw [Table.find_insert]
  split
  · cases h : t.find j <;> rfl
  · rfl

end KeyedRows
end Dbr2.Lib
