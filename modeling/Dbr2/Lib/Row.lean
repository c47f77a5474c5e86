import Mathlib.Logic.Basic

/-! A row of a database under READ COMMITTED.

A statement reads what is committed, or the transaction's own change. An UPDATE locks the
row until its transaction ends: it waits for another transaction to end, and is then
applied to what that one has committed, not to what its own transaction has read before.
`Version` are the values a row has or may get, and `version_update`, `version_commit` and
`version_rollback` say where they come from. -/
namespace Dbr2.Lib

structure Row (σ : Type) where
  committed : σ
  /-- The transaction that has changed the row, and its value there. -/
  writer : Option (Nat × σ)

namespace Row
variable {σ : Type} (r : Row σ) (k : Nat)

def ofValue (v : σ) : Row σ := ⟨v, none⟩

def seen : σ :=
  match r.writer with
  | some (j, v) => if j = k then v else r.committed
  | none => r.committed

def free : Bool := r.writer.all fun w => w.1 == k

/-- UPDATE; nothing as long as it waits. -/
def update (f : σ → σ) : Option (Row σ) :=
  if r.free k then some ⟨r.committed, some (k, f (r.seen k))⟩ else none

def commit : Row σ :=
  match r.writer with
  | some (j, v) => if j = k then ⟨v, none⟩ else r
  | none => r

def rollback : Row σ :=
  match r.writer with
  | some (j, _) => if j = k then ⟨r.committed, none⟩ else r
  | none => r

/-- A value that is committed or may be. -/
def Version (v : σ) : Prop := v = r.committed ∨ ∃ j, r.writer = some (j, v)

variable {r k} {v : σ} {f : σ → σ} {r' : Row σ}

theorem version_committed : r.Version r.committed := .inl rfl

theorem version_seen : r.Version (r.seen k) := by
  unfold seen
  split
  · rename_i j v hw
    split
    · exact .inr ⟨j, hw⟩
    · exact .inl rfl
  · exact .inl rfl

theorem seen_of_ne (h : ∀ v, r.writer ≠ some (k, v)) : r.seen k = r.committed := by
  unfold seen
  split
  · rename_i j v hw
    rw [if_neg]
    rintro rfl
    exact h v hw
  · rfl

theorem update_eq_some (h : r.update k f = some r') :
    r.free k = true ∧ r' = ⟨r.committed, some (k, f (r.seen k))⟩ := by
  unfold update at h
  split at h
  · rename_i hfree
    exact ⟨hfree, (Option.some.inj h).symm⟩
  · cases h

theorem seen_of_writer (h : r.writer = some (k, v)) : r.seen k = v := by
  unfold seen
  rw [h]
  exact if_pos rfl

theorem commit_of_writer (h : r.writer = some (k, v)) : r.commit k = ofValue v := by
  unfold commit
  rw [h]
  exact if_pos rfl

theorem rollback_of_writer (h : r.writer = some (k, v)) : r.rollback k = ofValue r.committed := by
  unfold rollback
  rw [h]
  exact if_pos rfl

theorem eq_of_free {j : Nat} (h : r.free k = true) (hw : r.writer = some (j, v)) : j = k := by
  unfold free at h
  rw [hw] at h
  simpa using h

theorem commit_writer {j : Nat} (h : (r.commit k).writer = some (j, v)) : r.writer = some (j, v) := by
  unfold commit at h
  split at h
  · split at h
    · cases h
    · exact h
  · exact h

theorem rollback_writer {j : Nat} (h : (r.rollback k).writer = some (j, v)) : r.writer = some (j, v) := by
  unfold rollback at h
  split at h
  · split at h
    · cases h
    · exact h
  · exact h

theorem commit_of_ne (h : ∀ v, r.writer ≠ some (k, v)) : r.commit k = r := by
  unfold commit
  split
  · rename_i j v hw
    rw [if_neg]
    rintro rfl
    exact h v hw
  · rfl

theorem rollback_of_ne (h : ∀ v, r.writer ≠ some (k, v)) : r.rollback k = r := by
  unfold rollback
  split
  · rename_i j v hw
    rw [if_neg]
    rintro rfl
    exact h v hw
  · rfl

theorem version_update (h : r.update k f = some r') (hv : r'.Version v) : r.Version v ∨ v = f (r.seen k) := by
  obtain ⟨-, rfl⟩ := update_eq_some h
  rcases hv with hv | ⟨j, hv⟩
  · exact .inl (.inl hv)
  · exact .inr (Prod.mk.inj (Option.some.inj hv)).2.symm

theorem version_commit (hv : (r.commit k).Version v) : r.Version v := by
  unfold commit at hv
  split at hv
  · rename_i j u hw
    split at hv
    · rcases hv with hv | ⟨i, hv⟩
      · exact .inr ⟨j, hv ▸ hw⟩
      · cases hv
    · exact hv
  · exact hv

theorem version_rollback (hv : (r.rollback k).Version v) : r.Version v := by
  unfold rollback at hv
  split at hv
  · split at hv
    · rcases hv with hv | ⟨i, hv⟩
      · exact .inl hv
      · cases hv
    · exact hv
  · exact hv

end Row
end Dbr2.Lib
