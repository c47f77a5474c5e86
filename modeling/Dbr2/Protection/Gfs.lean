import Mathlib.Data.Fintype.Fin
import Dbr2.Protection.Retention

/-! Grandfather-father-son: the set that a retention setting keeps, said without a loop.

`Gfs` speaks of places in a list of recovery points and of nothing but times: a place is kept if
none is newer, if fewer than `keep_last` are newer, or if, for one of the calendar rules, it is the
newest of its bucket and fewer than the rule's count of buckets have a newest recovery point that is
newer. -/
namespace Dbr2.Protection
open List

section Gfs
variable (rps : List RecoveryPoint)

def NewestFirst : Prop := rps.Pairwise fun a b => b.createdAt ≤ a.createdAt

instance : Decidable (NewestFirst rps) := inferInstanceAs (Decidable (rps.Pairwise _))

/-- Of a later time; of two of the same time, the one that is listed first. -/
def Newer (i j : Fin rps.length) : Prop :=
  (rps.get j).createdAt < (rps.get i).createdAt ∨ (rps.get i).createdAt = (rps.get j).createdAt ∧ i < j

instance (i j : Fin rps.length) : Decidable (Newer rps i j) := inferInstanceAs (Decidable (_ ∨ _))

def bucketOf (loc : Location) (p : Period) (i : Fin rps.length) : Int :=
  loc.key p (rps.get i).createdAt

def NewestOfBucket (loc : Location) (p : Period) (i : Fin rps.length) : Prop :=
  ∀ j, bucketOf rps loc p j = bucketOf rps loc p i → ¬ Newer rps j i

instance (loc : Location) (p : Period) (i : Fin rps.length) : Decidable (NewestOfBucket rps loc p i) :=
  inferInstanceAs (Decidable (∀ _, _))

def newerPlaces (i : Fin rps.length) : Finset (Fin rps.length) :=
  Finset.univ.filter fun j => Newer rps j i

/-- The newest of every bucket whose newest is newer than `i`. -/
def newerBuckets (loc : Location) (p : Period) (i : Fin rps.length) : Finset (Fin rps.length) :=
  Finset.univ.filter fun j => NewestOfBucket rps loc p j ∧ Newer rps j i

def Gfs (r : Retention) (loc : Location) (i : Fin rps.length) : Prop :=
  newerPlaces rps i = ∅ ∨ ((newerPlaces rps i).card : Int) < r.keepLast ∨
    ∃ p ∈ Period.all, NewestOfBucket rps loc p i ∧ ((newerBuckets rps loc p i).card : Int) < r.count p

end Gfs

section Sorted
variable {rps : List RecoveryPoint} (hs : NewestFirst rps)
include hs

theorem newer_iff (i j : Fin rps.length) : Newer rps i j ↔ i < j := by
  have hle {i j : Fin rps.length} (hij : i < j) : (rps.get j).createdAt ≤ (rps.get i).createdAt :=
    pairwise_iff_get.1 hs i j hij
  unfold Newer
  rcases lt_trichotomy i j with hij | rfl | hij
  · exact iff_of_true ((hle hij).lt_or_eq.imp id fun h => ⟨h.symm, hij⟩) hij
  · simp
  · refine iff_of_false (fun h => ?_) hij.asymm
    exact h.elim (hle hij).not_gt fun h => hij.asymm h.2

theorem card_newerPlaces (i : Fin rps.length) : (newerPlaces rps i).card = i := by
  simp only [newerPlaces, newer_iff hs, Fin.lt_def, Fin.card_filter_val_lt]
  omega

theorem newerPlaces_eq_empty (i : Fin rps.length) : newerPlaces rps i = ∅ ↔ rps.take i = [] := by
  rw [← Finset.card_eq_zero, card_newerPlaces hs, ← length_eq_zero_iff, length_take]
  omega

theorem newestOfBucket_iff (loc : Location) (p : Period) (i : Fin rps.length) : NewestOfBucket rps loc p i ↔
      loc.key p (rps.get i).createdAt ∉ (rps.take i).map (fun rp => loc.key p rp.createdAt) := by
  rw [Lib.mem_map_take_iff]
  simp only [NewestOfBucket, bucketOf, newer_iff hs, not_exists, not_and]
  exact forall_congr' fun j => imp_not_comm

theorem card_newerBuckets (loc : Location) (p : Period) (i : Fin rps.length) :
    (newerBuckets rps loc p i).card = ((rps.take i).map (fun rp => loc.key p rp.createdAt)).dedup.length := by
  have hkeys : (Finset.univ.filter (· < i)).image (bucketOf rps loc p) =
      ((rps.take i).map fun rp => loc.key p rp.createdAt).toFinset := by
    ext v
    rw [mem_toFinset, Lib.mem_map_take_iff]
    simp [bucketOf]
  have hfirst (j : Fin rps.length) : j ∈ newerBuckets rps loc p i ↔
      (∀ k, bucketOf rps loc p k = bucketOf rps loc p j → ¬ k < j) ∧ j < i := by
    simp [newerBuckets, NewestOfBucket, newer_iff hs]
  rw [Lib.card_firsts _ i hfirst, hkeys, card_toFinset]

theorem gfs_iff_kept (r : Retention) (loc : Location) (i : Fin rps.length) :
    Gfs rps r loc i ↔ Kept r loc (rps.take i) (rps.get i) := by
  have hlen : (rps.take i).length = i := by simp
  simp only [Gfs, Kept, OpensPeriod, newerPlaces_eq_empty hs, card_newerPlaces hs, newestOfBucket_iff hs,
    card_newerBuckets hs, hlen]

theorem mem_retentionKeep_gfs (r : Retention) (loc : Location) (id : String) :
    id ∈ retentionKeep rps r loc ↔ ∃ i, Gfs rps r loc i ∧ (rps.get i).id = id := by
  rw [mem_retentionKeep_iff, Lib.exists_split_iff_get fun newer u => RecoveryPoint.id u = id ∧ Kept r loc newer u]
  simp only [gfs_iff_kept hs, and_comm]

end Sorted

structure Retention.Le (r r' : Retention) : Prop where
  keepLast : r.keepLast ≤ r'.keepLast
  count (p : Period) : r.count p ≤ r'.count p

theorem Kept.le {r r' : Retention} (hle : r.Le r') {loc : Location} {newer : List RecoveryPoint}
    {u : RecoveryPoint} (h : Kept r loc newer u) : Kept r' loc newer u := by
  rcases h with h | h | ⟨p, hp, hfirst, hcount⟩
  · exact .inl h
  · exact .inr (.inl (lt_of_lt_of_le h hle.keepLast))
  · exact .inr (.inr ⟨p, hp, hfirst, lt_of_lt_of_le hcount (hle.count p)⟩)

theorem retentionKeep_mono {r r' : Retention} (hle : r.Le r') (rps : List RecoveryPoint) (loc : Location) :
    retentionKeep rps r loc ⊆ retentionKeep rps r' loc := by
  intro id hid
  obtain ⟨newer, u, older, he, hu, hk⟩ := (mem_retentionKeep_iff ..).1 hid
  exact (mem_retentionKeep_iff ..).2 ⟨newer, u, older, he, hu, hk.le hle⟩

def keptPoints (rps : List RecoveryPoint) (r : Retention) (loc : Location) : List RecoveryPoint :=
  rps.filter fun rp => rp.id ∈ retentionKeep rps r loc

theorem retentionKeep_again (rps : List RecoveryPoint) (r : Retention) (loc : Location) :
    retentionKeep rps r loc ⊆ retentionKeep (keptPoints rps r loc) r loc := by
  intro id hid
  obtain ⟨newer, u, older, he, rfl, hk⟩ := (mem_retentionKeep_iff ..).1 hid
  refine (mem_retentionKeep_iff ..).2 ⟨newer.filter fun rp => rp.id ∈ retentionKeep rps r loc, u,
    older.filter fun rp => rp.id ∈ retentionKeep rps r loc, ?_, rfl, hk.mono filter_sublist⟩
  have hu : decide (u.id ∈ retentionKeep rps r loc) = true := decide_eq_true hid
  unfold keptPoints
  conv_lhs => arg 2; rw [he]
  rw [filter_append, filter_cons, if_pos hu]

/-- **Retention keeps the grandfather-father-son set.** Of every list that is sorted newest
first, exactly the ids of the set are kept; more counts keep more; and a second pass, over the
kept recovery points alone, keeps all of them. -/
theorem retentionKeep_is_gfs (rps : List RecoveryPoint) (hs : NewestFirst rps) (loc : Location) :
    (∀ r id, id ∈ retentionKeep rps r loc ↔ ∃ i, Gfs rps r loc i ∧ (rps.get i).id = id) ∧
    (∀ r r', r.Le r' → retentionKeep rps r loc ⊆ retentionKeep rps r' loc) ∧
    (∀ r, ∀ rp ∈ keptPoints rps r loc, rp.id ∈ retentionKeep (keptPoints rps r loc) r loc) := by
  refine ⟨fun r => mem_retentionKeep_gfs hs r loc, fun r r' hle => retentionKeep_mono hle rps loc, fun r rp hrp => ?_⟩
  exact retentionKeep_again rps r loc (of_decide_eq_true (mem_filter.1 hrp).2)

/-- Five recovery points, two of them of one time. -/
theorem retentionKeep_is_gfs_sample : let rp (id : String) (createdAt : Time) : RecoveryPoint :=
      ⟨id, "app", "repo", .committed, createdAt, none, true⟩
    let rps := [rp "e" 7200000000, rp "d" 3600000000, rp "c" 3600000000, rp "b" 1, rp "a" (-1)]
    NewestFirst rps ∧ (∀ r id, id ∈ retentionKeep rps r Location.utc ↔
      ∃ i, Gfs rps r Location.utc i ∧ (rps.get i).id = id) :=
  ⟨by decide, (retentionKeep_is_gfs _ (by decide) Location.utc).1⟩

end Dbr2.Protection
