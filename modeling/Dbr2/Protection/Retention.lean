import Dbr2.Lib.Lists

/-! Which recovery points of one application a policy's retention keeps.

`retentionKeep` walks the committed recovery points, newest first: the `keep_last` newest, the
newest of each of the latest hours, days, ISO weeks, months and years the policy counts, and always
the first of the list. The file ends with what that means for one recovery point
(`mem_retentionKeep_iff`, `mem_retentionKeep`): it is kept exactly when few enough recovery points
are newer, or when it opens one of the newest periods of a rule. -/
namespace Dbr2.Protection
open List

/-- Microseconds since the epoch, the resolution of the index's timestamps. -/
abbrev Time := Int

/-- The UTC offset, in seconds, that a time zone has at each Unix second. -/
abbrev Location := Int → Int

def Location.utc : Location := fun _ => 0

inductive RecoveryPointState
  | pending
  | committed
  | failed
  | missing
  | deleting
  | deleted
  deriving DecidableEq

structure RecoveryPoint where
  (id applicationId repositoryId : String)
  state : RecoveryPointState
  createdAt : Time
  deleteAfter : Option Time
  hasManifest : Bool
  deriving DecidableEq

structure Retention where
  (keepLast keepHourly keepDaily keepWeekly keepMonthly keepYearly : Int)
  deriving DecidableEq

inductive Period
  | hour
  | day
  | week
  | month
  | year
  deriving DecidableEq

def Period.all : List Period := [.hour, .day, .week, .month, .year]

def Location.seconds (loc : Location) (t : Time) : Int :=
  t / 1000000 + loc (t / 1000000)

/-- Months since year 0 of a day counted from 1970-01-01, in the proleptic
Gregorian calendar. Years are counted from March, so that the leap day is last. -/
def civilMonth (day : Int) : Int :=
  let z := day + 719468
  let era := z / 146097
  let doe := z - era * 146097
  let yoe := (doe - doe / 1460 + doe / 36524 - doe / 146096) / 365
  let doy := doe - (365 * yoe + yoe / 4 - yoe / 100)
  let mp := (5 * doy + 2) / 153
  12 * (yoe + era * 400) + mp + 2

example : civilMonth 0 = 12 * 1970 ∧ civilMonth 19782 = 12 * 2024 + 1 ∧ civilMonth 19783 = 12 * 2024 + 2 := by decide

/-- The period an instant falls in. Numbers stand for the source's formatted
texts: two instants share a number exactly when they share the text. ISO weeks
start on Monday; 1970-01-01 was a Thursday. -/
def Location.key (loc : Location) : Period → Time → Int
  | .hour, t => loc.seconds t / 3600
  | .day, t => loc.seconds t / 86400
  | .week, t => (loc.seconds t / 86400 + 3) / 7
  | .month, t => civilMonth (loc.seconds t / 86400)
  | .year, t => civilMonth (loc.seconds t / 86400) / 12

/-- The first loop of `retentionKeep`: the ids at an index below `keep_last`. The source
compares `int32(i)`, which is `i` for a list of fewer than 2^31 recovery points. -/
def keepNewest (n : Int) (i : Nat) : List RecoveryPoint → List String
  | [] => []
  | rp :: rps => if (i : Int) < n then rp.id :: keepNewest n (i + 1) rps else keepNewest n (i + 1) rps

/-- The loop of `bucket`, with the periods seen so far, whose number the source takes as an
`int32`. -/
def bucketFrom (n : Int) (key : Time → Int) (seen : List Int) : List RecoveryPoint → List String
  | [] => []
  | rp :: rps =>
    if key rp.createdAt ∈ seen then bucketFrom n key seen rps
    else if n ≤ seen.length then []
    else rp.id :: bucketFrom n key (key rp.createdAt :: seen) rps

def bucket (n : Int) (key : Time → Int) (rps : List RecoveryPoint) : List String :=
  if n ≤ 0 then [] else bucketFrom n key [] rps

/-- The ids that the policy keeps. -/
def retentionKeep (rps : List RecoveryPoint) (r : Retention) (loc : Location) : List String :=
  keepNewest r.keepLast 0 rps ++
  bucket r.keepHourly (loc.key .hour) rps ++
  bucket r.keepDaily (loc.key .day) rps ++
  bucket r.keepWeekly (loc.key .week) rps ++
  bucket r.keepMonthly (loc.key .month) rps ++
  bucket r.keepYearly (loc.key .year) rps ++
  -- never delete an application's latest recovery point
  (rps.head?.map (·.id)).toList

def Retention.count (r : Retention) : Period → Int
  | .hour => r.keepHourly
  | .day => r.keepDaily
  | .week => r.keepWeekly
  | .month => r.keepMonthly
  | .year => r.keepYearly

/-- No recovery point newer than `u` shares its period, and fewer than `n`
periods are newer than that one. -/
def OpensPeriod (n : Int) (key : Time → Int) (newer : List RecoveryPoint) (u : RecoveryPoint) : Prop :=
  key u.createdAt ∉ newer.map (fun rp => key rp.createdAt) ∧
    ((newer.map (fun rp => key rp.createdAt)).dedup.length : Int) < n

instance (n : Int) (key : Time → Int) (newer : List RecoveryPoint) (u : RecoveryPoint) :
    Decidable (OpensPeriod n key newer u) := inferInstanceAs (Decidable (_ ∧ _))

def Kept (r : Retention) (loc : Location) (newer : List RecoveryPoint) (u : RecoveryPoint) : Prop :=
  newer = [] ∨ (newer.length : Int) < r.keepLast ∨ ∃ p ∈ Period.all, OpensPeriod (r.count p) (loc.key p) newer u

instance (r : Retention) (loc : Location) (newer : List RecoveryPoint) (u : RecoveryPoint) :
    Decidable (Kept r loc newer u) := inferInstanceAs (Decidable (_ ∨ _ ∨ _))

theorem OpensPeriod.mono {n : Int} {key : Time → Int} {newer newer' : List RecoveryPoint}
    {u : RecoveryPoint} (hs : newer'.Sublist newer) (h : OpensPeriod n key newer u) :
    OpensPeriod n key newer' u := by
  have hm := (hs.map (fun rp => key rp.createdAt)).subset
  refine ⟨fun hu => h.1 (hm hu), lt_of_le_of_lt ?_ h.2⟩
  have hd : (newer'.map (fun rp => key rp.createdAt)).dedup ⊆ (newer.map (fun rp => key rp.createdAt)).dedup := by
    intro k hk
    exact mem_dedup.2 (hm (mem_dedup.1 hk))
  exact_mod_cast (subperm_of_subset (nodup_dedup _) hd).length_le

theorem Kept.mono {r : Retention} {loc : Location} {newer newer' : List RecoveryPoint}
    {u : RecoveryPoint} (hs : newer'.Sublist newer) (h : Kept r loc newer u) : Kept r loc newer' u := by
  rcases h with rfl | hl | ⟨p, hp, ho⟩
  · exact .inl (sublist_nil.1 hs)
  · exact .inr (.inl (lt_of_le_of_lt (by exact_mod_cast hs.length_le) hl))
  · exact .inr (.inr ⟨p, hp, ho.mono hs⟩)

theorem mem_keepNewest (n : Int) (i : Nat) (rps : List RecoveryPoint) (id : String) :
    id ∈ keepNewest n i rps ↔ ∃ newer u older, rps = newer ++ u :: older ∧
      u.id = id ∧ ((i + newer.length : Nat) : Int) < n := by
  induction rps generalizing i with
  | nil => simp [keepNewest]
  | cons rp rps ih =>
    have hi (k : Nat) : i + 1 + k = i + (k + 1) := by omega
    rw [Lib.exists_split_cons fun (newer : List RecoveryPoint) (u : RecoveryPoint) =>
        u.id = id ∧ ((i + newer.length : Nat) : Int) < n, keepNewest]
    split <;> rename_i hn
    · simp only [mem_cons, ih, length_cons, length_nil, Nat.add_zero, hn, and_true, hi,
        eq_comm (a := id)]
    · simp only [ih, length_cons, length_nil, Nat.add_zero, hn, and_false, false_or, hi]

/-- The loop of `bucket` keeps an id if the first recovery point of a period bears it, the
period was not seen, and fewer than `n` periods come before it. -/
theorem mem_bucketFrom (n : Int) (key : Time → Int) (seen : List Int) (hs : seen.Nodup)
    (rps : List RecoveryPoint) (id : String) :
    id ∈ bucketFrom n key seen rps ↔ ∃ newer u older, rps = newer ++ u :: older ∧ u.id = id ∧
      key u.createdAt ∉ seen ∧ key u.createdAt ∉ newer.map (fun rp => key rp.createdAt) ∧
      ((newer.map (fun rp => key rp.createdAt) ++ seen).dedup.length : Int) < n := by
  induction rps generalizing seen with
  | nil => simp [bucketFrom]
  | cons rp rps ih =>
    rw [Lib.exists_split_cons fun (newer : List RecoveryPoint) (u : RecoveryPoint) =>
        u.id = id ∧ key u.createdAt ∉ seen ∧
        key u.createdAt ∉ newer.map (fun rp => key rp.createdAt) ∧
        ((newer.map (fun rp => key rp.createdAt) ++ seen).dedup.length : Int) < n, bucketFrom]
    simp only [map_nil, nil_append, hs.dedup, not_mem_nil, not_false_eq_true, true_and,
      map_cons, cons_append, mem_cons, not_or]
    split <;> rename_i hk
    · -- the period of `rp` was seen: `rp` is not kept and changes nothing for the others
      rw [ih seen hs]
      simp only [hk, not_true_eq_false, false_and, and_false, false_or,
        dedup_cons_of_mem (mem_append_right _ hk)]
      have hne (u : RecoveryPoint) : key u.createdAt ∉ seen → key u.createdAt ≠ key rp.createdAt :=
        fun hu he => hu (he ▸ hk)
      grind
    split <;> rename_i hn
    · -- the bucket is full: every period counted so far comes before the ones that follow
      have hl (l : List Int) : seen.length ≤ (key rp.createdAt :: (l ++ seen)).dedup.length :=
        (subperm_of_subset hs (fun k hk => mem_dedup.2 (by simp [hk]))).length_le
      simp only [not_mem_nil, false_iff]
      rintro (⟨-, -, h⟩ | ⟨newer, u, older, -, -, -, -, h⟩)
      · omega
      · have := hl (newer.map fun rp => key rp.createdAt)
        omega
    have hp (l : List Int) : (l ++ key rp.createdAt :: seen).dedup.length =
        (key rp.createdAt :: (l ++ seen)).dedup.length :=
      perm_middle.dedup.length_eq
    simp only [mem_cons, ih _ (nodup_cons.2 ⟨hk, hs⟩), hp, not_or, hk, not_false_eq_true,
      not_le.1 hn, and_true, eq_comm (a := id), and_assoc]
    grind

theorem mem_bucket (n : Int) (key : Time → Int) (rps : List RecoveryPoint) (id : String) :
    id ∈ bucket n key rps ↔ ∃ newer u older, rps = newer ++ u :: older ∧ u.id = id ∧ OpensPeriod n key newer u := by
  rw [bucket]
  split
  · simp only [not_mem_nil, OpensPeriod, false_iff]
    rintro ⟨newer, u, older, -, -, -, h⟩
    omega
  · simpa [OpensPeriod] using mem_bucketFrom n key [] nodup_nil rps id

theorem mem_head (rps : List RecoveryPoint) (id : String) :
    id ∈ (rps.head?.map (·.id)).toList ↔ ∃ newer u older, rps = newer ++ u :: older ∧ u.id = id ∧ newer = [] := by
  cases rps with
  | nil => simp
  | cons rp rps =>
    rw [Lib.exists_split_cons fun (newer : List RecoveryPoint) (u : RecoveryPoint) => u.id = id ∧ newer = []]
    simp [eq_comm (a := id)]

/-- **What retention keeps.** An id is kept exactly when a recovery point bears it of which
`Kept` says so, after the recovery points before it. -/
theorem mem_retentionKeep_iff (rps : List RecoveryPoint) (r : Retention) (loc : Location) (id : String) :
    id ∈ retentionKeep rps r loc ↔ ∃ newer u older, rps = newer ++ u :: older ∧ u.id = id ∧ Kept r loc newer u := by
  simp only [retentionKeep, mem_append, mem_keepNewest, mem_bucket, mem_head, Kept,
    Period.all, mem_cons, not_mem_nil, or_false, exists_eq_or_imp, exists_eq_left,
    Retention.count, Nat.zero_add, and_or_left, exists_or]
  -- the newest is the last clause of the code and the first of `Kept`
  rw [or_comm]
  simp only [or_assoc]

theorem mem_retentionKeep {newer older : List RecoveryPoint} {u : RecoveryPoint} (r : Retention) (loc : Location)
    (hd : ((newer ++ u :: older).map (·.id)).Nodup) :
    u.id ∈ retentionKeep (newer ++ u :: older) r loc ↔ Kept r loc newer u := by
  rw [mem_retentionKeep_iff]
  constructor
  · rintro ⟨newer', u', older', he, hid, hk⟩
    obtain ⟨rfl, rfl⟩ := Lib.split_unique (·.id) hd he hid.symm
    exact hk
  · intro hk
    exact ⟨newer, u, older, rfl, rfl, hk⟩

end Dbr2.Protection
