import Mathlib.Algebra.GroupWithZero.Nat
import Mathlib.Data.Finset.Max
import Mathlib.Data.List.Sort
import Dbr2.Inventory.Model
import Dbr2.Lib.Lex
import Dbr2.Lib.PathParts

/-! Data that no mount backs (`UnprotectedPaths` and `groupPath` in
`internal/inventory/analyze.go`).

Of the changed paths of a container that are left after the exclusions, the parents of other ones
are dropped, and the rest is counted by data directory. The parents are found by a look at the next
path in the sorted list. That is right for a list without duplicates in which what is below a
directory follows it at once. -/
namespace Dbr2.Inventory
open Lib Lib.GoPath List

def systemPrefixes : List Text :=
  ["/proc", "/sys", "/dev", "/tmp", "/var/tmp", "/run", "/var/run"].map String.toList

def dockerManaged : List Text :=
  ["/etc/hosts", "/etc/hostname", "/etc/resolv.conf", "/.dockerenv"].map String.toList

def lowSeverityPrefixes : List Text :=
  ["/var/log", "/var/cache", "/root/.cache", "/root/.npm", "/var/lib/apt", "/var/lib/dpkg", "/var/lib/rpm",
    "/etc", "/usr/local/share/ca-certificates", "/usr/share/ca-certificates"].map String.toList

inductive Severity
  | high | low
  deriving DecidableEq

structure Unprotected where
  (container path : Text)
  files : Nat
  severity : Severity
  reason : String
  deriving DecidableEq

def mountDests (c : Container) : List Text := c.mounts.map (·.destination) ++ c.tmpfs

/-- The changed paths that are left, as they are reported. Nothing is left of a container whose root
filesystem is read-only. -/
def leftPaths (c : Container) : List Text :=
  if c.readOnlyRootfs || c.changes.isEmpty then []
  else
    ((c.changes.filter (·.kind ≠ .deleted)).map fun ch => clean ch.path).filter fun p =>
      !(dockerManaged.contains p || under p systemPrefixes || under p (mountDests c) || ancestorOf p (mountDests c))

/-- The loop over the sorted paths: one is dropped if the next one is below it. -/
def dropParents : List Text → List Text
  | [] => []
  | [p] => [p]
  | p :: q :: rest =>
    if hasPrefix q (p ++ ['/']) then dropParents (q :: rest) else p :: dropParents (q :: rest)

def groupPath (p : Text) : Text :=
  let segs := (trimPrefix p ['/']).splitOn '/'
  let depth := if (["var", "usr", "opt", "srv", "home"].map String.toList).contains (segs.headD []) then 3 else 2
  if segs.length ≤ depth then
    if 1 < segs.length then '/' :: ['/'].intercalate segs.dropLast else '/' :: segs.headD []
  else '/' :: ['/'].intercalate (segs.take depth)

def lowSeverity (p : Text) : Bool :=
  under p lowSeverityPrefixes || contains p "/cache".toList || contains p "/.cache".toList

structure Agg where
  (files high : Nat)
  deriving DecidableEq

def Agg.add (a : Agg) (low : Bool) : Agg := ⟨a.files + 1, if low then a.high else a.high + 1⟩

def addFile (g : Text) (low : Bool) : List (Text × Agg) → List (Text × Agg)
  | [] => [(g, Agg.add ⟨0, 0⟩ low)]
  | (k, a) :: rest => if k = g then (k, a.add low) :: rest else (k, a) :: addFile g low rest

def groupFiles (leaves : List Text) : List (Text × Agg) :=
  leaves.foldl (fun groups p => addFile (groupPath p) (lowSeverity p) groups) []

def report (container : Text) (g : Text × Agg) : Unprotected :=
  if g.2.high = 0 then
    ⟨container, g.1, g.2.files, .low,
      "container-local logs, caches, certificates or runtime config: usually regenerated, but lost on recreation"⟩
  else
    ⟨container, g.1, g.2.files, .high,
      "writable path not backed by a volume or bind mount: lost when the container is recreated"⟩

def Unprotected.before (a b : Unprotected) : Bool :=
  if a.severity ≠ b.severity then a.severity == .high else decide (a.path ≤ b.path)

def unprotectedPaths (c : Container) : List Unprotected :=
  let leaves := dropParents ((leftPaths c).insertionSort (· ≤ ·))
  ((groupFiles leaves).map (report c.name)).insertionSort fun a b => a.before b

def Below (q p : Text) : Prop := q ≠ p ∧ hasPrefix q (trimRight p ++ ['/']) = true

instance (q p : Text) : Decidable (Below q p) := inferInstanceAs (Decidable (_ ∧ _))

def leafSet (c : Container) : Finset Text :=
  (leftPaths c).toFinset.filter fun p => ∀ q ∈ leftPaths c, ¬ Below q p

structure Complete (c : Container) : Prop where
  groups : ((unprotectedPaths c).map (·.path)).Nodup
  covered : ∀ p ∈ leafSet c, ∃ u ∈ unprotectedPaths c, u.path = groupPath p
  files : ∀ u ∈ unprotectedPaths c, u.files = ((leafSet c).filter fun p => groupPath p = u.path).card
  total : ((unprotectedPaths c).map (·.files)).sum = (leafSet c).card
  severity : ∀ u ∈ unprotectedPaths c,
    u.severity = .high ↔ ∃ p ∈ leafSet c, groupPath p = u.path ∧ lowSeverity p = false

/-- `r` goes on behind `p` with a character before the slash. -/
def Interposed (p r : Text) : Prop := ∃ a x, r = p ++ a :: x ∧ a < '/'

/-- No path is left twice; and what has others below it is not the root, and no path stands between
it and them. -/
def Orderly (c : Container) : Prop :=
  (leftPaths c).Nodup ∧ ∀ p ∈ leftPaths c, ∀ q ∈ leftPaths c, Below q p →
    p ≠ ['/'] ∧ ∀ r ∈ leftPaths c, ¬ Interposed p r

abbrev follows (q p : Text) : Bool := hasPrefix q (p ++ ['/'])

variable {c : Container} {m : List (Text × Agg)} {l : List Text} {q p : Text}

theorem follows_iff : follows q p = true ↔ ∃ x, q = p ++ '/' :: x := by
  constructor
  · exact exists_of_hasPrefix_slash
  · rintro ⟨x, rfl⟩
    exact List.isPrefixOf_iff_prefix.2 ⟨x, by simp⟩

theorem follows_lt (h : follows q p = true) : p < q := by
  obtain ⟨x, rfl⟩ := follows_iff.1 h
  exact lt_append_cons p '/' x

theorem dropParents_cons (p : Text) (l : List Text) :
    dropParents (p :: l) = if l.head?.any (follows · p) then dropParents l else p :: dropParents l := by
  cases l with
  | nil => rfl
  | cons q rest => rfl

theorem dropParents_sublist (l : List Text) : (dropParents l).Sublist l := by
  induction l with
  | nil => exact List.Sublist.slnil
  | cons p l ih =>
    rw [dropParents_cons]
    split
    · exact ih.cons p
    · exact ih.cons_cons p

theorem count_dropParents (h : ∀ q ∈ l, follows q p = false) : (dropParents l).count p = l.count p := by
  induction l with
  | nil => rfl
  | cons x l ih =>
    have hl := ih fun q hq => h q (mem_cons_of_mem x hq)
    rw [dropParents_cons]
    split
    · rename_i hnext
      have hne : x ≠ p := by
        rintro rfl
        obtain ⟨q, hq, hqx⟩ := (Option.any_eq_true _ _).1 hnext
        rw [h q (mem_cons_of_mem x (mem_of_head? hq))] at hqx
        cases hqx
      rw [hl, count_cons_of_ne hne]
    · rw [count_cons, count_cons, hl]

theorem mem_dropParents_of_two (hl : l.Pairwise (· ≤ ·)) (h : 2 ≤ l.count p) : p ∈ dropParents l := by
  induction l with
  | nil => simp at h
  | cons x l ih =>
    obtain ⟨hx, hl'⟩ := pairwise_cons.1 hl
    rw [dropParents_cons]
    by_cases hxp : x = p
    · subst hxp
      rw [count_cons_self] at h
      have hmem : x ∈ l := count_pos_iff.1 (by omega)
      -- the next path is equal, and does not follow
      obtain ⟨y, rest, rfl⟩ := exists_cons_of_ne_nil (ne_nil_of_mem hmem)
      have hy : y = x := by
        apply le_antisymm
        · rcases mem_cons.1 hmem with hxy | hxrest
          · exact le_of_eq hxy.symm
          · exact (pairwise_cons.1 hl').1 x hxrest
        · exact hx y mem_cons_self
      have hno : ((y :: rest).head?.any (follows · x)) ≠ true := by
        intro hany
        have hfollows := hany
        rw [hy] at hfollows
        exact lt_irrefl _ (follows_lt hfollows)
      rw [if_neg hno]
      exact mem_cons_self
    rw [count_cons_of_ne hxp] at h
    have hmem := ih hl' h
    split
    · exact hmem
    · exact mem_cons_of_mem x hmem

theorem not_mem_dropParents_iff (hl : l.Pairwise (· < ·)) (hp : p ∈ l) :
    p ∉ dropParents l ↔ ∃ q ∈ l, follows q p = true ∧ ∀ r ∈ l, p < r → q ≤ r := by
  induction l with
  | nil => cases hp
  | cons x l ih =>
    obtain ⟨hx, hl'⟩ := pairwise_cons.1 hl
    by_cases hxp : x = p
    · subst hxp
      have hnot : x ∉ dropParents l := fun hm => lt_irrefl x (hx x ((dropParents_sublist l).subset hm))
      have hiff : x ∉ dropParents (x :: l) ↔ l.head?.any (follows · x) = true := by
        rw [dropParents_cons]
        split
        · rename_i hany
          exact iff_of_true hnot hany
        · rename_i hany
          exact iff_of_false (fun hm => hm mem_cons_self) hany
      rw [hiff]
      constructor
      · intro hany
        obtain ⟨y, hy, hfol⟩ := (Option.any_eq_true _ _).1 hany
        obtain ⟨rest, rfl⟩ : ∃ rest, l = y :: rest := head?_eq_some_iff.1 hy
        refine ⟨y, by simp, hfol, fun r hr hlt => ?_⟩
        rcases mem_cons.1 hr with rfl | hr
        · exact absurd hlt (lt_irrefl _)
        rcases mem_cons.1 hr with rfl | hr
        · exact le_refl _
        · exact le_of_lt ((pairwise_cons.1 hl').1 r hr)
      · rintro ⟨q, hq, hfol, hleast⟩
        have hql := (mem_cons.1 hq).resolve_left fun he => by
          subst he
          exact lt_irrefl q (follows_lt hfol)
        obtain ⟨y, rest, rfl⟩ := exists_cons_of_ne_nil (ne_nil_of_mem hql)
        have hqy : q = y := by
          apply le_antisymm (hleast y (by simp) (hx y mem_cons_self))
          rcases mem_cons.1 hql with rfl | hqr
          · exact le_refl _
          · exact le_of_lt ((pairwise_cons.1 hl').1 q hqr)
        subst hqy
        exact hfol
    · have hpl := (mem_cons.1 hp).resolve_left fun he => hxp he.symm
      have hxltp := hx p hpl
      have hiff : p ∉ dropParents (x :: l) ↔ p ∉ dropParents l := by
        rw [dropParents_cons]
        split
        · exact Iff.rfl
        · rw [mem_cons, not_or]
          exact and_iff_right fun he => hxp he.symm
      rw [hiff, ih hl' hpl]
      constructor
      · rintro ⟨q, hq, hfol, hleast⟩
        refine ⟨q, mem_cons_of_mem x hq, hfol, fun r hr hlt => ?_⟩
        rcases mem_cons.1 hr with rfl | hr
        · exact absurd hlt (lt_asymm hxltp)
        · exact hleast r hr hlt
      · rintro ⟨q, hq, hfol, hleast⟩
        have hql := (mem_cons.1 hq).resolve_left fun he => by
          subst he
          exact lt_asymm hxltp (follows_lt hfol)
        exact ⟨q, hql, hfol, fun r hr hlt => hleast r (mem_cons_of_mem x hr) hlt⟩

theorem least_follows_iff : (∃ q ∈ l, follows q p = true ∧ ∀ r ∈ l, p < r → q ≤ r) ↔
      (∃ q ∈ l, follows q p = true) ∧ ∀ r ∈ l, ¬ Interposed p r := by
  constructor
  · rintro ⟨q, hq, hfol, hleast⟩
    refine ⟨⟨q, hq, hfol⟩, ?_⟩
    rintro r hr ⟨a, x, rfl, ha⟩
    obtain ⟨y, rfl⟩ := follows_iff.1 hfol
    have hlt : p ++ a :: x < p ++ '/' :: y := by
      rw [append_lt_append_iff, cons_lt_cons_iff]
      exact .inl ha
    exact absurd hlt (not_lt.2 (hleast _ hr (lt_append_cons p a x)))
  · rintro ⟨⟨q, hq, hfol⟩, hno⟩
    -- the least of the paths above `p`
    have hne : (l.toFinset.filter (p < ·)).Nonempty :=
      ⟨q, Finset.mem_filter.2 ⟨mem_toFinset.2 hq, follows_lt hfol⟩⟩
    obtain ⟨m, hm, hleast⟩ := Finset.exists_min_image _ id hne
    obtain ⟨hml, hpm⟩ := Finset.mem_filter.1 hm
    rw [mem_toFinset] at hml
    have hmin : ∀ r ∈ l, p < r → m ≤ r := fun r hr hlt =>
      hleast r (Finset.mem_filter.2 ⟨mem_toFinset.2 hr, hlt⟩)
    refine ⟨m, hml, ?_, hmin⟩
    -- it is not behind `q`, so it begins with `p`
    have hmq := hmin q hq (follows_lt hfol)
    obtain ⟨y, rfl⟩ := follows_iff.1 hfol
    obtain ⟨z, rfl⟩ := prefix_of_between (lt_asymm hpm) (not_lt.2 hmq)
    cases z with
    | nil =>
      rw [append_nil] at hpm
      exact absurd hpm (lt_irrefl p)
    | cons a x =>
      have hle : ¬ '/' < a := by
        intro hlt
        apply not_lt.2 hmq
        rw [append_lt_append_iff, cons_lt_cons_iff]
        exact .inl hlt
      have hge : ¬ a < '/' := fun hlt => hno _ hml ⟨a, x, rfl, hlt⟩
      have ha := le_antisymm (not_lt.1 hle) (not_lt.1 hge)
      exact follows_iff.2 ⟨x, by rw [ha]⟩

def counted (c : Container) : List Text := dropParents ((leftPaths c).insertionSort (· ≤ ·))

theorem exists_clean (h : p ∈ leftPaths c) : ∃ s, p = clean s := by
  unfold leftPaths at h
  split at h
  · cases h
  · obtain ⟨ch, -, hch⟩ := mem_map.1 (mem_of_mem_filter h)
    exact ⟨ch.path, hch.symm⟩

theorem follows_iff_below (hp : p ∈ leftPaths c) (hq : q ∈ leftPaths c) :
    follows q p = true ↔ Below q p ∧ p ≠ ['/'] := by
  obtain ⟨s, rfl⟩ := exists_clean hp
  obtain ⟨t, rfl⟩ := exists_clean hq
  by_cases hroot : clean s = ['/']
  · refine iff_of_false (fun hfol => ?_) fun h => h.2 hroot
    obtain ⟨x, hx⟩ := follows_iff.1 hfol
    rw [hroot] at hx
    exact clean_ne_slashes t x hx
  rw [Below, trimRight_clean hroot]
  constructor
  · intro hfol
    exact ⟨⟨(follows_lt hfol).ne', hfol⟩, hroot⟩
  · intro h
    exact h.1.2

theorem mem_leafSet : p ∈ leafSet c ↔ p ∈ leftPaths c ∧ ∀ q ∈ leftPaths c, ¬ Below q p := by
  rw [leafSet, Finset.mem_filter, mem_toFinset]

theorem sorted_leftPaths (c : Container) : ((leftPaths c).insertionSort (· ≤ ·)).Pairwise (· ≤ ·) :=
  pairwise_insertionSort (· ≤ ·) (leftPaths c)

theorem perm_leftPaths (c : Container) : ((leftPaths c).insertionSort (· ≤ ·)).Perm (leftPaths c) :=
  perm_insertionSort (· ≤ ·) (leftPaths c)

theorem mem_of_counted (h : p ∈ counted c) : p ∈ leftPaths c :=
  (perm_leftPaths c).mem_iff.1 ((dropParents_sublist _).subset h)

theorem count_counted (h : p ∈ leafSet c) : (counted c).count p = (leftPaths c).count p := by
  obtain ⟨hp, hleaf⟩ := mem_leafSet.1 h
  rw [← (perm_leftPaths c).count_eq p]
  apply count_dropParents
  intro q hq
  have hq' := (perm_leftPaths c).mem_iff.1 hq
  exact Bool.eq_false_iff.2 fun hfol => hleaf q hq' ((follows_iff_below hp hq').1 hfol).1

theorem leafSet_subset_counted (c : Container) : leafSet c ⊆ (counted c).toFinset := by
  intro p hp
  have hcount := count_counted hp
  have hpos := count_pos_iff.2 (mem_leafSet.1 hp).1
  exact mem_toFinset.2 (count_pos_iff.1 (by omega))

theorem not_mem_counted_iff (hnodup : (leftPaths c).Nodup) (hp : p ∈ leftPaths c) : p ∉ counted c ↔
      (∃ q ∈ leftPaths c, Below q p) ∧ p ≠ ['/'] ∧ ∀ r ∈ leftPaths c, ¬ Interposed p r := by
  have hperm := perm_leftPaths c
  have hasc :=
    (pairwise_and_iff.2 ⟨sorted_leftPaths c, hperm.nodup_iff.2 hnodup⟩).imp fun h => lt_of_le_of_ne h.1 h.2
  rw [counted, not_mem_dropParents_iff hasc (hperm.mem_iff.2 hp), least_follows_iff]
  constructor
  · rintro ⟨⟨q, hq, hfol⟩, hno⟩
    have hq' := hperm.mem_iff.1 hq
    obtain ⟨hbelow, hroot⟩ := (follows_iff_below hp hq').1 hfol
    exact ⟨⟨q, hq', hbelow⟩, hroot, fun r hr => hno r (hperm.mem_iff.2 hr)⟩
  · rintro ⟨⟨q, hq, hbelow⟩, hroot, hno⟩
    exact ⟨⟨q, hperm.mem_iff.2 hq, (follows_iff_below hp hq).2 ⟨hbelow, hroot⟩⟩,
      fun r hr => hno r (hperm.mem_iff.1 hr)⟩

theorem nodup_leftPaths (hnodup : (counted c).Nodup) (hleaf : ∀ p ∈ counted c, p ∈ leafSet c) :
    (leftPaths c).Nodup := by
  rw [nodup_iff_count_le_one]
  intro p
  by_contra htwice
  rw [not_le, ← (perm_leftPaths c).count_eq p] at htwice
  have hmem := mem_dropParents_of_two (sorted_leftPaths c) htwice
  have honce := nodup_iff_count_le_one.1 hnodup p
  rw [count_counted (hleaf p hmem), ← (perm_leftPaths c).count_eq p] at honce
  omega

theorem counted_iff (c : Container) : ((counted c).Nodup ∧ ∀ p ∈ counted c, p ∈ leafSet c) ↔ Orderly c := by
  constructor
  · rintro ⟨hnodup, hleaf⟩
    have hleft := nodup_leftPaths hnodup hleaf
    refine ⟨hleft, fun p hp q hq hbelow => ?_⟩
    have hnot : p ∉ counted c := fun hmem => (mem_leafSet.1 (hleaf p hmem)).2 q hq hbelow
    exact ((not_mem_counted_iff hleft hp).1 hnot).2
  · rintro ⟨hleft, horder⟩
    refine ⟨((perm_leftPaths c).nodup_iff.2 hleft).sublist (dropParents_sublist _), fun p hp => ?_⟩
    have hpl := mem_of_counted hp
    refine mem_leafSet.2 ⟨hpl, fun q hq hbelow => ?_⟩
    exact (not_mem_counted_iff hleft hpl).2 ⟨⟨q, hq, hbelow⟩, horder p hpl q hq hbelow⟩ hp

def aggOf (m : List (Text × Agg)) (g : Text) : Agg := (m.lookup g).getD ⟨0, 0⟩

theorem aggOf_addFile (m : List (Text × Agg)) (g k : Text) (low : Bool) :
    aggOf (addFile g low m) k = if k = g then (aggOf m k).add low else aggOf m k := by
  induction m with
  | nil =>
    by_cases hk : k = g
    · simp [addFile, aggOf, hk]
    · have hkg : (k == g) = false := by simpa using hk
      simp [addFile, aggOf, hk, lookup_cons, hkg]
  | cons e m ih =>
    obtain ⟨j, a⟩ := e
    unfold aggOf at ih ⊢
    by_cases hj : j = g
    · by_cases hk : k = g
      · simp [addFile, hj, hk]
      · have hkg : (k == g) = false := by simpa using hk
        simp [addFile, hj, hk, lookup_cons, hkg]
    by_cases hkj : k = j
    · simp [addFile, hj, hkj]
    · have hkj' : (k == j) = false := by simpa using hkj
      simpa [addFile, hj, lookup_cons, hkj'] using ih

theorem mem_keys_addFile (m : List (Text × Agg)) (g k : Text) (low : Bool) :
    k ∈ (addFile g low m).map (·.1) ↔ k = g ∨ k ∈ m.map (·.1) := by
  induction m with
  | nil => simp [addFile]
  | cons e m ih =>
    unfold addFile
    split
    · rename_i hj
      simp [hj]
    · simp only [map_cons, mem_cons, ih]
      tauto

theorem nodup_addFile (h : (m.map (·.1)).Nodup) (g : Text) (low : Bool) : ((addFile g low m).map (·.1)).Nodup := by
  induction m with
  | nil => simp [addFile]
  | cons e m ih =>
    obtain ⟨hnot, hm⟩ := nodup_cons.1 h
    unfold addFile
    split
    · exact h
    rename_i hj
    refine nodup_cons.2 ⟨fun hmem => ?_, ih hm⟩
    rcases (mem_keys_addFile m g e.1 low).1 hmem with he | he
    · exact hj he
    · exact hnot he

theorem sum_addFile (m : List (Text × Agg)) (g : Text) (low : Bool) :
    ((addFile g low m).map (·.2.files)).sum = (m.map (·.2.files)).sum + 1 := by
  induction m with
  | nil => simp [addFile, Agg.add]
  | cons e m ih =>
    unfold addFile
    split
    · simp only [map_cons, sum_cons, Agg.add]
      omega
    · simp only [map_cons, sum_cons, ih]
      omega

abbrev highIn (g p : Text) : Bool := decide (groupPath p = g) && !lowSeverity p

structure Tally (m : List (Text × Agg)) (seen : List Text) : Prop where
  keys : (m.map (·.1)).Nodup
  mem : ∀ g, g ∈ m.map (·.1) ↔ ∃ p ∈ seen, groupPath p = g
  entry : ∀ g, aggOf m g = ⟨seen.countP (groupPath · = g), seen.countP (highIn g)⟩
  sum : (m.map (·.2.files)).sum = seen.length

theorem Tally.step {seen : List Text} (h : Tally m seen) (p : Text) :
    Tally (addFile (groupPath p) (lowSeverity p) m) (seen ++ [p]) where
  keys := nodup_addFile h.keys _ _
  mem g := by
    rw [mem_keys_addFile, h.mem]
    constructor
    · rintro (rfl | ⟨q, hq, rfl⟩)
      · exact ⟨p, by simp, rfl⟩
      · exact ⟨q, by simp [hq], rfl⟩
    · rintro ⟨q, hq, rfl⟩
      rcases mem_append.1 hq with hq | hq
      · exact .inr ⟨q, hq, rfl⟩
      · exact .inl (by rw [mem_singleton.1 hq])
  entry g := by
    rw [aggOf_addFile, h.entry, countP_append, countP_append]
    by_cases hg : groupPath p = g
    · cases hlow : lowSeverity p <;> simp [hg, highIn, Agg.add, hlow]
    · simp [hg, highIn, Ne.symm hg]
  sum := by
    rw [sum_addFile, h.sum]
    simp

theorem Tally.foldl {seen : List Text} (h : Tally m seen) (leaves : List Text) :
    Tally (leaves.foldl (fun groups p => addFile (groupPath p) (lowSeverity p) groups) m) (seen ++ leaves) := by
  induction leaves generalizing m seen with
  | nil => simpa using h
  | cons p leaves ih =>
    have hnext := ih (h.step p)
    rwa [append_assoc] at hnext

theorem tally_groupFiles (leaves : List Text) : Tally (groupFiles leaves) leaves := by
  have hempty : Tally [] [] :=
    { keys := nodup_nil
      mem := by simp
      entry := by simp [aggOf]
      sum := rfl }
  exact hempty.foldl leaves

theorem aggOf_of_mem (h : (m.map (·.1)).Nodup) {g : Text} {a : Agg} (hmem : (g, a) ∈ m) : aggOf m g = a := by
  induction m with
  | nil => cases hmem
  | cons e m ih =>
    obtain ⟨hnot, hm⟩ := nodup_cons.1 h
    rcases mem_cons.1 hmem with rfl | hmem
    · simp [aggOf]
    have hge : (g == e.1) = false := by
      rw [beq_eq_false_iff_ne]
      rintro rfl
      exact hnot (mem_map.2 ⟨_, hmem, rfl⟩)
    have hlookup := ih hm hmem
    unfold aggOf at hlookup ⊢
    rw [lookup_cons, hge]
    exact hlookup

theorem report_path (container : Text) (g : Text × Agg) : (report container g).path = g.1 := by
  unfold report
  split <;> rfl

theorem report_files (container : Text) (g : Text × Agg) : (report container g).files = g.2.files := by
  unfold report
  split <;> rfl

theorem report_high (container : Text) (g : Text × Agg) : (report container g).severity = .high ↔ 0 < g.2.high := by
  unfold report
  split
  · rename_i h
    simp [h]
  · simp only [true_iff]
    omega

theorem perm_unprotectedPaths (c : Container) :
    (unprotectedPaths c).Perm ((groupFiles (counted c)).map (report c.name)) :=
  perm_insertionSort _ _

theorem paths_perm (c : Container) :
    ((unprotectedPaths c).map (·.path)).Perm ((groupFiles (counted c)).map (·.1)) := by
  have hperm := (perm_unprotectedPaths c).map (·.path)
  rw [map_map] at hperm
  exact hperm.trans (List.Perm.of_eq (map_congr_left fun g _ => report_path c.name g))

theorem sum_files (c : Container) : ((unprotectedPaths c).map (·.files)).sum = (counted c).length := by
  have hperm := (perm_unprotectedPaths c).map (·.files)
  rw [map_map] at hperm
  rw [hperm.sum_nat, ← (tally_groupFiles (counted c)).sum]
  exact congrArg List.sum (map_congr_left fun g _ => report_files c.name g)

theorem reported {u : Unprotected} (hu : u ∈ unprotectedPaths c) :
    u.files = (counted c).countP (groupPath · = u.path) ∧
      (u.severity = .high ↔ ∃ p ∈ counted c, groupPath p = u.path ∧ lowSeverity p = false) := by
  obtain ⟨⟨g, a⟩, hmem, rfl⟩ := mem_map.1 ((perm_unprotectedPaths c).mem_iff.1 hu)
  have htally := tally_groupFiles (counted c)
  have hentry := (aggOf_of_mem htally.keys hmem).symm.trans (htally.entry g)
  rw [report_files, report_path, report_high]
  simp only [hentry, countP_pos_iff]
  simp [highIn]

theorem complete_iff (c : Container) : Complete c ↔ (counted c).Nodup ∧ ∀ p ∈ counted c, p ∈ leafSet c := by
  have hsub := leafSet_subset_counted c
  constructor
  · intro h
    have hlen := (sum_files c).symm.trans h.total
    have hle := Finset.card_le_card hsub
    have hge := toFinset_card_le (counted c)
    have hset := Finset.eq_of_subset_of_card_le hsub (by omega)
    have hcard : (counted c).toFinset.card = (counted c).length := by omega
    refine ⟨Multiset.coe_nodup.1 (Multiset.toFinset_card_eq_card_iff_nodup.1 hcard), fun p hp => ?_⟩
    rw [hset]
    exact mem_toFinset.2 hp
  · rintro ⟨hnodup, hleaf⟩
    have hmem : ∀ p, p ∈ leafSet c ↔ p ∈ counted c := fun p =>
      ⟨fun hp => mem_toFinset.1 (hsub hp), hleaf p⟩
    have hset : leafSet c = (counted c).toFinset := by
      ext p
      rw [hmem, mem_toFinset]
    have htally := tally_groupFiles (counted c)
    refine ⟨(paths_perm c).nodup_iff.2 htally.keys, fun p hp => ?_, fun u hu => ?_, ?_, fun u hu => ?_⟩
    · have hkey := (htally.mem (groupPath p)).2 ⟨p, (hmem p).1 hp, rfl⟩
      obtain ⟨u, hu, hpath⟩ := mem_map.1 ((paths_perm c).mem_iff.2 hkey)
      exact ⟨u, hu, hpath⟩
    · have hgroup : (leafSet c).filter (groupPath · = u.path) =
          ((counted c).filter (groupPath · = u.path)).toFinset := by
        ext p
        simp [hmem]
      rw [(reported hu).1, hgroup, toFinset_card_of_nodup (hnodup.filter _), countP_eq_length_filter]
    · rw [sum_files, hset, toFinset_card_of_nodup hnodup]
    · rw [(reported hu).2]
      simp only [hmem]

/-- Unprotected data is reported completely if no path is left twice and, in the sorted list, what
is below a path follows it at once. -/
theorem unprotected_complete_iff (c : Container) : Complete c ↔ Orderly c :=
  (complete_iff c).trans (counted_iff c)

def siblingChanged : Container where
  id := "c1".toList
  name := "app".toList
  image := "app".toList
  imageID := []
  state := "running".toList
  labels := []
  env := []
  mounts := []
  networks := []
  networkMode := []
  readOnlyRootfs := false
  tmpfs := []
  changes := [⟨"/data".toList, .changed⟩, ⟨"/data/db".toList, .added⟩, ⟨"/data-old".toList, .added⟩]

/-- The directory is counted next to its file: `-` sorts before the slash. -/
theorem unprotected_counts_parent : ¬ Complete siblingChanged := by
  intro h
  have htotal := h.total
  revert htotal
  decide +kernel

end Dbr2.Inventory
