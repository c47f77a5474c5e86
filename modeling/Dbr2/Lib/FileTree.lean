import Mathlib.Data.List.Infix

/-! File trees: a finite map from paths to entries in which every entry has its ancestors.

A path is the list of its names from the root down. What a path holds is its `view`: the entries at
and below it, by their place below it, nothing when the path is absent. All that is proved about
them is what a view becomes: it is replaced at the path itself, and kept at every path that is
`Apart` from it, neither above nor below. -/
namespace Dbr2.Lib
open List

/-- A directory, or something with content and nothing below it. -/
inductive Entry (β : Type) where
  | dir
  | file (content : β)
  deriving DecidableEq

structure FileTree (ν β : Type) where
  entries : List (List ν × Entry β)
  closed : ∀ e ∈ entries, ∀ p, p <+: e.1 → ∃ e' ∈ entries, e'.1 = p

/-- Neither path is at or below the other. -/
def Apart {ν : Type} (p q : List ν) : Prop := ¬ p <+: q ∧ ¬ q <+: p

instance {ν : Type} [DecidableEq ν] (p q : List ν) : Decidable (Apart p q) :=
  inferInstanceAs (Decidable (_ ∧ _))

theorem Apart.symm {ν : Type} {p q : List ν} (h : Apart p q) : Apart q p := ⟨h.2, h.1⟩

theorem Apart.not_prefix_append {ν : Type} {p q : List ν} (h : Apart p q) (r : List ν) : ¬ q <+: p ++ r := fun hq =>
  (List.prefix_or_prefix_of_prefix hq (prefix_append p r)).elim h.2 h.1

namespace FileTree
variable {ν β : Type} [DecidableEq ν]

instance : Inhabited (FileTree ν β) := ⟨⟨[], by simp⟩⟩

def ofEntries (es : List (List ν × Entry β)) (h : ∀ e ∈ es, ∀ p ∈ e.1.inits, ∃ e' ∈ es, e'.1 = p) : FileTree ν β :=
  ⟨es, fun e he p hp => h e he p ((mem_inits p e.1).2 hp)⟩

def lookup (p : List ν) : List (List ν × Entry β) → Option (Entry β)
  | [] => none
  | e :: es => if e.1 = p then some e.2 else lookup p es

variable {t : FileTree ν β} {p q : List ν}

theorem lookup_isSome_iff {es : List (List ν × Entry β)} : (lookup p es).isSome = true ↔ ∃ e ∈ es, e.1 = p := by
  induction es with
  | nil => simp [lookup]
  | cons e es ih =>
    by_cases he : e.1 = p
    · simp [lookup, he]
    · simp [lookup, he, ih]

theorem lookup_append (p : List ν) (es es' : List (List ν × Entry β)) :
    lookup p (es ++ es') = (lookup p es).or (lookup p es') := by
  induction es with
  | nil => rfl
  | cons e es ih =>
    by_cases he : e.1 = p
    · simp [lookup, he]
    · simp [lookup, he, ih]

theorem lookup_filter (p : List ν) (c : List ν → Bool) (es : List (List ν × Entry β)) :
    lookup p (es.filter (fun e => c e.1)) = if c p then lookup p es else none := by
  induction es with
  | nil => simp [lookup]
  | cons e es ih =>
    by_cases he : e.1 = p
    · subst he
      by_cases hc : c e.1 = true
      · simp [lookup, hc]
      · simp [hc, ih]
    by_cases hc : c e.1 = true
    · simp [lookup, hc, he, ih]
    · simp [lookup, hc, he, ih]

def strip (p : List ν) (e : List ν × Entry β) : Option (List ν × Entry β) :=
  if p <+: e.1 then some (e.1.drop p.length, e.2) else none

theorem lookup_strip (p q : List ν) (es : List (List ν × Entry β)) :
    lookup q (es.filterMap (strip p)) = lookup (p ++ q) es := by
  induction es with
  | nil => rfl
  | cons e es ih =>
    by_cases hp : p <+: e.1
    · obtain ⟨r, hr⟩ := hp
      have hs : strip p e = some (r, e.2) := by
        rw [strip, if_pos ⟨r, hr⟩, ← hr, drop_left]
      rw [filterMap_cons_some hs, lookup, lookup, ih, ← hr]
      simp
    have hs : strip p e = none := if_neg hp
    have hne : e.1 ≠ p ++ q := fun h => hp (h ▸ prefix_append p q)
    rw [filterMap_cons_none hs, lookup, if_neg hne, ih]

theorem lookup_map (p q : List ν) (es : List (List ν × Entry β)) : lookup q (es.map (fun e => (p ++ e.1, e.2))) =
      if p <+: q then lookup (q.drop p.length) es else none := by
  induction es with
  | nil => simp [lookup]
  | cons e es ih =>
    rw [map_cons, lookup, ih, lookup]
    by_cases hp : p <+: q
    · obtain ⟨r, rfl⟩ := hp
      simp
    · have hne : p ++ e.1 ≠ q := fun h => hp (h ▸ prefix_append p e.1)
      rw [if_neg hne, if_neg hp, if_neg hp]

def get (t : FileTree ν β) (p : List ν) : Option (Entry β) := lookup p t.entries

def has (t : FileTree ν β) (p : List ν) : Bool := (t.get p).isSome

def view (t : FileTree ν β) (p : List ν) : List ν → Option (Entry β) := fun r => t.get (p ++ r)

def absent : List ν → Option (Entry β) := fun _ => none

theorem get_isSome_iff : (t.get p).isSome = true ↔ ∃ e ∈ t.entries, e.1 = p := lookup_isSome_iff

theorem view_root (t : FileTree ν β) (p : List ν) : t.view p [] = t.get p := by
  rw [view, append_nil]

theorem view_of_get_none (h : t.get p = none) : t.view p = absent := by
  funext r
  by_contra hr
  obtain ⟨e, he, hp⟩ := get_isSome_iff.1 (Option.isSome_iff_ne_none.2 hr)
  obtain ⟨e', he', hp'⟩ := t.closed e he p (hp ▸ prefix_append p r)
  have := get_isSome_iff.2 ⟨e', he', hp'⟩
  rw [h] at this
  cases this

theorem view_eq_absent_iff : t.view p = absent ↔ t.get p = none :=
  ⟨fun h => view_root t p ▸ congrFun h [], view_of_get_none⟩

theorem get_congr {t' : FileTree ν β} (h : t'.view q = t.view p) : t'.get q = t.get p := by
  rw [← view_root, h, view_root]

def removeAll (t : FileTree ν β) (p : List ν) : FileTree ν β where
  entries := t.entries.filter (fun e => decide (¬ p <+: e.1))
  closed := by
    intro e he q hq
    rw [mem_filter, decide_eq_true_eq] at he
    obtain ⟨e', he', rfl⟩ := t.closed e he.1 q hq
    exact ⟨e', mem_filter.2 ⟨he', decide_eq_true fun hp => he.2 (hp.trans hq)⟩, rfl⟩

theorem get_removeAll (t : FileTree ν β) (p q : List ν) :
    (t.removeAll p).get q = if p <+: q then none else t.get q := by
  rw [get, removeAll, lookup_filter q (fun q => decide (¬ p <+: q))]
  by_cases hp : p <+: q
  · simp [hp]
  · simp [hp, get]

theorem view_removeAll_self (t : FileTree ν β) (p : List ν) : (t.removeAll p).view p = absent := by
  funext r
  rw [view, get_removeAll, if_pos (prefix_append p r)]
  rfl

theorem view_removeAll_apart (t : FileTree ν β) (h : Apart p q) : (t.removeAll q).view p = t.view p := by
  funext r
  rw [view, get_removeAll, if_neg (h.not_prefix_append r)]
  rfl

/-- A removal that stopped half-way: the subtrees at these places below `p` are gone. -/
def removeSome (t : FileTree ν β) (p : List ν) (rs : List (List ν)) : FileTree ν β :=
  rs.foldl (fun t r => t.removeAll (p ++ r)) t

theorem view_removeSome_apart (t : FileTree ν β) (h : Apart p q)
    (rs : List (List ν)) : (t.removeSome q rs).view p = t.view p := by
  induction rs generalizing t with
  | nil => rfl
  | cons r rs ih =>
    have hr : Apart p (q ++ r) := ⟨fun hp => h.symm.not_prefix_append r hp,
      fun hq => h.2 ((prefix_append q r).trans hq)⟩
    rw [removeSome, foldl_cons]
    exact (ih _).trans (view_removeAll_apart t hr)

def sub (t : FileTree ν β) (p : List ν) : FileTree ν β where
  entries := t.entries.filterMap (strip p)
  closed := by
    intro e he q hq
    obtain ⟨e₀, he₀, hs⟩ := mem_filterMap.1 he
    unfold strip at hs
    split at hs
    · rename_i hp
      obtain ⟨r, hr⟩ := hp
      obtain rfl := Option.some.inj hs
      rw [← hr, drop_left] at hq
      obtain ⟨e', he', hp'⟩ := t.closed e₀ he₀ (p ++ q) (hr ▸ (prefix_append_right_inj p).2 hq)
      refine ⟨(q, e'.2), mem_filterMap.2 ⟨e', he', ?_⟩, rfl⟩
      rw [strip, if_pos (hp' ▸ prefix_append p q), hp', drop_left]
    · cases hs

theorem get_sub (t : FileTree ν β) (p : List ν) : (t.sub p).get = t.view p := by
  funext q
  exact lookup_strip p q t.entries

/-- The directory a path would be created in is there. -/
def hasParent (t : FileTree ν β) (p : List ν) : Bool := p.isEmpty || t.has p.dropLast

theorem exists_of_hasParent (h : t.hasParent p = true) (hq : q <+: p) (hp : ¬ p <+: q) : ∃ e ∈ t.entries, e.1 = q := by
  obtain ⟨r, rfl⟩ := hq
  have hr : r ≠ [] := by
    rintro rfl
    exact hp (by simp)
  have hne : (q ++ r).isEmpty = false := by simp [hr]
  rw [hasParent, hne, Bool.false_or] at h
  obtain ⟨e, he, hp'⟩ := get_isSome_iff.1 h
  refine t.closed e he q ?_
  rw [hp', dropLast_append_of_ne_nil hr]
  exact prefix_append q _

theorem put_closed (h : t.hasParent p = true) (t' : FileTree ν β) :
    ∀ e ∈ t'.entries.map (fun e => (p ++ e.1, e.2)) ++ (t.removeAll p).entries, ∀ q, q <+: e.1 →
      ∃ e' ∈ t'.entries.map (fun e => (p ++ e.1, e.2)) ++ (t.removeAll p).entries, e'.1 = q := by
  intro e he q hq
  rcases mem_append.1 he with he | he
  · obtain ⟨e₀, he₀, rfl⟩ := mem_map.1 he
    by_cases hp : p <+: q
    · obtain ⟨r, rfl⟩ := hp
      obtain ⟨e', he', rfl⟩ := t'.closed e₀ he₀ r ((prefix_append_right_inj p).1 hq)
      exact ⟨_, mem_append_left _ (mem_map.2 ⟨e', he', rfl⟩), rfl⟩
    have hqp :=
      (List.prefix_or_prefix_of_prefix hq (prefix_append p e₀.1)).resolve_right hp
    obtain ⟨e', he', rfl⟩ := exists_of_hasParent h hqp hp
    exact ⟨e', mem_append_right _ (mem_filter.2 ⟨he', decide_eq_true hp⟩), rfl⟩
  · obtain ⟨e', he', rfl⟩ := (t.removeAll p).closed e he q hq
    exact ⟨e', mem_append_right _ he', rfl⟩

/-- Replaces what is at `p` by the tree `t'`. Without the parent of `p` nothing
happens. -/
def put (t : FileTree ν β) (p : List ν) (t' : FileTree ν β) : FileTree ν β :=
  if h : t.hasParent p = true then
    ⟨t'.entries.map (fun e => (p ++ e.1, e.2)) ++ (t.removeAll p).entries, put_closed h t'⟩
  else t

theorem get_put (h : t.hasParent p = true) (t' : FileTree ν β) (q : List ν) :
    (t.put p t').get q = if p <+: q then t'.get (q.drop p.length) else t.get q := by
  rw [put, dif_pos h, get, lookup_append, lookup_map]
  show Option.or _ ((t.removeAll p).get q) = _
  rw [get_removeAll]
  split
  · simp [get]
  · simp [get]

theorem view_put_self (h : t.hasParent p = true) (t' : FileTree ν β) : (t.put p t').view p = t'.get := by
  funext r
  rw [view, get_put h, if_pos (prefix_append p r), drop_left]

theorem view_put_apart (t : FileTree ν β) (h : Apart q p) (t' : FileTree ν β) : (t.put p t').view q = t.view q := by
  by_cases hp : t.hasParent p = true
  · funext r
    rw [view, get_put hp, if_neg (h.not_prefix_append r)]
    rfl
  · rw [put, dif_neg hp]

def emptyDir : FileTree ν β := ⟨[([], .dir)], by simp⟩

def ofFile (content : β) : FileTree ν β := ⟨[([], .file content)], by simp⟩

/-- Creates a directory, unless something is there. -/
def mkdir (t : FileTree ν β) (p : List ν) : FileTree ν β := if t.has p then t else t.put p emptyDir

theorem view_mkdir (t : FileTree ν β) (h : ¬ q <+: p) : (t.mkdir p).view q = t.view q := by
  unfold mkdir
  split
  · rfl
  rename_i hp
  have hnone : t.get p = none := by simpa [has] using hp
  by_cases hpar : t.hasParent p = true
  · funext r
    rw [view, get_put hpar]
    split
    · rename_i hpr
      -- below the new directory there was nothing, and there is nothing
      have hpq :=
        (List.prefix_or_prefix_of_prefix hpr (prefix_append q r)).resolve_right h
      obtain ⟨x, rfl⟩ := hpq
      have hx : x ≠ [] := by
        rintro rfl
        exact h (by simp)
      rw [view, append_assoc, drop_left]
      show _ = t.view p (x ++ r)
      rw [view_of_get_none hnone]
      simp [emptyDir, get, lookup, absent, hx]
    · rfl
  · rw [put, dif_neg hpar]

def rename (t : FileTree ν β) (p q : List ν) : FileTree ν β := (t.removeAll p).put q (t.sub p)

theorem view_rename_target (h : (t.removeAll p).hasParent q = true) : (t.rename p q).view q = t.view p := by
  rw [rename, view_put_self h, get_sub]

theorem view_rename_source (h : Apart p q) : (t.rename p q).view p = absent := by
  rw [rename, view_put_apart _ h, view_removeAll_self]

theorem view_rename_apart {r : List ν} (hp : Apart r p) (hq : Apart r q) : (t.rename p q).view r = t.view r := by
  rw [rename, view_put_apart _ hq, view_removeAll_apart _ hp]

theorem hasParent_removeAll (h : ¬ p <+: q) (hq : t.hasParent q = true) : (t.removeAll p).hasParent q = true := by
  rw [hasParent, Bool.or_eq_true] at hq ⊢
  refine hq.imp_right fun hq => ?_
  rw [has, get_removeAll, if_neg fun hp => h (hp.trans (List.dropLast_prefix q))]
  exact hq

end FileTree
end Dbr2.Lib
