import Mathlib.Data.List.Sort
import Dbr2.Lib.GoPath

/-! Path remaps, as the preview and as the agent apply them (`Remap` in
`internal/protection/restore_preview.go`, `remapper` in `internal/agent/restore.go`).

The preview takes the first entry that matches and cuts all slashes off the end of its From; the
agent takes the one with the longest From and cuts off one slash. Both move the rest of the path
under To. -/
namespace Dbr2.Restore
open Lib.GoPath List

structure PathRemap where
  (src dst : Text)
  src_rooted : src.head? = some '/'
  dst_rooted : dst.head? = some '/'
  no_dotdot : ¬ ['.', '.'] <:+: dst

namespace PathRemap

def root : PathRemap where
  src := ['/']
  dst := ['/']
  src_rooted := rfl
  dst_rooted := rfl
  no_dotdot := by decide

def matchesFirst (p : Text) (r : PathRemap) : Bool :=
  p == trimRight r.src || hasPrefix p (trimRight r.src ++ ['/'])

def matchesLongest (p : Text) (r : PathRemap) : Bool :=
  p == trimSuffix r.src || trimSuffix r.src == [] || hasPrefix p (trimSuffix r.src ++ ['/'])

def size (r : PathRemap) : Nat := bytes r.src

def cleaned (r : PathRemap) (p : Text) : Text := clean (trimRight r.dst ++ trimPrefix p (trimRight r.src))

def joined (r : PathRemap) (p : Text) : Text :=
  let src := trimSuffix r.src
  if p = src ∨ src = [] then join r.dst (trimPrefix p src)
  else join r.dst (trimPrefix p (src ++ ['/']))

end PathRemap

def remap (p : Text) (rs : List PathRemap) : Text :=
  match rs.find? (·.matchesFirst p) with
  | some r => r.cleaned p
  | none => p

/-- The stable sort of the remapper. An entry that is empty in From or To would be left out. -/
def longestFirst (rs : List PathRemap) : List PathRemap :=
  (rs.filter fun r => r.src ≠ [] ∧ r.dst ≠ []).insertionSort fun a b => b.size ≤ a.size

def remapper (rs : List PathRemap) (p : Text) : Text :=
  match (longestFirst rs).find? (·.matchesLongest p) with
  | some r => r.joined p
  | none => p

structure Cut (p : CleanPath) (src rest : Text) : Prop where
  text : p.text = src ++ rest
  whole : rest = [] ∨ rest.head? = some '/'

namespace Cut
variable {p : CleanPath} {src rest : Text}

theorem parts (h : Cut p src rest) : p.parts = elems src ++ elems rest := by
  rw [← p.elems_text, h.text, elems_append h.whole]

theorem plain (h : Cut p src rest) : ∀ e ∈ elems rest, Plain e := by
  intro e he
  apply p.plain
  rw [h.parts]
  exact mem_append_right _ he

theorem self (h : p.text = src) : Cut p src [] := ⟨by rw [h, append_nil], .inl rfl⟩

theorem root : Cut p [] p.text := ⟨rfl, .inr p.head_text⟩

theorem slash (h : p.text = src ++ '/' :: rest) : Cut p src ('/' :: rest) := ⟨h, .inr rfl⟩

end Cut

namespace PathRemap
variable (r : PathRemap) {p : CleanPath}

def front : List Text := elems r.src

def place : List Text := (elems r.dst).filter (· ≠ ['.'])

theorem place_plain : ∀ e ∈ r.place, Plain e := by
  intro e he
  obtain ⟨hmem, hdot⟩ := mem_filter.1 he
  obtain ⟨hne, hslash, hin⟩ := mem_elems hmem
  have hdots : e ≠ ['.', '.'] := by
    rintro rfl
    exact r.no_dotdot hin
  exact ⟨hne, hslash, by simpa using hdot, hdots⟩

theorem dst_no_dotdot : ['.', '.'] ∉ elems r.dst := by
  intro h
  exact r.no_dotdot (mem_elems h).2.2

theorem clean_under {s : Text} {rest : List Text} (hs : s.head? = some '/')
    (helems : elems s = elems r.dst ++ rest) (hplain : ∀ e ∈ rest, Plain e) :
    clean s = abs (r.place ++ rest) := by
  have hdots : ['.', '.'] ∉ elems s := by
    rw [helems, mem_append, not_or]
    exact ⟨r.dst_no_dotdot, dotdot_not_mem hplain⟩
  rw [clean_of_rooted hs hdots, helems, filter_append, filter_ne_dot hplain]
  rfl

theorem join_dst {under : Text} (hplain : ∀ e ∈ elems under, Plain e) :
    join r.dst under = abs (r.place ++ elems under) := by
  have hhead : (r.dst ++ '/' :: under).head? = some '/' := by
    rw [head?_append_of_ne_nil _ (ne_nil_of_rooted r.dst_rooted), r.dst_rooted]
  unfold join
  rw [if_pos (ne_nil_of_rooted r.dst_rooted)]
  exact r.clean_under hhead (elems_append_slash r.dst under) hplain

def moved (p : CleanPath) : Text := abs (r.place ++ p.parts.drop r.front.length)

theorem moved_plain (p : CleanPath) : ∀ e ∈ r.place ++ p.parts.drop r.front.length, Plain e := by
  intro e he
  rcases mem_append.1 he with he | he
  · exact r.place_plain e he
  · exact p.plain e (mem_of_mem_drop he)

theorem moved_isClean (p : CleanPath) : IsClean (r.moved p) := ⟨⟨_, r.moved_plain p⟩, rfl⟩

theorem elems_moved (p : CleanPath) : elems (r.moved p) = r.place ++ p.parts.drop r.front.length :=
  CleanPath.elems_text ⟨_, r.moved_plain p⟩

theorem moved_of_parts {rest : List Text} (h : p.parts = r.front ++ rest) : r.moved p = abs (r.place ++ rest) := by
  unfold moved
  rw [h, drop_left]

/-- Remap takes From and To without their slashes and leaves an empty text to clean. -/
def Emptied (p : CleanPath) : Prop := trimRight r.dst = [] ∧ p.text = trimRight r.src

theorem exists_cut_of_matchesFirst (h : r.matchesFirst p.text = true) : ∃ rest, Cut p (trimRight r.src) rest := by
  unfold matchesFirst at h
  rw [Bool.or_eq_true, beq_iff_eq] at h
  rcases h with h | h
  · exact ⟨[], Cut.self h⟩
  · obtain ⟨rest, hrest⟩ := exists_of_hasPrefix_slash h
    exact ⟨_, Cut.slash hrest⟩

theorem cleaned_of_emptied (h : r.Emptied p) : r.cleaned p.text = ['.'] := by
  unfold cleaned
  rw [h.1, h.2, trimPrefix_self]
  rfl

theorem cleaned_eq_moved {rest : Text} (hcut : Cut p (trimRight r.src) rest) (hne : ¬ r.Emptied p) :
    r.cleaned p.text = r.moved p := by
  have hhead : (trimRight r.dst ++ rest).head? = some '/' := by
    by_cases hdst : trimRight r.dst = []
    · rw [hdst, nil_append]
      apply hcut.whole.resolve_left
      intro hnil
      apply hne
      exact ⟨hdst, by rw [hcut.text, hnil, append_nil]⟩
    obtain ⟨t, ht⟩ : trimRight r.dst <+: r.dst := rdropWhile_prefix _ _
    have hfull : (trimRight r.dst ++ t).head? = some '/' := by rw [ht, r.dst_rooted]
    rw [head?_append_of_ne_nil _ hdst] at hfull ⊢
    exact hfull
  have helems : elems (trimRight r.dst ++ rest) = elems r.dst ++ elems rest := by
    rw [elems_append hcut.whole, elems_trimRight]
  unfold cleaned
  rw [hcut.text, trimPrefix_append, r.clean_under hhead helems hcut.plain, r.moved_of_parts]
  rw [hcut.parts, elems_trimRight, front]

theorem exists_cut_of_matchesLongest (h : r.matchesLongest p.text = true) :
    ∃ rest under, Cut p (trimSuffix r.src) rest ∧ elems under = elems rest ∧ r.joined p.text = join r.dst under := by
  unfold joined
  by_cases hself : p.text = trimSuffix r.src
  · refine ⟨[], [], Cut.self hself, rfl, ?_⟩
    rw [if_pos (.inl hself), hself, trimPrefix_self]
  by_cases hnil : trimSuffix r.src = []
  · refine ⟨p.text, p.text, hnil ▸ Cut.root, rfl, ?_⟩
    rw [if_pos (.inr hnil), hnil, trimPrefix_nil]
  have hpre : hasPrefix p.text (trimSuffix r.src ++ ['/']) = true := by
    simpa [matchesLongest, hself, hnil] using h
  obtain ⟨rest, hrest⟩ := exists_of_hasPrefix_slash hpre
  refine ⟨'/' :: rest, rest, Cut.slash hrest, (elems_slash_cons rest).symm, ?_⟩
  rw [if_neg (not_or.2 ⟨hself, hnil⟩), hrest, append_cons, trimPrefix_append]

theorem joined_eq_moved (h : r.matchesLongest p.text = true) : r.front <+: p.parts ∧ r.joined p.text = r.moved p := by
  obtain ⟨rest, under, hcut, hunder, hjoined⟩ := r.exists_cut_of_matchesLongest h
  have hparts : p.parts = r.front ++ elems rest := by rw [hcut.parts, elems_trimSuffix, front]
  refine ⟨⟨elems rest, hparts.symm⟩, ?_⟩
  rw [hjoined, r.join_dst, hunder, r.moved_of_parts hparts]
  rw [hunder]
  exact hcut.plain

theorem root_not_emptied (p : CleanPath) : ¬ root.Emptied p := by
  rintro ⟨-, h⟩
  have hhead := p.head_text
  rw [h] at hhead
  cases hhead

def Agree (r r' : PathRemap) : Prop :=
  r.place ++ r'.front.drop r.front.length = r'.place ++ r.front.drop r'.front.length

theorem agree_comm {r r' : PathRemap} : Agree r r' ↔ Agree r' r := eq_comm

theorem moved_eq_iff_of_prefix {r r' : PathRemap} (h : r.front <+: r'.front) (hp : r'.front <+: p.parts) :
    r.moved p = r'.moved p ↔ Agree r r' := by
  obtain ⟨mid, hmid⟩ := h
  obtain ⟨rest, hrest⟩ := hp
  have hfront : r.front.drop r'.front.length = [] := by
    rw [← hmid, drop_eq_nil_iff, length_append]
    omega
  have hdrop : p.parts.drop r.front.length = mid ++ rest := by
    rw [← hrest, ← hmid, append_assoc, drop_left]
  have hdrop' : p.parts.drop r'.front.length = rest := by rw [← hrest, drop_left]
  have hparts : r.moved p = r'.moved p ↔ r.place ++ (mid ++ rest) = r'.place ++ rest := by
    constructor
    · intro heq
      have h := congrArg elems heq
      rwa [elems_moved, elems_moved, hdrop, hdrop'] at h
    · intro heq
      unfold moved
      rw [hdrop, hdrop', heq]
  unfold Agree
  rw [hparts, hfront, ← hmid, drop_left, append_nil, ← append_assoc, append_cancel_right_eq]

theorem moved_eq_iff {r r' : PathRemap} (h : r.front <+: p.parts) (h' : r'.front <+: p.parts) :
    r.moved p = r'.moved p ↔ Agree r r' := by
  rcases List.prefix_or_prefix_of_prefix h h' with hrr | hrr
  · exact moved_eq_iff_of_prefix hrr h'
  · rw [eq_comm, moved_eq_iff_of_prefix hrr h, agree_comm]

end PathRemap

def firstMatch (rs : List PathRemap) (p : CleanPath) : PathRemap :=
  (rs.find? (·.matchesFirst p.text)).getD .root

def longestMatch (rs : List PathRemap) (p : CleanPath) : PathRemap :=
  ((longestFirst rs).find? (·.matchesLongest p.text)).getD .root

variable (rs : List PathRemap) (p : CleanPath)

theorem front_firstMatch : (firstMatch rs p).front <+: p.parts := by
  unfold firstMatch
  cases h : rs.find? (·.matchesFirst p.text) with
  | none => exact List.nil_prefix
  | some r =>
    obtain ⟨rest, hcut⟩ := r.exists_cut_of_matchesFirst (find?_some h)
    exact ⟨elems rest, by rw [hcut.parts, elems_trimRight, Option.getD_some, PathRemap.front]⟩

theorem remap_eq_moved (h : ¬ (firstMatch rs p).Emptied p) : remap p.text rs = (firstMatch rs p).moved p := by
  unfold firstMatch at *
  unfold remap
  cases hfind : rs.find? (·.matchesFirst p.text) with
  | none => rfl
  | some r =>
    rw [hfind] at h
    obtain ⟨rest, hcut⟩ := r.exists_cut_of_matchesFirst (find?_some hfind)
    exact r.cleaned_eq_moved hcut h

theorem remap_of_emptied (h : (firstMatch rs p).Emptied p) : remap p.text rs = ['.'] := by
  unfold firstMatch at h
  unfold remap
  cases hfind : rs.find? (·.matchesFirst p.text) with
  | none =>
    rw [hfind] at h
    exact absurd h (PathRemap.root_not_emptied p)
  | some r =>
    rw [hfind] at h
    exact r.cleaned_of_emptied h

theorem remapper_eq_moved : (longestMatch rs p).front <+: p.parts ∧
    remapper rs p.text = (longestMatch rs p).moved p := by
  unfold longestMatch remapper
  cases h : (longestFirst rs).find? (·.matchesLongest p.text) with
  | none => exact ⟨List.nil_prefix, rfl⟩
  | some r => exact r.joined_eq_moved (find?_some h)

theorem dot_not_isClean : ¬ IsClean ['.'] := by
  rintro ⟨p, hp⟩
  have h := p.head_text
  rw [hp] at h
  cases h

/-- The preview and the agent remap a path alike, to a clean path, if and only if the first
entry that matches and the longest send the longer of their Froms to one place, and the first
does not take the path as a whole to the root. -/
theorem remap_agrees_iff : (remap p.text rs = remapper rs p.text ∧ IsClean (remap p.text rs) ∧
    IsClean (remapper rs p.text)) ↔
    (firstMatch rs p).Agree (longestMatch rs p) ∧ ¬ (firstMatch rs p).Emptied p := by
  obtain ⟨hfront, hagent⟩ := remapper_eq_moved rs p
  by_cases hempty : (firstMatch rs p).Emptied p
  · constructor
    · rintro ⟨-, hclean, -⟩
      rw [remap_of_emptied rs p hempty] at hclean
      exact absurd hclean dot_not_isClean
    · rintro ⟨-, hne⟩
      exact absurd hempty hne
  rw [remap_eq_moved rs p hempty, hagent, PathRemap.moved_eq_iff (front_firstMatch rs p) hfront]
  constructor
  · rintro ⟨hagree, -⟩
    exact ⟨hagree, hempty⟩
  · rintro ⟨hagree, -⟩
    exact ⟨hagree, PathRemap.moved_isClean _ p, PathRemap.moved_isClean _ p⟩

def entry (src dst : String) (hsrc : src.toList.head? = some '/') (hdst : dst.toList.head? = some '/')
    (hdots : ¬ ['.', '.'] <:+: dst.toList) : PathRemap := ⟨src.toList, dst.toList, hsrc, hdst, hdots⟩

def pathOf (names : List String) (h : ∀ e ∈ names.map String.toList, Plain e) : CleanPath :=
  ⟨names.map String.toList, h⟩

/-- Of two nested entries, the preview takes the one that comes first and the agent the inner
one. An entry that ends in two slashes is one to the preview only, and one that takes its From to
the root leaves the preview with a path that is not absolute. -/
theorem nested_remaps_differ : (remap (pathOf ["srv", "app", "d"] (by decide)).text
        [entry "/srv" "/x" rfl rfl (by decide), entry "/srv/app" "/y" rfl rfl (by decide)] = "/x/app/d".toList ∧
      remapper [entry "/srv" "/x" rfl rfl (by decide), entry "/srv/app" "/y" rfl rfl (by decide)]
        (pathOf ["srv", "app", "d"] (by decide)).text = "/y/d".toList) ∧
    (remap (pathOf ["srv", "d"] (by decide)).text [entry "/srv//" "/x" rfl rfl (by decide)] = "/x/d".toList ∧
      remapper [entry "/srv//" "/x" rfl rfl (by decide)] (pathOf ["srv", "d"] (by decide)).text = "/srv/d".toList) ∧
    (remap (pathOf ["srv"] (by decide)).text [entry "/srv" "/" rfl rfl (by decide)] = ".".toList ∧
      remapper [entry "/srv" "/" rfl rfl (by decide)] (pathOf ["srv"] (by decide)).text = "/".toList) := by
  decide

end Dbr2.Restore
