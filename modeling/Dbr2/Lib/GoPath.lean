import Dbr2.Lib.Pieces
import Mathlib.Data.List.DropRight

/-! Slash-separated paths as texts (`path.Clean`, `filepath.Join` and the trimming
functions of `strings`).

The elements of a text are what stands between its slashes, if anything. They are what
`clean` works on, so it is enough to know how the other operations act on them:
`elems_append_slash`, `elems_trimRight`, `elems_trimSuffix`. A clean absolute path is
`abs` of its elements (`elems_abs`, `clean_of_rooted`). -/
namespace Dbr2.Lib.GoPath
open List

abbrev Text := List Char

def elems (s : Text) : List Text := (s.splitOn '/').filter (· ≠ [])

def abs (es : List Text) : Text := if es = [] then ['/'] else es.flatMap ('/' :: ·)

/-- An element, on top of those before it. `..` takes one away, if it can. -/
def push (rooted : Bool) (stack : List Text) (e : Text) : List Text :=
  if e = ['.'] then stack
  else if e = ['.', '.'] then
    match stack with
    | [] => if rooted then [] else [e]
    | top :: rest => if top = ['.', '.'] then e :: stack else rest
  else e :: stack

def clean (s : Text) : Text :=
  let rooted := s.head? == some '/'
  let out := ((elems s).foldl (push rooted) []).reverse
  if rooted then abs out else if out = [] then ['.'] else ['/'].intercalate out

def join (a b : Text) : Text :=
  if a ≠ [] then clean (a ++ '/' :: b) else if b ≠ [] then clean b else []

def bytes : Text → Nat
  | [] => 0
  | c :: s => c.utf8Size + bytes s

def trimRight (s : Text) : Text := s.rdropWhile (· == '/')

/-- One slash at most. -/
def trimSuffix (s : Text) : Text := if s.getLast? = some '/' then s.dropLast else s

def hasPrefix (s pre : Text) : Bool := pre.isPrefixOf s

def trimPrefix (s pre : Text) : Text := if hasPrefix s pre then s.drop pre.length else s

structure Plain (e : Text) : Prop where
  ne_nil : e ≠ []
  no_slash : '/' ∉ e
  ne_dot : e ≠ ['.']
  ne_dotdot : e ≠ ['.', '.']

instance instDecidablePlain (e : Text) : Decidable (Plain e) :=
  decidable_of_iff (e ≠ [] ∧ '/' ∉ e ∧ e ≠ ['.'] ∧ e ≠ ['.', '.'])
    ⟨fun ⟨h1, h2, h3, h4⟩ => ⟨h1, h2, h3, h4⟩, fun h => ⟨h.ne_nil, h.no_slash, h.ne_dot, h.ne_dotdot⟩⟩

structure CleanPath where
  parts : List Text
  plain : ∀ e ∈ parts, Plain e

def CleanPath.text (p : CleanPath) : Text := abs p.parts

def IsClean (s : Text) : Prop := ∃ p : CleanPath, p.text = s

@[simp] theorem elems_nil : elems [] = [] := rfl

theorem elems_append_slash (s t : Text) : elems (s ++ '/' :: t) = elems s ++ elems t := by
  unfold elems List.splitOn
  rw [splitOnP_append_cons s t (by simp), filter_append]

@[simp] theorem elems_slash_cons (t : Text) : elems ('/' :: t) = elems t := elems_append_slash [] t

theorem elems_of_no_slash {e : Text} (hne : e ≠ []) (h : '/' ∉ e) : elems e = [e] := by
  unfold elems List.splitOn
  rw [splitOnP_eq_singleton (by
    intro c hc
    simp only [beq_eq_false_iff_ne, ne_eq]
    rintro rfl
    exact h hc)]
  simp [hne]

variable {es : List Text} {s : Text}

theorem mem_elems {e : Text} (h : e ∈ elems s) : e ≠ [] ∧ '/' ∉ e ∧ e <:+: s := by
  obtain ⟨hmem, hne⟩ := mem_filter.1 h
  exact ⟨by simpa using hne, Lib.mem_splitOn hmem⟩

theorem elems_trimRight (s : Text) : elems (trimRight s) = elems s := by
  unfold trimRight
  induction s using List.reverseRecOn with
  | nil => rfl
  | append_singleton l c ih =>
    by_cases hc : c = '/'
    · subst hc
      rw [rdropWhile_concat_pos _ _ _ (by simp), ih, elems_append_slash, elems_nil, append_nil]
    · rw [rdropWhile_concat_neg _ _ _ (by simpa using hc)]

theorem trimSuffix_concat_slash (s : Text) : trimSuffix (s ++ ['/']) = s := by
  unfold trimSuffix
  rw [getLast?_concat, if_pos rfl, dropLast_concat]

theorem trimSuffix_concat {c : Char} (hc : c ≠ '/') (s : Text) : trimSuffix (s ++ [c]) = s ++ [c] := by
  unfold trimSuffix
  rw [getLast?_concat, if_neg (by simpa using hc)]

theorem elems_trimSuffix (s : Text) : elems (trimSuffix s) = elems s := by
  induction s using List.reverseRecOn with
  | nil => rfl
  | append_singleton l c _ =>
    by_cases hc : c = '/'
    · subst hc
      rw [trimSuffix_concat_slash, elems_append_slash, elems_nil, append_nil]
    · rw [trimSuffix_concat hc]

@[simp] theorem trimPrefix_append (s t : Text) : trimPrefix (s ++ t) s = t := by
  have h : hasPrefix (s ++ t) s = true := List.isPrefixOf_iff_prefix.2 (prefix_append s t)
  unfold trimPrefix
  rw [if_pos h, drop_left]

@[simp] theorem trimPrefix_self (s : Text) : trimPrefix s s = [] := by
  have h := trimPrefix_append s []
  rwa [append_nil] at h

@[simp] theorem trimPrefix_nil (s : Text) : trimPrefix s [] = s := trimPrefix_append [] s

theorem exists_of_hasPrefix_slash {pre : Text} (h : hasPrefix s (pre ++ ['/']) = true) :
    ∃ rest, s = pre ++ '/' :: rest := by
  obtain ⟨rest, hrest⟩ := List.isPrefixOf_iff_prefix.1 h
  exact ⟨rest, by rw [← hrest, append_assoc, singleton_append]⟩

/-- A text of elements is empty or starts with a slash, so one may put elements before it. -/
theorem elems_append {t : Text} (h : t = [] ∨ t.head? = some '/') : elems (s ++ t) = elems s ++ elems t := by
  rcases h with rfl | h
  · simp
  cases t with
  | nil => cases h
  | cons c t =>
    obtain rfl : c = '/' := Option.some.inj h
    rw [elems_append_slash, elems_slash_cons]

theorem elems_flatMap (h : ∀ e ∈ es, e ≠ [] ∧ '/' ∉ e) : elems (es.flatMap ('/' :: ·)) = es := by
  induction es with
  | nil => rfl
  | cons e es ih =>
    have he := h e mem_cons_self
    have hrest : es.flatMap ('/' :: ·) = [] ∨ (es.flatMap ('/' :: ·)).head? = some '/' := by
      cases es with
      | nil => exact .inl rfl
      | cons e' es => exact .inr rfl
    rw [flatMap_cons, cons_append, elems_slash_cons, elems_append hrest,
      elems_of_no_slash he.1 he.2, ih fun e he => h e (mem_cons_of_mem _ he)]
    rfl

theorem elems_abs (h : ∀ e ∈ es, e ≠ [] ∧ '/' ∉ e) : elems (abs es) = es := by
  unfold abs
  split
  · rename_i hnil
    rw [hnil]
    rfl
  · exact elems_flatMap h

theorem CleanPath.elems_text (p : CleanPath) : elems p.text = p.parts :=
  elems_abs fun e he => ⟨(p.plain e he).ne_nil, (p.plain e he).no_slash⟩

theorem abs_head (es : List Text) : (abs es).head? = some '/' := by
  unfold abs
  split
  · rfl
  rename_i hne
  cases es with
  | nil => exact absurd rfl hne
  | cons e es => rfl

theorem CleanPath.head_text (p : CleanPath) : p.text.head? = some '/' := abs_head p.parts

theorem ne_nil_of_rooted (h : s.head? = some '/') : s ≠ [] := by
  rintro rfl
  cases h

theorem foldl_push {rooted : Bool} (h : ['.', '.'] ∉ es) (stack : List Text) :
    es.foldl (push rooted) stack = (es.filter (· ≠ ['.'])).reverse ++ stack := by
  induction es generalizing stack with
  | nil => rfl
  | cons e es ih =>
    have hes : ['.', '.'] ∉ es := fun hm => h (mem_cons_of_mem _ hm)
    have he : e ≠ ['.', '.'] := by
      rintro rfl
      exact h mem_cons_self
    rw [foldl_cons, ih hes]
    unfold push
    by_cases hdot : e = ['.']
    · rw [if_pos hdot, filter_cons_of_neg (by simpa using hdot)]
    · rw [if_neg hdot, if_neg he, filter_cons_of_pos (by simpa using hdot), reverse_cons, append_assoc]
      rfl

theorem clean_of_rooted (hs : s.head? = some '/') (h : ['.', '.'] ∉ elems s) :
    clean s = abs ((elems s).filter (· ≠ ['.'])) := by
  unfold clean
  simp only [hs, beq_self_eq_true, if_true]
  rw [foldl_push h, append_nil, reverse_reverse]

theorem dotdot_not_mem (h : ∀ e ∈ es, Plain e) : ['.', '.'] ∉ es := by
  intro hmem
  exact (h _ hmem).ne_dotdot rfl

theorem filter_ne_dot (h : ∀ e ∈ es, Plain e) : es.filter (· ≠ ['.']) = es := by
  apply filter_eq_self.2
  intro e he
  simpa using (h e he).ne_dot

end Dbr2.Lib.GoPath
