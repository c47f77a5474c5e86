import Dbr2.Lib.GoPath

/-! The parts of a path: its elements, with those gone that `.` and `..` take away.

Cleaning keeps the parts (`parts_clean`), and joining walks on from those of the directory
(`parts_join`). So what a joined path is inside can be told from its elements: a walk that
never takes away more than it has brought stays (`walk_append`), one that does loses what was
below (`not_mem_walk`). -/
namespace Dbr2.Lib.GoPath
open List

def rooted (s : Text) : Bool := s.head? == some '/'

/-- The elements, one after the other. The top of the stack comes first. -/
def walk (r : Bool) (stack es : List Text) : List Text := es.foldl (push r) stack

def parts (s : Text) : List Text := (walk (rooted s) [] (elems s)).reverse

def render (r : Bool) (out : List Text) : Text :=
  if r then abs out else if out = [] then ['.'] else ['/'].intercalate out

theorem clean_eq_render (s : Text) : clean s = render (rooted s) (parts s) := rfl

/-- `p` is inside the directory `d`, by its name. -/
def Inside (d p : Text) : Prop :=
  rooted p = rooted d ∧ ∃ es, es ≠ [] ∧ (∀ e ∈ es, Plain e) ∧ parts p = parts d ++ es

@[simp] theorem walk_cons (r : Bool) (stack : List Text) (e : Text) (es : List Text) :
    walk r stack (e :: es) = walk r (push r stack e) es := rfl

theorem walk_concat (r : Bool) (stack es : List Text) (e : Text) :
    walk r stack (es ++ [e]) = push r (walk r stack es) e := by
  unfold walk
  rw [foldl_append]
  rfl

variable {r : Bool} {stack es out : List Text} {e x s d name p : Text}

theorem plain_of_length (h : 2 < e.length) (hslash : '/' ∉ e) : Plain e := by
  refine ⟨?_, hslash, ?_, ?_⟩
  all_goals
    rintro rfl
    simp at h

theorem push_plain (h : Plain e) : push r stack e = e :: stack := by
  unfold push
  rw [if_neg h.ne_dot, if_neg h.ne_dotdot]

theorem mem_push (h : x ∈ push r stack e) : x ∈ stack ∨ (x = e ∧ x ≠ ['.']) := by
  unfold push at h
  split at h
  · exact .inl h
  rename_i hdot
  split at h
  · cases stack with
    | nil =>
      cases r with
      | true => cases h
      | false =>
        obtain rfl := mem_singleton.1 h
        exact .inr ⟨rfl, hdot⟩
    | cons top rest =>
      dsimp only at h
      split at h
      · rcases mem_cons.1 h with rfl | h
        · exact .inr ⟨rfl, hdot⟩
        · exact .inl h
      · exact .inl (mem_cons_of_mem _ h)
  · rcases mem_cons.1 h with rfl | h
    · exact .inr ⟨rfl, hdot⟩
    · exact .inl h

theorem mem_walk (h : x ∈ walk r stack es) : x ∈ stack ∨ (x ∈ es ∧ x ≠ ['.']) := by
  induction es generalizing stack with
  | nil => exact .inl h
  | cons e es ih =>
    rcases ih h with h | ⟨h, hne⟩
    · rcases mem_push h with h | ⟨rfl, hne⟩
      · exact .inl h
      · exact .inr ⟨mem_cons_self, hne⟩
    · exact .inr ⟨mem_cons_of_mem _ h, hne⟩

theorem walk_append {w : List Text} (h : ['.', '.'] ∉ walk false w es) (r : Bool) (stack : List Text) :
    ['.', '.'] ∉ w ∧ walk r (w ++ stack) es = walk false w es ++ stack := by
  induction es generalizing w with
  | nil => exact ⟨h, rfl⟩
  | cons e es ih =>
    obtain ⟨hno, heq⟩ := ih h
    rw [walk_cons, walk_cons, ← heq]
    by_cases hdot : e = ['.']
    · subst hdot
      exact ⟨hno, rfl⟩
    by_cases hdd : e = ['.', '.']
    · subst hdd
      cases w with
      | nil => exact absurd mem_cons_self hno
      | cons top rest =>
        by_cases htop : top = ['.', '.']
        · subst htop
          exact absurd mem_cons_self hno
        have hpop : ∀ (r : Bool) (rest : List Text), push r (top :: rest) ['.', '.'] = rest := by
          intro r rest
          simp [push, htop]
        rw [hpop] at hno
        rw [cons_append, hpop, hpop]
        exact ⟨by simp [hno, Ne.symm htop], rfl⟩
    have hpush : ∀ (r : Bool) (stack : List Text), push r stack e = e :: stack := by
      intro r stack
      simp [push, hdot, hdd]
    rw [hpush] at hno
    rw [hpush, hpush]
    exact ⟨fun hmem => hno (mem_cons_of_mem _ hmem), rfl⟩

theorem not_mem_walk {w : List Text} (hx : x ∉ es) (hxd : x ≠ ['.', '.']) (hw : ['.', '.'] ∉ w) (hxw : x ∉ w)
    (h : ['.', '.'] ∈ walk false w es) : x ∉ walk true (w ++ [x]) es := by
  induction es generalizing w with
  | nil => exact absurd h hw
  | cons e es ih =>
    rw [mem_cons, not_or] at hx
    rw [walk_cons] at h ⊢
    by_cases hdot : e = ['.']
    · subst hdot
      exact ih hx.2 hw hxw h
    by_cases hdd : e = ['.', '.']
    · subst hdd
      cases w with
      | nil =>
        have hempty : push true ([] ++ [x]) ['.', '.'] = [] := by simp [push, hxd]
        rw [hempty]
        intro hmem
        rcases mem_walk hmem with hmem | ⟨hmem, -⟩
        · cases hmem
        · exact hx.2 hmem
      | cons top rest =>
        rw [mem_cons, not_or] at hw hxw
        have hpop : ∀ (r : Bool) (rest : List Text), push r (top :: rest) ['.', '.'] = rest := by
          intro r rest
          simp [push, Ne.symm hw.1]
        rw [hpop] at h
        rw [cons_append, hpop]
        exact ih hx.2 hw.2 hxw.2 h
    have hpush : ∀ (r : Bool) (stack : List Text), push r stack e = e :: stack := by
      intro r stack
      simp [push, hdot, hdd]
    rw [hpush] at h
    rw [hpush, ← cons_append]
    apply ih hx.2 _ _ h
    · simp [hw, Ne.symm hdd]
    · simp [hxw, hx.1]

/-- A stack as walks leave it: `..` only at its bottom, and none if the path is rooted. -/
def Walked (r : Bool) (stack : List Text) : Prop :=
  ∃ p k, stack = p ++ List.replicate k ['.', '.'] ∧ (∀ e ∈ p, Plain e) ∧ (r = true → k = 0)

theorem Walked.push (h : Walked r stack) (hne : e ≠ []) (hslash : '/' ∉ e) : Walked r (GoPath.push r stack e) := by
  obtain ⟨p, k, rfl, hplain, hk⟩ := h
  unfold GoPath.push
  split
  · exact ⟨p, k, rfl, hplain, hk⟩
  rename_i hdot
  split
  · rename_i hdd
    subst hdd
    cases p with
    | cons top p =>
      obtain ⟨htop, hrest⟩ := forall_mem_cons.1 hplain
      rw [cons_append]
      dsimp only
      rw [if_neg htop.ne_dotdot]
      exact ⟨p, k, rfl, hrest, hk⟩
    | nil =>
      cases k with
      | zero =>
        cases r with
        | true => exact ⟨[], 0, rfl, by simp, by simp⟩
        | false => exact ⟨[], 1, rfl, by simp, by simp⟩
      | succ k =>
        refine ⟨[], k + 2, ?_, by simp, fun hr => absurd (hk hr) (by omega)⟩
        rw [nil_append, replicate_succ]
        dsimp only
        rw [if_pos rfl]
        rfl
  · rename_i hdd
    exact ⟨e :: p, k, rfl, forall_mem_cons.2 ⟨⟨hne, hslash, hdot, hdd⟩, hplain⟩, hk⟩

theorem Walked.walk (h : Walked r stack) (hes : ∀ e ∈ es, e ≠ [] ∧ '/' ∉ e) : Walked r (GoPath.walk r stack es) := by
  induction es generalizing stack with
  | nil => exact h
  | cons e es ih =>
    obtain ⟨he, hrest⟩ := forall_mem_cons.1 hes
    exact ih (h.push he.1 he.2) hrest

theorem walked_parts (s : Text) : Walked (rooted s) (parts s).reverse := by
  rw [parts, reverse_reverse]
  apply Walked.walk ⟨[], 0, rfl, by simp, by simp⟩
  intro e he
  exact ⟨(mem_elems he).1, (mem_elems he).2.1⟩

theorem mem_parts (h : e ∈ parts s) : e ≠ [] ∧ '/' ∉ e := by
  rcases mem_walk (mem_reverse.1 h) with h | ⟨h, -⟩
  · cases h
  · exact ⟨(mem_elems h).1, (mem_elems h).2.1⟩

theorem walk_replicate_dotdot (k : Nat) :
    walk false [] (List.replicate k ['.', '.']) = List.replicate k ['.', '.'] := by
  induction k with
  | zero => rfl
  | succ k ih =>
    rw [replicate_succ', walk_concat, ih, ← replicate_succ']
    cases k <;> rfl

theorem Walked.walk_reverse (h : Walked r stack) : GoPath.walk r [] stack.reverse = stack := by
  obtain ⟨p, k, rfl, hplain, hk⟩ := h
  have hup : GoPath.walk r [] (List.replicate k ['.', '.']) = List.replicate k ['.', '.'] := by
    cases r with
    | false => exact walk_replicate_dotdot k
    | true => rw [hk rfl]; rfl
  have hplain' : ∀ e ∈ p.reverse, Plain e := fun e he => hplain e (mem_reverse.1 he)
  rw [reverse_append, reverse_replicate, GoPath.walk, foldl_append]
  show List.foldl (GoPath.push r) (GoPath.walk r [] (List.replicate k ['.', '.'])) p.reverse = _
  rw [hup, foldl_push (dotdot_not_mem hplain'), filter_ne_dot hplain', reverse_reverse]

section

variable (h : ∀ e ∈ out, e ≠ [] ∧ '/' ∉ e)
include h

theorem elems_intercalate (hne : out ≠ []) :
    elems (['/'].intercalate out) = out := by
  unfold elems
  rw [splitOn_intercalate '/' (fun e he => (h e he).2) hne]
  apply filter_eq_self.2
  intro e he
  simpa using (h e he).1

theorem rooted_intercalate : rooted (['/'].intercalate out) = false := by
  cases out with
  | nil => rfl
  | cons e out =>
    obtain ⟨⟨hne, hslash⟩, -⟩ := forall_mem_cons.1 h
    cases e with
    | nil => exact absurd rfl hne
    | cons c e =>
      rw [mem_cons, not_or] at hslash
      cases out with
      | nil => simp [rooted, Ne.symm hslash.1]
      | cons e' out => simp [rooted, Ne.symm hslash.1, intercalate_cons_cons]

theorem elems_render (hne : out ≠ []) : elems (render r out) = out := by
  unfold render
  cases r with
  | true => rw [if_pos rfl, elems_abs h]
  | false => rw [if_neg Bool.false_ne_true, if_neg hne, elems_intercalate h hne]

theorem rooted_render : rooted (render r out) = r := by
  unfold render
  cases r with
  | true =>
    rw [if_pos rfl, rooted, abs_head]
    rfl
  | false =>
    rw [if_neg Bool.false_ne_true]
    split
    · rfl
    · exact rooted_intercalate h

theorem parts_render (hw : Walked r out.reverse) : parts (render r out) = out := by
  unfold parts
  rw [rooted_render h]
  have helems : walk r [] (elems (render r out)) = walk r [] out := by
    by_cases hnil : out = []
    · subst hnil
      cases r <;> rfl
    · rw [elems_render h hnil]
  have hself := hw.walk_reverse
  rw [reverse_reverse] at hself
  rw [helems, hself, reverse_reverse]

end

theorem rooted_clean (s : Text) : rooted (clean s) = rooted s := by
  rw [clean_eq_render]
  exact rooted_render fun e he => mem_parts he

theorem parts_clean (s : Text) : parts (clean s) = parts s := by
  rw [clean_eq_render]
  exact parts_render (fun e he => mem_parts he) (walked_parts s)

theorem clean_clean (s : Text) : clean (clean s) = clean s := by
  rw [clean_eq_render (clean s), rooted_clean, parts_clean, ← clean_eq_render]

theorem rooted_append (h : s ≠ []) (t : Text) : rooted (s ++ t) = rooted s := by
  cases s with
  | nil => exact absurd rfl h
  | cons c s => rfl

theorem rooted_join (h : d ≠ []) (t : Text) : rooted (join d t) = rooted d := by
  rw [join, if_pos h, rooted_clean, rooted_append h]

theorem parts_join (h : d ≠ []) (t : Text) :
    parts (join d t) = (walk (rooted d) (parts d).reverse (elems t)).reverse := by
  rw [join, if_pos h, parts_clean, parts, rooted_append h, elems_append_slash, walk, foldl_append]
  show (walk (rooted d) (walk (rooted d) [] (elems d)) (elems t)).reverse = _
  rw [parts, reverse_reverse]

theorem clean_join (h : d ≠ []) (t : Text) : clean (join d t) = join d t := by
  rw [join, if_pos h, clean_clean]

theorem inside_join {t : Text} (h : d ≠ []) (hne : walk false [] (elems t) ≠ [])
    (hno : ['.', '.'] ∉ walk false [] (elems t)) : Inside d (join d t) := by
  refine ⟨rooted_join h t, (walk false [] (elems t)).reverse, by simpa using hne, ?_, ?_⟩
  · intro e he
    rw [mem_reverse] at he
    rcases mem_walk he with h | ⟨hmem, hdot⟩
    · cases h
    refine ⟨(mem_elems hmem).1, (mem_elems hmem).2.1, hdot, ?_⟩
    rintro rfl
    exact hno he
  · rw [parts_join h, ← nil_append (parts d).reverse, (walk_append hno _ _).2, reverse_append,
      reverse_reverse]

def base (p : Text) : Text :=
  let b := (trimRight p).rtakeWhile (· != '/')
  if p = [] then ['.'] else if b = [] then ['/'] else b

def dir (p : Text) : Text := clean (p.rdropWhile (· != '/'))

/-- A file in a directory, as `os.CreateTemp` names it. -/
def inDir (d name : Text) : Text := if d.getLast? = some '/' then d ++ name else d ++ '/' :: name

theorem elems_of_last_slash {t : Text} (h : s.getLast? = some '/') : elems (s ++ t) = elems s ++ elems t := by
  have hs := dropLast_append_getLast? '/' h
  rw [← hs, append_assoc, singleton_append, elems_append_slash, elems_append_slash, elems_nil,
    append_nil]

theorem elems_inDir (hne : name ≠ []) (hslash : '/' ∉ name) : elems (inDir d name) = elems d ++ [name] := by
  unfold inDir
  split
  · rename_i hlast
    rw [elems_of_last_slash hlast, elems_of_no_slash hne hslash]
  · rw [elems_append_slash, elems_of_no_slash hne hslash]

theorem rooted_inDir (hd : d ≠ []) : rooted (inDir d name) = rooted d := by
  unfold inDir
  split
  · exact rooted_append hd _
  · exact rooted_append hd _

theorem rdropWhile_append_rtakeWhile_slash (p : Text) :
    p.rdropWhile (· != '/') ++ p.rtakeWhile (· != '/') = p := rdropWhile_append_rtakeWhile

theorem slash_not_mem_rtakeWhile (p : Text) : '/' ∉ p.rtakeWhile (· != '/') := by
  intro h
  simpa using mem_rtakeWhile_imp h

theorem rdropWhile_slash (p : Text) :
    p.rdropWhile (· != '/') = [] ∨ (p.rdropWhile (· != '/')).getLast? = some '/' := by
  by_cases hpre : p.rdropWhile (· != '/') = []
  · exact .inl hpre
  right
  have hnot := rdropWhile_last_not (· != '/') p hpre
  rw [getLast?_eq_some_getLast hpre]
  simpa using hnot

theorem elems_rdropWhile (h : p.rtakeWhile (· != '/') ≠ []) :
    elems p = elems (p.rdropWhile (· != '/')) ++ [p.rtakeWhile (· != '/')] ∧
      rooted (p.rdropWhile (· != '/')) = rooted p := by
  have hp := rdropWhile_append_rtakeWhile_slash p
  have hslash := slash_not_mem_rtakeWhile p
  rcases rdropWhile_slash p with hpre | hlast
  · rw [hpre, nil_append] at hp
    rw [hpre, hp]
    rw [hp] at hslash h
    refine ⟨elems_of_no_slash h hslash, ?_⟩
    cases p with
    | nil => rfl
    | cons c p =>
      rw [mem_cons, not_or] at hslash
      simp [rooted, Ne.symm hslash.1]
  have hpre : p.rdropWhile (· != '/') ≠ [] := by
    intro hnil
    rw [hnil] at hlast
    cases hlast
  constructor
  · nth_rewrite 1 [← hp]
    rw [elems_of_last_slash hlast, elems_of_no_slash h hslash]
  · nth_rewrite 2 [← hp]
    exact (rooted_append hpre _).symm

theorem exists_intercalate_append (init : List Text) (x : Text) :
    ∃ pre, ['/'].intercalate (init ++ [x]) = pre ++ x := by
  induction init with
  | nil => exact ⟨[], by simp⟩
  | cons e init ih =>
    obtain ⟨pre, hpre⟩ := ih
    obtain ⟨e', rest, hrest⟩ : ∃ e' rest, init ++ [x] = e' :: rest := by
      cases init with
      | nil => exact ⟨x, [], rfl⟩
      | cons e' init => exact ⟨e', init ++ [x], rfl⟩
    rw [cons_append, hrest, intercalate_cons_cons, ← hrest, hpre]
    exact ⟨e ++ ['/'] ++ pre, by simp⟩

theorem exists_render_append (r : Bool) (init : List Text) (x : Text) : ∃ pre, render r (init ++ [x]) = pre ++ x := by
  have hne : init ++ [x] ≠ [] := by simp
  unfold render
  cases r with
  | true =>
    rw [if_pos rfl, abs, if_neg hne, flatMap_append]
    exact ⟨init.flatMap ('/' :: ·) ++ ['/'], by simp⟩
  | false =>
    rw [if_neg Bool.false_ne_true, if_neg hne]
    exact exists_intercalate_append init x

theorem clean_ne_nil (s : Text) : clean s ≠ [] := by
  rw [clean_eq_render]
  rcases eq_nil_or_concat' (parts s) with hnil | ⟨init, x, hx⟩
  · rw [hnil]
    cases rooted s <;> decide
  obtain ⟨pre, hpre⟩ := exists_render_append (rooted s) init x
  have hmem : x ∈ parts s := by rw [hx]; simp
  have hxne := (mem_parts hmem).1
  rw [hx, hpre]
  simp [hxne]

theorem clean_getLast (s : Text) : clean s = ['/'] ∨ (clean s).getLast? ≠ some '/' := by
  rw [clean_eq_render]
  rcases eq_nil_or_concat' (parts s) with hnil | ⟨init, x, hparts⟩
  · rw [hnil]
    cases rooted s
    · exact .inr (by decide)
    · exact .inl rfl
  have hx := mem_parts (e := x) (s := s) (by rw [hparts]; simp)
  obtain ⟨pre, hpre⟩ := exists_render_append (rooted s) init x
  rw [hparts, hpre]
  refine .inr fun hlast => hx.2 ?_
  rw [getLast?_append_of_ne_nil _ hx.1] at hlast
  exact mem_of_getLast? hlast

theorem trimRight_clean (h : clean s ≠ ['/']) : trimRight (clean s) = clean s := by
  unfold trimRight
  rw [rdropWhile_eq_self_iff]
  intro hne hlast
  refine ((clean_getLast s).resolve_left h) ?_
  rw [getLast?_eq_some_getLast hne]
  exact congrArg some (beq_iff_eq.1 hlast)

theorem clean_ne_slashes (s rest : Text) : clean s ≠ '/' :: '/' :: rest := by
  intro h
  have hrooted : rooted s = true := by
    rw [← rooted_clean, h]
    rfl
  rw [clean_eq_render, hrooted] at h
  cases hparts : parts s with
  | nil =>
    rw [hparts] at h
    cases h
  | cons e es =>
    have he := mem_parts (e := e) (s := s) (by rw [hparts]; exact mem_cons_self)
    rw [hparts] at h
    cases e with
    | nil => exact he.1 rfl
    | cons c e =>
      have hc := (List.cons.inj (List.cons.inj h).2).1
      exact he.2 (by rw [hc]; exact mem_cons_self)

theorem elems_append_of_no_slash (s : Text) {u : Text} (hne : u ≠ []) (hslash : '/' ∉ u) :
    ∃ init e, '/' ∉ e ∧ elems (s ++ u) = init ++ [e ++ u] := by
  have hlast : '/' ∉ s.rtakeWhile (· != '/') ++ u := by
    rw [mem_append, not_or]
    exact ⟨slash_not_mem_rtakeWhile s, hslash⟩
  refine ⟨elems (s.rdropWhile (· != '/')), s.rtakeWhile (· != '/'), slash_not_mem_rtakeWhile s, ?_⟩
  nth_rewrite 1 [← rdropWhile_append_rtakeWhile_slash s]
  rw [append_assoc]
  rcases rdropWhile_slash s with hpre | hpre
  · rw [hpre, nil_append, elems_of_no_slash (by simp [hne]) hlast]
    rfl
  · rw [elems_of_last_slash hpre, elems_of_no_slash (by simp [hne]) hlast]

theorem clean_split {init : List Text} (hclean : clean p = p) (hparts : parts p = init ++ [x])
    (hx : Plain x) : base p = x ∧ parts (dir p) = init ∧ rooted (dir p) = rooted p := by
  have hrender : p = render (rooted p) (init ++ [x]) := by rw [← hparts, ← clean_eq_render, hclean]
  have helems : elems p = init ++ [x] := by
    rw [← hparts]
    nth_rewrite 1 [hrender]
    rw [← hparts]
    exact elems_render (fun e he => mem_parts he) (by simp [hparts])
  obtain ⟨pre, hpre⟩ := exists_render_append (rooted p) init x
  have hpx := hrender.trans hpre
  have hne : p ≠ [] := by simp [hpx, hx.ne_nil]
  have hlast : p.getLast hne ≠ '/' := by
    intro h
    apply hx.no_slash
    rw [← h]
    simp only [hpx]
    rw [getLast_append_of_ne_nil _ hx.ne_nil]
    exact getLast_mem hx.ne_nil
  have htake : p.rtakeWhile (· != '/') ≠ [] := by
    rw [ne_eq, rtakeWhile_eq_nil_iff]
    intro h
    exact h hne (by simpa using hlast)
  obtain ⟨hsplit, hrooted⟩ := elems_rdropWhile htake
  obtain ⟨hinit, hlast'⟩ := append_inj' (helems.symm.trans hsplit) rfl
  have hx' : x = p.rtakeWhile (· != '/') := singleton_inj.1 hlast'
  have htrim : trimRight p = p := by
    rw [trimRight, rdropWhile_eq_self_iff]
    intro _
    simpa using hlast
  refine ⟨?_, ?_, ?_⟩
  · rw [base, htrim, if_neg hne, if_neg htake, hx']
  · have hwalk : walk (rooted p) [] (init ++ [x]) = (init ++ [x]).reverse := by
      have hself : (walk (rooted p) [] (elems p)).reverse = init ++ [x] := hparts
      rw [← hself, reverse_reverse, hself, helems]
    rw [walk_concat, push_plain hx, reverse_append, reverse_singleton, singleton_append] at hwalk
    rw [dir, parts_clean, parts, hrooted, ← hinit, (List.cons.inj hwalk).2, reverse_reverse]
  · rw [dir, rooted_clean, hrooted]

theorem inside_sibling (h : Inside d p) (hclean : clean p = p) (hname : Plain name) :
    Inside d (inDir (dir p) name) := by
  obtain ⟨hrooted, es, hne, hplain, hparts⟩ := h
  obtain ⟨es', x, rfl⟩ := (eq_nil_or_concat' es).resolve_left hne
  rw [← append_assoc] at hparts
  have hx := hplain x (by simp)
  obtain ⟨-, hdir, hrdir⟩ := clean_split hclean hparts hx
  have hrin : rooted (inDir (dir p) name) = rooted (dir p) := rooted_inDir (clean_ne_nil _)
  refine ⟨hrin.trans (hrdir.trans hrooted), es' ++ [name], by simp, ?_, ?_⟩
  · intro e he
    rcases mem_append.1 he with he | he
    · exact hplain e (mem_append_left _ he)
    · exact mem_singleton.1 he ▸ hname
  · rw [parts, hrin, elems_inDir hname.ne_nil hname.no_slash, walk_concat, push_plain hname, reverse_cons]
    show parts (dir p) ++ [name] = _
    rw [hdir, append_assoc]

end Dbr2.Lib.GoPath
