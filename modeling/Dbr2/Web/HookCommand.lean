import Mathlib.Data.List.Basic

/-! The command line of a hook in the editor (`splitCommand` and `joinCommand` in
`web/src/lib/protection.ts`), over the code units of a string. -/
namespace Dbr2.Web.HookCommand
open List

abbrev Str := List UInt16

inductive Quote
  | single
  | double

structure State where
  out : List Str
  cur : Str
  inWord : Bool
  quote : Option Quote

/-- `/\s/` -/
def isSpace (c : UInt16) : Bool :=
  (9 ≤ c && c ≤ 13) || (0x2000 ≤ c && c ≤ 0x200A) ||
    [0x20, 0xA0, 0x1680, 0x2028, 0x2029, 0x202F, 0x205F, 0x3000, 0xFEFF].contains c

/-- The loop of splitCommand over the rest of the line, and its end. -/
def splitFrom (s : State) : Str → Except String (List Str)
  | [] =>
    match s.quote with
    | some .single => .error "Unterminated single quote in the command."
    | some .double => .error "Unterminated double quote in the command."
    | none => .ok (if s.inWord then s.out ++ [s.cur] else s.out)
  | c :: rest =>
    match s.quote with
    | some .single =>
      if c = 39 then splitFrom {s with quote := none} rest else splitFrom {s with cur := s.cur ++ [c]} rest
    | some .double =>
      if c = 34 then splitFrom {s with quote := none} rest
      else
        match rest with
        | d :: rest' =>
          if c = 92 ∧ (d = 34 ∨ d = 92) then splitFrom {s with cur := s.cur ++ [d]} rest'
          else splitFrom {s with cur := s.cur ++ [c]} (d :: rest')
        | [] => splitFrom {s with cur := s.cur ++ [c]} []
    | none =>
      if c = 39 then splitFrom {s with quote := some .single, inWord := true} rest
      else if c = 34 then splitFrom {s with quote := some .double, inWord := true} rest
      else if c = 92 then
        match rest with
        | d :: rest' => splitFrom {s with cur := s.cur ++ [d], inWord := true} rest'
        | [] => .error "The command ends with a lone backslash."
      else if isSpace c then
        splitFrom {s with out := if s.inWord then s.out ++ [s.cur] else s.out, cur := [], inWord := false} rest
      else splitFrom {s with cur := s.cur ++ [c], inWord := true} rest

def splitCommand (line : Str) : Except String (List Str) := splitFrom ⟨[], [], false, none⟩ line

/-- Letters, digits and `_@%+=:,.` with the slash and the hyphen. -/
def plain (c : UInt16) : Bool :=
  (65 ≤ c && c ≤ 90) || (97 ≤ c && c ≤ 122) || (48 ≤ c && c ≤ 57) ||
    [95, 64, 37, 43, 61, 58, 44, 46, 47, 45].contains c

def escaped (a : Str) : Str := a.flatMap fun c => if c = 39 then [39, 92, 39, 39] else [c]

def quoted (a : Str) : Str := if a ≠ [] ∧ a.all plain then a else 39 :: (escaped a ++ [39])

def joinCommand (argv : List Str) : Str := [32].intercalate (argv.map quoted)

variable {out : List Str} {cur : Str}

theorem plain_range {c : UInt16} (h : plain c = true) : 37 ≤ c.toNat ∧ c.toNat ≤ 122 ∧ c ≠ 39 ∧ c ≠ 92 := by
  have h39 : c ≠ 39 := fun hc => by rw [hc] at h; exact absurd h (by decide)
  have h92 : c ≠ 92 := fun hc => by rw [hc] at h; exact absurd h (by decide)
  simp only [plain, Bool.or_eq_true, Bool.and_eq_true, decide_eq_true_eq, UInt16.le_iff_toNat_le, contains_iff_mem,
    mem_cons, not_mem_nil, or_false, ← UInt16.toNat_inj, UInt16.reduceToNat] at h
  refine ⟨?_, ?_, h39, h92⟩ <;> omega

theorem isSpace_range {c : UInt16} (h : isSpace c = true) : c.toNat ≤ 32 ∨ 160 ≤ c.toNat := by
  simp only [isSpace, Bool.or_eq_true, Bool.and_eq_true, decide_eq_true_eq, UInt16.le_iff_toNat_le, contains_iff_mem,
    mem_cons, not_mem_nil, or_false, ← UInt16.toNat_inj, UInt16.reduceToNat] at h
  omega

theorem splitFrom_char {c : UInt16} (h : plain c = true) (inWord : Bool) (rest : Str) :
    splitFrom ⟨out, cur, inWord, none⟩ (c :: rest) = splitFrom ⟨out, cur ++ [c], true, none⟩ rest := by
  obtain ⟨hle, hge, h39, h92⟩ := plain_range h
  have h34 : c ≠ 34 := fun hc => by rw [hc] at hle; exact absurd hle (by decide)
  have hspace : ¬ isSpace c = true := fun hs => by have := isSpace_range hs; omega
  cases rest <;> simp [splitFrom, h39, h34, h92, hspace]

theorem splitFrom_quote (inWord : Bool) (rest : Str) :
    splitFrom ⟨out, cur, inWord, none⟩ (39 :: rest) = splitFrom ⟨out, cur, true, some .single⟩ rest := by
  cases rest <;> simp [splitFrom]

theorem splitFrom_unquote (rest : Str) :
    splitFrom ⟨out, cur, true, some .single⟩ (39 :: rest) = splitFrom ⟨out, cur, true, none⟩ rest := by
  cases rest <;> simp [splitFrom]

theorem splitFrom_backslash (d : UInt16) (rest : Str) :
    splitFrom ⟨out, cur, true, none⟩ (92 :: d :: rest) = splitFrom ⟨out, cur ++ [d], true, none⟩ rest := by
  simp [splitFrom]

theorem splitFrom_space (rest : Str) :
    splitFrom ⟨out, cur, true, none⟩ (32 :: rest) = splitFrom ⟨out ++ [cur], [], false, none⟩ rest := by
  cases rest <;> simp [splitFrom, isSpace]

theorem splitFrom_plain (a : Str) (ha : a.all plain = true) (inWord : Bool) (rest : Str) :
    splitFrom ⟨out, cur, inWord, none⟩ (a ++ rest) = splitFrom ⟨out, cur ++ a, inWord || !a.isEmpty, none⟩ rest := by
  induction a generalizing cur inWord with
  | nil => simp
  | cons c a ih =>
    rw [all_cons, Bool.and_eq_true] at ha
    rw [cons_append, splitFrom_char ha.1, ih ha.2]
    simp

theorem splitFrom_escaped (a rest : Str) :
    splitFrom ⟨out, cur, true, some .single⟩ (escaped a ++ rest) = splitFrom ⟨out, cur ++ a, true, some .single⟩ rest := by
  induction a generalizing cur with
  | nil => simp [escaped]
  | cons c a ih =>
    have hcons : escaped (c :: a) = (if c = 39 then [39, 92, 39, 39] else [c]) ++ escaped a := flatMap_cons
    rw [hcons, append_assoc, append_cons cur, ← ih]
    by_cases hc : c = 39
    · subst hc
      rw [if_pos rfl]
      exact (splitFrom_unquote _).trans ((splitFrom_backslash 39 _).trans (splitFrom_quote true _))
    · rw [if_neg hc]
      simp [splitFrom, hc]

theorem splitFrom_quoted (a rest : Str) :
    splitFrom ⟨out, [], false, none⟩ (quoted a ++ rest) = splitFrom ⟨out, a, true, none⟩ rest := by
  unfold quoted
  split
  · rename_i ha
    have hne : a.isEmpty = false := by simpa using ha.1
    rw [splitFrom_plain a ha.2, hne]
    rfl
  · rw [cons_append, append_assoc, splitFrom_quote, splitFrom_escaped]
    exact splitFrom_unquote rest

theorem splitFrom_join (argv : List Str) : splitFrom ⟨out, [], false, none⟩ (joinCommand argv) = .ok (out ++ argv) := by
  induction argv generalizing out with
  | nil => simp [joinCommand, splitFrom]
  | cons a argv ih =>
    cases argv with
    | nil =>
      have hword : splitFrom ⟨out, [], false, none⟩ (quoted a) = splitFrom ⟨out, a, true, none⟩ [] := by
        rw [← splitFrom_quoted a [], append_nil]
      simp [joinCommand, hword, splitFrom]
    | cons b argv =>
      have hjoin : joinCommand (a :: b :: argv) = quoted a ++ 32 :: joinCommand (b :: argv) := by
        simp [joinCommand]
      rw [hjoin, splitFrom_quoted, splitFrom_space, ih, append_assoc]
      rfl

/-- **Splitting what was joined gives the arguments back.** -/
theorem split_joinCommand (argv : List Str) : splitCommand (joinCommand argv) = .ok argv := splitFrom_join argv

end Dbr2.Web.HookCommand
