import Mathlib.Data.List.Basic

/-! Byte texts that are UTF-8, and what becomes of the others.

A byte either starts a well-formed sequence, `follows` then tells how many bytes belong to
it besides, or it does not. A text is `valid` when it is such sequences all through;
`coerce` puts the replacement character for every byte that starts none, as an encoder does
whose texts must be UTF-8. What it gives is valid (`valid_coerce`), and it leaves exactly
the valid texts as they are (`coerce_eq_self_iff`). -/
namespace Dbr2.Lib.Utf8
open List

abbrev Bytes := List UInt8

def cont (b : UInt8) : Bool := 0x80 ≤ b && b ≤ 0xBF

/-- Whether `b` may come second after `lead`: no overlong form, no surrogate, nothing past
the last code point. -/
def second (lead b : UInt8) : Bool :=
  if lead = 0xE0 then 0xA0 ≤ b && b ≤ 0xBF
  else if lead = 0xED then 0x80 ≤ b && b ≤ 0x9F
  else if lead = 0xF0 then 0x90 ≤ b && b ≤ 0xBF
  else if lead = 0xF4 then 0x80 ≤ b && b ≤ 0x8F
  else cont b

def extra (lead : UInt8) : Option Nat :=
  if lead < 0x80 then some 0
  else if lead < 0xC2 then none
  else if lead < 0xE0 then some 1
  else if lead < 0xF0 then some 2
  else if lead < 0xF5 then some 3
  else none

def sequel (lead : UInt8) (n : Nat) (rest : Bytes) : Bool :=
  match rest with
  | [] => false
  | b :: rest => second lead b && n ≤ rest.length && (rest.take n).all cont

/-- The number of bytes after `lead` in the sequence it starts before `rest`. -/
def follows (lead : UInt8) (rest : Bytes) : Option Nat :=
  match extra lead with
  | none => none
  | some 0 => some 0
  | some (n + 1) => if sequel lead n rest then some (n + 1) else none

def replacement : Bytes := [0xEF, 0xBF, 0xBD]

/-- A sequence takes a byte at least: the length of the text is fuel enough. -/
def validUpTo : Nat → Bytes → Bool
  | _, [] => true
  | 0, _ :: _ => false
  | n + 1, b :: rest =>
    match follows b rest with
    | none => false
    | some k => validUpTo n (rest.drop k)

def valid (s : Bytes) : Bool := validUpTo s.length s

def coerceUpTo : Nat → Bytes → Bytes
  | _, [] => []
  | 0, _ :: _ => []
  | n + 1, b :: rest =>
    match follows b rest with
    | none => replacement ++ coerceUpTo n rest
    | some k => b :: rest.take k ++ coerceUpTo n (rest.drop k)

def coerce (s : Bytes) : Bytes := coerceUpTo s.length s

theorem follows_take {b : UInt8} {rest : Bytes} {k : Nat} (h : follows b rest = some k) (tail : Bytes) :
    follows b (rest.take k ++ tail) = some k ∧ k ≤ rest.length := by
  unfold follows at h ⊢
  cases hx : extra b with
  | none =>
    rw [hx] at h
    cases h
  | some n =>
    rw [hx] at h
    cases n with
    | zero =>
      cases h
      exact ⟨rfl, Nat.zero_le _⟩
    | succ n =>
      dsimp only at h ⊢
      split at h
      · rename_i hs
        cases h
        cases rest with
        | nil => cases hs
        | cons c rest =>
          simp only [sequel, Bool.and_eq_true, decide_eq_true_eq] at hs
          obtain ⟨⟨h2, hlen⟩, hall⟩ := hs
          have htake : (rest.take n ++ tail).take n = rest.take n := by
            rw [take_append_of_le_length (by rw [length_take]; omega), take_take, Nat.min_self]
          have hle : n ≤ (rest.take n ++ tail).length := by
            rw [length_append, length_take]
            omega
          have hs : sequel b n (c :: rest.take n ++ tail) = true := by
            rw [cons_append, sequel, htake, h2, hall, decide_eq_true hle]
            rfl
          refine ⟨?_, by rw [length_cons]; omega⟩
          rw [take_succ_cons, if_pos hs]
      · cases h

theorem follows_replacement (tail : Bytes) : follows 0xEF (0xBF :: 0xBD :: tail) = some 2 := by
  have hs : sequel 0xEF 1 (0xBF :: 0xBD :: tail) = true := by
    unfold sequel
    simp [second, cont]
  show (if sequel 0xEF 1 (0xBF :: 0xBD :: tail) then some 2 else none) = some 2
  rw [if_pos hs]

theorem follows_ascii {b : UInt8} (h : b < 0x80) (rest : Bytes) : follows b rest = some 0 := by
  have hx : extra b = some 0 := if_pos h
  unfold follows
  rw [hx]

theorem validUpTo_mono {s : Bytes} {n m : Nat} (hn : s.length ≤ n) (hm : s.length ≤ m) :
    validUpTo n s = validUpTo m s := by
  induction n generalizing s m with
  | zero =>
    obtain rfl : s = [] := length_eq_zero_iff.1 (Nat.le_zero.1 hn)
    cases m <;> rfl
  | succ n ih =>
    cases s with
    | nil => cases m <;> rfl
    | cons b rest =>
      rw [length_cons] at hn hm
      cases m with
      | zero => omega
      | succ m =>
        unfold validUpTo
        cases follows b rest with
        | none => rfl
        | some k =>
          have hdrop : (rest.drop k).length ≤ rest.length := by
            rw [length_drop]
            omega
          exact ih (by omega) (by omega)

theorem valid_sequence {b : UInt8} {rest : Bytes} {k : Nat} (h : follows b rest = some k) (tail : Bytes) :
    valid (b :: rest.take k ++ tail) = valid tail := by
  obtain ⟨hf, hk⟩ := follows_take h tail
  have hlen : (rest.take k).length = k := by
    rw [length_take]
    omega
  have hdrop : (rest.take k ++ tail).drop k = tail := drop_left' hlen
  unfold valid
  rw [cons_append, length_cons]
  show validUpTo _ _ = _
  rw [validUpTo, hf]
  show validUpTo _ ((rest.take k ++ tail).drop k) = _
  rw [hdrop]
  exact validUpTo_mono (by rw [length_append]; omega) (Nat.le_refl _)

theorem valid_ascii {s : Bytes} (h : ∀ b ∈ s, b < 0x80) : valid s = true := by
  induction s with
  | nil => rfl
  | cons b s ih =>
    have hb := follows_ascii (h b mem_cons_self) s
    have hv := valid_sequence hb s
    rw [take_zero] at hv
    exact hv.trans (ih fun c hc => h c (mem_cons_of_mem _ hc))

theorem valid_coerceUpTo (n : Nat) (s : Bytes) : valid (coerceUpTo n s) = true := by
  induction n generalizing s with
  | zero => cases s <;> rfl
  | succ n ih =>
    cases s with
    | nil => rfl
    | cons b rest =>
      unfold coerceUpTo
      cases hf : follows b rest with
      | none => exact (valid_sequence (follows_replacement []) _).trans (ih rest)
      | some k => exact (valid_sequence hf _).trans (ih _)

theorem valid_coerce (s : Bytes) : valid (coerce s) = true := valid_coerceUpTo s.length s

theorem coerceUpTo_eq_self_iff {n : Nat} {s : Bytes} (hn : s.length ≤ n) :
    coerceUpTo n s = s ↔ validUpTo n s = true := by
  induction n generalizing s with
  | zero =>
    obtain rfl : s = [] := length_eq_zero_iff.1 (Nat.le_zero.1 hn)
    simp [coerceUpTo, validUpTo]
  | succ n ih =>
    cases s with
    | nil => simp [coerceUpTo, validUpTo]
    | cons b rest =>
      rw [length_cons] at hn
      unfold coerceUpTo validUpTo
      cases hf : follows b rest with
      | none =>
        -- A replacement character that was there before would have been a sequence.
        refine iff_of_false ?_ (by simp)
        intro h
        obtain ⟨rfl, hrest⟩ := List.cons.inj h
        rw [← hrest] at hf
        have := hf.symm.trans (follows_replacement _)
        cases this
      | some k =>
        have hlen : (rest.drop k).length ≤ n := by
          rw [length_drop]
          omega
        have hsplit : b :: rest = b :: rest.take k ++ rest.drop k := by
          rw [cons_append, take_append_drop]
        rw [hsplit, append_cancel_left_eq]
        exact ih hlen

theorem coerce_eq_self_iff (s : Bytes) : coerce s = s ↔ valid s = true :=
  coerceUpTo_eq_self_iff (Nat.le_refl _)

end Dbr2.Lib.Utf8
