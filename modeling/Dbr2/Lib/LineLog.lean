import Mathlib.Data.List.Infix

/-! A log of records, one a line, in a file that is a sequence of bytes.

A `Codec` turns a record into a line's text and back. What the log needs of it is
little: the text has no control characters, it reads back as the record, and a
part of it that was cut off does not read back at all. `scan` splits a file as a
line scanner with a bounded buffer does, and `readLog` keeps the lines that
decode. `readLog_body`: of whole lines and one that was cut, it reads the records
of the whole lines and nothing of the other, unless only its newline is missing. -/
namespace Dbr2.Lib
open List

def newline : UInt8 := 10

def carriageReturn : UInt8 := 13

structure Codec (R : Type) where
  encode : R → List UInt8
  decode : List UInt8 → Option R
  printable : ∀ r, ∀ b ∈ encode r, 32 ≤ b
  decode_encode : ∀ r, decode (encode r) = some r
  decode_cut : ∀ r p, p <+: encode r → p ≠ encode r → decode p = none

/-- The lines of a file; what stands after the last newline is one if it is not empty. -/
def lines : List UInt8 → List (List UInt8)
  | [] => []
  | b :: bs =>
    if b = newline then [] :: lines bs
    else match lines bs with
      | [] => [[b]]
      | l :: ls => (b :: l) :: ls

theorem lines_line {l : List UInt8} (hl : newline ∉ l) (rest : List UInt8) :
    lines (l ++ newline :: rest) = l :: lines rest := by
  induction l with
  | nil => simp [lines]
  | cons b l ih =>
    rw [mem_cons, not_or] at hl
    rw [cons_append, lines, if_neg (Ne.symm hl.1), ih hl.2]

theorem lines_tail {l : List UInt8} (hl : newline ∉ l) : lines l = if l = [] then [] else [l] := by
  induction l with
  | nil => rfl
  | cons b l ih =>
    rw [mem_cons, not_or] at hl
    rw [lines, if_neg (Ne.symm hl.1), ih hl.2]
    by_cases hnil : l = [] <;> simp [hnil]

def dropCR (l : List UInt8) : List UInt8 :=
  if l.getLast? = some carriageReturn then l.dropLast else l

/-- The lines as a scanner returns them whose buffer holds fewer than `max` bytes of one. -/
def scan (max : Nat) (file : List UInt8) : Option (List (List UInt8)) :=
  if ∀ l ∈ lines file, l.length < max then some ((lines file).map dropCR) else none

variable {R : Type} (c : Codec R)

namespace Codec

def line (r : R) : List UInt8 := c.encode r ++ [newline]

def body (rs : List R) : List UInt8 := rs.flatMap c.line

/-- The records of a file: lines that do not decode are skipped. -/
def readLog (max : Nat) (file : List UInt8) : Option (List R) :=
  (scan max file).map (·.filterMap c.decode)

theorem body_append (rs rs' : List R) : c.body (rs ++ rs') = c.body rs ++ c.body rs' :=
  flatMap_append ..

theorem body_singleton (r : R) : c.body [r] = c.line r := by simp [body]

variable {c}

theorem newline_notMem_encode (r : R) : newline ∉ c.encode r := fun h =>
  absurd (c.printable r _ h) (by decide)

variable {p : List UInt8} {r : R}

theorem newline_notMem_cut (hp : p <+: c.encode r) : newline ∉ p :=
  fun h => newline_notMem_encode r (hp.subset h)

theorem dropCR_cut (hp : p <+: c.encode r) : dropCR p = p := by
  refine if_neg fun h => ?_
  exact absurd (c.printable r _ (hp.subset (mem_of_getLast? h))) (by decide)

theorem lines_body (rs : List R) (rest : List UInt8) : lines (c.body rs ++ rest) = rs.map c.encode ++ lines rest := by
  induction rs with
  | nil => rfl
  | cons r rs ih =>
    rw [body, flatMap_cons, ← body, line, append_assoc, append_assoc,
      singleton_append, lines_line (newline_notMem_encode r), ih, map_cons,
      cons_append]

def tailRecord (c : Codec R) (p : List UInt8) : List R := if p = [] then [] else (c.decode p).toList

@[simp] theorem tailRecord_nil : tailRecord c [] = [] := rfl

theorem tailRecord_cut {r' : R} (hp : p <+: c.encode r) (h : r' ∈ tailRecord c p) : r' = r := by
  unfold tailRecord at h
  split at h
  · cases h
  by_cases hw : p = c.encode r
  · rw [hw, c.decode_encode] at h
    simpa using h
  · rw [c.decode_cut r p hp hw] at h
    cases h

theorem readLog_body {m : Nat} {l : List R} (hp : p <+: c.encode r)
    (hrs : ∀ r ∈ l, (c.encode r).length < m) (hr : p.length < m) :
    c.readLog m (c.body l ++ p) = some (l ++ tailRecord c p) := by
  have hlines : lines (c.body l ++ p) = l.map c.encode ++ if p = [] then [] else [p] := by
    rw [lines_body, lines_tail (newline_notMem_cut hp)]
  have hfit : ∀ x ∈ lines (c.body l ++ p), x.length < m := by
    intro x hl
    rw [hlines, mem_append] at hl
    rcases hl with hl | hl
    · obtain ⟨r', hr', rfl⟩ := mem_map.1 hl
      exact hrs r' hr'
    split at hl
    · cases hl
    · obtain rfl := mem_singleton.1 hl
      exact hr
  have hwhole : ((l.map c.encode).map dropCR).filterMap c.decode = l := by
    rw [map_map, filterMap_map]
    refine (filterMap_congr fun r' _ => ?_).trans filterMap_some
    show c.decode (dropCR (c.encode r')) = some r'
    rw [dropCR_cut (prefix_refl _), c.decode_encode]
  rw [readLog, scan, if_pos hfit, hlines, Option.map_some, map_append, filterMap_append, hwhole, tailRecord]
  congr 2
  split
  · rfl
  · rw [map_singleton, dropCR_cut hp]
    cases h : c.decode p <;> simp [h]

end Codec
end Dbr2.Lib
