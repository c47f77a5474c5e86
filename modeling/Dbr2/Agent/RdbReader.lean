import Mathlib.Data.List.Basic

/-! The reader that checks a Redis dump while it passes through (`rdbReader` in
`internal/agent/dump.go`).

A read returns some bytes and perhaps an error, the end of the file among them; a caller reads until
there is one. After any reads the state is that of the bytes so far (`Rdb.after`), however they were
cut. -/
namespace Dbr2.Agent.Rdb
open List

inductive Err
  | eof
  | failed
  | notRDB (head : List UInt8)
  | emptyFile
  | truncated (n : Nat)
  deriving DecidableEq

structure RdbReader where
  head : List UInt8
  n : Nat
  magic : List UInt8

def redis : List UInt8 := [82, 69, 68, 73, 83]

def digit (b : UInt8) : Bool := 48 ≤ b && b ≤ 57

/-- `^REDIS[0-9]{4}$` -/
def rdbMagicRe (s : List UInt8) : Bool := s.take 5 == redis && (s.drop 5).length == 4 && (s.drop 5).all digit

def collect (head data : List UInt8) : List UInt8 :=
  if head.length < 9 then head ++ data.take (9 - head.length) else head

/-- `data` and `err` are what the underlying reader returns. -/
def RdbReader.read (v : RdbReader) (data : List UInt8) (err : Option Err) : RdbReader × Option Err :=
  let n := v.n + data.length
  let head := collect v.head data
  let complete := v.head.length < 9 ∧ head.length = 9
  if complete ∧ rdbMagicRe head = false then (⟨head, n, v.magic⟩, some (.notRDB head))
  else
    let magic := if complete then head else v.magic
    if err = some .eof ∧ magic = [] then (⟨head, n, magic⟩, some (if n = 0 then .emptyFile else .truncated n))
    else (⟨head, n, magic⟩, err)

/-- A caller that reads to the end: these reads without an error, and `last` with the end of the file. -/
def readAll (v : RdbReader) (last : List UInt8) : List (List UInt8) → Except Err (List UInt8)
  | [] =>
    match v.read last (some .eof) with
    | (_, some .eof) => .ok last
    | (_, e) => .error (e.getD .failed)
  | data :: rest =>
    match v.read data none with
    | (v', none) => (readAll v' last rest).map (data ++ ·)
    | (_, some e) => .error e

def IsRdb (s : List UInt8) : Prop :=
  ∃ digits rest, s = redis ++ digits ++ rest ∧ digits.length = 4 ∧ digits.all digit = true

theorem isRdb_iff (s : List UInt8) : IsRdb s ↔ 9 ≤ s.length ∧ rdbMagicRe (s.take 9) = true := by
  constructor
  · rintro ⟨digits, rest, rfl, hlen, hdigits⟩
    have htake : (redis ++ digits ++ rest).take 9 = redis ++ digits := by
      rw [take_append_of_le_length (by simp [redis, hlen])]
      exact take_of_length_le (by simp [redis, hlen])
    refine ⟨by simp [redis, hlen], ?_⟩
    have hfive : (redis ++ digits).take 5 = redis ∧ (redis ++ digits).drop 5 = digits := ⟨rfl, rfl⟩
    rw [htake, rdbMagicRe, hfive.1, hfive.2, hlen, hdigits]
    rfl
  · rintro ⟨hlen, hmagic⟩
    simp only [rdbMagicRe, Bool.and_eq_true, beq_iff_eq] at hmagic
    obtain ⟨⟨hredis, hfour⟩, hdigits⟩ := hmagic
    refine ⟨(s.take 9).drop 5, s.drop 9, ?_, hfour, hdigits⟩
    rw [← hredis, take_append_drop, take_append_drop]

def after (p : List UInt8) : RdbReader := ⟨p.take 9, p.length, if 9 ≤ p.length then p.take 9 else []⟩

def Fine (p : List UInt8) : Prop := p.length < 9 ∨ rdbMagicRe (p.take 9) = true

instance (p : List UInt8) : Decidable (Fine p) := inferInstanceAs (Decidable (_ ∨ _))

variable {p data : List UInt8}

theorem collect_after (p data : List UInt8) : collect (after p).head data = (p ++ data).take 9 := by
  have hlen : (after p).head.length = min 9 p.length := length_take
  unfold collect
  simp only [hlen, take_append]
  split
  · rw [Nat.min_eq_right (by omega)]
    rfl
  · rw [Nat.sub_eq_zero_of_le (by omega), take_zero, append_nil]
    rfl

theorem read_after (hp : Fine p) (data : List UInt8) (err : Option Err) :
    (after p).read data err =
      if Fine (p ++ data) then (after (p ++ data), if err = some .eof ∧ (p ++ data).length < 9 then
        some (if (p ++ data).length = 0 then .emptyFile else .truncated (p ++ data).length) else err)
      else (⟨(p ++ data).take 9, (p ++ data).length, []⟩, some (.notRDB ((p ++ data).take 9))) := by
  have hn : (after p).n + data.length = (p ++ data).length := length_append.symm
  have hle : p.length ≤ (p ++ data).length := by simp
  have hcomplete : ((after p).head.length < 9 ∧ ((p ++ data).take 9).length = 9) ↔
      p.length < 9 ∧ 9 ≤ (p ++ data).length := by
    have hhead : (after p).head.length = min 9 p.length := length_take
    rw [hhead, length_take]
    omega
  have htake : ¬ p.length < 9 → (p ++ data).take 9 = p.take 9 := fun hlen =>
    take_append_of_le_length (Nat.not_lt.1 hlen)
  unfold RdbReader.read
  simp only [collect_after, hn, hcomplete]
  generalize p ++ data = q at *
  by_cases hq : q.length < 9
  · have hlen : p.length < 9 := Nat.lt_of_le_of_lt hle hq
    have hmagic : (after p).magic = [] ∧ (after q).magic = [] := ⟨if_neg (Nat.not_le.2 hlen), if_neg (Nat.not_le.2 hq)⟩
    have hafter : after q = ⟨q.take 9, q.length, []⟩ := by rw [after, if_neg (Nat.not_le.2 hq)]
    have hfine : Fine q := .inl hq
    simp only [Nat.not_le.2 hq, and_false, false_and, if_false, hmagic, and_true, hfine, if_true, hafter, hq]
    split <;> rfl
  · have hne : q.take 9 ≠ [] := by
      intro h
      rw [take_eq_nil_iff] at h
      simp_all
    have hafter : after q = ⟨q.take 9, q.length, q.take 9⟩ := by rw [after, if_pos (Nat.not_lt.1 hq)]
    by_cases hlen : p.length < 9
    · have hmagic : (after p).magic = [] := if_neg (Nat.not_le.2 hlen)
      cases hre : rdbMagicRe (q.take 9) <;> simp [hlen, Nat.not_lt.1 hq, hre, hne, hafter, hmagic, Fine, hq]
    · have hmagic : (after p).magic = q.take 9 := (if_pos (Nat.not_lt.1 hlen)).trans (htake hlen).symm
      have hfine : Fine q := .inr (htake hlen ▸ hp.resolve_left hlen)
      simp [hlen, hmagic, hne, hfine, hafter, hq]

theorem not_isRdb (h : ¬ Fine p) (rest : List UInt8) : ¬ IsRdb (p ++ rest) := by
  rw [Fine, not_or, Nat.not_lt] at h
  rw [isRdb_iff, take_append_of_le_length h.1]
  exact fun hrdb => h.2 hrdb.2

theorem readAll_after (hp : Fine p) (last : List UInt8) (chunks : List (List UInt8)) (out : List UInt8) :
    readAll (after p) last chunks = .ok out ↔ IsRdb (p ++ (chunks.flatten ++ last)) ∧ out = chunks.flatten ++ last := by
  induction chunks generalizing p out with
  | nil =>
    rw [readAll, read_after hp, flatten_nil, nil_append]
    by_cases hfine : Fine (p ++ last)
    · rw [if_pos hfine, isRdb_iff]
      by_cases hlen : (p ++ last).length < 9
      · simp only [hlen, and_self, if_true, Nat.not_le.2 hlen, false_and, iff_false]
        split
        · rename_i heq
          split_ifs at heq <;> cases heq
        · exact fun h => by cases h
      · simp only [hlen, and_false, if_false, Nat.not_lt.1 hlen, hfine.resolve_left hlen, true_and, Except.ok.injEq]
        exact eq_comm
    · rw [if_neg hfine]
      have hnot := not_isRdb hfine []
      rw [append_nil] at hnot
      simp only [hnot, false_and, iff_false]
      exact fun h => by cases h
  | cons data rest ih =>
    rw [readAll, read_after hp, flatten_cons, append_assoc, ← append_assoc p]
    by_cases hfine : Fine (p ++ data)
    · rw [if_pos hfine]
      simp only [reduceCtorEq, false_and, if_false]
      have ih := ih hfine
      cases hrest : readAll (after (p ++ data)) last rest with
      | error e =>
        have hnot : ¬ IsRdb (p ++ data ++ (rest.flatten ++ last)) := fun hrdb => by
          cases hrest.symm.trans ((ih _).2 ⟨hrdb, rfl⟩)
        simp only [hnot, false_and, iff_false]
        exact fun h => by cases h
      | ok tail =>
        obtain ⟨hrdb, rfl⟩ := (ih tail).1 hrest
        simp only [hrdb, true_and]
        exact ⟨fun h => (Except.ok.inj h).symm, fun h => congrArg Except.ok h.symm⟩
    · rw [if_neg hfine]
      simp only [not_isRdb hfine, false_and, iff_false]
      exact fun h => by cases h

/-- The stream is read to its end exactly if it is a dump, and then all of it comes out, however it was cut. -/
theorem readAll_ok_iff (chunks : List (List UInt8)) (last out : List UInt8) :
    readAll ⟨[], 0, []⟩ last chunks = .ok out ↔ IsRdb (chunks.flatten ++ last) ∧ out = chunks.flatten ++ last :=
  readAll_after (p := []) (.inl (by decide)) last chunks out

end Dbr2.Agent.Rdb
