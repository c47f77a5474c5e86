import Dbr2.Lib.LinkFs
import Dbr2.Lib.Utf8

/-! The metadata record of a tree, as a stream (`fsmeta.go`).

`Write` walks a tree and writes a record for each path that has something to restore; the
records are JSON objects, one a line, and `Reader` gives them back. JSON texts are UTF-8
and file names are any bytes: the encoder puts the replacement character for what is not.
So the records come back as they were exactly when their paths and attribute names are
UTF-8 (`read_write_iff`). -/
namespace Dbr2.Fsmeta
open Lib.LinkFs List
open Lib.Utf8 (valid coerce valid_coerce valid_ascii coerce_eq_self_iff)

structure Record where
  /-- The path from the root, `.` for the root. -/
  p : Bytes
  /-- Extended attributes, a map: no name twice. -/
  x : List (Bytes × Bytes)
  /-- The hard-link group of a non-directory with several links, else empty. -/
  h : Bytes
  /-- A directory's mtime in nanoseconds, an `int64`. -/
  dm : Option Int
  deriving DecidableEq

def version : Nat := 1

/-- A stream after decompression: the header's version, and an object a line whose texts
are UTF-8. `x` has the members of an object. -/
structure Stream where
  fsmetaVersion : Nat
  lines : List Record

def encode (rec : Record) : Record :=
  { rec with p := coerce rec.p, x := rec.x.map fun a => (coerce a.1, a.2), h := coerce rec.h }

/-- A member of an object in the map read so far. The last one of a name counts. -/
def insertMember (m : List (Bytes × Bytes)) (a : Bytes × Bytes) : List (Bytes × Bytes) :=
  if a.1 ∈ m.map Prod.fst then m.map fun b => if b.1 = a.1 then a else b else m ++ [a]

def decode (line : Record) : Record := { line with x := line.x.foldl insertMember [] }

def read (s : Stream) : Option (List Record) :=
  if s.fsmetaVersion < 1 ∨ version < s.fsmetaVersion then none else some (s.lines.map decode)

/-- A tree on one file system, its root a directory or a single file, as the walk lists it. -/
structure Tree where
  dev : Nat
  entries : List (Path × Entry)
  attr : Nat → Attr
  nlink : Nat → Nat
  root : ∃ e, ([], e) ∈ entries ∧ (e.kind = .dir ∨ e.kind = .file)
  nodup : (entries.map Prod.fst).Nodup
  named : ∀ x ∈ entries, ∀ n ∈ x.1, IsName n
  parents : ∀ p n e, (p ++ [n], e) ∈ entries → ∃ d, (p, d) ∈ entries ∧ d.kind = .dir
  kinds : ∀ x ∈ entries, ∀ y ∈ entries, x.2.ino = y.2.ino → x.2.kind = y.2.kind
  single : ∀ x ∈ entries, ∀ y ∈ entries, x.2.ino = y.2.ino → x.2.kind = .dir → x.1 = y.1
  /-- The links of an inode in the tree are among its links. -/
  links : ∀ i, entries.countP (fun x => x.2.ino = i) ≤ nlink i
  attrNames : ∀ i, ((attr i).xattrs.map Prod.fst).Nodup

def ascii (s : String) : Bytes := s.toList.map fun c => UInt8.ofNat c.toNat

def decimal (n : Nat) : Bytes := (Nat.toDigits 10 n).map fun c => UInt8.ofNat c.toNat

def group (dev ino : Nat) : Bytes := decimal dev ++ 0x3A :: decimal ino

/-- `Timespec.Nano`: what an `int64` holds of a time. -/
def nano (t : Int) : Int := t.bmod 18446744073709551616

def relText (p : Path) : Bytes := if p = [] then dot else [0x2F].intercalate p

namespace Tree

def recordOf (t : Tree) (x : Path × Entry) : Record where
  p := relText x.1
  x := (t.attr x.2.ino).xattrs
  h := if x.2.kind ≠ .dir ∧ 1 < t.nlink x.2.ino then group t.dev x.2.ino else []
  dm := if x.2.kind = .dir then some (nano (t.attr x.2.ino).mtime) else none

def recorded (t : Tree) (x : Path × Entry) : Bool :=
  (t.recordOf x).dm.isSome || (t.recordOf x).h ≠ [] || (t.recordOf x).x ≠ []

def records (t : Tree) : List Record := (t.entries.filter t.recorded).map t.recordOf

def write (t : Tree) : Stream := ⟨version, t.records.map encode⟩

/-- What is recorded is text: the paths and the names of attributes. -/
def Encodable (t : Tree) : Prop :=
  ∀ x ∈ t.entries, t.recorded x = true → valid (relText x.1) = true ∧ ∀ a ∈ (t.attr x.2.ino).xattrs, valid a.1 = true

end Tree

theorem digit_lt {n : Nat} {c : Char} (h : c ∈ Nat.toDigits 10 n) : c.toNat < 128 := by
  have hd := Nat.isDigit_of_mem_toDigits (by omega) (by omega) h
  simp only [Char.isDigit, Bool.and_eq_true, decide_eq_true_eq] at hd
  have := UInt32.le_iff_toNat_le.1 hd.2
  exact Nat.lt_of_le_of_lt this (by decide)

theorem decimal_ascii {n : Nat} {b : UInt8} (h : b ∈ decimal n) : b < 0x80 := by
  obtain ⟨c, hc, rfl⟩ := mem_map.1 h
  have := digit_lt hc
  rw [UInt8.lt_iff_toNat_lt, UInt8.toNat_ofNat_of_lt' (by show _ < 256; omega)]
  exact this

theorem digits_decimal (n : Nat) : (decimal n).map (fun b => Char.ofNat b.toNat) = Nat.toDigits 10 n := by
  have hself : ∀ c ∈ Nat.toDigits 10 n, Char.ofNat (UInt8.ofNat c.toNat).toNat = c := by
    intro c hc
    have hlt := digit_lt hc
    rw [UInt8.toNat_ofNat_of_lt' (by show _ < 256; omega), Char.ofNat_toNat]
  unfold decimal
  rw [map_map]
  exact (map_congr_left hself).trans (map_id _)

theorem decimal_inj {m n : Nat} (h : decimal m = decimal n) : m = n := by
  have hdigits : Nat.toDigits 10 m = Nat.toDigits 10 n := by
    rw [← digits_decimal, h, digits_decimal]
  rw [← Nat.ofDigitChars_toDigits (b := 10) (n := m) (by omega) (by omega), hdigits,
    Nat.ofDigitChars_toDigits (by omega) (by omega)]

theorem valid_group (dev ino : Nat) : valid (group dev ino) = true := by
  apply valid_ascii
  intro b hb
  rcases mem_append.1 hb with hb | hb
  · exact decimal_ascii hb
  rcases mem_cons.1 hb with rfl | hb
  · decide
  · exact decimal_ascii hb

theorem group_inj {dev i j : Nat} (h : group dev i = group dev j) : i = j :=
  decimal_inj (List.cons.inj (append_cancel_left h)).2

theorem group_ne_nil (dev ino : Nat) : group dev ino ≠ [] := by simp [group]

theorem mem_foldl_insertMember {l m : List (Bytes × Bytes)} {a : Bytes × Bytes}
    (h : a ∈ l.foldl insertMember m) : a ∈ m ∨ a ∈ l := by
  induction l generalizing m with
  | nil => exact .inl h
  | cons b l ih =>
    rcases ih h with h | h
    · unfold insertMember at h
      split at h
      · obtain ⟨c, hc, rfl⟩ := mem_map.1 h
        split
        · exact .inr mem_cons_self
        · exact .inl hc
      rcases mem_append.1 h with h | h
      · exact .inl h
      · exact .inr (mem_cons.2 (.inl (mem_singleton.1 h)))
    · exact .inr (mem_cons_of_mem _ h)

theorem foldl_insertMember {l m : List (Bytes × Bytes)} (h : ((m ++ l).map Prod.fst).Nodup) :
    l.foldl insertMember m = m ++ l := by
  induction l generalizing m with
  | nil => exact (append_nil m).symm
  | cons a l ih =>
    have hnew : a.1 ∉ m.map Prod.fst := by
      rw [map_append, map_cons] at h
      intro hmem
      exact (nodup_append.1 h).2.2 a.1 hmem a.1 mem_cons_self rfl
    have hsplit : m ++ a :: l = m ++ [a] ++ l := by rw [append_assoc, singleton_append]
    rw [foldl_cons, insertMember, if_neg hnew, hsplit]
    exact ih (by rwa [← hsplit])

theorem decode_encode_iff {rec : Record} (hx : (rec.x.map Prod.fst).Nodup) : decode (encode rec) = rec ↔
    valid rec.p = true ∧ valid rec.h = true ∧ ∀ a ∈ rec.x, valid a.1 = true := by
  constructor
  · intro h
    have hp := congrArg Record.p h
    have hh := congrArg Record.h h
    have hmembers := congrArg Record.x h
    refine ⟨(coerce_eq_self_iff _).1 hp, (coerce_eq_self_iff _).1 hh, ?_⟩
    -- Every name that is read was coerced.
    intro a ha
    rw [← hmembers] at ha
    rcases mem_foldl_insertMember ha with ha | ha
    · cases ha
    · obtain ⟨b, -, rfl⟩ := mem_map.1 ha
      exact valid_coerce b.1
  · rintro ⟨hp, hh, hnames⟩
    have hself : rec.x.map (fun a => (coerce a.1, a.2)) = rec.x := by
      refine (map_congr_left fun a ha => ?_).trans (map_id _)
      rw [(coerce_eq_self_iff a.1).2 (hnames a ha)]
      rfl
    have hmembers : rec.x.foldl insertMember [] = rec.x := foldl_insertMember (m := []) hx
    unfold decode encode
    simp only [hself, hmembers, (coerce_eq_self_iff _).2 hp, (coerce_eq_self_iff _).2 hh]

namespace Tree

theorem valid_h (t : Tree) (x : Path × Entry) : valid (t.recordOf x).h = true := by
  unfold recordOf
  dsimp only
  split
  · exact valid_group _ _
  · rfl

theorem read_write_iff (t : Tree) : read t.write = some t.records ↔ t.Encodable := by
  have hread : read t.write = some (t.records.map (decode ∘ encode)) := by
    have hv : ¬ (version < 1 ∨ version < version) := by decide
    show (if version < 1 ∨ version < version then none else some ((t.records.map encode).map decode)) = _
    rw [if_neg hv, map_map]
  rw [hread, Option.some.injEq]
  constructor
  · intro h x hx hrec
    have hmem : t.recordOf x ∈ t.records := mem_map_of_mem (mem_filter.2 ⟨hx, hrec⟩)
    have hself : decode (encode (t.recordOf x)) = t.recordOf x := by
      have hid : t.records.map (decode ∘ encode) = t.records.map id := by rw [h, map_id]
      exact map_inj_left.1 hid _ hmem
    have hall := (decode_encode_iff (t.attrNames x.2.ino)).1 hself
    exact ⟨hall.1, hall.2.2⟩
  · intro h
    refine (map_congr_left fun rec hrec => ?_).trans (map_id _)
    obtain ⟨x, hx, rfl⟩ := mem_map.1 hrec
    obtain ⟨hx, hr⟩ := mem_filter.1 hx
    obtain ⟨hp, hnames⟩ := h x hx hr
    exact (decode_encode_iff (t.attrNames x.2.ino)).2 ⟨hp, t.valid_h x, hnames⟩

end Tree

end Dbr2.Fsmeta
