import Mathlib.Data.Countable.Basic
import Mathlib.Logic.Equiv.List
import Mathlib.Tactic.DeriveCountable
import Dbr2.Agent.CommandJournal

/-! What a reopened command journal holds.

A write that fails after part of its line, in an agent that goes on, leaves that part at the end of
the file, and the next line is appended to it: neither is readable, though the second write returned
nil (`reopens_fails`). A write that fails has changed the map, and a later compaction puts the map
into the file. -/
namespace Dbr2.Agent.Commands
open Lib List

variable {w : JournalWorld} {r : Record} {rs : Records} {f : String → Option Record}

theorem loaded_append (rs : List Record) (h : r.commandId ≠ "") : loaded (rs ++ [r]) = (loaded rs).put r := by
  have hf : [r].filter (fun x => x.commandId != "") = [r] := by simp [h]
  rw [loaded, filter_append, hf, foldl_append]
  rfl

theorem loaded_append_empty (rs : List Record) (h : r.commandId = "") : loaded (rs ++ [r]) = loaded rs := by
  rw [loaded, filter_append, show [r].filter (fun x => x.commandId != "") = [] by simp [h], append_nil]
  rfl

theorem find_loaded_append (rs : List Record) (r : Record) {id : String} (hid : id ≠ "") :
    (loaded (rs ++ [r])).find id = if r.commandId = id then some r else (loaded rs).find id := by
  by_cases h : r.commandId = ""
  · rw [loaded_append_empty rs h, if_neg (h ▸ Ne.symm hid)]
  · rw [loaded_append rs h, Records.find_put]

def Records.Unique (rs : Records) : Prop := (rs.map (·.commandId)).Nodup

theorem Records.Unique.put (h : rs.Unique) (r : Record) : (rs.put r).Unique := by
  unfold Records.Unique Records.put
  rw [map_cons, nodup_cons]
  refine ⟨fun hm => ?_, h.sublist (filter_sublist.map _)⟩
  obtain ⟨x, hx, he⟩ := mem_map.1 hm
  simpa [he] using (mem_filter.1 hx).2

theorem Records.Unique.filter (h : rs.Unique) (p : Record → Bool) : Records.Unique (rs.filter p) :=
  List.Nodup.sublist (filter_sublist.map _) h

theorem Records.Unique.find_of_mem (h : rs.Unique) (hr : r ∈ rs) : rs.find r.commandId = some r := by
  cases hf : rs.find r.commandId with
  | none => exact absurd (find?_eq_none.1 hf r hr) (by simp)
  | some x =>
    obtain ⟨hx, hid⟩ := Records.find_some hf
    rw [inj_on_of_nodup_map h hx hr hid]

theorem loaded_unique (rs : List Record) : (loaded rs).Unique := by
  induction rs using List.reverseRecOn with
  | nil => exact nodup_nil
  | append_singleton rs r ih =>
    by_cases h : r.commandId = ""
    · rwa [loaded_append_empty rs h]
    · rw [loaded_append rs h]
      exact ih.put r

theorem mem_put {x : Record} (h : x ∈ rs.put r) : x = r ∨ x ∈ rs :=
  (mem_cons.1 h).imp_right fun h => (mem_filter.1 h).1

theorem mem_loaded {rs : List Record} {x : Record} (h : x ∈ loaded rs) : x ∈ rs := by
  induction rs using List.reverseRecOn with
  | nil => cases h
  | append_singleton rs r ih =>
    by_cases hr : r.commandId = ""
    · rw [loaded_append_empty rs hr] at h
      exact mem_append_left _ (ih h)
    rw [loaded_append rs hr] at h
    rcases mem_put h with rfl | h
    · simp
    · exact mem_append_left _ (ih h)

theorem find_loaded {m : Records} (hm : m.Unique) {id : String} (hid : id ≠ "") : (loaded m).find id = m.find id := by
  induction m using List.reverseRecOn with
  | nil => rfl
  | append_singleton m r ih =>
    have hn : (m.map (·.commandId) ++ [r.commandId]).Nodup := by
      simpa [Records.Unique] using hm
    obtain ⟨hm', -, hdisj⟩ := nodup_append.1 hn
    rw [find_loaded_append m r hid, ih hm']
    by_cases h : r.commandId = id
    · have hnone : m.find? (fun x => x.commandId == id) = none := by
        refine find?_eq_none.2 fun x hx hxid => ?_
        have hxid : x.commandId = id := by simpa using hxid
        exact hdisj x.commandId (mem_map_of_mem hx) r.commandId (mem_singleton_self _) (hxid.trans h.symm)
      simp [Records.find, find?_append, hnone, h]
    · simp [Records.find, find?_append, h]

/-- `o` is for a command the last record whose write returned nil, or a later one
that is not without a result where that one has one; or that one may be dropped. -/
def Current (w : JournalWorld) (id : String) (o : Option Record) : Prop :=
  ∀ r, w.durable id = some r → r.stale w.now = true ∨
    ∃ r', o = some r' ∧ (r' = r ∨ r' ∈ w.later id) ∧ (r.update.isSome = true → r'.update.isSome = true)

def AllCurrent (w : JournalWorld) (f : String → Option Record) : Prop :=
  ∀ id, id ≠ "" → Current w id (f id)

/-- A call that fails does not put a record without a result over a durable one. -/
def KeepsResult (w : JournalWorld) (r : Record) : Prop :=
  r.update = none → ∀ r₀, w.durable r.commandId = some r₀ → r₀.update = none

theorem AllCurrent.failed (h : AllCurrent w f) (r : Record) : AllCurrent (w.called r false) f := by
  intro id hid r₀ hr₀
  have hr₀ : w.durable id = some r₀ := by simpa [JournalWorld.called] using hr₀
  refine (h id hid r₀ hr₀).imp_right fun ⟨r', ho, hr', hup⟩ => ⟨r', ho, ?_, hup⟩
  refine hr'.imp_right fun hr' => ?_
  simp only [JournalWorld.called]
  split
  · exact mem_cons_of_mem _ hr'
  · exact hr'

theorem AllCurrent.put (h : AllCurrent w f) {returnsNil : Bool} (hr : returnsNil = false → KeepsResult w r) :
    AllCurrent (w.called r returnsNil) fun id => if r.commandId = id then some r else f id := by
  intro id hid r₀ hr₀
  by_cases hs : r.commandId = id
  · refine .inr ⟨r, if_pos hs, ?_⟩
    cases returnsNil with
    | true =>
      obtain rfl : r = r₀ := by simpa [JournalWorld.called, hs] using hr₀
      exact ⟨.inl rfl, fun hu => hu⟩
    | false =>
      have hr₀ : w.durable id = some r₀ := by simpa [JournalWorld.called] using hr₀
      refine ⟨.inr (by simp [JournalWorld.called, hs]), fun hu => ?_⟩
      by_contra hn
      rw [hr rfl (by simpa using hn) r₀ (hs ▸ hr₀)] at hu
      cases hu
  · have hr₀ : w.durable id = some r₀ := by simpa [JournalWorld.called, hs] using hr₀
    simpa [JournalWorld.called, hs] using h id hid r₀ hr₀

theorem stale_mono {now : Nat} (d : Nat) (h : r.stale now = true) : r.stale (now + d) = true := by
  simp only [Record.stale, Bool.and_eq_true, decide_eq_true_eq] at h ⊢
  exact ⟨h.1, by omega⟩

theorem AllCurrent.congr {w' : JournalWorld} (h : AllCurrent w f)
    (hd : w'.durable = w.durable) (hl : w'.later = w.later) (hn : w'.now = w.now) :
    AllCurrent w' f := by
  intro id hid r hr
  rw [hd] at hr
  rw [hn, hl]
  exact h id hid r hr

section File
variable {codec : Codec Record} {P : Record → Prop}

/-- The file is whole lines and one that may be cut, none too long, of records that have `P`, and what it is
read as is current. -/
structure Legible (codec : Codec Record) (P : Record → Prop) (w : JournalWorld) (rs : List Record) (cut : Record)
    (p : List UInt8) : Prop where
  file : w.file = codec.body rs ++ p
  tail : p <+: codec.encode cut
  short : ∀ r ∈ rs, (codec.encode r).length < maxLine
  cutShort : p.length < maxLine
  known : ∀ r ∈ rs ++ codec.tailRecord p, P r
  current : AllCurrent w (loaded (rs ++ codec.tailRecord p)).find

structure Mapped (codec : Codec Record) (P : Record → Prop) (w : JournalWorld) (j : Journal) : Prop where
  unique : j.records.Unique
  short : ∀ r ∈ j.records, (codec.encode r).length < maxLine
  known : ∀ r ∈ j.records, P r
  current : AllCurrent w j.records.find

structure Kept (codec : Codec Record) (P : Record → Prop) (w : JournalWorld) : Prop where
  file : ∃ rs cut p, Legible codec P w rs cut p
  journal : ∀ j, w.journal = some j → Mapped codec P w j

def AtBoundary (file : List UInt8) : Prop := file = [] ∨ file.getLast? = some newline

variable {e : JournalEvent} {w v : JournalWorld} {rs : List Record} {p : List UInt8} {cut r : Record}

theorem Legible.tail_eq_nil (h : Legible codec P w rs cut p) (hb : AtBoundary w.file) : p = [] := by
  by_contra hne
  rw [AtBoundary, h.file] at hb
  rcases hb with hb | hb
  · exact hne (append_eq_nil_iff.1 hb).2
  · rw [getLast?_append_of_ne_nil _ hne] at hb
    exact Codec.newline_notMem_cut h.tail (mem_of_getLast? hb)

theorem Mapped.legible {j : Journal} (h : Mapped codec P w j)
    (hf : v.file = compacted codec j) (hd : v.durable = w.durable) (hl : v.later = w.later)
    (hn : v.now = w.now) (cut : Record) : Legible codec P v j.records cut [] where
  file := by rw [hf, append_nil]; rfl
  tail := List.nil_prefix
  short := h.short
  cutShort := by decide
  known := by
    rw [Codec.tailRecord_nil, append_nil]
    exact h.known
  current := by
    refine AllCurrent.congr (fun id hid => ?_) hd hl hn
    rw [Codec.tailRecord_nil, append_nil, find_loaded h.unique hid]
    exact h.current id hid

theorem Mapped.put {j : Journal} (h : Mapped codec P w j) {b : Bool} (hlen : (codec.encode r).length < maxLine)
    (hp : P r) (hr : b = false → KeepsResult w r) {j' : Journal}
    (hj' : j'.records = j.records.put r) : Mapped codec P (w.called r b) j' where
  unique := hj' ▸ h.unique.put r
  short x hx := by
    rcases mem_put (hj' ▸ hx) with rfl | hx
    · exact hlen
    · exact h.short x hx
  known x hx := by
    rcases mem_put (hj' ▸ hx) with rfl | hx
    · exact hp
    · exact h.known x hx
  current := by
    have hf : j'.records.find = fun id => if r.commandId = id then some r else j.records.find id :=
      funext fun id => by rw [hj', Records.find_put]
    rw [hf]
    exact h.current.put hr

theorem Legible.failed (h : Legible codec P w rs cut p) (r : Record) : Legible codec P (w.called r false) rs cut p :=
  {h with current := h.current.failed r}

theorem Legible.append (h : Legible codec P w rs cut []) {b : Bool}
    (hlen : (codec.encode r).length < maxLine) (hp : P r) (hr : b = false → KeepsResult w r)
    (hf : v.file = w.file ++ codec.line r) (hd : v.durable = (w.called r b).durable)
    (hl : v.later = (w.called r b).later) (hn : v.now = w.now) :
    Legible codec P v (rs ++ [r]) r [] where
  file := by rw [hf, h.file, append_nil, append_nil, codec.body_append, codec.body_singleton]
  tail := List.nil_prefix
  short x hx := by
    rcases mem_append.1 hx with hx | hx
    · exact h.short x hx
    · exact mem_singleton.1 hx ▸ hlen
  cutShort := by decide
  known x hx := by
    rw [Codec.tailRecord_nil, append_nil] at hx
    rcases mem_append.1 hx with hx | hx
    · exact h.known x (mem_append_left _ hx)
    · exact mem_singleton.1 hx ▸ hp
  current := by
    have hcur := h.current
    rw [Codec.tailRecord_nil, append_nil] at hcur ⊢
    refine AllCurrent.congr (w := w.called r b) (fun id hid => ?_) hd hl hn
    rw [find_loaded_append rs r hid]
    exact hcur.put hr id hid

theorem Legible.torn (h : Legible codec P w rs cut []) (hp : p <+: codec.encode r)
    (hlen : (codec.encode r).length < maxLine) (hP : P r) (hr : KeepsResult w r)
    (hf : v.file = w.file ++ p) (hd : v.durable = (w.called r false).durable)
    (hl : v.later = (w.called r false).later) (hn : v.now = w.now) : Legible codec P v rs r p where
  file := by rw [hf, h.file, append_nil]
  tail := hp
  short := h.short
  cutShort := lt_of_le_of_lt hp.length_le hlen
  known x hx := by
    rcases mem_append.1 hx with hx | hx
    · exact h.known x (mem_append_left _ hx)
    · exact Codec.tailRecord_cut hp hx ▸ hP
  current := by
    have hcur := h.current
    rw [Codec.tailRecord_nil, append_nil] at hcur
    refine AllCurrent.congr (w := w.called r false) (fun id hid => ?_) hd hl hn
    -- the reader finds the record of the cut line when only its newline is missing
    have htail : codec.tailRecord p = [] ∨ codec.tailRecord p = [r] := by
      cases ht : codec.tailRecord p with
      | nil => exact .inl rfl
      | cons x xs =>
        have hx : ∀ y ∈ codec.tailRecord p, y = r := fun y hy => Codec.tailRecord_cut hp hy
        unfold Codec.tailRecord at ht hx
        split at ht
        · cases ht
        cases hdec : codec.decode p with
        | none => simp [hdec] at ht
        | some y => simp_all
    rcases htail with ht | ht
    · rw [ht, append_nil]
      exact hcur.failed r id hid
    · rw [ht, find_loaded_append rs r hid]
      exact hcur.put (fun _ => hr) id hid

def appended (codec : Codec Record) (j : Journal) (r : Record) : WriteFate → List UInt8
  | .whole _ => if j.isOpen then codec.line r else []
  | .cut n _ => if j.isOpen then (codec.line r).take n else []

/-- A call that appends something finds the file at the end of a line; its line has
room in the scanner; and if it fails it is not an Accept of a command whose result is
durable. When the journal is opened, an old acknowledgement in it was written by a
call that returned nil. -/
def Tidy (codec : Codec Record) (w : JournalWorld) (e : JournalEvent) : Prop :=
  (∀ j r, w.journal = some j → e.record w.now j.records = some r →
    (appended codec j r e.fate ≠ [] → AtBoundary w.file) ∧ (codec.encode r).length < maxLine ∧
      ((j.written r).returnsNil e.fate = false → KeepsResult w r)) ∧
  ∀ fate, e = .open fate → w.journal = none → ∀ rs, codec.readLog maxLine w.file = some rs →
    ∀ r ∈ loaded rs, r.stale w.now = true → w.durable r.commandId = some r ∨ w.durable r.commandId = none

def Reopens (codec : Codec Record) (w : JournalWorld) : JournalEvent → Prop
  | .open _ => w.journal = none → ∃ rs, openRecords codec w.now w.file = some rs ∧ AllCurrent w rs.find
  | _ => True

variable {w : JournalWorld} {j : Journal} {r : Record}

theorem Mapped.congr {w' : JournalWorld} (h : Mapped codec P w j) (hd : w'.durable = w.durable)
    (hl : w'.later = w.later) (hn : w'.now = w.now) : Mapped codec P w' j :=
  {h with current := h.current.congr hd hl hn}

theorem Kept.compact (hfile : ∃ rs cut p, Legible codec P w rs cut p) (hj : Mapped codec P w j)
    (fate : CompactFate) : Kept codec P (w.compact codec j fate) := by
  obtain ⟨rs, cut, p, hleg⟩ := hfile
  have hold {w' : JournalWorld} (hf : w'.file = w.file) (hd : w'.durable = w.durable)
      (hl : w'.later = w.later) (hn : w'.now = w.now) : Legible codec P w' rs cut p :=
    ⟨hf ▸ hleg.file, hleg.tail, hleg.short, hleg.cutShort, hleg.known, hleg.current.congr hd hl hn⟩
  cases fate with
  | done =>
    refine ⟨⟨_, cut, [], hj.legible (v := w.compact codec j .done) rfl rfl rfl rfl cut⟩, fun j' hj' => ?_⟩
    obtain rfl := Option.some.inj hj'
    exact ⟨hj.unique, hj.short, hj.known, hj.current.congr rfl rfl rfl⟩
  | failed =>
    refine ⟨⟨rs, cut, p, hold rfl rfl rfl rfl⟩, fun j' hj' => ?_⟩
    obtain rfl := Option.some.inj hj'
    exact hj.congr rfl rfl rfl
  | unopened =>
    refine ⟨⟨_, cut, [], hj.legible (v := w.compact codec j .unopened) rfl rfl rfl rfl cut⟩, fun j' hj' => ?_⟩
    obtain rfl := Option.some.inj hj'
    exact ⟨hj.unique, hj.short, hj.known, hj.current.congr rfl rfl rfl⟩
  | diesBefore => exact ⟨⟨rs, cut, p, hold rfl rfl rfl rfl⟩, fun j' hj' => by cases hj'⟩
  | diesAfter =>
    exact ⟨⟨_, cut, [], hj.legible (v := w.compact codec j .diesAfter) rfl rfl rfl rfl cut⟩,
      fun j' hj' => by cases hj'⟩

theorem take_line (codec : Codec Record) (r : Record) (n : Nat) :
    (codec.line r).take n = codec.line r ∨ (codec.line r).take n <+: codec.encode r := by
  by_cases h : n ≤ (codec.encode r).length
  · refine .inr ?_
    rw [Codec.line, take_append_of_le_length h]
    exact take_prefix n _
  refine .inl (take_of_length_le ?_)
  rw [Codec.line, length_append, length_singleton]
  omega

theorem Legible.unwritten (h : Legible codec P w rs cut p) {w' : JournalWorld} (hf : w'.file = w.file)
    (hd : w'.durable = (w.called r false).durable) (hl : w'.later = (w.called r false).later)
    (hn : w'.now = w.now) : Legible codec P w' rs cut p :=
  have hfail := h.failed r
  ⟨hf.trans hfail.file, hfail.tail, hfail.short, hfail.cutShort, hfail.known, hfail.current.congr hd hl hn⟩

section

variable (h : Kept codec P w)
include h

theorem Kept.write_whole (hj : w.journal = some j) (hopen : j.isOpen = true)
    (hb : AtBoundary w.file) (hlen : (codec.encode r).length < maxLine) (hp : P r) (c : CompactFate)
    (hr : (j.written r).returnsNil (.whole c) = false → KeepsResult w r) :
    Kept codec P (w.write codec j r (.whole c)) := by
  obtain ⟨rs, cut, p, hleg⟩ := h.file
  obtain rfl : p = [] := hleg.tail_eq_nil hb
  have hput : Mapped codec P (w.called r _) (j.written r) := (h.journal j hj).put hlen hp hr rfl
  have happ := hleg.append (v := {w.called r ((j.written r).returnsNil (.whole c)) with
    file := w.file ++ codec.line r}) hlen hp hr rfl rfl rfl rfl
  rw [JournalWorld.write, if_pos hopen]
  split
  · exact Kept.compact ⟨_, _, _, happ⟩ (hput.congr rfl rfl rfl) c
  refine ⟨⟨rs ++ [r], r, [], happ.file, happ.tail, happ.short, happ.cutShort,
    happ.known, happ.current.congr rfl rfl rfl⟩, fun j' hj' => ?_⟩
  obtain rfl := Option.some.inj hj'
  exact hput.congr rfl rfl rfl

theorem Kept.write_cut (hj : w.journal = some j) (hopen : j.isOpen = true)
    {n : Nat} (hb : (codec.line r).take n ≠ [] → AtBoundary w.file)
    (hlen : (codec.encode r).length < maxLine) (hp : P r) (hr : KeepsResult w r) (dies : Bool) :
    Kept codec P (w.write codec j r (.cut n dies)) := by
  obtain ⟨rs, cut, p, hleg⟩ := h.file
  have hput : Mapped codec P (w.called r false) {j with records := j.records.put r} :=
    (h.journal j hj).put hlen hp (fun _ => hr) rfl
  rw [JournalWorld.write, if_pos hopen]
  show Kept codec P {w.called r false with
    file := w.file ++ (codec.line r).take n
    journal := if dies then none else some {j with records := j.records.put r}}
  refine ⟨?_, fun j' hj' => ?_⟩
  · by_cases hn : (codec.line r).take n = []
    · exact ⟨rs, cut, p, hleg.unwritten (by rw [hn, append_nil]) rfl rfl rfl⟩
    obtain rfl : p = [] := hleg.tail_eq_nil (hb hn)
    rcases take_line codec r n with hline | hpre
    · refine ⟨_, _, _, hleg.append (b := false) hlen hp (fun _ => hr) ?_ rfl rfl rfl⟩
      rw [hline]
    · exact ⟨_, _, _, hleg.torn hpre hlen hp hr rfl rfl rfl rfl⟩
  · cases dies with
    | true => cases hj'
    | false =>
      obtain rfl := Option.some.inj hj'
      exact hput.congr rfl rfl rfl

theorem Kept.write (hj : w.journal = some j) {fate : WriteFate}
    (hb : appended codec j r fate ≠ [] → AtBoundary w.file)
    (hlen : (codec.encode r).length < maxLine) (hp : P r)
    (hr : (j.written r).returnsNil fate = false → KeepsResult w r) :
    Kept codec P (w.write codec j r fate) := by
  by_cases hopen : j.isOpen = true
  · cases fate with
    | whole c => exact h.write_whole hj hopen (hb (by simp [appended, hopen, Codec.line])) hlen hp c hr
    | cut n dies =>
      exact h.write_cut hj hopen (fun hn => hb (by simpa [appended, hopen] using hn)) hlen hp (hr rfl) dies
  -- the file could not be opened again after a compaction: every write fails
  have hnil : (j.written r).returnsNil fate = false := by
    cases fate <;> simp [Journal.returnsNil, Journal.written, hopen]
  have hput : Mapped codec P (w.called r false) {j with records := j.records.put r} :=
    (h.journal j hj).put hlen hp (fun _ => hr hnil) rfl
  obtain ⟨rs, cut, p, hleg⟩ := h.file
  unfold JournalWorld.write
  rw [if_neg hopen, hnil]
  refine ⟨⟨rs, cut, p, hleg.unwritten rfl rfl rfl rfl⟩, fun j' hj' => ?_⟩
  split at hj'
  · cases hj'
  · obtain rfl := Option.some.inj hj'
    exact hput.congr rfl rfl rfl

theorem Kept.opens (hstale : ∀ rs, codec.readLog maxLine w.file = some rs → ∀ r ∈ loaded rs,
      r.stale w.now = true → w.durable r.commandId = some r ∨ w.durable r.commandId = none) :
    ∃ rs, openRecords codec w.now w.file = some rs ∧ Mapped codec P w ⟨rs, 0, true⟩ := by
  obtain ⟨rs, cut, p, hleg⟩ := h.file
  have hread : codec.readLog maxLine w.file = some (rs ++ codec.tailRecord p) := by
    rw [hleg.file]
    exact Codec.readLog_body hleg.tail hleg.short hleg.cutShort
  have hu := loaded_unique (rs ++ codec.tailRecord p)
  refine ⟨_, by rw [openRecords, hread]; rfl, hu.filter _, fun r hr => ?_,
    fun r hr => hleg.known r (mem_loaded (mem_filter.1 hr).1), fun id hid r hr => ?_⟩
  · rcases mem_append.1 (mem_loaded (mem_filter.1 hr).1) with hr | hr
    · exact hleg.short r hr
    have hp : p = codec.encode cut := by
      by_contra hne
      rw [Codec.tailRecord, codec.decode_cut cut p hleg.tail hne] at hr
      split at hr <;> cases hr
    rw [Codec.tailRecord_cut hleg.tail hr, ← hp]
    exact hleg.cutShort
  · refine (hleg.current id hid r hr).elim .inl fun hlater => ?_
    obtain ⟨r', hf, hsince⟩ := hlater
    obtain ⟨hmem, hid'⟩ := Records.find_some hf
    by_cases hs : r'.stale w.now = true
    · rcases hstale _ hread r' hmem hs with hdur | hdur
      · rw [hid', hr] at hdur
        exact .inl (Option.some.inj hdur ▸ hs)
      · rw [hid', hr] at hdur
        cases hdur
    refine .inr ⟨r', ?_, hsince⟩
    rw [← hid']
    exact (hu.filter _).find_of_mem (mem_filter.2 ⟨hmem, by simpa using hs⟩)

theorem Kept.call (he : Tidy codec w e)
    (hp : ∀ j r, w.journal = some j → e.record w.now j.records = some r → P r) : Kept codec P (w.call codec e) := by
  unfold JournalWorld.call
  split
  · exact h
  next j hj =>
  split
  · exact h
  next r hrec =>
  obtain ⟨hb, hlen, hr⟩ := he.1 j r hj hrec
  exact h.write hj hb hlen (hp j r hj hrec) hr

/-- A tidy call, a crash and a start keep the file legible. -/
theorem Kept.step (he : Tidy codec w e)
    (hp : ∀ j r, w.journal = some j → e.record w.now j.records = some r → P r) :
    Kept codec P (journalStep codec w e) := by
  obtain ⟨rs, cut, p, hleg⟩ := h.file
  cases e with
  | accept id kind fate => exact h.call he hp
  | finish u kind fate => exact h.call he hp
  | ack id fate => exact h.call he hp
  | tick d =>
    have hcur {f : String → Option Record} (hf : AllCurrent w f) :
        AllCurrent {w with now := w.now + d} f := fun id hid r hr =>
      (hf id hid r hr).imp_left (stale_mono d)
    exact ⟨⟨rs, cut, p, {hleg with current := hcur hleg.current}⟩, fun j hj =>
      {h.journal j hj with current := hcur (h.journal j hj).current}⟩
  | crash =>
    exact ⟨⟨rs, cut, p, {hleg with current := hleg.current.congr rfl rfl rfl}⟩, fun j hj => by cases hj⟩
  | «open» fate =>
    show Kept codec P (w.openJournal codec fate)
    unfold JournalWorld.openJournal
    cases hj : w.journal with
    | some j => exact h
    | none =>
      obtain ⟨rs', hopen, hm⟩ := h.opens (he.2 fate rfl hj)
      simp only [hopen]
      have hnew : Legible codec P {w with file := compacted codec ⟨rs', 0, true⟩, journal := none} rs' cut [] :=
        hm.legible (v := {w with file := compacted codec ⟨rs', 0, true⟩, journal := none}) rfl rfl rfl rfl cut
      cases fate with
      | done => exact Kept.compact h.file hm .done
      | failed => exact h
      | diesBefore => exact h
      | unopened => exact ⟨⟨rs', cut, [], hnew⟩, fun j' hj' => by cases hj'⟩
      | diesAfter => exact ⟨⟨rs', cut, [], hnew⟩, fun j' hj' => by cases hj'⟩

theorem Kept.mono {P' : Record → Prop} (hP : ∀ r, P r → P' r) : Kept codec P' w := by
  obtain ⟨rs, cut, p, hleg⟩ := h.file
  refine ⟨⟨rs, cut, p, {hleg with known := fun r hr => hP r (hleg.known r hr)}⟩, fun j hj => ?_⟩
  exact {h.journal j hj with known := fun r hr => hP r ((h.journal j hj).known r hr)}

theorem Kept.reopens (he : Tidy codec w e) :
    Reopens codec w e := by
  cases e with
  | «open» fate =>
    intro hj
    obtain ⟨rs, hopen, hm⟩ := h.opens (he.2 fate rfl hj)
    exact ⟨rs, hopen, hm.current⟩
  | _ => trivial

end

end File

def JournalWorld.fresh : JournalWorld := ⟨[], none, 0, fun _ => none, fun _ => []⟩

theorem Kept.fresh (codec : Codec Record) (P : Record → Prop) : Kept codec P .fresh := by
  have hcur {f : String → Option Record} : AllCurrent .fresh f := fun id _ r hr => by cases hr
  refine ⟨⟨[], ⟨"", "", .accepted, 0, none⟩, [], rfl, List.nil_prefix, ?_, by decide, ?_, hcur⟩, ?_⟩
  · intro r hr
    cases hr
  · intro r hr
    cases hr
  · intro j hj
    cases hj

/-- **The command journal is durable** in every history of calls, failed, torn or cut
short by the agent's death, compactions and restarts, that is tidy. -/
theorem reopens_of_tidy (codec : Codec Record) (es : List JournalEvent)
    (hes : Along (journalStep codec) (Tidy codec) .fresh es) :
    Along (journalStep codec) (Reopens codec) .fresh es :=
  hes.imp (Kept.fresh codec fun _ => True) (fun _ _ h he => h.step he fun _ _ _ _ => trivial) fun _ _ h he => h.reopens he

instance countableString : Countable String :=
  Function.Injective.countable (f := fun s : String => s.toList.map Char.toNat) fun _ _ h =>
    String.toList_inj.1 ((map_injective_iff.2 fun _ _ => Char.toNat_inj.1) h)

deriving instance Countable for CommandState, RecordState, CommandUpdate, Record

def firstRecord : Record := acceptedRecord 0 "a" "echo"

/-- Numbers the records, `firstRecord` first. -/
noncomputable def number (r : Record) : Nat :=
  if r = firstRecord then 0 else (exists_injective_nat Record).choose r + 1

theorem number_injective : Function.Injective number := by
  intro r r' h
  unfold number at h
  split at h <;> split at h
  · rename_i h₁ h₂
    rw [h₁, h₂]
  · cases h
  · cases h
  · exact (exists_injective_nat Record).choose_spec (Nat.succ.inj h)

noncomputable def unary (r : Record) : List UInt8 := 123 :: (List.replicate (number r) 49 ++ [125])

theorem unary_injective : Function.Injective unary := by
  intro r r' h
  have hlen := congrArg List.length h
  simp only [unary, length_cons, length_append, length_replicate] at hlen
  exact number_injective (by omega)

/-- Writes a record as its number, in braces: like an object's text it ends at the
brace that closes it. -/
noncomputable def unaryCodec : Codec Record where
  encode := unary
  decode bs := open Classical in if h : ∃ r, unary r = bs then some h.choose else none
  printable r b hb := by
    simp only [unary, mem_cons, mem_append, mem_replicate, not_mem_nil, or_false] at hb
    rcases hb with rfl | ⟨-, rfl⟩ | rfl <;> decide
  decode_encode r := by
    have h : ∃ r', unary r' = unary r := ⟨r, rfl⟩
    rw [dif_pos h, unary_injective h.choose_spec]
  decode_cut r p hp hne := by
    refine dif_neg ?_
    rintro ⟨r', rfl⟩
    -- a shorter text would have its closing brace among the digits
    have hpre : unary r' <+: 123 :: List.replicate (number r) 49 := by
      rcases prefix_concat_iff.1 (show unary r' <+: (123 :: List.replicate (number r) 49) ++ [125]
        from hp) with h | h
      · exact absurd h hne
      · exact h
    have hmem : (125 : UInt8) ∈ 123 :: List.replicate (number r) 49 :=
      hpre.subset (by simp [unary])
    simp [mem_replicate] at hmem

theorem unary_firstRecord : unaryCodec.encode firstRecord = [123, 125] := by
  simp [unaryCodec, unary, number]

def acceptedOnce : List JournalEvent :=
  [.open .done, .accept "a" "echo" (.whole .done), .crash, .open .done]

theorem reopens_of_tidy_once : Along (journalStep unaryCodec) (Reopens unaryCodec) .fresh acceptedOnce := by
  have hread : unaryCodec.readLog maxLine (unaryCodec.line firstRecord) = some [firstRecord] := by
    have h := Codec.readLog_body (c := unaryCodec) (r := firstRecord) (l := [firstRecord])
      (p := []) (m := maxLine) List.nil_prefix (by simp [unary_firstRecord, maxLine]) (by decide)
    simpa [Codec.body_singleton] using h
  refine reopens_of_tidy unaryCodec acceptedOnce (And.intro ?_ (And.intro ?_ (And.intro ?_ (And.intro ?_ trivial))))
  · refine ⟨fun j r hj => (by cases hj), fun _ _ _ rs hrs r hr => ?_⟩
    obtain rfl : [] = rs := Option.some.inj hrs
    cases hr
  · refine ⟨fun j r hj hr => ?_, fun _ he => by cases he⟩
    obtain rfl : firstRecord = r := Option.some.inj hr
    refine ⟨fun _ => .inl rfl, by rw [unary_firstRecord]; decide, fun _ _ r₀ hr₀ => by cases hr₀⟩
  · exact ⟨fun j r hj hr => (by cases hr), fun _ he => by cases he⟩
  · refine ⟨fun j r hj => (by cases hj), fun _ _ _ rs hrs r hr hs => ?_⟩
    obtain rfl : [firstRecord] = rs := Option.some.inj (hread.symm.trans hrs)
    obtain rfl : r = firstRecord := by simpa [loaded, firstRecord, acceptedRecord, Records.put] using hr
    exact absurd hs (by decide)

theorem unary_decode_torn (r : Record) : unaryCodec.decode (123 :: unary r) = none := by
  refine dif_neg ?_
  rintro ⟨r', h⟩
  have htail := (List.cons.inj h).2
  cases hn : number r' with
  | zero => simp [hn, unary] at htail
  | succ n => simp [hn, unary, replicate_succ] at htail

theorem torn_unread (r : Record) (rs : Records)
    (h : openRecords unaryCodec 0 (123 :: (unary r ++ [newline])) = some rs) : [] = rs := by
  have hpre : newline ∉ 123 :: unary r := by
    rw [mem_cons, not_or]
    exact ⟨by decide, Codec.newline_notMem_encode (c := unaryCodec) r⟩
  have hlines : lines (123 :: (unary r ++ [newline])) = [123 :: unary r] := lines_line hpre []
  have hcr : dropCR (123 :: unary r) = 123 :: unary r := by
    refine if_neg ?_
    rw [unary, ← cons_append, ← cons_append, getLast?_concat]
    decide
  rw [openRecords, Codec.readLog, scan, hlines] at h
  split at h
  · simpa [hcr, unary_decode_torn, loaded, dropStale] using h
  · cases h

/-- The line of `a` fails after its first byte; that of `b` is appended to it, and its
write returns nil. -/
def tornThenWhole : List JournalEvent :=
  [.open .done, .accept "a" "echo" (.cut 1 false), .accept "b" "echo" (.whole .done), .crash, .open .done]

/-- The line of `b` is appended to the torn line of `a`, and lost with it. -/
theorem reopens_fails : ¬ Along (journalStep unaryCodec) (Reopens unaryCodec) .fresh tornThenWhole := by
  intro h
  obtain ⟨-, -, -, -, h, -⟩ := h
  obtain ⟨rs, hrs, hcur⟩ := h rfl
  obtain rfl : [] = rs := torn_unread _ _ hrs
  rcases hcur "b" (by decide) (acceptedRecord 0 "b" "echo") rfl with hs | ⟨r, hr, -⟩
  · exact absurd hs (by decide)
  · cases hr

end Dbr2.Agent.Commands
