import Mathlib.Data.List.AList
import Mathlib.Data.List.Sort
import Mathlib.Data.String.Basic
import Dbr2.Lib.GoPath
import Dbr2.Lib.Utf8

/-! The Platform Recovery Bundle (`internal/platform/bundle.go`): a writer that hashes every
entry it adds and puts the manifest last, and a reader that checks every entry against the
manifest.

Names and contents are texts of bytes. The manifest passes through JSON, which keeps a text
only if it is UTF-8, and of the keys of a map that it makes equal only the last
(`Manifest.carried`). -/
namespace Dbr2.Platform.RecoveryBundle
open List
open Lib.Utf8 (Bytes)
open Lib.GoPath (Text)

def ascii (s : String) : Bytes := s.toList.map fun c => UInt8.ofNat c.toNat

def formatVersion : Int := 1
def kind : Bytes := ascii "dbr2-platform-recovery-bundle"
def manifestName : Bytes := ascii "manifest.json"
def secretKeyEntry : Bytes := ascii "secrets/dbr2_secret_key"
def maxEntrySize : Int := 8589934592

structure FileDigest where
  sha256 : Bytes
  size : Int
  deriving DecidableEq

structure Table where
  (name file : Bytes)
  deriving DecidableEq

structure RepositoryState where
  (id file : Bytes)
  missing : Bool
  deriving DecidableEq

abbrev Map (α : Type) := AList fun _ : Bytes => α

/-- The manifest of a bundle: what every file in it must be. -/
structure Manifest where
  formatVersion : Int
  kind : Bytes
  tables : List Table
  repositories : List RepositoryState
  files : Map FileDigest
  deriving DecidableEq

def tableFile (name : Bytes) : Bytes := ascii "db/" ++ name ++ ascii ".copy"

def nameLe (a b : Bytes) : Prop := a.map (·.toNat) ≤ b.map (·.toNat)

instance instDecidableNameLe : DecidableRel nameLe := fun a b =>
  inferInstanceAs (Decidable (a.map (·.toNat) ≤ b.map (·.toNat)))

def FileDigest.carried (d : FileDigest) : FileDigest := {d with sha256 := Lib.Utf8.coerce d.sha256}

def carriedEntry (e : Sigma fun _ : Bytes => FileDigest) : Sigma fun _ : Bytes => FileDigest :=
  ⟨Lib.Utf8.coerce e.1, e.2.carried⟩

/-- A map is written in the order of its keys, and read such that the last of equal keys stays. -/
def carriedFiles (m : Map FileDigest) : Map FileDigest :=
  ((m.entries.insertionSort (fun a b => nameLe a.1 b.1)).reverse.map carriedEntry).toAList

def Manifest.carried (m : Manifest) : Manifest where
  formatVersion := m.formatVersion
  kind := Lib.Utf8.coerce m.kind
  tables := m.tables.map fun t => ⟨Lib.Utf8.coerce t.name, Lib.Utf8.coerce t.file⟩
  repositories := m.repositories.map fun r => ⟨Lib.Utf8.coerce r.id, Lib.Utf8.coerce r.file, r.missing⟩
  files := carriedFiles m.files

/-- An entry of the tar archive. -/
structure Item where
  isRegular : Bool
  name : Bytes
  size : Int
  content : Bytes
  deriving DecidableEq

/-- What the tar reader gives, and its error after that; and the error of reading the rest. -/
structure Archive where
  items : List Item
  (nextFails drainFails : Bool)
  deriving DecidableEq

inductive OpenError
  | noIdentity
  | decrypt
  | decompress
  | readArchive
  | notRegular (name : Bytes)
  | invalidName (name : Bytes)
  | tooLarge (name : Bytes)
  | duplicate (name : Bytes)
  | read (name : Bytes)
  | drain
  | manifestMissing
  | manifestJSON
  | unsupported (kind : Bytes) (formatVersion : Int)
  | count (manifest archive : Nat)
  | notInManifest (name : Bytes)
  | mismatch (name : Bytes)
  | table (name : Bytes)
  | repository (id : Bytes)
  | secretKey
  deriving DecidableEq

/-- SHA-256, JSON, and the layers between an archive and the stream: tar, zstd and age. -/
structure Env (Stream Recipient Identity : Type) where
  sha256 : Bytes → Bytes
  sha256_inj : Function.Injective sha256
  marshal : Manifest → Option Bytes
  unmarshal : Bytes → Option Manifest
  unmarshal_marshal : ∀ {m json}, marshal m = some json → unmarshal json = some m.carried
  /-- Whether the key is that of the recipient. -/
  matching : Identity → Recipient → Bool
  pack : List Recipient → List Item → Stream
  unpack : List Identity → Stream → Except OpenError Archive
  unpack_pack : ∀ {ids rs items}, (∃ id ∈ ids, ∃ r ∈ rs, matching id r = true) →
    unpack ids (pack rs items) = .ok ⟨items, false, false⟩

def text (s : Bytes) : Text := s.map fun b => Char.ofNat b.toNat

def validName (name : Bytes) : Bool :=
  decide (name ≠ [] ∧ (text name).head? ≠ some '/' ∧ Lib.GoPath.clean (text name) = text name ∧
    ¬ ['.', '.'] <:+: text name)

def hexDigit (n : Nat) : UInt8 := UInt8.ofNat (if n < 10 then 48 + n else 87 + n)

def hexEncode (s : Bytes) : Bytes := s.flatMap fun b => [hexDigit (b.toNat / 16), hexDigit (b.toNat % 16)]

inductive WriteError
  | noRecipients
  | closed
  | invalidEntry (name : Bytes)
  | duplicate (name : Bytes)
  | io
  | marshal
  deriving DecidableEq

structure Add where
  (name data : Bytes)
  ioFails : Bool
  deriving DecidableEq

def item (name data : Bytes) : Item := ⟨true, name, data.length, data⟩

structure Writer (Recipient : Type) where
  recipients : List Recipient
  items : List Item
  m : Manifest
  done : Bool

/-- `NewWriter`. What the manifest has under files stays. -/
def newWriter {Recipient : Type} (recipients : List Recipient) (m : Manifest) : Except WriteError (Writer Recipient) :=
  if recipients.isEmpty then .error .noRecipients else .ok ⟨recipients, [], m, false⟩

section
variable {Stream Recipient Identity : Type} (env : Env Stream Recipient Identity)

def digest (data : Bytes) : FileDigest := ⟨hexEncode (env.sha256 data), data.length⟩

def Manifest.record (m : Manifest) (name data : Bytes) : Manifest :=
  {m with files := m.files.insert name (digest env data)}

/-- Writes an entry and records its digest. -/
def Writer.add (w : Writer Recipient) (a : Add) : Except WriteError (Writer Recipient) :=
  if w.done then .error .closed
  else if validName a.name = false ∨ a.name = manifestName then .error (.invalidEntry a.name)
  else if a.name ∈ w.m.files then .error (.duplicate a.name)
  else if a.ioFails then .error .io
  else .ok {w with items := w.items ++ [item a.name a.data], m := w.m.record env a.name a.data}

def addAll : List Add → Writer Recipient → Except WriteError (Writer Recipient)
  | [], w => .ok w
  | a :: as, w =>
    match w.add env a with
    | .error e => .error e
    | .ok w' => addAll as w'

def Writer.close (w : Writer Recipient) (ioFails : Bool) : Except WriteError (Stream × Bytes) :=
  if w.done then .error .closed
  else
    match env.marshal w.m with
    | none => .error .marshal
    | some json =>
      if ioFails then .error .io else .ok (env.pack w.recipients (w.items ++ [item manifestName json]), json)

structure Bundle where
  manifest : Manifest
  manifestJSON : Bytes
  files : Map Bytes

structure Reading where
  files : Map Bytes
  manifestJSON : Option Bytes

/-- One header of the archive and its content. -/
def readItem (st : Reading) (h : Item) : Except OpenError Reading :=
  if h.isRegular = false then .error (.notRegular h.name)
  else if validName h.name = false then .error (.invalidName h.name)
  else if h.size < 0 ∨ maxEntrySize < h.size then .error (.tooLarge h.name)
  else if h.name ∈ st.files ∨ (h.name = manifestName ∧ st.manifestJSON.isSome) then .error (.duplicate h.name)
  else if (h.content.length : Int) < h.size then .error (.read h.name)
  else
    let data := h.content.take h.size.toNat
    if h.name = manifestName then .ok {st with manifestJSON := some data}
    else .ok {st with files := st.files.insert h.name data}

def readItems : List Item → Reading → Except OpenError Reading
  | [], st => .ok st
  | h :: hs, st =>
    match readItem st h with
    | .error e => .error e
    | .ok st' => readItems hs st'

def checkFile (b : Bundle) (n : Bytes) : Option OpenError :=
  match b.manifest.files.lookup n with
  | none => some (.notInManifest n)
  | some d => if digest env ((b.files.lookup n).getD []) = d then none else some (.mismatch n)

def checkTable (b : Bundle) (t : Table) : Option OpenError :=
  if t.file ∈ b.files ∧ t.file = tableFile t.name then none else some (.table t.name)

def checkRepository (b : Bundle) (r : RepositoryState) : Option OpenError :=
  if r.missing = true ∨ r.file ∈ b.files then none else some (.repository r.id)

/-- `verify`: the first thing that does not match the manifest. -/
def Bundle.verify (b : Bundle) : Option OpenError :=
  if b.manifest.kind ≠ kind ∨ b.manifest.formatVersion ≠ formatVersion then
    some (.unsupported b.manifest.kind b.manifest.formatVersion)
  else if b.manifest.files.keys.length ≠ b.files.keys.length then
    some (.count b.manifest.files.keys.length b.files.keys.length)
  else
    ((b.files.keys.insertionSort nameLe).findSome? (checkFile env b)).or
      ((b.manifest.tables.findSome? (checkTable b)).or ((b.manifest.repositories.findSome? (checkRepository b)).or
          (if secretKeyEntry ∈ b.files then none else some .secretKey)))

def openArchive (a : Archive) : Except OpenError Bundle :=
  match readItems a.items ⟨∅, none⟩ with
  | .error e => .error e
  | .ok st =>
    if a.nextFails then .error .readArchive
    else if a.drainFails then .error .drain
    else
      match st.manifestJSON with
      | none => .error .manifestMissing
      | some json =>
        match env.unmarshal json with
        | none => .error .manifestJSON
        | some m =>
          match Bundle.verify env ⟨m, json, st.files⟩ with
          | some e => .error e
          | none => .ok ⟨m, json, st.files⟩

/-- `Open`: decrypts, reads every entry, then verifies. -/
def openBundle (ids : List Identity) (stream : Stream) : Except OpenError Bundle :=
  if ids.isEmpty then .error .noIdentity
  else
    match env.unpack ids stream with
    | .error e => .error e
    | .ok a => openArchive env a

end

def Item.data (h : Item) : Bytes := h.content.take h.size.toNat

structure Item.Good (h : Item) : Prop where
  regular : h.isRegular = true
  valid : validName h.name = true
  nonneg : 0 ≤ h.size
  small : h.size ≤ maxEntrySize
  whole : h.size ≤ h.content.length

structure Holds (items : List Item) (st : Reading) : Prop where
  good : ∀ h ∈ items, h.Good
  nodup : (items.map (·.name)).Nodup
  files : ∀ n data, st.files.lookup n = some data ↔ ∃ h ∈ items, h.name = n ∧ n ≠ manifestName ∧ h.data = data
  json : ∀ json, st.manifestJSON = some json ↔ ∃ h ∈ items, h.name = manifestName ∧ h.data = json

theorem holds_nil : Holds [] ⟨∅, none⟩ where
  good := by simp
  nodup := by simp
  files := by simp
  json := by simp

variable {h : Item} {items : List Item} {st st' : Reading}

theorem readItem_ok_iff :
    readItem st h = .ok st' ↔ h.Good ∧ h.name ∉ st.files ∧ (h.name = manifestName → st.manifestJSON = none) ∧
      st' = if h.name = manifestName then {st with manifestJSON := some h.data}
        else {st with files := st.files.insert h.name h.data} := by
  constructor
  · intro hr
    unfold readItem at hr
    split at hr
    · cases hr
    split at hr
    · cases hr
    split at hr
    · cases hr
    split at hr
    · cases hr
    split at hr
    · cases hr
    rename_i hreg hval hsize hdup hlen
    have hgood : h.Good := ⟨by simpa using hreg, by simpa using hval, by omega, by omega, by omega⟩
    refine ⟨hgood, fun hmem => hdup (.inl hmem), fun hname => ?_, ?_⟩
    · cases hjson : st.manifestJSON with
      | none => rfl
      | some json => exact absurd (.inr ⟨hname, by rw [hjson]; rfl⟩) hdup
    · by_cases hname : h.name = manifestName
      · rw [if_pos hname] at hr ⊢
        exact (Except.ok.inj hr).symm
      · rw [if_neg hname] at hr ⊢
        exact (Except.ok.inj hr).symm
  · rintro ⟨hgood, hmem, hjson, rfl⟩
    have hdup : ¬ (h.name ∈ st.files ∨ (h.name = manifestName ∧ st.manifestJSON.isSome = true)) := by
      rintro (hin | ⟨hname, hsome⟩)
      · exact hmem hin
      · rw [hjson hname] at hsome
        cases hsome
    have hnonneg := hgood.nonneg
    have hsmall := hgood.small
    have hwhole := hgood.whole
    unfold readItem
    rw [if_neg (by simp [hgood.regular]), if_neg (by simp [hgood.valid]), if_neg (by omega), if_neg hdup,
      if_neg (by omega)]
    split <;> rfl

theorem mem_files_iff (hh : Holds items st) {n : Bytes} :
    n ∈ st.files ↔ ∃ h ∈ items, h.name = n ∧ n ≠ manifestName := by
  rw [← AList.lookup_isSome, Option.isSome_iff_exists]
  constructor
  · rintro ⟨data, hdata⟩
    obtain ⟨h, hmem, hname, hne, -⟩ := (hh.files n data).1 hdata
    exact ⟨h, hmem, hname, hne⟩
  · rintro ⟨h, hmem, hname, hne⟩
    exact ⟨h.data, (hh.files n _).2 ⟨h, hmem, hname, hne, rfl⟩⟩

theorem not_read_iff (hh : Holds items st) (h : Item) :
    h.name ∉ st.files ∧ (h.name = manifestName → st.manifestJSON = none) ↔ h.name ∉ items.map (·.name) := by
  rw [mem_files_iff hh, mem_map]
  constructor
  · rintro ⟨hfiles, hjson⟩ ⟨h', hmem, hname⟩
    by_cases hm : h.name = manifestName
    · have hsome := (hh.json h'.data).2 ⟨h', hmem, hname.trans hm, rfl⟩
      rw [hjson hm] at hsome
      cases hsome
    · exact hfiles ⟨h', hmem, hname, hm⟩
  · intro hno
    constructor
    · rintro ⟨h', hmem, hname, -⟩
      exact hno ⟨h', hmem, hname⟩
    intro hm
    cases hjson : st.manifestJSON with
    | none => rfl
    | some json =>
      obtain ⟨h', hmem, hname, -⟩ := (hh.json json).1 hjson
      exact absurd ⟨h', hmem, hname.trans hm.symm⟩ hno

theorem exists_mem_concat {P : Item → Prop} : (∃ h' ∈ items ++ [h], P h') ↔ (∃ h' ∈ items, P h') ∨ P h := by
  simp only [mem_append, mem_singleton, or_and_right, exists_or, exists_eq_left]

/-- What is read so far is what the headers have given. -/
theorem Holds.step (hh : Holds items st) (hr : readItem st h = .ok st') : Holds (items ++ [h]) st' := by
  obtain ⟨hgood, hfiles, hjson, rfl⟩ := readItem_ok_iff.1 hr
  have hnew := (not_read_iff hh h).1 ⟨hfiles, hjson⟩
  have hother : ∀ h' ∈ items, h'.name ≠ h.name := by
    intro h' hmem hname
    exact hnew (hname ▸ mem_map_of_mem hmem)
  constructor
  · intro h' hmem
    rcases mem_append.1 hmem with hmem | hmem
    · exact hh.good h' hmem
    · exact mem_singleton.1 hmem ▸ hgood
  · rw [map_append, map_singleton, nodup_append_comm, singleton_append, nodup_cons]
    exact ⟨hnew, hh.nodup⟩
  · intro n data
    rw [exists_mem_concat, ← hh.files n data]
    by_cases hm : h.name = manifestName
    · rw [if_pos hm]
      constructor
      · exact .inl
      · rintro (hl | ⟨rfl, hne, -⟩)
        · exact hl
        · exact absurd hm hne
    rw [if_neg hm]
    by_cases hn : n = h.name
    · subst hn
      have hnone := AList.lookup_eq_none.2 hfiles
      simp [hnone, hm]
    · simp [AList.lookup_insert_ne hn, Ne.symm hn]
  · intro json
    rw [exists_mem_concat, ← hh.json json]
    by_cases hm : h.name = manifestName
    · simp [hm, hjson hm]
    · simp [hm]

theorem readItems_ok {pre : List Item} (hh : Holds pre st)
    (hr : readItems items st = .ok st') : Holds (pre ++ items) st' := by
  induction items generalizing pre st with
  | nil =>
    obtain rfl := Except.ok.inj hr
    rwa [append_nil]
  | cons h items ih =>
    unfold readItems at hr
    split at hr
    · cases hr
    rename_i st₁ hone
    have hrest := ih (hh.step hone) hr
    rwa [append_assoc] at hrest

theorem holds_of_read (hr : readItems items ⟨∅, none⟩ = .ok st) : Holds items st :=
  readItems_ok holds_nil hr

theorem readItems_progress {pre : List Item} (hh : Holds pre st)
    (hgood : ∀ h ∈ items, h.Good) (hnd : ((pre ++ items).map (·.name)).Nodup) :
    ∃ st', readItems items st = .ok st' := by
  induction items generalizing pre st with
  | nil => exact ⟨st, rfl⟩
  | cons h items ih =>
    have hnew : h.name ∉ pre.map (·.name) := by
      rw [map_append, map_cons, nodup_append] at hnd
      intro hmem
      exact hnd.2.2 _ hmem _ mem_cons_self rfl
    obtain ⟨hfiles, hjson⟩ := (not_read_iff hh h).2 hnew
    have hone := readItem_ok_iff.2 ⟨hgood h mem_cons_self, hfiles, hjson, rfl⟩
    obtain ⟨st', hrest⟩ := ih (hh.step hone) (fun h' hmem => hgood h' (mem_cons_of_mem _ hmem))
      (by rwa [append_assoc])
    refine ⟨st', ?_⟩
    unfold readItems
    rw [hone]
    exact hrest

section
variable {Stream Recipient Identity : Type} {env : Env Stream Recipient Identity}

structure Verified (env : Env Stream Recipient Identity) (b : Bundle) : Prop where
  kind : b.manifest.kind = kind
  version : b.manifest.formatVersion = formatVersion
  count : b.manifest.files.keys.length = b.files.keys.length
  files : ∀ n data, b.files.lookup n = some data → b.manifest.files.lookup n = some (digest env data)
  tables : ∀ t ∈ b.manifest.tables, t.file ∈ b.files ∧ t.file = tableFile t.name
  repositories : ∀ r ∈ b.manifest.repositories, r.missing = true ∨ r.file ∈ b.files
  secretKey : secretKeyEntry ∈ b.files

variable {b : Bundle} {w : Writer Recipient}

theorem checkFile_eq_none_iff {n data : Bytes} (h : b.files.lookup n = some data) :
    checkFile env b n = none ↔ b.manifest.files.lookup n = some (digest env data) := by
  unfold checkFile
  rw [h]
  cases hm : b.manifest.files.lookup n with
  | none => simp
  | some d => simp [eq_comm]

theorem checkFiles_eq_none_iff : (b.files.keys.insertionSort nameLe).findSome? (checkFile env b) = none ↔
      ∀ n data, b.files.lookup n = some data → b.manifest.files.lookup n = some (digest env data) := by
  rw [findSome?_eq_none_iff]
  constructor
  · intro h n data hdata
    have hmem := AList.mem_keys.1 (AList.lookup_isSome.1 (by rw [hdata]; rfl))
    exact (checkFile_eq_none_iff hdata).1 (h n ((mem_insertionSort nameLe).2 hmem))
  · intro h n hn
    have hmem := AList.mem_keys.2 ((mem_insertionSort nameLe).1 hn)
    obtain ⟨data, hdata⟩ := Option.isSome_iff_exists.1 (AList.lookup_isSome.2 hmem)
    exact (checkFile_eq_none_iff hdata).2 (h n data hdata)

theorem verify_eq_none_iff : b.verify env = none ↔ Verified env b := by
  unfold Bundle.verify
  have htables : b.manifest.tables.findSome? (checkTable b) = none ↔
      ∀ t ∈ b.manifest.tables, t.file ∈ b.files ∧ t.file = tableFile t.name := by
    simp [findSome?_eq_none_iff, checkTable]
  have hrepos : b.manifest.repositories.findSome? (checkRepository b) = none ↔
      ∀ r ∈ b.manifest.repositories, r.missing = true ∨ r.file ∈ b.files := by
    rw [findSome?_eq_none_iff]
    refine forall₂_congr fun r _ => ?_
    unfold checkRepository
    by_cases h : r.missing = true ∨ r.file ∈ b.files
    · rw [if_pos h]
      exact iff_of_true rfl h
    · rw [if_neg h]
      exact iff_of_false (by simp) h
  constructor
  · intro h
    split at h
    · cases h
    rename_i hkind
    split at h
    · cases h
    rename_i hcount
    rw [Option.or_eq_none_iff, Option.or_eq_none_iff, Option.or_eq_none_iff, checkFiles_eq_none_iff, htables,
      hrepos] at h
    obtain ⟨hfiles, htabs, hreps, hsecret⟩ := h
    refine ⟨by tauto, by tauto, by tauto, hfiles, htabs, hreps, ?_⟩
    by_contra hno
    rw [if_neg hno] at hsecret
    cases hsecret
  · intro h
    rw [if_neg (by simp [h.kind, h.version]), if_neg (by simp [h.count]), Option.or_eq_none_iff,
      Option.or_eq_none_iff, Option.or_eq_none_iff, checkFiles_eq_none_iff, htables, hrepos, if_pos h.secretKey]
    exact ⟨h.files, h.tables, h.repositories, rfl⟩

theorem openArchive_ok_iff {a : Archive} : openArchive env a = .ok b ↔
    readItems a.items ⟨∅, none⟩ = .ok ⟨b.files, some b.manifestJSON⟩ ∧ a.nextFails = false ∧ a.drainFails = false ∧
      env.unmarshal b.manifestJSON = some b.manifest ∧ Verified env b := by
  rw [← verify_eq_none_iff]
  constructor
  · intro h
    unfold openArchive at h
    split at h
    · cases h
    rename_i st hst
    split at h
    · cases h
    split at h
    · cases h
    rename_i hnext hdrain
    split at h
    · cases h
    rename_i json hjson
    split at h
    · cases h
    rename_i m hm
    split at h
    · cases h
    rename_i hverify
    obtain rfl := Except.ok.inj h
    refine ⟨?_, by simpa using hnext, by simpa using hdrain, hm, hverify⟩
    rw [hst, ← hjson]
  · rintro ⟨hread, hnext, hdrain, hm, hverify⟩
    unfold openArchive
    rw [hread, hnext, hdrain]
    simp only [Bool.false_eq_true, if_false, hm]
    rw [hverify]

theorem add_ok {w' : Writer Recipient} {a : Add} (h : w.add env a = .ok w') :
    w.done = false ∧ validName a.name = true ∧ a.name ≠ manifestName ∧ a.name ∉ w.m.files ∧
      w' = {w with items := w.items ++ [item a.name a.data], m := w.m.record env a.name a.data} := by
  unfold Writer.add at h
  split at h
  · cases h
  split at h
  · cases h
  split at h
  · cases h
  split at h
  · cases h
  rename_i hdone hname hdup _
  obtain ⟨hval, hman⟩ := not_or.1 hname
  exact ⟨by simpa using hdone, by simpa using hval, hman, hdup, (Except.ok.inj h).symm⟩

def recordAll (env : Env Stream Recipient Identity) (m : Manifest) (adds : List Add) : Manifest :=
  adds.foldl (fun m a => m.record env a.name a.data) m

structure Writes (env : Env Stream Recipient Identity) (w : Writer Recipient) (adds : List Add)
    (w' : Writer Recipient) : Prop where
  recipients : w'.recipients = w.recipients
  items : w'.items = w.items ++ adds.map fun a => item a.name a.data
  manifest : w'.m = recordAll env w.m adds
  done : w'.done = w.done
  valid : ∀ a ∈ adds, validName a.name = true ∧ a.name ≠ manifestName
  new : ∀ a ∈ adds, a.name ∉ w.m.files
  nodup : (adds.map (·.name)).Nodup

theorem addAll_ok {adds : List Add} {w' : Writer Recipient} (h : addAll env adds w = .ok w') :
    Writes env w adds w' := by
  induction adds generalizing w with
  | nil =>
    obtain rfl := Except.ok.inj h
    exact ⟨rfl, by simp, rfl, rfl, by simp, by simp, by simp⟩
  | cons a adds ih =>
    unfold addAll at h
    split at h
    · cases h
    rename_i w₁ hone
    obtain ⟨hdone, hval, hman, hdup, rfl⟩ := add_ok hone
    have hrest := ih h
    have hnew : ∀ a' ∈ adds, a'.name ≠ a.name ∧ a'.name ∉ w.m.files := by
      intro a' hmem
      have hno := hrest.new a' hmem
      rw [show (w.m.record env a.name a.data).files = w.m.files.insert a.name (digest env a.data) from rfl,
        AList.mem_insert, not_or] at hno
      exact hno
    constructor
    · exact hrest.recipients
    · rw [hrest.items, append_assoc]
      rfl
    · exact hrest.manifest
    · exact hrest.done
    · exact forall_mem_cons.2 ⟨⟨hval, hman⟩, hrest.valid⟩
    · exact forall_mem_cons.2 ⟨hdup, fun a' hmem => (hnew a' hmem).2⟩
    · rw [map_cons, nodup_cons]
      refine ⟨fun hmem => ?_, hrest.nodup⟩
      obtain ⟨a', hmem', hname⟩ := mem_map.1 hmem
      exact (hnew a' hmem').1 hname

theorem close_ok {ioFails : Bool} {stream : Stream} {json : Bytes} (h : w.close env ioFails = .ok (stream, json)) :
    env.marshal w.m = some json ∧ stream = env.pack w.recipients (w.items ++ [item manifestName json]) := by
  unfold Writer.close at h
  split at h
  · cases h
  split at h
  · cases h
  rename_i json' hjson
  split at h
  · cases h
  · obtain ⟨rfl, rfl⟩ := Prod.mk.inj (Except.ok.inj h)
    exact ⟨hjson, rfl⟩

end

end Dbr2.Platform.RecoveryBundle
