import Dbr2.Platform.Bundle

/-! Integrity of bundles, both ways.

What Open accepts is intact: it has exactly the entries of its manifest, once and whole, with the
contents they were recorded with (`openArchive_intact`). What the writer has written is accepted if
the manifest says after JSON what it said before, and nothing is larger than the reader allows. -/
namespace Dbr2.Platform.RecoveryBundle
open List
open Lib.Utf8 (Bytes)

theorem hexDigit_ascii : ∀ n < 16, hexDigit n < 0x80 := by decide

theorem hexDigit_inj : ∀ m < 16, ∀ n < 16, hexDigit m = hexDigit n → m = n := by decide

theorem hexEncode_ascii {s : Bytes} : ∀ b ∈ hexEncode s, b < 0x80 := by
  intro b hb
  obtain ⟨c, -, hc⟩ := mem_flatMap.1 hb
  have hlt := c.toNat_lt
  rcases mem_pair.1 hc with rfl | rfl
  · exact hexDigit_ascii _ (by omega)
  · exact hexDigit_ascii _ (by omega)

theorem hexEncode_inj : Function.Injective hexEncode := by
  intro s t h
  induction s generalizing t with
  | nil =>
    cases t with
    | nil => rfl
    | cons c t => simp [hexEncode] at h
  | cons b s ih =>
    cases t with
    | nil => simp [hexEncode] at h
    | cons c t =>
      rw [hexEncode, hexEncode, flatMap_cons, flatMap_cons] at h
      obtain ⟨hhigh, h⟩ := List.cons.inj h
      obtain ⟨hlow, hrest⟩ := List.cons.inj h
      have hb := b.toNat_lt
      have hc := c.toNat_lt
      have h1 := hexDigit_inj _ (by omega) _ (by omega) hhigh
      have h2 := hexDigit_inj _ (by omega) _ (by omega) hlow
      have heq : b = c := UInt8.toNat_inj.1 (by omega)
      rw [heq, ih hrest]

section
variable {Stream Recipient Identity : Type} {env : Env Stream Recipient Identity}

theorem digest_inj : Function.Injective (digest env) := by
  intro c d h
  exact env.sha256_inj (hexEncode_inj (FileDigest.mk.inj h).1)

theorem digest_carried (data : Bytes) : (digest env data).carried = digest env data := by
  unfold FileDigest.carried digest
  congr 1
  exact (Lib.Utf8.coerce_eq_self_iff _).2 (Lib.Utf8.valid_ascii hexEncode_ascii)

theorem recordAll_fields (m : Manifest) (adds : List Add) :
    (recordAll env m adds).kind = m.kind ∧ (recordAll env m adds).formatVersion = m.formatVersion ∧
      (recordAll env m adds).tables = m.tables ∧ (recordAll env m adds).repositories = m.repositories := by
  induction adds generalizing m with
  | nil => exact ⟨rfl, rfl, rfl, rfl⟩
  | cons a adds ih => exact ih (m.record env a.name a.data)

variable {n : Bytes} {adds : List Add}

theorem recordAll_lookup_of_notMem (h : n ∉ adds.map (·.name)) (m : Manifest) :
    (recordAll env m adds).files.lookup n = m.files.lookup n := by
  induction adds generalizing m with
  | nil => rfl
  | cons a adds ih =>
    rw [map_cons, mem_cons, not_or] at h
    exact (ih h.2 _).trans (AList.lookup_insert_ne h.1)

theorem recordAll_lookup (hnd : (adds.map (·.name)).Nodup) {a : Add} (ha : a ∈ adds) (m : Manifest) :
    (recordAll env m adds).files.lookup a.name = some (digest env a.data) := by
  induction adds generalizing m with
  | nil => cases ha
  | cons b adds ih =>
    obtain ⟨hno, hnd⟩ := nodup_cons.1 hnd
    rcases mem_cons.1 ha with rfl | ha
    · exact (recordAll_lookup_of_notMem hno _).trans (AList.lookup_insert _)
    · exact ih hnd ha _

theorem mem_recordAll {m : Manifest} : n ∈ (recordAll env m adds).files ↔ n ∈ m.files ∨ ∃ a ∈ adds, a.name = n := by
  induction adds generalizing m with
  | nil => simp [recordAll]
  | cons a adds ih =>
    rw [show recordAll env m (a :: adds) = recordAll env (m.record env a.name a.data) adds from rfl, ih,
      Manifest.record, AList.mem_insert, exists_mem_cons_iff]
    tauto

theorem mem_carriedFiles {m : Map FileDigest} : n ∈ carriedFiles m ↔ ∃ k ∈ m, Lib.Utf8.coerce k = n := by
  rw [← AList.lookup_isSome, carriedFiles, AList.lookup_to_alist, dlookup_isSome, List.keys, map_map,
    mem_map]
  constructor
  · rintro ⟨e, he, rfl⟩
    have hmem := (mem_insertionSort _).1 (mem_reverse.1 he)
    exact ⟨e.1, mem_map_of_mem hmem, rfl⟩
  · rintro ⟨k, hk, rfl⟩
    obtain ⟨e, he, rfl⟩ := mem_map.1 (AList.mem_keys.1 hk)
    exact ⟨e, mem_reverse.2 ((mem_insertionSort _).2 he), rfl⟩

theorem dlookup_carriedEntry {l : List (Sigma fun _ : Bytes => FileDigest)} (hn : Lib.Utf8.coerce n = n)
    (h : ∀ e ∈ l, Lib.Utf8.coerce e.1 = n → e.1 = n) :
    (l.map carriedEntry).dlookup n = (l.dlookup n).map FileDigest.carried := by
  induction l with
  | nil => rfl
  | cons e l ih =>
    obtain ⟨hhead, htail⟩ := forall_mem_cons.1 h
    obtain ⟨k, d⟩ := e
    by_cases hk : k = n
    · subst hk
      rw [map_cons, carriedEntry, hn, dlookup_cons_eq, dlookup_cons_eq]
      rfl
    have hne : n ≠ (carriedEntry ⟨k, d⟩).1 := fun he => hk (hhead he.symm)
    rw [map_cons, dlookup_cons_ne _ _ hne, dlookup_cons_ne _ _ (Ne.symm hk)]
    exact ih htail

theorem carriedFiles_lookup {m : Map FileDigest} (hn : Lib.Utf8.coerce n = n)
    (h : ∀ k ∈ m, Lib.Utf8.coerce k = n → k = n) :
    (carriedFiles m).lookup n = (m.lookup n).map FileDigest.carried := by
  have hperm : (m.entries.insertionSort (fun a b => nameLe a.1 b.1)).reverse.Perm m.entries :=
    (reverse_perm _).trans (perm_insertionSort _ _)
  rw [carriedFiles, AList.lookup_to_alist, dlookup_carriedEntry hn]
  · rw [perm_dlookup n ((perm_nodupKeys hperm).2 m.nodupKeys) hperm]
    rfl
  · intro e he hc
    exact h e.1 (mem_map_of_mem (hperm.subset he)) hc

/-- The archive has the entries of the manifest: none is missing, extra, duplicated, truncated or
changed. -/
structure Intact (env : Env Stream Recipient Identity) (a : Archive) (m : Manifest) : Prop where
  ended : a.nextFails = false ∧ a.drainFails = false
  manifest : ∃ h ∈ a.items, h.name = manifestName ∧ env.unmarshal h.data = some m
  nodup : (a.items.map (·.name)).Nodup
  listed : ∀ n, n ∈ m.files ↔ n ≠ manifestName ∧ n ∈ a.items.map (·.name)
  whole : ∀ h ∈ a.items, h.size = h.data.length
  recorded : ∀ h ∈ a.items, h.name ≠ manifestName → m.files.lookup h.name = some (digest env h.data)
  unchanged : ∀ h ∈ a.items, h.name ≠ manifestName → ∀ data, m.files.lookup h.name = some (digest env data) →
    h.data = data

theorem Item.Good.length_data {h : Item} (hg : h.Good) : h.size = h.data.length := by
  have hnonneg := hg.nonneg
  have hwhole := hg.whole
  unfold Item.data
  rw [length_take]
  omega

theorem mem_iff_of_subset {α : Type} [DecidableEq α] {l l' : List α} (hl : l.Nodup) (hsub : ∀ x ∈ l, x ∈ l')
    (hlen : l'.length = l.length) (x : α) : x ∈ l' ↔ x ∈ l := by
  have hperm := (subperm_of_subset hl hsub).perm_of_length_le (by omega)
  exact hperm.symm.mem_iff

theorem Verified.mem_files {b : Bundle} (hv : Verified env b) (n : Bytes) : n ∈ b.manifest.files ↔ n ∈ b.files := by
  rw [AList.mem_keys, AList.mem_keys]
  refine mem_iff_of_subset b.files.keys_nodup (fun k hk => ?_) hv.count n
  obtain ⟨data, hdata⟩ := Option.isSome_iff_exists.1 (AList.lookup_isSome.2 (AList.mem_keys.2 hk))
  exact AList.mem_keys.1 (AList.lookup_isSome.1 (by rw [hv.files k data hdata]; rfl))

theorem openArchive_intact {a : Archive} {b : Bundle} (h : openArchive env a = .ok b) : Intact env a b.manifest := by
  obtain ⟨hread, hnext, hdrain, hjson, hverified⟩ := openArchive_ok_iff.1 h
  have hh := holds_of_read hread
  have hrecorded : ∀ h ∈ a.items, h.name ≠ manifestName →
      b.manifest.files.lookup h.name = some (digest env h.data) := by
    intro h hmem hne
    exact hverified.files _ _ ((hh.files h.name h.data).2 ⟨h, hmem, rfl, hne, rfl⟩)
  constructor
  · exact ⟨hnext, hdrain⟩
  · obtain ⟨h, hmem, hname, hdata⟩ := (hh.json b.manifestJSON).1 rfl
    exact ⟨h, hmem, hname, hdata ▸ hjson⟩
  · exact hh.nodup
  · intro n
    rw [hverified.mem_files, mem_files_iff hh, mem_map]
    tauto
  · intro h hmem
    exact (hh.good h hmem).length_data
  · exact hrecorded
  · intro h hmem hne data hdata
    exact digest_inj (Option.some.inj ((hrecorded h hmem hne).symm.trans hdata))

structure Session (Recipient Identity : Type) where
  recipients : List Recipient
  identities : List Identity
  manifest : Manifest
  adds : List Add
  closeFails : Bool

namespace Session
variable (s : Session Recipient Identity)

def written (env : Env Stream Recipient Identity) : Except WriteError (Stream × Bytes) :=
  match newWriter s.recipients s.manifest with
  | .error e => .error e
  | .ok w =>
    match addAll env s.adds w with
    | .error e => .error e
    | .ok w' => w'.close env s.closeFails

def final (env : Env Stream Recipient Identity) : Manifest := recordAll env s.manifest s.adds

structure Proper (env : Env Stream Recipient Identity) (stream : Stream) (json : Bytes) : Prop where
  written : s.written env = .ok (stream, json)
  kind : s.manifest.kind = kind
  version : s.manifest.formatVersion = formatVersion
  secretKey : ∃ a ∈ s.adds, a.name = secretKeyEntry
  tables : ∀ t ∈ s.manifest.tables, ∃ a ∈ s.adds, a.name = t.file
  repositories : ∀ r ∈ s.manifest.repositories, r.missing = false → ∃ a ∈ s.adds, a.name = r.file
  identity : ∃ id ∈ s.identities, ∃ r ∈ s.recipients, env.matching id r = true

/-- Open returns the entries that were added, and the manifest that was written. -/
def Returned (env : Env Stream Recipient Identity) (stream : Stream) (json : Bytes) : Prop :=
  ∃ b, openBundle env s.identities stream = .ok b ∧ b.manifestJSON = json ∧
    ∀ n data, b.files.lookup n = some data ↔ ∃ a ∈ s.adds, a.name = n ∧ a.data = data

structure Fits (env : Env Stream Recipient Identity) (json : Bytes) : Prop where
  sizes : ∀ a ∈ s.adds, (a.data.length : Int) ≤ maxEntrySize
  json : (json.length : Int) ≤ maxEntrySize
  names : ∀ a ∈ s.adds, Lib.Utf8.valid a.name = true
  /-- What the manifest had under files before is lost in JSON. -/
  files : ∀ k ∈ s.manifest.files, ∃ a ∈ s.adds, Lib.Utf8.coerce k = a.name ∧
    (carriedFiles (s.final env).files).lookup a.name = some (digest env a.data)
  tables : ∀ t ∈ s.manifest.tables, t.file = tableFile (Lib.Utf8.coerce t.name)

theorem final_fields (env : Env Stream Recipient Identity) :
    (s.final env).kind = s.manifest.kind ∧ (s.final env).formatVersion = s.manifest.formatVersion ∧
      (s.final env).tables = s.manifest.tables ∧ (s.final env).repositories = s.manifest.repositories :=
  recordAll_fields s.manifest s.adds

variable {s} {stream : Stream} {json : Bytes}

theorem written_ok (h : s.written env = .ok (stream, json)) : env.marshal (s.final env) = some json ∧
      stream = env.pack s.recipients (s.adds.map (fun a => item a.name a.data) ++ [item manifestName json]) ∧
      (∀ a ∈ s.adds, validName a.name = true ∧ a.name ≠ manifestName) ∧ (s.adds.map (·.name)).Nodup ∧
      ∀ a ∈ s.adds, a.name ∉ s.manifest.files := by
  unfold written newWriter at h
  split at h
  · cases h
  rename_i w hw
  split at hw
  · cases hw
  obtain rfl := Except.ok.inj hw
  split at h
  · cases h
  rename_i w' hadds
  have hwrites := addAll_ok hadds
  obtain ⟨hjson, rfl⟩ := close_ok h
  rw [hwrites.manifest] at hjson
  rw [hwrites.recipients, hwrites.items]
  exact ⟨hjson, rfl, hwrites.valid, hwrites.nodup, hwrites.new⟩

theorem written_of_addAll {w : Writer Recipient} (hrec : s.recipients.isEmpty = false)
    (hadds : addAll env s.adds ⟨s.recipients, [], s.manifest, false⟩ = .ok w) :
    s.written env = w.close env s.closeFails := by
  unfold written newWriter
  rw [hrec]
  simp only [Bool.false_eq_true, if_false, hadds]

def items (s : Session Recipient Identity) (json : Bytes) : List Item :=
  s.adds.map (fun a => item a.name a.data) ++ [item manifestName json]

theorem item_data (name data : Bytes) : (item name data).data = data := by
  simp [Item.data, item]

theorem item_good {name data : Bytes} (hname : validName name = true) :
    (item name data).Good ↔ (data.length : Int) ≤ maxEntrySize := by
  constructor
  · intro h
    exact h.small
  · intro h
    exact ⟨rfl, hname, Int.natCast_nonneg _, h, le_refl _⟩

theorem exists_mem_items {P : Item → Prop} :
    (∃ h ∈ s.items json, P h) ↔ (∃ a ∈ s.adds, P (item a.name a.data)) ∨ P (item manifestName json) := by
  unfold items
  simp [or_and_right, exists_or]

section
variable (hp : s.Proper env stream json)
include hp

theorem Proper.items_nodup : ((s.items json).map (·.name)).Nodup := by
  obtain ⟨-, -, hvalid, hnd, -⟩ := written_ok hp.written
  have hnames : (s.items json).map (·.name) = s.adds.map (·.name) ++ [manifestName] := by
    rw [items, map_append, map_map]
    rfl
  rw [hnames, nodup_append_comm, singleton_append, nodup_cons]
  refine ⟨fun hmem => ?_, hnd⟩
  obtain ⟨a, ha, hname⟩ := mem_map.1 hmem
  exact (hvalid a ha).2 hname

theorem Proper.items_good : (∀ h ∈ s.items json, h.Good) ↔
    (∀ a ∈ s.adds, (a.data.length : Int) ≤ maxEntrySize) ∧ (json.length : Int) ≤ maxEntrySize := by
  obtain ⟨-, -, hvalid, -⟩ := written_ok hp.written
  rw [items, forall_mem_append, forall_mem_map, forall_mem_singleton,
    item_good (by decide : validName manifestName = true)]
  refine and_congr_left fun _ => forall₂_congr fun a ha => item_good (hvalid a ha).1

theorem Proper.holds {st : Reading} (hh : Holds (s.items json) st) : st.manifestJSON = some json ∧
      ∀ n data, st.files.lookup n = some data ↔ ∃ a ∈ s.adds, a.name = n ∧ a.data = data := by
  obtain ⟨-, -, hvalid, -⟩ := written_ok hp.written
  refine ⟨(hh.json json).2 (exists_mem_items.2 (.inr ⟨rfl, item_data _ _⟩)), fun n data => ?_⟩
  rw [hh.files, exists_mem_items]
  simp only [item_data]
  constructor
  · rintro (⟨a, ha, hname, -, hdata⟩ | ⟨hname, hne, -⟩)
    · exact ⟨a, ha, hname, hdata⟩
    · exact absurd hname.symm hne
  · rintro ⟨a, ha, rfl, hdata⟩
    exact .inl ⟨a, ha, rfl, (hvalid a ha).2, hdata⟩

theorem Proper.openBundle_eq : openBundle env s.identities stream = openArchive env ⟨s.items json, false, false⟩ := by
  obtain ⟨-, rfl, -⟩ := written_ok hp.written
  have hids : s.identities.isEmpty = false := by
    obtain ⟨id, hid, -⟩ := hp.identity
    exact isEmpty_eq_false_iff.2 (ne_nil_of_mem hid)
  unfold openBundle
  rw [hids, env.unpack_pack hp.identity]
  rfl

theorem Proper.returned_iff_verified : s.Returned env stream json ↔
    ∃ files, readItems (s.items json) ⟨∅, none⟩ = .ok ⟨files, some json⟩ ∧
      Verified env ⟨(s.final env).carried, json, files⟩ := by
  have hcarried := env.unmarshal_marshal (written_ok hp.written).1
  unfold Returned
  rw [hp.openBundle_eq]
  constructor
  · rintro ⟨b, hopen, rfl, -⟩
    obtain ⟨hread, -, -, hjson, hverified⟩ := openArchive_ok_iff.1 hopen
    rw [Option.some.inj (hcarried.symm.trans hjson)]
    exact ⟨b.files, hread, hverified⟩
  · rintro ⟨files, hread, hverified⟩
    refine ⟨⟨_, json, files⟩, openArchive_ok_iff.2 ⟨hread, rfl, rfl, hcarried, hverified⟩, rfl, ?_⟩
    exact (hp.holds (holds_of_read hread)).2

variable {files : Map Bytes}
  (hfiles : ∀ n data, files.lookup n = some data ↔ ∃ a ∈ s.adds, a.name = n ∧ a.data = data)
include hfiles

omit hp in
theorem mem_files {n : Bytes} : n ∈ files ↔ ∃ a ∈ s.adds, a.name = n := by
  rw [← AList.lookup_isSome, Option.isSome_iff_exists]
  constructor
  · rintro ⟨data, hdata⟩
    obtain ⟨a, ha, hname, -⟩ := (hfiles n data).1 hdata
    exact ⟨a, ha, hname⟩
  · rintro ⟨a, ha, hname⟩
    exact ⟨a.data, (hfiles n _).2 ⟨a, ha, hname, rfl⟩⟩

theorem Proper.fits_of_verified (hv : Verified env ⟨(s.final env).carried, json, files⟩) :
    (∀ a ∈ s.adds, Lib.Utf8.valid a.name = true) ∧ (∀ k ∈ s.manifest.files, ∃ a ∈ s.adds, Lib.Utf8.coerce k = a.name ∧
        (carriedFiles (s.final env).files).lookup a.name = some (digest env a.data)) ∧
      ∀ t ∈ s.manifest.tables, t.file = tableFile (Lib.Utf8.coerce t.name) := by
  have hlookup : ∀ a ∈ s.adds, (carriedFiles (s.final env).files).lookup a.name = some (digest env a.data) := by
    intro a ha
    exact hv.files _ _ ((hfiles a.name a.data).2 ⟨a, ha, rfl, rfl⟩)
  have hnames : ∀ a ∈ s.adds, Lib.Utf8.valid a.name = true := by
    intro a ha
    have hmem := AList.lookup_isSome.1 (by rw [hlookup a ha]; rfl)
    obtain ⟨k, -, hk⟩ := mem_carriedFiles.1 hmem
    rw [← hk]
    exact Lib.Utf8.valid_coerce k
  refine ⟨hnames, fun k hk => ?_, fun t ht => ?_⟩
  · have hmem : Lib.Utf8.coerce k ∈ carriedFiles (s.final env).files :=
      mem_carriedFiles.2 ⟨k, mem_recordAll.2 (.inl hk), rfl⟩
    obtain ⟨a, ha, hname⟩ := (mem_files hfiles).1 ((hv.mem_files _).1 hmem)
    exact ⟨a, ha, hname.symm, hlookup a ha⟩
  · obtain ⟨-, -, htables, -⟩ := final_fields s env
    have hcheck := (hv.tables _ (mem_map_of_mem (htables ▸ ht))).2
    obtain ⟨a, ha, hname⟩ := hp.tables t ht
    have hvalid := hnames a ha
    rw [hname] at hvalid
    rwa [(Lib.Utf8.coerce_eq_self_iff _).2 hvalid] at hcheck

omit hfiles in
theorem Proper.carried_lookup (hfits : s.Fits env json) {a : Add} (ha : a ∈ s.adds) :
    (carriedFiles (s.final env).files).lookup a.name = some (digest env a.data) := by
  obtain ⟨-, -, -, hnd, -⟩ := written_ok hp.written
  have hself := (Lib.Utf8.coerce_eq_self_iff a.name).2 (hfits.names a ha)
  by_cases hold : ∃ k ∈ s.manifest.files, Lib.Utf8.coerce k = a.name
  · obtain ⟨k, hk, hname⟩ := hold
    obtain ⟨a', ha', hname', hlookup⟩ := hfits.files k hk
    obtain rfl := inj_on_of_nodup_map hnd ha ha' (hname.symm.trans hname')
    exact hlookup
  rw [carriedFiles_lookup hself, final, recordAll_lookup hnd ha, Option.map_some, digest_carried]
  intro k hk hname
  rcases mem_recordAll.1 hk with hk | ⟨a', ha', rfl⟩
  · exact absurd ⟨k, hk, hname⟩ hold
  · rwa [(Lib.Utf8.coerce_eq_self_iff _).2 (hfits.names a' ha')] at hname

omit hp hfiles in
theorem Fits.mem_carried (hfits : s.Fits env json) (n : Bytes) :
    n ∈ carriedFiles (s.final env).files ↔ ∃ a ∈ s.adds, a.name = n := by
  rw [mem_carriedFiles]
  constructor
  · rintro ⟨k, hk, rfl⟩
    rcases mem_recordAll.1 hk with hk | ⟨a, ha, rfl⟩
    · obtain ⟨a, ha, hname, -⟩ := hfits.files k hk
      exact ⟨a, ha, hname.symm⟩
    · exact ⟨a, ha, ((Lib.Utf8.coerce_eq_self_iff _).2 (hfits.names a ha)).symm⟩
  · rintro ⟨a, ha, rfl⟩
    exact ⟨a.name, mem_recordAll.2 (.inr ⟨a, ha, rfl⟩), (Lib.Utf8.coerce_eq_self_iff _).2 (hfits.names a ha)⟩

theorem Proper.verified_of_fits (hfits : s.Fits env json) : Verified env ⟨(s.final env).carried, json, files⟩ := by
  obtain ⟨hkind, hversion, htables, hrepos⟩ := final_fields s env
  have hfile : ∀ {n : Bytes}, (∃ a ∈ s.adds, a.name = n) → Lib.Utf8.coerce n = n ∧ n ∈ files := by
    rintro n ⟨a, ha, rfl⟩
    exact ⟨(Lib.Utf8.coerce_eq_self_iff _).2 (hfits.names a ha), (mem_files hfiles).2 ⟨a, ha, rfl⟩⟩
  constructor
  · show Lib.Utf8.coerce (s.final env).kind = _
    rw [hkind, hp.kind]
    decide
  · exact hversion.trans hp.version
  · have hperm : (carriedFiles (s.final env).files).keys.Perm files.keys :=
      (perm_ext_iff_of_nodup (AList.keys_nodup _) files.keys_nodup).2 fun n => by
        rw [← AList.mem_keys, ← AList.mem_keys, hfits.mem_carried, mem_files hfiles]
    exact hperm.length_eq
  · intro n data hdata
    obtain ⟨a, ha, rfl, rfl⟩ := (hfiles n data).1 hdata
    exact hp.carried_lookup hfits ha
  · intro t' ht'
    obtain ⟨t, ht, rfl⟩ := mem_map.1 ht'
    rw [htables] at ht
    obtain ⟨hself, hmem⟩ := hfile (hp.tables t ht)
    rw [hself]
    exact ⟨hmem, hfits.tables t ht⟩
  · intro r' hr'
    obtain ⟨r, hr, rfl⟩ := mem_map.1 hr'
    rw [hrepos] at hr
    cases hm : r.missing with
    | true => exact .inl rfl
    | false =>
      obtain ⟨hself, hmem⟩ := hfile (hp.repositories r hr hm)
      right
      rwa [hself]
  · exact (hfile hp.secretKey).2

omit hfiles in
theorem Proper.returned_iff : s.Returned env stream json ↔ s.Fits env json := by
  rw [hp.returned_iff_verified]
  constructor
  · rintro ⟨files, hread, hverified⟩
    have hh := holds_of_read hread
    obtain ⟨hnames, hold, htables⟩ := hp.fits_of_verified (hp.holds hh).2 hverified
    obtain ⟨hsizes, hjson⟩ := hp.items_good.1 hh.good
    exact ⟨hsizes, hjson, hnames, hold, htables⟩
  · intro hfits
    obtain ⟨st, hread⟩ := readItems_progress holds_nil (hp.items_good.2 ⟨hfits.sizes, hfits.json⟩) hp.items_nodup
    obtain ⟨hjson, hfiles⟩ := hp.holds (holds_of_read hread)
    have hst : st = ⟨st.files, some json⟩ := by rw [← hjson]
    exact ⟨st.files, hst ▸ hread, hp.verified_of_fits hfiles hfits⟩

end

def Complete (env : Env Stream Recipient Identity) (s : Session Recipient Identity) : Prop :=
  ∀ stream json, s.Proper env stream json → s.Returned env stream json

end Session

/-- Open returns the entries and the manifest of a bundle exactly if they are within the rules of the
reader that the writer does not check; and an archive that is not intact is never accepted. -/
theorem bundle_integrity (env : Env Stream Recipient Identity) : (∀ s : Session Recipient Identity,
      s.Complete env ↔ ∀ stream json, s.Proper env stream json → s.Fits env json) ∧
    ∀ ids stream a, env.unpack ids stream = .ok a → (∀ m, ¬ Intact env a m) →
      ∃ e, openBundle env ids stream = .error e := by
  constructor
  · intro s
    exact forall₃_congr fun stream json hp => hp.returned_iff
  · intro ids stream a ha hdamaged
    unfold openBundle
    split
    · exact ⟨_, rfl⟩
    rw [ha]
    cases hopen : openArchive env a with
    | error e => exact ⟨e, hopen⟩
    | ok b => exact absurd (openArchive_intact hopen) (hdamaged _)

end

def oneManifest (m : Manifest) : Env (List Item) Unit Unit where
  sha256 := id
  sha256_inj := Function.injective_id
  marshal := fun m' => if m' = m then some (ascii "manifest") else none
  unmarshal := fun json => if json = ascii "manifest" then some m.carried else none
  unmarshal_marshal := by
    intro m' json h
    split at h
    · rename_i hm
      cases h
      rw [if_pos rfl, hm]
    · cases h
  matching := fun _ _ => true
  pack := fun _ items => items
  unpack := fun _ items => .ok ⟨items, false, false⟩
  unpack_pack := by
    intro _ _ _ _
    rfl

def latinAdds : List Add := [⟨secretKeyEntry, [1], false⟩, ⟨[0xff], [2], false⟩]

def latinSession : Session Unit Unit := ⟨[()], [()], ⟨formatVersion, kind, [], [], ∅⟩, latinAdds, false⟩

def latinEnv : Env (List Item) Unit Unit :=
  oneManifest {latinSession.manifest with
    files := ((∅ : Map FileDigest).insert secretKeyEntry ⟨hexEncode [1], 1⟩).insert [0xff] ⟨hexEncode [2], 1⟩}

/-- Every Add and Close succeed, but the name is another one after JSON. -/
theorem latin_name_refused : latinSession.Proper latinEnv (latinSession.items (ascii "manifest")) (ascii "manifest") ∧
      openBundle latinEnv [()] (latinSession.items (ascii "manifest")) = .error (.notInManifest [0xff]) ∧
      ¬ latinSession.Complete latinEnv := by
  have hproper : latinSession.Proper latinEnv (latinSession.items (ascii "manifest")) (ascii "manifest") := by
    constructor
    · have hadds : addAll latinEnv latinAdds ⟨[()], [], latinSession.manifest, false⟩ =
          .ok ⟨[()], latinAdds.map (fun a => item a.name a.data), latinSession.final latinEnv, false⟩ := rfl
      have hmarshal : latinEnv.marshal (latinSession.final latinEnv) = some (ascii "manifest") := if_pos rfl
      rw [Session.written_of_addAll rfl hadds]
      unfold Writer.close
      rw [hmarshal]
      rfl
    · rfl
    · rfl
    · exact ⟨_, mem_cons_self, rfl⟩
    · intro t ht
      cases ht
    · intro r hr
      cases hr
    · exact ⟨(), mem_cons_self, (), mem_cons_self, rfl⟩
  have hopen : openBundle latinEnv [()] (latinSession.items (ascii "manifest")) = .error (.notInManifest [0xff]) := by
    rfl
  refine ⟨hproper, hopen, fun hcomplete => ?_⟩
  obtain ⟨b, hb, -⟩ := hcomplete _ _ hproper
  exact absurd (hopen.symm.trans hb) (by simp)

end Dbr2.Platform.RecoveryBundle
