import Dbr2.Lib.PathParts
import Dbr2.Platform.Integrity

/-! The secrets and the reposerver states of a bundle, written to files (`WriteSecrets` and
`WriteReposerverState` in `internal/platform/restore.go`).

A secret's file has the name of its entry, which the reader has checked: it is inside the directory
(`secret_inside`). The file of a reposerver state has the Repository's ID, which nobody checks. -/
namespace Dbr2.Platform.RecoveryBundle
open List
open Lib.Utf8 (Bytes)
open Lib.GoPath

/-- How far writeFileAtomic comes: nothing is created, or a temporary file that is removed again, or
the file. -/
inductive WriteOutcome
  | noTemp
  | failed (random : List (Fin 10))
  | written (random : List (Fin 10))
  deriving DecidableEq

structure Effect where
  path : Text
  data : Bytes
  deriving DecidableEq

structure Restored where
  effects : List Effect
  out : List Text
  failed : Bool
  deriving DecidableEq

def tempName (p : Text) (random : List (Fin 10)) : Text :=
  '.' :: base p ++ ['.', 't', 'm', 'p', '-'] ++ random.map fun d : Fin 10 => Char.ofNat (48 + d.val)

def tempPath (p : Text) (random : List (Fin 10)) : Text := inDir (dir p) (tempName p random)

/-- The loop over the files to write, at number `i`. -/
def writeAll (o : Nat → WriteOutcome) : Nat → List (Text × Bytes) → Restored
  | _, [] => ⟨[], [], false⟩
  | i, (p, data) :: rest =>
    match o i with
    | .noTemp => ⟨[], [], true⟩
    | .failed random => ⟨[⟨tempPath p random, data⟩], [], true⟩
    | .written random =>
      let x := writeAll o (i + 1) rest
      ⟨⟨tempPath p random, data⟩ :: ⟨p, data⟩ :: x.effects, p :: x.out, x.failed⟩

def secretsPrefix : Bytes := ascii "secrets/"

def sortedWithPrefix (m : Map Bytes) (pre : Bytes) : List Bytes :=
  (m.keys.filter (pre.isPrefixOf ·)).insertionSort nameLe

/-- `MkdirAll` fails for the empty name. -/
def inDirectory (d : Text) (mkdirFails : Bool) (o : Nat → WriteOutcome) (files : List (Text × Bytes)) : Restored :=
  if d = [] ∨ mkdirFails = true then ⟨[], [], true⟩ else writeAll o 0 files

def secretPath (d : Text) (name : Bytes) : Text := join d (text (name.drop secretsPrefix.length))

def statePath (d : Text) (id : Bytes) : Text := join d (text (id ++ ascii ".tar"))

def writeSecrets (d : Text) (b : Bundle) (mkdirFails : Bool) (o : Nat → WriteOutcome) : Restored :=
  inDirectory d mkdirFails o
    ((sortedWithPrefix b.files secretsPrefix).map fun n => (secretPath d n, (b.files.lookup n).getD []))

def writeReposerverState (d : Text) (b : Bundle) (mkdirFails : Bool) (o : Nat → WriteOutcome) : Restored :=
  inDirectory d mkdirFails o
    ((b.manifest.repositories.filter (!·.missing)).map fun r => (statePath d r.id, (b.files.lookup r.file).getD []))

variable {name id : Bytes} {files : List (Text × Bytes)} {d : Text}

theorem mem_writeAll {o : Nat → WriteOutcome} {i : Nat} {e : Effect} (h : e ∈ (writeAll o i files).effects) :
    ∃ x ∈ files, e.path = x.1 ∨ ∃ random, e.path = tempPath x.1 random := by
  induction files generalizing i with
  | nil => cases h
  | cons x files ih =>
    obtain ⟨p, data⟩ := x
    unfold writeAll at h
    split at h
    · cases h
    · obtain rfl := mem_singleton.1 h
      exact ⟨_, mem_cons_self, .inr ⟨_, rfl⟩⟩
    · rcases mem_cons.1 h with rfl | h
      · exact ⟨_, mem_cons_self, .inr ⟨_, rfl⟩⟩
      rcases mem_cons.1 h with rfl | h
      · exact ⟨_, mem_cons_self, .inl rfl⟩
      · obtain ⟨x, hx, hpath⟩ := ih h
        exact ⟨x, mem_cons_of_mem _ hx, hpath⟩

theorem mem_writeAll_written {i : Nat} {x : Text × Bytes} (hx : x ∈ files) :
    ⟨x.1, x.2⟩ ∈ (writeAll (fun _ => .written []) i files).effects := by
  induction files generalizing i with
  | nil => cases hx
  | cons y files ih =>
    obtain ⟨p, data⟩ := y
    rcases mem_cons.1 hx with rfl | hx
    · exact mem_cons_of_mem _ mem_cons_self
    · exact mem_cons_of_mem _ (mem_cons_of_mem _ (ih hx))

theorem tempPath_inside {p : Text} (h : Inside d p) (hclean : clean p = p) (random : List (Fin 10)) :
    Inside d (tempPath p random) := by
  apply inside_sibling h hclean
  obtain ⟨-, es, hne, hplain, hparts⟩ := h
  obtain ⟨es', x, rfl⟩ := (eq_nil_or_concat' es).resolve_left hne
  have hx := hplain x (by simp)
  have hbase := (clean_split hclean (by rw [hparts, append_assoc]) hx).1
  have hslash : '/' ∉ tempName p random := by
    unfold tempName
    rw [hbase]
    simp only [cons_append, mem_cons, mem_append, mem_map, not_or, not_exists, not_and]
    have hdigit : ∀ d : Fin 10, Char.ofNat (48 + d.val) ≠ '/' := by decide
    exact ⟨by decide, ⟨hx.no_slash, by decide⟩, fun d _ => hdigit d⟩
  have hlen : 6 ≤ (tempName p random).length := by
    simp [tempName]
    omega
  exact plain_of_length (by omega) hslash

theorem inDirectory_inside {mkdirFails : Bool} {o : Nat → WriteOutcome}
    (h : d ≠ [] → ∀ x ∈ files, Inside d x.1 ∧ clean x.1 = x.1) :
    ∀ e ∈ (inDirectory d mkdirFails o files).effects, Inside d e.path := by
  intro e he
  unfold inDirectory at he
  split at he
  · cases he
  rename_i hok
  obtain ⟨x, hx, hpath⟩ := mem_writeAll he
  obtain ⟨hin, hclean⟩ := h (fun hd => hok (.inl hd)) x hx
  rcases hpath with hpath | ⟨random, hpath⟩
  · rw [hpath]
    exact hin
  · rw [hpath]
    exact tempPath_inside hin hclean random

theorem text_append (s t : Bytes) : text (s ++ t) = text s ++ text t := map_append

theorem validName_iff : validName name = true ↔
    name ≠ [] ∧ (text name).head? ≠ some '/' ∧ clean (text name) = text name ∧ ¬ ['.', '.'] <:+: text name := by
  simp [validName]

theorem secret_walk (hvalid : validName name = true) (hpre : secretsPrefix <+: name) :
    walk false [] (elems (text (name.drop secretsPrefix.length))) ≠ [] ∧
      ['.', '.'] ∉ walk false [] (elems (text (name.drop secretsPrefix.length))) := by
  obtain ⟨rest, rfl⟩ := hpre
  rw [drop_left]
  obtain ⟨-, -, hclean, hdots⟩ := validName_iff.1 hvalid
  have htext : text (secretsPrefix ++ rest) = ['s', 'e', 'c', 'r', 'e', 't', 's'] ++ '/' :: text rest := text_append _ _
  have helems : elems (text (secretsPrefix ++ rest)) = ['s', 'e', 'c', 'r', 'e', 't', 's'] :: elems (text rest) := by
    rw [htext, elems_append_slash, elems_of_no_slash (by decide) (by decide)]
    rfl
  have hno : ['.', '.'] ∉ elems (text rest) := by
    intro hmem
    apply hdots
    rw [htext]
    exact (mem_elems hmem).2.2.trans ⟨['s', 'e', 'c', 'r', 'e', 't', 's', '/'], [], by simp⟩
  have hwalk : walk false [] (elems (text rest)) = ((elems (text rest)).filter (· ≠ ['.'])).reverse := by
    rw [walk, foldl_push hno, append_nil]
  rw [hwalk]
  constructor
  · -- otherwise the name would be cleaned to secrets
    intro hnil
    have hparts : parts (text (secretsPrefix ++ rest)) = [['s', 'e', 'c', 'r', 'e', 't', 's']] := by
      rw [parts, helems, walk_cons, show rooted (text (secretsPrefix ++ rest)) = false from by rw [htext]; rfl,
        show push false [] ['s', 'e', 'c', 'r', 'e', 't', 's'] = [['s', 'e', 'c', 'r', 'e', 't', 's']] from rfl,
        walk, foldl_push hno, hnil]
      rfl
    have hlen := congrArg List.length hclean
    rw [clean_eq_render, hparts, show rooted (text (secretsPrefix ++ rest)) = false from by rw [htext]; rfl, htext,
      length_append, length_cons] at hlen
    simp [render] at hlen
  · intro hmem
    exact hno (mem_of_mem_filter (mem_reverse.1 hmem))

theorem secret_inside (hd : d ≠ []) (hvalid : validName name = true)
    (hpre : secretsPrefix <+: name) : Inside d (secretPath d name) := by
  obtain ⟨hne, hno⟩ := secret_walk hvalid hpre
  exact inside_join hd hne hno

/-- Whether the file of this Repository would be above the directory. -/
def climbs (id : Bytes) : Bool := (walk false [] (elems (text (id ++ ascii ".tar")))).contains ['.', '.']

theorem climbs_eq_false_iff : climbs id = false ↔ ['.', '.'] ∉ walk false [] (elems (text (id ++ ascii ".tar"))) := by
  simp [climbs]

theorem state_inside (hd : d ≠ []) (h : climbs id = false) : Inside d (statePath d id) := by
  apply inside_join hd
  · -- the last element ends with .tar
    obtain ⟨init, e, hslash, helems⟩ := elems_append_of_no_slash (text id) (u := ['.', 't', 'a', 'r']) (by decide) (by decide)
    have hplain : Plain (e ++ ['.', 't', 'a', 'r']) := plain_of_length (by simp) (by simp [hslash])
    rw [text_append, show text (ascii ".tar") = ['.', 't', 'a', 'r'] from rfl, helems, walk_concat, push_plain hplain]
    simp
  · exact climbs_eq_false_iff.1 h

theorem state_outside (h : climbs id = true) : ∃ d, d ≠ [] ∧ ¬ Inside d (statePath d id) := by
  have hmem : ['.', '.'] ∈ walk false [] (elems (text (id ++ ascii ".tar"))) := by simpa [climbs] using h
  obtain ⟨x, hx⟩ : ∃ x : Text, x = List.replicate ((text (id ++ ascii ".tar")).length + 3) 'x' := ⟨_, rfl⟩
  have hlen : x.length = (text (id ++ ascii ".tar")).length + 3 := by rw [hx, length_replicate]
  have hslash : '/' ∉ x := by simp [hx]
  have hplain := plain_of_length (by omega) hslash
  have hparts : parts ('/' :: x) = [x] := by
    rw [parts, elems_slash_cons, elems_of_no_slash hplain.ne_nil hslash, walk_cons, push_plain hplain]
    rfl
  refine ⟨'/' :: x, by simp, ?_⟩
  rintro ⟨-, es, -, -, heq⟩
  have hin : x ∈ parts (statePath ('/' :: x) id) := by
    rw [heq, hparts]
    exact mem_cons_self
  rw [statePath, parts_join (by simp), hparts, mem_reverse] at hin
  refine not_mem_walk (w := []) ?_ hplain.ne_dotdot (by simp) (by simp) hmem hin
  -- an element is not longer than the path
  intro hel
  have hle := (mem_elems hel).2.2.length_le
  omega

section
variable {Stream Recipient Identity : Type}

/-- Whatever Open accepts, and whatever fails, only files inside the directory are created or
overwritten. -/
def Confined (env : Env Stream Recipient Identity) (ids : List Identity) (stream : Stream) : Prop :=
  ∀ b, openBundle env ids stream = .ok b → ∀ d mkdirFails o,
    (∀ e ∈ (writeSecrets d b mkdirFails o).effects, Inside d e.path) ∧
      ∀ e ∈ (writeReposerverState d b mkdirFails o).effects, Inside d e.path

theorem validName_of_open {env : Env Stream Recipient Identity} {ids : List Identity} {stream : Stream} {b : Bundle}
    (h : openBundle env ids stream = .ok b) {n : Bytes} (hn : n ∈ b.files) : validName n = true := by
  unfold openBundle at h
  split at h
  · cases h
  split at h
  · cases h
  rename_i a _
  have hh := holds_of_read (openArchive_ok_iff.1 h).1
  obtain ⟨i, hi, rfl, -⟩ := (mem_files_iff hh).1 hn
  exact (hh.good i hi).valid

theorem writeSecrets_inside {env : Env Stream Recipient Identity} {ids : List Identity} {stream : Stream} {b : Bundle}
    (h : openBundle env ids stream = .ok b) (d : Text) (mkdirFails : Bool) (o : Nat → WriteOutcome) :
    ∀ e ∈ (writeSecrets d b mkdirFails o).effects, Inside d e.path := by
  refine inDirectory_inside fun hd x hx => ?_
  obtain ⟨n, hn, rfl⟩ := mem_map.1 hx
  obtain ⟨hkey, hpre⟩ := mem_filter.1 ((mem_insertionSort nameLe).1 hn)
  have hvalid := validName_of_open h (AList.mem_keys.2 hkey)
  exact ⟨secret_inside hd hvalid (List.isPrefixOf_iff_prefix.1 hpre), clean_join hd _⟩

/-- A restore of the platform stays inside its directory, for every directory, exactly if no
Repository of the bundle whose state is not missing has an ID that climbs. -/
theorem restore_confined (env : Env Stream Recipient Identity) (ids : List Identity) (stream : Stream) :
    Confined env ids stream ↔ ∀ b, openBundle env ids stream = .ok b →
      ∀ r ∈ b.manifest.repositories, r.missing = false → climbs r.id = false := by
  refine forall₂_congr fun b h => ?_
  constructor
  · intro hconf r hr hm
    by_contra hclimbs
    obtain ⟨d, hd, hout⟩ := state_outside (Bool.not_eq_false _ ▸ hclimbs)
    apply hout
    have hmem : (statePath d r.id, (b.files.lookup r.file).getD []) ∈
        (b.manifest.repositories.filter (!·.missing)).map
          fun r => (statePath d r.id, (b.files.lookup r.file).getD []) :=
      mem_map_of_mem (mem_filter.2 ⟨hr, by simp [hm]⟩)
    have heffect := (hconf d false fun _ => .written []).2 ⟨statePath d r.id, (b.files.lookup r.file).getD []⟩
    apply heffect
    rw [writeReposerverState, inDirectory, if_neg (by simp [hd])]
    exact mem_writeAll_written hmem
  · intro hids d mkdirFails o
    refine ⟨writeSecrets_inside h d mkdirFails o, inDirectory_inside fun hd x hx => ?_⟩
    obtain ⟨r, hr, rfl⟩ := mem_map.1 hx
    obtain ⟨hr, hm⟩ := mem_filter.1 hr
    exact ⟨state_inside hd (hids r hr (by simpa using hm)), clean_join hd _⟩

end

def climbingManifest : Manifest where
  formatVersion := formatVersion
  kind := kind
  tables := []
  repositories := [⟨ascii "../r", ascii "reposerver/r.tar", false⟩]
  files := ((∅ : Map FileDigest).insert secretKeyEntry ⟨hexEncode [1], 1⟩).insert (ascii "reposerver/r.tar")
    ⟨hexEncode [2], 1⟩

def climbingItems : List Item :=
  [item secretKeyEntry [1], item (ascii "reposerver/r.tar") [2], item manifestName (ascii "manifest")]

/-- Open accepts the bundle, and the state of the Repository is written beside the directory. -/
theorem state_escapes : (∃ b, openBundle (oneManifest climbingManifest) [()] climbingItems = .ok b ∧
      (writeReposerverState ['/', 'd'] b false fun _ => .written []).out = [['/', 'r', '.', 't', 'a', 'r']]) ∧
    ¬ Confined (oneManifest climbingManifest) [()] climbingItems := by
  obtain ⟨b, hb, hrepos⟩ : ∃ b, openBundle (oneManifest climbingManifest) [()] climbingItems = .ok b ∧
      b.manifest.repositories = [⟨ascii "../r", ascii "reposerver/r.tar", false⟩] := ⟨_, rfl, rfl⟩
  have hwritten : writeReposerverState ['/', 'd'] b false (fun _ => .written []) = writeAll (fun _ => .written []) 0
        [(['/', 'r', '.', 't', 'a', 'r'], (b.files.lookup (ascii "reposerver/r.tar")).getD [])] := by
    rw [writeReposerverState, hrepos]
    rfl
  refine ⟨⟨b, hb, by rw [hwritten]; rfl⟩, fun hconf => ?_⟩
  have hinside : Inside ['/', 'd'] ['/', 'r', '.', 't', 'a', 'r'] := by
    have hall := (hconf b hb ['/', 'd'] false fun _ => .written []).2
    rw [hwritten] at hall
    exact hall _ (mem_writeAll_written mem_cons_self)
  obtain ⟨-, es, -, -, hparts⟩ := hinside
  have hhead := hparts
  exact absurd (List.cons.inj hhead).1 (by decide)

end Dbr2.Platform.RecoveryBundle
