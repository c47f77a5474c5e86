import Dbr2.Lib.Pieces
import Mathlib.Data.List.DropRight
import Mathlib.Data.List.Forall2

/-! Masking the secrets of a configuration (`internal/secrets`).

A masker goes through the lines of a text. On a line it recognises an entry, with what stands before
its value and after it (`envEntry`, `composeEntry`), and a value that is sensitive is replaced by
the mask. The surroundings can be told from the masked line, since what stands before a value has no
asterisk (`Framed`). -/
namespace Dbr2.Secrets
open List

abbrev Text := List Char

def mask : Text := "********".toList

def isS (c : Char) : Bool := c = '\t' || c = '\n' || c = '\x0c' || c = '\r' || c = ' '

def isSpace (c : Char) : Bool :=
  ('\t' ≤ c && c ≤ '\r') || c = ' ' || c = '\u0085' || c = '\u00a0' || c = '\u1680' ||
    ('\u2000' ≤ c && c ≤ '\u200a') || c = '\u2028' || c = '\u2029' || c = '\u202f' ||
    c = '\u205f' || c = '\u3000'

/-- `unicode.ToUpper`, for the letters whose capital is an ASCII letter. The others are in
no fragment and no suffix of a key. -/
def toUpper (c : Char) : Char :=
  if c = '\u0131' then 'I' else if c = '\u017f' then 'S' else c.toUpper

def keyStart (c : Char) : Bool := c.isAlpha || c = '_'

/-- `[A-Za-z0-9_.-]`. -/
def keyChar (c : Char) : Bool := c.isAlphanum || c = '_' || c = '.' || c = '-'

/-- `["']`. -/
def isQuote (c : Char) : Bool := c = '"' || c = '\''

def trimSpace (s : Text) : Text := (s.dropWhile isSpace).rdropWhile isSpace

def hasPrefix (s : Text) (t : String) : Bool := t.toList.isPrefixOf s

def hasSuffix (s : Text) (t : String) : Bool := t.toList.isSuffixOf s

def contains (s : Text) (t : String) : Bool := s.tails.any fun r => hasPrefix r t

def keyFragments : List String :=
  ["PASSWORD", "PASSWD", "PASS", "PWD", "SECRET", "TOKEN", "API_KEY", "APIKEY", "ACCESS_KEY",
    "PRIVATE_KEY", "CREDENTIAL", "AUTH", "SALT", "SIGNING_KEY", "ENCRYPTION_KEY", "MASTER_KEY",
    "DATABASE_URL", "DSN", "CONNECTION_STRING", "COOKIE", "SESSION_KEY", "LICENSE_KEY"]

def wordOnly : List String := ["PASS", "PWD", "AUTH", "DSN"]

/-- `strings.FieldsFunc` at `_`, `-` and `.`. -/
def words (k : Text) : List Text :=
  (k.splitOnP fun c => c = '_' || c = '-' || c = '.').filter (· ≠ [])

def isSensitiveKey (key : Text) : Bool :=
  let k := key.map toUpper
  keyFragments.any (fun f => if f ∈ wordOnly then (words k).contains f.toList else contains k f) ||
    (hasSuffix k "_KEY" && !hasSuffix k "PUBLIC_KEY")

def labelChar (c : Char) : Bool := c.isUpper || c = ' '

/-- `-----BEGIN [A-Z ]*PRIVATE KEY-----`, from here. The label ends at the first dash. -/
def pemPrivateAt (s : Text) : Bool :=
  let r := s.drop "-----BEGIN ".length
  hasPrefix s "-----BEGIN " && hasSuffix (r.takeWhile labelChar) "PRIVATE KEY" &&
    hasPrefix (r.dropWhile labelChar) "-----"

variable (urlPassword : Text → Bool)

def isSensitiveValue (v : Text) : Bool :=
  v.tails.any pemPrivateAt || (contains v "://" && urlPassword v)

def isSensitive (key value : Text) : Bool :=
  if trimSpace value = [] then false
  else if isSensitiveValue urlPassword value then true
  else
    let k := key.map toUpper
    if (hasSuffix k "_FILE" || hasSuffix k "_PATH" || hasSuffix k "_DIR") && hasPrefix value "/" then
      false
    else isSensitiveKey key

def unquote (s : Text) : Text :=
  let s := trimSpace s
  if 2 ≤ s.length ∧ s.head?.any isQuote ∧ s.getLast? = s.head? then s.tail.dropLast else s

/-- An entry `head ++ value ++ tail`. The head ends with the key and what separates it from
the value. -/
structure Entry where
  (head key value tail : Text)

/-- `([A-Za-z_][A-Za-z0-9_.-]*)`, and the rest. -/
def readKey : Text → Option (Text × Text)
  | [] => none
  | c :: s => if keyStart c then some (c :: s.takeWhile keyChar, s.dropWhile keyChar) else none

/-- `(\s*c\s*)`, and the rest. -/
def readSeparator (c : Char) (s : Text) : Option (Text × Text) :=
  match s.dropWhile isS with
  | [] => none
  | d :: r => if d = c then some (s.takeWhile isS ++ d :: r.takeWhile isS, r.dropWhile isS) else none

/-- A key and a separator behind `lead`. -/
def readEntry (lead : Text) (c : Char) (s : Text) : Option Entry :=
  (readKey s).bind fun k =>
    (readSeparator c k.2).map fun m => ⟨lead ++ k.1 ++ m.1, k.1, m.2, []⟩

/-- `(?:export\s+)?`, and the rest. `export` with no key behind it is a key. -/
def readExport (s : Text) : Text × Text :=
  let r := s.drop "export".length
  if hasPrefix s "export" ∧ r.takeWhile isS ≠ [] ∧ (r.dropWhile isS).head?.any keyStart then
    ("export".toList ++ r.takeWhile isS, r.dropWhile isS)
  else ([], s)

/-- `^(\s*(?:export\s+)?)([A-Za-z_][A-Za-z0-9_.-]*)(\s*=\s*)(.*)$`. -/
def envLine (l : Text) : Option Entry :=
  let e := readExport (l.dropWhile isS)
  readEntry (l.takeWhile isS ++ e.1) '=' e.2

/-- `^(\s*)([A-Za-z_][A-Za-z0-9_.-]*)(\s*:\s*)(\S.*)$`. -/
def yamlMap (l : Text) : Option Entry :=
  (readEntry (l.takeWhile isS) ':' (l.dropWhile isS)).filter (·.value ≠ [])

/-- `["']?`, and the rest. -/
def readQuote : Text → Text × Text
  | [] => ([], [])
  | c :: s => if isQuote c then ([c], s) else ([], c :: s)

/-- `(.*?)(["']?\s*)$`: as little as can be before the last quote and blanks. -/
def splitTail (s : Text) : Text × Text :=
  let v := s.rdropWhile isS
  if v.getLast?.any isQuote then (v.dropLast, v.getLast?.toList ++ s.rtakeWhile isS)
  else (v, s.rtakeWhile isS)

def readItem (lead s : Text) : Option Entry :=
  (readKey s).bind fun k =>
    match k.2 with
    | [] => none
    | c :: r => if c = '=' then some ⟨lead ++ k.1 ++ [c], k.1, (splitTail r).1, (splitTail r).2⟩ else none

/-- `^(\s*-\s*["']?)([A-Za-z_][A-Za-z0-9_.-]*)(=)(.*?)(["']?\s*)$`. -/
def yamlList (l : Text) : Option Entry :=
  match l.dropWhile isS with
  | [] => none
  | c :: r =>
    if c = '-' then
      let q := readQuote (r.dropWhile isS)
      readItem (l.takeWhile isS ++ c :: r.takeWhile isS ++ q.1) q.2
    else none

def envEntry (l : Text) : Option Entry :=
  (envLine l).filter fun m => trimSpace m.value ≠ [] && isSensitive urlPassword m.key (unquote m.value)

def yamlMapEntry (l : Text) : Option Entry :=
  (yamlMap l).filter fun m =>
    let v := unquote (trimSpace m.value)
    -- A block scalar or a reference is left alone: nothing literal on this line.
    !(v = ['|'] || v = ['>'] || hasPrefix v "$\x7b") && isSensitive urlPassword m.key v

def composeEntry (l : Text) : Option Entry :=
  if hasPrefix (trimSpace l) "#" then none
  else
    match (yamlList l).filter (·.value ≠ []) with
    | some m => if isSensitive urlPassword m.key m.value then some m else none
    | none => yamlMapEntry urlPassword l

def Entry.masked (e : Entry) : Text := e.head ++ mask ++ e.tail

def maskLine (entry : Text → Option Entry) (l : Text) : Text := ((entry l).map Entry.masked).getD l

def lines (content : Text) : List Text := content.splitOn '\n'

def maskLines (entry : Text → Option Entry) (content : Text) : Text × Bool :=
  (['\n'].intercalate ((lines content).map (maskLine entry)), (lines content).any fun l => (entry l).isSome)

def maskEnvFile (content : Text) : Text × Bool := maskLines (envEntry urlPassword) content

def maskCompose (content : Text) : Text × Bool := maskLines (composeEntry urlPassword) content

/-- The entry is one of this line, and what stands before its value has no asterisk. -/
structure Framed (l : Text) (e : Entry) : Prop where
  split : l = e.head ++ e.value ++ e.tail
  head_clear : '*' ∉ e.head

variable {urlPassword}

variable {c : Char} {e : Entry} {s l : Text}

theorem not_mem_takeWhile {p : Char → Bool} (hc : p c = false) (s : Text) : c ∉ s.takeWhile p := by
  intro hmem
  rw [mem_takeWhile_imp hmem] at hc
  contradiction

theorem readKey_some {k r : Text} (h : readKey s = some (k, r)) : s = k ++ r ∧ '*' ∉ k := by
  cases s with
  | nil => contradiction
  | cons c s =>
    by_cases hc : keyStart c = true
    · obtain ⟨rfl, rfl⟩ := Prod.mk.inj (Option.some.inj ((if_pos hc).symm.trans h))
      constructor
      · rw [cons_append, takeWhile_append_dropWhile]
      · rw [mem_cons, not_or]
        refine ⟨?_, not_mem_takeWhile (by decide) s⟩
        rintro rfl
        revert hc
        decide
    · exact nomatch (if_neg hc).symm.trans h

theorem readSeparator_some {m v : Text} (hc : c ≠ '*') (h : readSeparator c s = some (m, v)) :
    s = m ++ v ∧ '*' ∉ m ∧ c ∈ m := by
  unfold readSeparator at h
  split at h
  · contradiction
  rename_i d r hd
  split at h
  case isFalse => contradiction
  case isTrue hdc =>
    subst hdc
    obtain ⟨rfl, rfl⟩ := Prod.mk.inj (Option.some.inj h)
    have hblank : ∀ t : Text, '*' ∉ t.takeWhile isS := not_mem_takeWhile (by decide)
    refine ⟨?_, ?_, by simp⟩
    · rw [append_assoc, cons_append, takeWhile_append_dropWhile, ← hd, takeWhile_append_dropWhile]
    · simp [hblank, Ne.symm hc]

theorem readEntry_some {lead : Text} (hlead : '*' ∉ lead) (hc : c ≠ '*')
    (h : readEntry lead c s = some e) : Framed (lead ++ s) e ∧ c ∈ e.head := by
  obtain ⟨k, hk, h⟩ := Option.bind_eq_some_iff.1 h
  obtain ⟨m, hm, rfl⟩ := Option.map_eq_some_iff.1 h
  obtain ⟨hs, hkclear⟩ := readKey_some hk
  obtain ⟨hr, hmclear, hcm⟩ := readSeparator_some hc hm
  refine ⟨⟨?_, ?_⟩, ?_⟩
  · rw [hs, hr]
    simp
  · simp [hlead, hkclear, hmclear]
  · simp [hcm]

theorem readExport_spec (s : Text) : s = (readExport s).1 ++ (readExport s).2 ∧ '*' ∉ (readExport s).1 := by
  unfold readExport
  dsimp only
  split
  case isTrue h =>
    have hs := prefix_iff_eq_append.1 (List.isPrefixOf_iff_prefix.1 h.1)
    constructor
    · show s = "export".toList ++ _ ++ _
      rw [append_assoc, takeWhile_append_dropWhile]
      exact hs.symm
    · rw [mem_append, not_or]
      exact ⟨by decide, not_mem_takeWhile (by decide) _⟩
  case isFalse => exact ⟨rfl, not_mem_nil⟩

theorem envLine_some (h : envLine l = some e) : Framed l e ∧ '=' ∈ e.head := by
  obtain ⟨hs, hclear⟩ := readExport_spec (l.dropWhile isS)
  have hlead : '*' ∉ l.takeWhile isS ++ (readExport (l.dropWhile isS)).1 := by
    rw [mem_append, not_or]
    exact ⟨not_mem_takeWhile (by decide) l, hclear⟩
  have hentry := readEntry_some hlead (by decide) h
  rwa [append_assoc, ← hs, takeWhile_append_dropWhile] at hentry

theorem yamlMap_some (h : yamlMap l = some e) : Framed l e ∧ ':' ∈ e.head := by
  have hentry := readEntry_some (not_mem_takeWhile (by decide) l) (by decide) (Option.filter_eq_some_iff.1 h).1
  rwa [takeWhile_append_dropWhile] at hentry

theorem splitTail_append (s : Text) : (splitTail s).1 ++ (splitTail s).2 = s := by
  unfold splitTail
  dsimp only
  split
  case isTrue h =>
    cases hv : (s.rdropWhile isS).getLast? with
    | none => simp [hv] at h
    | some q =>
      show (s.rdropWhile isS).dropLast ++ ([q] ++ s.rtakeWhile isS) = s
      rw [← append_assoc, dropLast_append_getLast? q hv, rdropWhile_append_rtakeWhile]
  case isFalse => exact rdropWhile_append_rtakeWhile

theorem readQuote_spec (s : Text) : s = (readQuote s).1 ++ (readQuote s).2 ∧ '*' ∉ (readQuote s).1 := by
  cases s with
  | nil => exact ⟨rfl, not_mem_nil⟩
  | cons c s =>
    by_cases hc : isQuote c = true
    · rw [show readQuote (c :: s) = ([c], s) from if_pos hc]
      refine ⟨rfl, ?_⟩
      rw [mem_singleton]
      rintro rfl
      revert hc
      decide
    · rw [show readQuote (c :: s) = ([], c :: s) from if_neg hc]
      exact ⟨rfl, not_mem_nil⟩

theorem readItem_some {lead : Text} (hlead : '*' ∉ lead) (h : readItem lead s = some e) :
    Framed (lead ++ s) e ∧ '=' ∈ e.head := by
  obtain ⟨⟨k, r⟩, hk, h⟩ := Option.bind_eq_some_iff.1 h
  obtain ⟨hs, hkclear⟩ := readKey_some hk
  cases r with
  | nil => contradiction
  | cons c r =>
    by_cases hc : c = '='
    · subst hc
      cases ((if_pos rfl).symm.trans h)
      refine ⟨⟨?_, ?_⟩, ?_⟩
      · rw [hs]
        simp [splitTail_append]
      · simp [hlead, hkclear]
      · simp
    · exact nomatch (if_neg hc).symm.trans h

theorem yamlList_some (h : yamlList l = some e) : Framed l e ∧ '=' ∈ e.head := by
  unfold yamlList at h
  split at h
  · contradiction
  rename_i c r hl
  split at h
  case isFalse => contradiction
  case isTrue hc =>
    subst hc
    have hblank : ∀ t : Text, '*' ∉ t.takeWhile isS := not_mem_takeWhile (by decide)
    obtain ⟨hq, hqclear⟩ := readQuote_spec (r.dropWhile isS)
    have hitem := readItem_some (by simp [hblank, hqclear]) h
    rwa [append_assoc, ← hq, append_assoc, cons_append, takeWhile_append_dropWhile, ← hl,
      takeWhile_append_dropWhile] at hitem

theorem envEntry_some (h : envEntry urlPassword l = some e) : Framed l e ∧ '=' ∈ e.head :=
  envLine_some (Option.filter_eq_some_iff.1 h).1

theorem composeEntry_some (h : composeEntry urlPassword l = some e) : Framed l e ∧ ('=' ∈ e.head ∨ ':' ∈ e.head) := by
  unfold composeEntry at h
  split at h
  · contradiction
  split at h
  · rename_i m hm
    split at h
    case isFalse => contradiction
    case isTrue =>
      cases h
      exact (yamlList_some (Option.filter_eq_some_iff.1 hm).1).imp_right Or.inl
  · exact (yamlMap_some (Option.filter_eq_some_iff.1 h).1).imp_right Or.inr

theorem Framed.mem_of_mem_head (h : Framed l e) (hc : c ∈ e.head) : c ∈ l := by
  rw [h.split]
  exact mem_append_left _ (mem_append_left _ hc)

theorem composeEntry_eq_none (heq : '=' ∉ l) (hcolon : ':' ∉ l) : composeEntry urlPassword l = none := by
  rw [Option.eq_none_iff_forall_ne_some]
  intro e he
  obtain ⟨hframed, hsep⟩ := composeEntry_some he
  rcases hsep with h | h
  · exact heq (hframed.mem_of_mem_head h)
  · exact hcolon (hframed.mem_of_mem_head h)

theorem envEntry_eq_none (heq : '=' ∉ l) : envEntry urlPassword l = none := by
  rw [Option.eq_none_iff_forall_ne_some]
  intro e he
  obtain ⟨hframed, hsep⟩ := envEntry_some he
  exact heq (hframed.mem_of_mem_head hsep)

theorem masked_inj {e' : Entry} (h : '*' ∉ e.head) (h' : '*' ∉ e'.head) (heq : e.masked = e'.masked) :
    e.head = e'.head ∧ e.tail = e'.tail := by
  -- The head is what stands before the first asterisk.
  have hhead : ∀ e : Entry, '*' ∉ e.head → e.masked.takeWhile (· ≠ '*') = e.head := by
    intro e he
    show (e.head ++ mask ++ e.tail).takeWhile _ = _
    rw [append_assoc, takeWhile_append_of_pos]
    · exact append_nil _
    · intro c hc
      simpa using ne_of_mem_of_not_mem hc he
  have hheads : e.head = e'.head := by rw [← hhead e h, heq, hhead e' h']
  refine ⟨hheads, ?_⟩
  unfold Entry.masked at heq
  rw [hheads] at heq
  exact append_cancel_left heq

/-- The same line to whoever sees it masked: the same line, two secrets in the same
surroundings, or a line that reads in clear as the other does masked. -/
inductive SameMasked (entry : Text → Option Entry) : Text → Text → Prop
  | same (l : Text) : SameMasked entry l l
  | secrets {l l' : Text} {e e' : Entry} (he : entry l = some e) (he' : entry l' = some e')
      (head : e.head = e'.head) (tail : e.tail = e'.tail) : SameMasked entry l l'
  | maskedLeft {l : Text} {e : Entry} (he : entry l = some e) (hc : entry e.masked = none) :
      SameMasked entry l e.masked
  | maskedRight {l : Text} {e : Entry} (he : entry l = some e) (hc : entry e.masked = none) :
      SameMasked entry e.masked l

theorem maskLine_of_some {entry : Text → Option Entry} (h : entry l = some e) : maskLine entry l = e.masked := by
  rw [maskLine, h]
  rfl

theorem maskLine_of_none {entry : Text → Option Entry} (h : entry l = none) : maskLine entry l = l := by
  rw [maskLine, h]
  rfl

section TwoFiles

variable {entry : Text → Option Entry} (hentry : ∀ l e, entry l = some e → Framed l e)
include hentry

theorem maskLine_eq_iff (l l' : Text) : maskLine entry l = maskLine entry l' ↔ SameMasked entry l l' := by
  constructor
  · intro heq
    cases he : entry l with
    | none =>
      rw [maskLine_of_none he] at heq
      cases he' : entry l' with
      | none =>
        rw [maskLine_of_none he'] at heq
        exact heq ▸ .same l
      | some e' =>
        rw [maskLine_of_some he'] at heq
        subst heq
        exact .maskedRight he' he
    | some e =>
      rw [maskLine_of_some he] at heq
      cases he' : entry l' with
      | none =>
        rw [maskLine_of_none he'] at heq
        subst heq
        exact .maskedLeft he he'
      | some e' =>
        rw [maskLine_of_some he'] at heq
        obtain ⟨hhead, htail⟩ := masked_inj (hentry l e he).head_clear (hentry l' e' he').head_clear heq
        exact .secrets he he' hhead htail
  · intro h
    cases h with
    | same => rfl
    | secrets he he' hhead htail =>
      rw [maskLine_of_some he, maskLine_of_some he', Entry.masked, hhead, htail]
      rfl
    | maskedLeft he hc => rw [maskLine_of_some he, maskLine_of_none hc]
    | maskedRight he hc => rw [maskLine_of_some he, maskLine_of_none hc]

variable {l : Text}

theorem newline_not_mem_maskLine (hl : '\n' ∉ l) : '\n' ∉ maskLine entry l := by
  cases he : entry l with
  | none => rwa [maskLine_of_none he]
  | some e =>
    rw [(hentry l e he).split, mem_append, mem_append, not_or, not_or] at hl
    rw [maskLine_of_some he, Entry.masked, mem_append, mem_append, not_or, not_or]
    exact ⟨⟨hl.1.1, by decide⟩, hl.2⟩

theorem newline_not_mem_lines {content : Text} (hl : l ∈ (lines content).map (maskLine entry)) : '\n' ∉ l := by
  obtain ⟨k, hk, rfl⟩ := mem_map.1 hl
  exact newline_not_mem_maskLine hentry (Lib.mem_splitOn hk).1

theorem lines_maskLines (content : Text) :
    lines (maskLines entry content).1 = (lines content).map (maskLine entry) := by
  apply splitOn_intercalate
  · intro l hl
    exact newline_not_mem_lines hentry hl
  · simp [lines, splitOn_ne_nil]

theorem maskLines_eq_iff (a b : Text) :
    (maskLines entry a).1 = (maskLines entry b).1 ↔ List.Forall₂ (SameMasked entry) (lines a) (lines b) := by
  have hline := maskLine_eq_iff hentry
  have hne : ∀ c, (lines c).map (maskLine entry) ≠ [] := fun c => by simp [lines, splitOn_ne_nil]
  calc (maskLines entry a).1 = (maskLines entry b).1
      ↔ (lines a).map (maskLine entry) = (lines b).map (maskLine entry) :=
        Lib.intercalate_inj (fun l hl => newline_not_mem_lines hentry hl)
          (fun l hl => newline_not_mem_lines hentry hl) (hne a) (hne b)
    _ ↔ List.Forall₂ (SameMasked entry) (lines a) (lines b) := by
        rw [← forall₂_eq_eq_eq, forall₂_map_left_iff, forall₂_map_right_iff]
        simp only [hline]

theorem maskLines_ne {a b l' : Text} {i : Nat} (hl : (lines a)[i]? = some l) (hl' : (lines b)[i]? = some l')
    (hnone : entry l = none) (hnone' : entry l' = none) (hne : l ≠ l') :
    (maskLines entry a).1 ≠ (maskLines entry b).1 := by
  intro heq
  have hlines : (lines a).map (maskLine entry) = (lines b).map (maskLine entry) := by
    rw [← lines_maskLines hentry, heq, lines_maskLines hentry]
  have hi := congrArg (·[i]?) hlines
  simp only [getElem?_map, hl, hl', Option.map_some, Option.some.injEq, maskLine_of_none hnone,
    maskLine_of_none hnone'] at hi
  exact hne hi

end TwoFiles

/-- The masked texts of two files are the same exactly when the files are, line by line, the
same to the masker. A secret on a line that it does not recognise, or that it recognises
with other surroundings in the other file, is seen. -/
theorem masked_eq_iff (urlPassword : Text → Bool) (a b : Text) :
    ((maskCompose urlPassword a).1 = (maskCompose urlPassword b).1 ↔
        List.Forall₂ (SameMasked (composeEntry urlPassword)) (lines a) (lines b)) ∧
      ((maskEnvFile urlPassword a).1 = (maskEnvFile urlPassword b).1 ↔
        List.Forall₂ (SameMasked (envEntry urlPassword)) (lines a) (lines b)) :=
  ⟨maskLines_eq_iff (fun _ _ h => (composeEntry_some h).1) a b,
    maskLines_eq_iff (fun _ _ h => (envEntry_some h).1) a b⟩

end Dbr2.Secrets
