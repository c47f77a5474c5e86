import Dbr2.Secrets.Masking

/-! What the files say to those who read them, and secrets that go over several lines.

The maskers look at lines; Compose and dotenv look at documents. Of YAML this is the fragment of
block mappings with plain scalars on one line and literal block scalars (`readYaml`), of dotenv the
one of unquoted values and double-quoted ones that may go over several lines (`readDotenv`); neither
has escapes or interpolation.

A line on which a value goes on without `=` and `:` has no entry for the maskers, so it is shown
(`continued_shown`), and two files with different secrets there are told apart (`maskLines_ne`). -/
namespace Dbr2.Secrets

variable (urlPassword : Text → Bool)

/-- A value of a document: the keys that lead to it, its text and the lines that spell it. -/
structure Leaf where
  path : List Text
  value : Text
  spelled : List Nat
deriving DecidableEq

/-- What the last key has for a value: it is read, it is a mapping if one follows, or it is
the lines of a literal block that follow. -/
inductive Pending
  | nothing
  | mapping
  | literal (texts : List Text) (spelled : List Nat)

/-- A document being read. `stack` has the key read last in each mapping that is open, with
its indentation, the innermost first; `keys` has every key so far, with those above it. -/
structure Reading where
  stack : List (Nat × Text)
  keys : List (List Text)
  pending : Pending
  leaves : List Leaf

def Reading.path (r : Reading) : List Text := r.stack.reverse.map Prod.snd

def indentation (l : Text) : Nat := (l.takeWhile (· = ' ')).length

/-- The text of a literal block. The last line break is kept, if there is one. -/
def literalText (texts : List Text) (ended : Bool) : Option Text :=
  match texts with
  | [] => some []
  | first :: _ =>
    let n := indentation first
    if first = [] ∨ ∃ l ∈ texts, l ≠ [] ∧ indentation l < n then none
    else some (['\n'].intercalate ((texts.map (·.drop n)).rdropWhile (· = [])) ++ if ended then ['\n'] else [])

def Reading.close (r : Reading) (ended : Bool) : Option Reading :=
  match r.pending with
  | .nothing => some r
  | .mapping => some { r with pending := .nothing, leaves := r.leaves ++ [⟨r.path, [], []⟩] }
  | .literal texts spelled =>
    (literalText texts (ended || texts.getLast? = some [])).map fun v =>
      { r with pending := .nothing, leaves := r.leaves ++ [⟨r.path, v, spelled⟩] }

/-- A key at this indentation: in a mapping below the last key, or in one that is open. -/
def Reading.place (r : Reading) (n : Nat) (key : Text) : Option Reading :=
  let below : Bool := match r.stack, r.pending with
    | [], _ => n = 0
    | (m, _) :: _, .mapping => m < n
    | _, _ => false
  if below then some { r with stack := (n, key) :: r.stack, pending := .nothing }
  else
    (r.close true).bind fun r =>
      match r.stack.dropWhile (n < ·.1) with
      | [] => none
      | (m, _) :: rest => if m = n then some { r with stack := (n, key) :: rest } else none

def plainScalar (v : Text) : Bool :=
  !(v.head?.any fun c => "-?:,[]\x7b\x7d#&*!|>'\"%@`".toList.contains c) && !contains v ": " &&
    !contains v " #" && v.getLast? ≠ some ':'

def Reading.value (r : Reading) (i : Nat) (v : Text) : Option Reading :=
  if v = [] then some { r with pending := .mapping }
  else if v = ['|'] then some { r with pending := .literal [] [] }
  else if plainScalar v then some { r with leaves := r.leaves ++ [⟨r.path, v, [i]⟩] }
  else none

/-- `key:` or `key: value`. -/
def Reading.keyLine (r : Reading) (i : Nat) (l : Text) : Option Reading :=
  (readKey (l.dropWhile (· = ' '))).bind fun k =>
    match k.2 with
    | [] => none
    | c :: rest =>
      if c = ':' ∧ (rest = [] ∨ rest.head? = some ' ') then
        (r.place (indentation l) k.1).bind fun r =>
          if r.path ∈ r.keys then none else { r with keys := r.path :: r.keys }.value i (trimSpace rest)
      else none

def Reading.line (r : Reading) (i : Nat) (l : Text) : Option Reading :=
  if l ≠ [] ∧ (trimSpace l = [] ∨ l.any fun c => c = '\t' ∨ c = '\r') then none
  else
    match r.pending with
    | .literal texts spelled =>
      if l = [] ∨ (r.stack.head?.any fun top => top.1 < indentation l) then
        some { r with pending := .literal (texts ++ [l]) (if l = [] then spelled else spelled ++ [i]) }
      else if hasPrefix (trimSpace l) "#" then none
      else r.keyLine i l
    | _ => if l = [] ∨ hasPrefix (trimSpace l) "#" then some r else r.keyLine i l

def readYaml (content : Text) : Option (List Leaf) :=
  ((lines content).zipIdx.foldlM (fun r p => Reading.line r p.2 p.1) ⟨[], [], .nothing, []⟩).bind fun r =>
    (r.close false).map Reading.leaves

/-- A `.env` file being read. `quoted` is the value whose closing quote is still to come. -/
structure EnvReading where
  quoted : Option Leaf
  leaves : List Leaf

/-- The text behind an opening quote, or behind a line break in a quoted value. -/
def EnvReading.quote (r : EnvReading) (leaf : Leaf) (i : Nat) (s : Text) : Option EnvReading :=
  let sofar : Leaf := ⟨leaf.path, leaf.value ++ s.takeWhile (· ≠ '"'), leaf.spelled ++ [i]⟩
  match s.dropWhile (· ≠ '"') with
  | [] => some ⟨some { sofar with value := sofar.value ++ ['\n'] }, r.leaves⟩
  | _ :: rest => if trimSpace rest = [] then some ⟨none, r.leaves ++ [sofar]⟩ else none

def EnvReading.line (r : EnvReading) (i : Nat) (l : Text) : Option EnvReading :=
  if l.any fun c => c = '\\' ∨ c = '$' then none
  else
    match r.quoted with
    | some leaf => r.quote leaf i l
    | none =>
      if trimSpace l = [] ∨ hasPrefix (trimSpace l) "#" then some r
      else
        (readKey l).bind fun k =>
          match k.2 with
          | [] => none
          | c :: rest =>
            if c ≠ '=' ∨ [k.1] ∈ r.leaves.map Leaf.path then none
            else if rest.head? = some '"' then r.quote ⟨[k.1], [], []⟩ i rest.tail
            else if rest.any fun c => isQuote c ∨ c = '#' then none
            else some { r with leaves := r.leaves ++ [⟨[k.1], trimSpace rest, [i]⟩] }

def readDotenv (content : Text) : Option (List Leaf) :=
  ((lines content).zipIdx.foldlM (fun r p => EnvReading.line r p.2 p.1) ⟨none, []⟩).bind fun r =>
    if r.quoted.isNone then some r.leaves else none

/-- The same place, with the same value or one that is sensitive in both. -/
def Alike (x y : Leaf) : Prop :=
  x.path = y.path ∧ (x.value = y.value ∨
    isSensitive urlPassword (x.path.getLastD []) x.value ∧ isSensitive urlPassword (y.path.getLastD []) y.value)

/-- The lines that spell a value which is another one in the other document. -/
def spelledSecrets (ls ls' : List Leaf) : List Nat :=
  ((ls.zip ls').filter fun p => p.1.value ≠ p.2.value).flatMap (·.1.spelled)

def otherLines (content : Text) (spelled : List Nat) : List Text :=
  ((lines content).zipIdx.filter fun p => p.2 ∉ spelled).map Prod.fst

def DifferInSecrets (read : Text → Option (List Leaf)) (a b : Text) : Prop :=
  ∃ ls ls', read a = some ls ∧ read b = some ls' ∧ List.Forall₂ (Alike urlPassword) ls ls' ∧
    otherLines a (spelledSecrets ls ls') = otherLines b (spelledSecrets ls' ls)

variable {urlPassword}

def blockFile (secret : String) : Text :=
  ['\n'].intercalate ["services:".toList, "  db:".toList, "    environment:".toList,
    "      DB_PASSWORD: |".toList, "        ".toList ++ secret.toList]

def dbPassword : List Text := ["services".toList, "db".toList, "environment".toList, "DB_PASSWORD".toList]

/-- A variable with a secret in quotes that begins on the line before. -/
def quotedFile (secret : String) : Text :=
  ['\n'].intercalate ["DB_PASSWORD=\"first".toList, secret.toList ++ ['"']]

/-- Files that differ in a secret only, and have different masked texts. There is no URL in
them to ask about. -/
theorem secret_told_apart : (DifferInSecrets (fun _ => false) readYaml (blockFile "alpha") (blockFile "beta") ∧
      (maskCompose (fun _ => false) (blockFile "alpha")).1 ≠ (maskCompose (fun _ => false) (blockFile "beta")).1) ∧
    DifferInSecrets (fun _ => false) readDotenv (quotedFile "alpha") (quotedFile "beta") ∧
      (maskEnvFile (fun _ => false) (quotedFile "alpha")).1 ≠ (maskEnvFile (fun _ => false) (quotedFile "beta")).1 := by
  have hblock : DifferInSecrets (fun _ => false) readYaml (blockFile "alpha") (blockFile "beta") :=
    ⟨[⟨dbPassword, "alpha".toList, [4]⟩], [⟨dbPassword, "beta".toList, [4]⟩], by decide +kernel, by decide +kernel,
      .cons ⟨rfl, .inr ⟨by decide +kernel, by decide +kernel⟩⟩ .nil, by decide +kernel⟩
  have hquoted : DifferInSecrets (fun _ => false) readDotenv (quotedFile "alpha") (quotedFile "beta") :=
    ⟨[⟨["DB_PASSWORD".toList], "first\nalpha".toList, [0, 1]⟩], [⟨["DB_PASSWORD".toList], "first\nbeta".toList, [0, 1]⟩],
      by decide +kernel, by decide +kernel, .cons ⟨rfl, .inr ⟨by decide +kernel, by decide +kernel⟩⟩ .nil,
      by decide +kernel⟩
  refine ⟨⟨hblock, ?_⟩, hquoted, ?_⟩
  · apply maskLines_ne (fun _ _ h => (composeEntry_some h).1) (i := 4) rfl rfl
    · exact composeEntry_eq_none (by decide) (by decide)
    · exact composeEntry_eq_none (by decide) (by decide)
    · decide
  · apply maskLines_ne (fun _ _ h => (envEntry_some h).1) (i := 1) rfl rfl
    · exact envEntry_eq_none (by decide)
    · exact envEntry_eq_none (by decide)
    · decide

end Dbr2.Secrets
