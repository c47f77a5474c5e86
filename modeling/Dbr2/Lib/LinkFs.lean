import Mathlib.Data.List.Infix

/-! A file system with hard and symbolic links.

Entries stand at places, the paths from the file system's root that go through directories only;
several may have one inode, which holds the attributes. A path in a call is resolved to a place by
`locate`: the kernel follows the symbolic links on the way but not the last name. Where no link
stands on the way the place is the path itself (`locate_eq_some_iff`).

Each call has a lemma on when it succeeds (`remove_eq_some_iff` and so on). -/
namespace Dbr2.Lib.LinkFs
open List

abbrev Bytes := List UInt8
abbrev Name := Bytes
abbrev Path := List Name

def dot : Name := [0x2E]
def dotdot : Name := [0x2E, 0x2E]

/-- What the kernel takes as a name. -/
def fits (n : Name) : Bool := n.length ≤ 255 && !n.contains 0

/-- A name that an entry can have. -/
structure IsName (n : Name) : Prop where
  ne_nil : n ≠ []
  ne_dot : n ≠ dot
  ne_dotdot : n ≠ dotdot
  no_slash : 0x2F ∉ n
  fits : fits n = true

instance instDecidableIsName (n : Name) : Decidable (IsName n) :=
  decidable_of_iff (n ≠ [] ∧ n ≠ dot ∧ n ≠ dotdot ∧ 0x2F ∉ n ∧ fits n = true)
    ⟨fun ⟨h1, h2, h3, h4, h5⟩ => ⟨h1, h2, h3, h4, h5⟩, fun h => ⟨h.ne_nil, h.ne_dot, h.ne_dotdot, h.no_slash, h.fits⟩⟩

inductive Kind where
  | dir
  | file
  | symlink (target : Bytes)
  deriving DecidableEq

structure Entry where
  ino : Nat
  kind : Kind
  deriving DecidableEq

/-- What belongs to an inode. -/
structure Attr where
  xattrs : List (Name × Bytes)
  mtime : Int
  deriving DecidableEq

def Attr.setx (a : Attr) (name : Name) (value : Bytes) : Attr :=
  { a with xattrs := (name, value) :: a.xattrs.filter (·.1 ≠ name) }

/-- Entries by their paths through directories only; inodes carry the attributes. -/
structure Fs where
  entries : List (Path × Entry)
  attr : Nat → Attr
  /-- The time a change gives the directory it is made in. -/
  now : Int

def Above (pre p : Path) : Prop := pre <+: p ∧ pre ≠ p

theorem not_above_nil (pre : Path) : ¬ Above pre [] :=
  fun h => h.2 (prefix_nil.1 h.1)

variable {pre : Path}

theorem above_cons {p : Path} {n : Name} :
    Above pre (n :: p) ↔ pre = [] ∨ ∃ pre', pre = n :: pre' ∧ Above pre' p := by
  unfold Above
  rw [prefix_cons_iff]
  constructor
  · rintro ⟨rfl | ⟨pre', rfl, hp⟩, hne⟩
    · exact .inl rfl
    · exact .inr ⟨pre', rfl, hp, fun h => hne (by rw [h])⟩
  · rintro (rfl | ⟨pre', rfl, hp, hne⟩)
    · exact ⟨.inl rfl, (cons_ne_nil n p).symm⟩
    · exact ⟨.inr ⟨pre', rfl, hp⟩, fun h => hne (List.cons.inj h).2⟩

theorem above_append {r p : Path} : Above pre (r ++ p) ↔ Above pre r ∨ ∃ pre', pre = r ++ pre' ∧ Above pre' p := by
  induction r generalizing pre with
  | nil => simp [not_above_nil]
  | cons n r ih =>
    rw [cons_append, above_cons, above_cons]
    constructor
    · rintro (rfl | ⟨pre', rfl, h⟩)
      · exact .inl (.inl rfl)
      · rcases ih.1 h with hr | ⟨pre'', rfl, hp⟩
        · exact .inl (.inr ⟨pre', rfl, hr⟩)
        · exact .inr ⟨pre'', rfl, hp⟩
    · rintro ((rfl | ⟨pre', rfl, h⟩) | ⟨pre', rfl, h⟩)
      · exact .inl rfl
      · exact .inr ⟨pre', rfl, ih.2 (.inl h)⟩
      · exact .inr ⟨r ++ pre', rfl, ih.2 (.inr ⟨pre', rfl, h⟩)⟩

theorem above_concat {d : Path} {n : Name} : Above pre (d ++ [n]) ↔ pre <+: d := by
  rw [above_append]
  constructor
  · rintro (h | ⟨pre', rfl, h⟩)
    · exact h.1
    · rcases above_cons.1 h with rfl | ⟨pre'', -, h⟩
      · rw [append_nil]
      · exact absurd h (not_above_nil _)
  · intro h
    by_cases hd : pre = d
    · exact .inr ⟨[], by rw [hd, append_nil], above_cons.2 (.inl rfl)⟩
    · exact .inl ⟨h, hd⟩

section Lookup
variable {κ α : Type} [BEq κ] [LawfulBEq κ] [DecidableEq κ] {l : List (κ × α)} {p q : κ}

theorem lookup_filter_ne : (l.filter (·.1 ≠ p)).lookup q = if q = p then none else l.lookup q := by
  induction l with
  | nil => simp
  | cons x l ih =>
    by_cases hx : x.1 = p
    · rw [filter_cons_of_neg (by simpa using hx), ih]
      by_cases hq : q = p
      · rw [if_pos hq, if_pos hq]
      · have hne : (q == x.1) = false := by simpa [hx] using hq
        rw [if_neg hq, if_neg hq, lookup_cons, hne]
    rw [filter_cons_of_pos (by simpa using hx), lookup_cons, lookup_cons, ih]
    by_cases hq : q = x.1
    · have hqp : q ≠ p := by rwa [hq]
      have heq : (q == x.1) = true := by simpa using hq
      rw [heq, if_neg hqp, if_neg hqp]
    · have hne : (q == x.1) = false := by simpa using hq
      rw [hne]

theorem lookup_put {a : α} : ((p, a) :: l.filter (·.1 ≠ p)).lookup q = if q = p then some a else l.lookup q := by
  rw [lookup_cons]
  by_cases hq : q = p
  · have hb : (q == p) = true := by simpa using hq
    rw [hb, if_pos hq]
  have hb : (q == p) = false := by simpa using hq
  rw [hb, if_neg hq]
  exact lookup_filter_ne.trans (if_neg hq)

end Lookup

namespace Fs

def get (fs : Fs) (p : Path) : Option Entry := fs.entries.lookup p

def kindAt (fs : Fs) (p : Path) : Option Kind := (fs.get p).map (·.kind)

def hasChild (fs : Fs) (p : Path) : Bool := fs.entries.any fun e => e.1 ≠ [] && e.1.dropLast = p

def del (fs : Fs) (p : Path) : Fs := { fs with entries := fs.entries.filter (·.1 ≠ p) }

def set (fs : Fs) (p : Path) (e : Entry) : Fs := { fs with entries := (p, e) :: (fs.del p).entries }

/-- A change sets the time of the directory it is made in. -/
def stamp (fs : Fs) (p : Path) : Fs :=
  match fs.get p.dropLast with
  | none => fs
  | some d => { fs with attr := Function.update fs.attr d.ino { fs.attr d.ino with mtime := fs.now } }

def unlinkAt (fs : Fs) (p : Path) : Fs := (fs.del p).stamp p

def linkAt (fs : Fs) (p : Path) (e : Entry) : Fs := (fs.set p e).stamp p

def moveAt (fs : Fs) (p q : Path) (e : Entry) : Fs := (fs.unlinkAt p).linkAt q e

theorem mem_of_get {fs : Fs} {p : Path} {e : Entry} (h : fs.get p = some e) : (p, e) ∈ fs.entries := by
  obtain ⟨l₁, l₂, hl, -⟩ := lookup_eq_some_iff.1 h
  rw [hl]
  exact mem_append_right _ mem_cons_self

variable (fs : Fs)

theorem get_del (p q : Path) : (fs.del p).get q = if q = p then none else fs.get q :=
  lookup_filter_ne

theorem get_set (p q : Path) (e : Entry) : (fs.set p e).get q = if q = p then some e else fs.get q :=
  lookup_put

@[simp] theorem get_stamp (p q : Path) : (fs.stamp p).get q = fs.get q := by
  unfold stamp
  split <;> rfl

@[simp] theorem xattrs_stamp (p : Path) (i : Nat) : ((fs.stamp p).attr i).xattrs = (fs.attr i).xattrs := by
  unfold stamp
  split
  · rfl
  rename_i d _
  show (Function.update fs.attr d.ino { fs.attr d.ino with mtime := fs.now } i).xattrs = _
  by_cases hi : i = d.ino
  · subst hi
    rw [Function.update_self]
  · rw [Function.update_of_ne hi]

@[simp] theorem get_unlinkAt (p q : Path) : (fs.unlinkAt p).get q = if q = p then none else fs.get q := by
  rw [unlinkAt, get_stamp, get_del]

@[simp] theorem get_linkAt (p q : Path) (e : Entry) :
    (fs.linkAt p e).get q = if q = p then some e else fs.get q := by
  rw [linkAt, get_stamp, get_set]

@[simp] theorem get_moveAt (p q a : Path) (e : Entry) :
    (fs.moveAt p q e).get a = if a = q then some e else if a = p then none else fs.get a := by
  rw [moveAt, get_linkAt, get_unlinkAt]

@[simp] theorem xattrs_unlinkAt (p : Path) (i : Nat) :
    ((fs.unlinkAt p).attr i).xattrs = (fs.attr i).xattrs := xattrs_stamp _ p i

@[simp] theorem xattrs_linkAt (p : Path) (e : Entry) (i : Nat) :
    ((fs.linkAt p e).attr i).xattrs = (fs.attr i).xattrs := xattrs_stamp _ p i

@[simp] theorem xattrs_moveAt (p q : Path) (e : Entry) (i : Nat) :
    ((fs.moveAt p q e).attr i).xattrs = (fs.attr i).xattrs :=
  (xattrs_linkAt _ q e i).trans (xattrs_unlinkAt fs p i)

end Fs

/-- How far a path can be taken without following a link. -/
inductive Walk where
  | here (p : Path)
  | link (dir : Path) (target : Bytes) (rest : List Name)
  | stuck

namespace Fs

/-- Walks up to the last element or the next symbolic link. -/
def advance (fs : Fs) (cur : Path) : List Name → Walk
  | [] => .here cur
  | n :: rest =>
    if fits n = false then .stuck
    else if n = dot then fs.advance cur rest
    else if n = dotdot then fs.advance cur.dropLast rest
    else if rest.isEmpty then .here (cur ++ [n])
    else match fs.kindAt (cur ++ [n]) with
      | some .dir => fs.advance (cur ++ [n]) rest
      | some (.symlink target) => .link cur target rest
      | _ => .stuck

def elems (s : Bytes) : List Name := (s.splitOn 0x2F).filter (· ≠ [])

/-- With at most `links` links followed. -/
def walk (fs : Fs) : Nat → Path → List Name → Option Path
  | links, cur, todo =>
    match links, fs.advance cur todo with
    | _, .here p => some p
    | links + 1, .link dir target rest =>
      fs.walk links (if target.head? = some 0x2F then [] else dir) (elems target ++ rest)
    | _, _ => none

/-- The links that one resolution may follow. -/
def maxLinks : Nat := 40

/-- Where a path ends. Its length is not bounded: there is no `PATH_MAX`. -/
def locate (fs : Fs) (p : Path) : Option Path := fs.walk maxLinks [] p

/-- No link stands where the path goes through. -/
def Unlinked (fs : Fs) (p : Path) : Prop :=
  ∀ pre target, pre ≠ [] → Above pre p → fs.kindAt pre ≠ some (.symlink target)

def IsDir (fs : Fs) (p : Path) : Prop := fs.kindAt p = some .dir

/-- From `cur` on there are names and directories all the way. -/
def Passable (fs : Fs) (cur todo : Path) : Prop :=
  (∀ n ∈ todo, fits n = true) ∧ ∀ pre, pre ≠ [] → Above pre todo → fs.IsDir (cur ++ pre)

theorem passable_nil (fs : Fs) (cur : Path) : fs.Passable cur [] :=
  ⟨fun _ h => absurd h not_mem_nil, fun pre _ h => absurd h (not_above_nil pre)⟩

variable {fs : Fs} {cur p q old new : Path}

theorem passable_singleton {n : Name} (h : fits n = true) : fs.Passable cur [n] := by
  refine ⟨fun m hm => by rwa [mem_singleton.1 hm], fun pre hne hpre => ?_⟩
  rcases above_cons.1 hpre with rfl | ⟨pre', -, hpre'⟩
  · exact absurd rfl hne
  · exact absurd hpre' (not_above_nil pre')

theorem passable_cons {rest : Path} {n m : Name} : fs.Passable cur (n :: m :: rest) ↔
    fits n = true ∧ fs.IsDir (cur ++ [n]) ∧ fs.Passable (cur ++ [n]) (m :: rest) := by
  have hsub : ∀ pre, cur ++ [n] ++ pre = cur ++ n :: pre := fun pre => by simp
  have habove : ∀ pre, Above pre (m :: rest) → Above (n :: pre) (n :: m :: rest) :=
    fun pre h => above_cons.2 (.inr ⟨pre, rfl, h⟩)
  constructor
  · rintro ⟨hfits, hdirs⟩
    refine ⟨hfits n mem_cons_self, hdirs [n] (cons_ne_nil _ _) (habove [] (above_cons.2 (.inl rfl))), ?_, ?_⟩
    · intro n' hn'
      exact hfits n' (mem_cons_of_mem _ hn')
    · intro pre _ hpre
      rw [hsub]
      exact hdirs (n :: pre) (cons_ne_nil _ _) (habove pre hpre)
  · rintro ⟨hn, hdir, hfits, hdirs⟩
    refine ⟨forall_mem_cons.2 ⟨hn, hfits⟩, ?_⟩
    intro pre hne hpre
    rcases above_cons.1 hpre with rfl | ⟨pre', rfl, hpre'⟩
    · exact absurd rfl hne
    by_cases hnil : pre' = []
    · rw [hnil]
      exact hdir
    · rw [← hsub]
      exact hdirs pre' hnil hpre'

theorem advance_unlinked (cur : Path) {todo : Path} (hplain : ∀ n ∈ todo, n ≠ dot ∧ n ≠ dotdot)
    (hlinks : ∀ pre target, pre ≠ [] → Above pre todo → fs.kindAt (cur ++ pre) ≠ some (.symlink target)) :
    (fs.advance cur todo = .here (cur ++ todo) ∧ fs.Passable cur todo) ∨
      (fs.advance cur todo = .stuck ∧ ¬ fs.Passable cur todo) := by
  induction todo generalizing cur with
  | nil => exact .inl ⟨by rw [append_nil]; rfl, passable_nil fs cur⟩
  | cons n rest ih =>
    obtain ⟨hdot, hdotdot⟩ := hplain n mem_cons_self
    unfold advance
    by_cases hfits : fits n = false
    · refine .inr ⟨if_pos hfits, fun h => ?_⟩
      rw [h.1 n mem_cons_self] at hfits
      cases hfits
    rw [if_neg hfits, if_neg hdot, if_neg hdotdot]
    have hfits : fits n = true := by simpa using hfits
    cases rest with
    | nil => exact .inl ⟨rfl, passable_singleton hfits⟩
    | cons m rest =>
      rw [if_neg (by simp), passable_cons]
      have hsub : ∀ pre, cur ++ [n] ++ pre = cur ++ n :: pre := fun pre => by simp
      have habove : ∀ pre, Above pre (m :: rest) → Above (n :: pre) (n :: m :: rest) :=
        fun pre h => above_cons.2 (.inr ⟨pre, rfl, h⟩)
      have hno : fs.kindAt (cur ++ [n]) ≠ some .dir →
          ¬ (fits n = true ∧ fs.IsDir (cur ++ [n]) ∧ fs.Passable (cur ++ [n]) (m :: rest)) := fun hk h => hk h.2.1
      cases hk : fs.kindAt (cur ++ [n]) with
      | none => exact .inr ⟨rfl, hno (by rw [hk]; simp)⟩
      | some k =>
        cases k with
        | file => exact .inr ⟨rfl, hno (by rw [hk]; simp)⟩
        | symlink target =>
          exact absurd hk (hlinks [n] target (cons_ne_nil _ _) (habove [] (above_cons.2 (.inl rfl))))
        | dir =>
          have hrest := ih (cur ++ [n]) (fun n' h => hplain n' (mem_cons_of_mem _ h)) (by
            intro pre target _ h
            rw [hsub]
            exact hlinks (n :: pre) target (cons_ne_nil _ _) (habove pre h))
          rw [hsub] at hrest
          exact hrest.imp (And.imp_right fun h => ⟨hfits, hk, h⟩) (And.imp_right fun h h' => h h'.2.2)

theorem locate_eq_some_iff (hplain : ∀ n ∈ p, n ≠ dot ∧ n ≠ dotdot) (hlinks : fs.Unlinked p) : fs.locate p = some q ↔
      q = p ∧ (∀ n ∈ p, fits n = true) ∧ ∀ pre, pre ≠ [] → Above pre p → fs.IsDir pre := by
  have hwalk := advance_unlinked [] hplain hlinks
  rw [nil_append] at hwalk
  unfold locate walk
  rcases hwalk with ⟨heq, hgood⟩ | ⟨heq, hbad⟩
  · rw [heq]
    constructor
    · intro h
      exact ⟨(Option.some.inj h).symm, hgood⟩
    · rintro ⟨rfl, -⟩
      rfl
  · rw [heq]
    exact iff_of_false (by simp) fun h => hbad h.2

/-- The links a walk follows, one after the other. -/
inductive Leads (fs : Fs) : Nat → Path → List Name → Path → Prop where
  | here {links : Nat} {cur q : Path} {todo : List Name} (h : fs.advance cur todo = .here q) : Leads fs links cur todo q
  | link {links : Nat} {cur dir q : Path} {todo rest : List Name} {target : Bytes}
      (h : fs.advance cur todo = .link dir target rest)
      (hrest : Leads fs links (if target.head? = some 0x2F then [] else dir) (elems target ++ rest) q) :
      Leads fs (links + 1) cur todo q

theorem walk_eq_some_iff {links : Nat} {todo : List Name} :
    fs.walk links cur todo = some q ↔ Leads fs links cur todo q := by
  constructor
  · intro h
    induction links generalizing cur todo with
    | zero =>
      unfold walk at h
      cases hw : fs.advance cur todo with
      | here p =>
        rw [hw] at h
        exact .here (hw.trans (congrArg _ (Option.some.inj h)))
      | link dir target rest =>
        rw [hw] at h
        cases h
      | stuck =>
        rw [hw] at h
        cases h
    | succ links ih =>
      unfold walk at h
      cases hw : fs.advance cur todo with
      | here p =>
        rw [hw] at h
        exact .here (hw.trans (congrArg _ (Option.some.inj h)))
      | link dir target rest =>
        rw [hw] at h
        exact .link hw (ih h)
      | stuck =>
        rw [hw] at h
        cases h
  · intro h
    induction h with
    | here h =>
      unfold walk
      rw [h]
    | link h _ ih =>
      unfold walk
      rw [h]
      exact ih

/-- Two walks to entries `n` and `m` of one directory, if the first gets there. -/
inductive Beside (n m : Name) : Walk → Walk → Prop where
  | here (dir : Path) (h : fits n = true) : Beside n m (.here (dir ++ [n])) (.here (dir ++ [m]))
  | link (dir : Path) (target : Bytes) (rest : Path) :
      Beside n m (.link dir target (rest ++ [n])) (.link dir target (rest ++ [m]))
  | stuck (w : Walk) : Beside n m .stuck w

section Beside
variable {fs : Fs} {n m : Name} (hn : n ≠ dot ∧ n ≠ dotdot) (hm : m ≠ dot ∧ m ≠ dotdot)
  (hfits : fits m = true)
include hn hm hfits

theorem advance_concat (cur d : Path) : Beside n m (fs.advance cur (d ++ [n])) (fs.advance cur (d ++ [m])) := by
  induction d generalizing cur with
  | nil =>
    have hlast : fs.advance cur [m] = .here (cur ++ [m]) := by
      rw [advance, if_neg (by simp [hfits]), if_neg hm.1, if_neg hm.2, if_pos isEmpty_nil]
    rw [nil_append, nil_append, hlast]
    by_cases hf : fits n = false
    · rw [advance, if_pos hf]
      exact .stuck _
    · rw [advance, if_neg hf, if_neg hn.1, if_neg hn.2, if_pos isEmpty_nil]
      exact .here cur (by simpa using hf)
  | cons x d ih =>
    have hrest : ∀ a : Name, (d ++ [a]).isEmpty = false := fun a => by simp
    rw [cons_append, cons_append, advance, advance, hrest, hrest]
    by_cases hf : fits x = false
    · rw [if_pos hf]
      exact .stuck _
    rw [if_neg hf, if_neg hf]
    by_cases hdot : x = dot
    · rw [if_pos hdot, if_pos hdot]
      exact ih cur
    rw [if_neg hdot, if_neg hdot]
    by_cases hdd : x = dotdot
    · rw [if_pos hdd, if_pos hdd]
      exact ih cur.dropLast
    rw [if_neg hdd, if_neg hdd, if_neg (by simp), if_neg (by simp)]
    cases fs.kindAt (cur ++ [x]) with
    | none => exact .stuck _
    | some k =>
      cases k with
      | dir => exact ih (cur ++ [x])
      | file => exact .stuck _
      | symlink target => exact .link cur target d

theorem Leads.concat {links : Nat} {cur d q : Path} (h : Leads fs links cur (d ++ [n]) q) :
    ∃ dir, q = dir ++ [n] ∧ fits n = true ∧ Leads fs links cur (d ++ [m]) (dir ++ [m]) := by
  have hbeside : ∀ cur d, Beside n m (fs.advance cur (d ++ [n])) (fs.advance cur (d ++ [m])) :=
    advance_concat hn hm hfits
  generalize htodo : d ++ [n] = todo at h
  induction h generalizing d with
  | @here _ cur _ _ h =>
    subst htodo
    have hb := hbeside cur d
    rw [h] at hb
    generalize hw : fs.advance cur (d ++ [m]) = w at hb
    cases hb with
    | here dir hf => exact ⟨dir, rfl, hf, .here hw⟩
  | @link _ cur _ _ _ _ _ h _ ih =>
    subst htodo
    have hb := hbeside cur d
    rw [h] at hb
    generalize hw : fs.advance cur (d ++ [m]) = w at hb
    cases hb with
    | link dir target rest =>
      obtain ⟨dir', hq, hf, hrest⟩ := ih (append_assoc _ _ _)
      rw [append_assoc] at hrest
      exact ⟨dir', hq, hf, .link hw hrest⟩

theorem locate_concat {d q : Path} (h : fs.locate (d ++ [n]) = some q) :
    ∃ dir, q = dir ++ [n] ∧ fits n = true ∧ fs.locate (d ++ [m]) = some (dir ++ [m]) := by
  obtain ⟨dir, hq, hf, hm'⟩ := Leads.concat hn hm hfits (walk_eq_some_iff.1 h)
  exact ⟨dir, hq, hf, walk_eq_some_iff.2 hm'⟩

end Beside

variable {fs' : Fs}

section

variable (hsub : ∀ p k, fs.kindAt p = some k → fs'.kindAt p = some k)
include hsub

theorem advance_mono (cur : Path) (todo : List Name) (h : fs.advance cur todo ≠ .stuck) :
    fs'.advance cur todo = fs.advance cur todo := by
  induction todo generalizing cur with
  | nil => rfl
  | cons n rest ih =>
    unfold advance at h ⊢
    by_cases hf : fits n = false
    · rw [if_pos hf, if_pos hf]
    rw [if_neg hf] at h
    rw [if_neg hf, if_neg hf]
    by_cases hdot : n = dot
    · rw [if_pos hdot] at h
      rw [if_pos hdot, if_pos hdot]
      exact ih cur h
    rw [if_neg hdot] at h
    rw [if_neg hdot, if_neg hdot]
    by_cases hdd : n = dotdot
    · rw [if_pos hdd] at h
      rw [if_pos hdd, if_pos hdd]
      exact ih cur.dropLast h
    rw [if_neg hdd] at h
    rw [if_neg hdd, if_neg hdd]
    by_cases hrest : rest.isEmpty = true
    · rw [if_pos hrest, if_pos hrest]
    rw [if_neg hrest] at h
    rw [if_neg hrest, if_neg hrest]
    cases hk : fs.kindAt (cur ++ [n]) with
    | none =>
      rw [hk] at h
      exact absurd rfl h
    | some k =>
      rw [hk] at h
      rw [hsub _ k hk]
      cases k with
      | dir => exact ih (cur ++ [n]) h
      | file => rfl
      | symlink target => rfl

theorem Leads.mono
    {links : Nat} {todo : List Name} (h : Leads fs links cur todo q) : Leads fs' links cur todo q := by
  induction h with
  | here h => exact .here ((advance_mono hsub _ _ (by simp [h])).trans h)
  | link h _ ih => exact .link ((advance_mono hsub _ _ (by simp [h])).trans h) ih

theorem locate_mono (h : fs.locate p = some q) : fs'.locate p = some q :=
  walk_eq_some_iff.2 ((walk_eq_some_iff.1 h).mono hsub)

end

theorem locate_congr (h : ∀ p, fs'.get p = fs.get p) (p : Path) : fs'.locate p = fs.locate p := by
  have hk : ∀ p, fs'.kindAt p = fs.kindAt p := fun p => congrArg (Option.map _) (h p)
  apply Option.ext
  intro q
  constructor
  · exact locate_mono fun p k hp => (hk p).symm.trans hp
  · exact locate_mono fun p k hp => (hk p).trans hp

/-- The entry itself, also if it is a link. -/
def lstat (fs : Fs) (p : Path) : Option Entry := do
  let q ← fs.locate p
  fs.get q

/-- A file, a link or an empty directory. -/
def remove (fs : Fs) (p : Path) : Option Fs := do
  let q ← fs.locate p
  let e ← fs.get q
  if e.kind = .dir ∧ fs.hasChild q = true then none else some (fs.unlinkAt q)

def link (fs : Fs) (old new : Path) : Option Fs := do
  let e ← fs.lstat old
  let q ← fs.locate new
  if e.kind = .dir ∨ (fs.get q).isSome = true then none else some (fs.linkAt q e)

/-- Of anything but a directory. Two names of one inode are left as they are. -/
def rename (fs : Fs) (old new : Path) : Option Fs := do
  let p ← fs.locate old
  let e ← fs.get p
  let q ← fs.locate new
  if e.kind = .dir ∨ fs.kindAt q = some .dir then none
  else if (fs.get q).map (·.ino) = some e.ino then some fs
  else some (fs.moveAt p q e)

def getxattr (fs : Fs) (p : Path) (name : Name) : Option Bytes := do
  let e ← fs.lstat p
  (fs.attr e.ino).xattrs.lookup name

def setxattr (fs : Fs) (p : Path) (name : Name) (value : Bytes) : Option Fs := do
  let e ← fs.lstat p
  some { fs with attr := Function.update fs.attr e.ino ((fs.attr e.ino).setx name value) }

def utimes (fs : Fs) (p : Path) (time : Int) : Option Fs := do
  let e ← fs.lstat p
  some { fs with attr := Function.update fs.attr e.ino { fs.attr e.ino with mtime := time } }

theorem lstat_eq_some_iff {e : Entry} : fs.lstat p = some e ↔ ∃ q, fs.locate p = some q ∧ fs.get q = some e := by
  simp [lstat, Option.bind_eq_some_iff]

theorem lstat_congr (h : ∀ p, fs'.get p = fs.get p) (p : Path) : fs'.lstat p = fs.lstat p := by
  unfold lstat
  rw [locate_congr h p]
  exact congrArg _ (funext h)

theorem remove_eq_some_iff : fs.remove p = some fs' ↔
    ∃ q e, fs.locate p = some q ∧ fs.get q = some e ∧ ¬ (e.kind = .dir ∧ fs.hasChild q = true) ∧
      fs.unlinkAt q = fs' := by
  simp [remove, Option.bind_eq_some_iff]

theorem link_eq_some_iff : fs.link old new = some fs' ↔
    ∃ e q, fs.lstat old = some e ∧ fs.locate new = some q ∧ e.kind ≠ .dir ∧ fs.get q = none ∧
      fs.linkAt q e = fs' := by
  simp [link, Option.bind_eq_some_iff, and_assoc]

theorem kindAt_removed {tmp : Path} {k : Kind} (h : ((fs.remove tmp).getD fs).kindAt p = some k) :
    fs.kindAt p = some k := by
  cases hr : fs.remove tmp with
  | none => rwa [hr] at h
  | some fs' =>
    rw [hr] at h
    obtain ⟨q, e, -, -, -, rfl⟩ := remove_eq_some_iff.1 hr
    unfold kindAt at h ⊢
    rw [Option.getD_some, get_unlinkAt] at h
    split at h
    · cases h
    · exact h

theorem kindAt_link {k : Kind} (hl : fs.link old new = some fs') (h : fs.kindAt p = some k) : fs'.kindAt p = some k := by
  obtain ⟨e, q, -, -, -, hnone, rfl⟩ := link_eq_some_iff.1 hl
  unfold kindAt at h ⊢
  rw [get_linkAt]
  split
  · rename_i hp
    rw [hp, hnone] at h
    cases h
  · exact h

theorem rename_eq_some {e : Entry} (hp : fs.locate old = some p)
    (he : fs.get p = some e) (hq : fs.locate new = some q) (hkind : e.kind ≠ .dir) (hnew : fs.kindAt q ≠ some .dir)
    (hino : (fs.get q).map (·.ino) ≠ some e.ino) : fs.rename old new = some (fs.moveAt p q e) := by
  unfold rename
  simp only [hp, he, hq, Option.bind_eq_bind, Option.bind_some]
  rw [if_neg (not_or.2 ⟨hkind, hnew⟩), if_neg hino]

theorem setxattr_eq_some_iff {name : Name} {value : Bytes} :
    fs.setxattr p name value = some fs' ↔ ∃ e, fs.lstat p = some e ∧
      { fs with attr := Function.update fs.attr e.ino ((fs.attr e.ino).setx name value) } = fs' := by
  simp [setxattr, Option.bind_eq_some_iff]

theorem utimes_eq_some_iff {time : Int} : fs.utimes p time = some fs' ↔ ∃ e, fs.lstat p = some e ∧
      { fs with attr := Function.update fs.attr e.ino { fs.attr e.ino with mtime := time } } = fs' := by
  simp [utimes, Option.bind_eq_some_iff]

theorem lookup_setx (a : Attr) (name k : Name) (value : Bytes) :
    (a.setx name value).xattrs.lookup k = if k = name then some value else a.xattrs.lookup k :=
  lookup_put

end Fs

end Dbr2.Lib.LinkFs
