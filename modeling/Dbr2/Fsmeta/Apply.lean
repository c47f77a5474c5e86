import Dbr2.Fsmeta.Stream
import Dbr2.Lib.Run
import Mathlib.Data.List.Sort

/-! Putting the metadata back (`apply.go`).

`Apply` goes through the records: a path that would leave the root is refused, the first path of a
hard-link group is kept and later ones are replaced by links to it, extended attributes are set; the
times of directories come last, the deepest first. No call waits on what another one gave, so what
is called is settled by the records alone (`program`); each call then meets the file system as the
ones before have left it (`Work.step`).

`Verify` reads the attributes back and counts what differs. -/
namespace Dbr2.Fsmeta
open Lib Lib.LinkFs List

structure Root where
  path : Path
  named : ∀ n ∈ path, IsName n

def staging : Root := ⟨[ascii "staging"], by decide⟩

/-- An element of a relative path being cleaned, on top of those before it. -/
def push (stack : List Name) (e : Name) : List Name :=
  if e = dot then stack
  else if e = dotdot then
    match stack with
    | [] => [e]
    | top :: rest => if top = dotdot then e :: stack else rest
  else e :: stack

/-- `filepath.IsLocal`. -/
def isLocal (p : Bytes) : Bool :=
  p ≠ [] && p.head? ≠ some 0x2F && ((Fs.elems p).foldl push []).getLast? ≠ some dotdot

def descend (path : Path) (e : Name) : Path :=
  if e = dot then path else if e = dotdot then path.dropLast else path ++ [e]

/-- `filepath.Join`. -/
def join (root : Path) (p : Bytes) : Path := (Fs.elems p).foldl descend root

def localPath (root : Path) (p : Bytes) : Option Path :=
  if p = dot then some root else if isLocal p then some (join root p) else none

/-- A call that `Apply` makes for a record. -/
inductive Op where
  | escape
  | relink (first path : Path)
  | lsetxattr (path : Path) (name value : Bytes)
  | utimes (path : Path) (ns : Int)

/-- The groups after a record of `path` in the group `h`, and the first path of the group
if it has one already. -/
def enter (groups : List (Bytes × Path)) (h : Bytes) (path : Path) : List (Bytes × Path) × Option Path :=
  if h = [] then (groups, none)
  else match groups.lookup h with
    | none => ((h, path) :: groups, none)
    | some first => (groups, some first)

/-- The records in order; the first path of a group is kept for the others. -/
def loop (root : Path) (groups : List (Bytes × Path)) : List Record → List Op
  | [] => []
  | rec :: rest =>
    match localPath root rec.p with
    | none => .escape :: loop root groups rest
    | some path =>
      ((enter groups rec.h path).2.map fun first => Op.relink first path).toList ++
        (rec.x.map fun a => Op.lsetxattr path a.1 a.2) ++
        loop root (enter groups rec.h path).1 rest

def dirTime (root : Path) (rec : Record) : Option (Path × Int) := do
  let path ← localPath root rec.p
  let ns ← rec.dm
  some (path, ns)

/-- Deepest first, so that setting a parent's time is the last change to it. -/
def dirTimes (root : Path) (recs : List Record) : List (Path × Int) :=
  (recs.filterMap (dirTime root)).insertionSort fun a b => b.1.length ≤ a.1.length

/-- All calls of a run, which the records alone decide. -/
def program (root : Path) (recs : List Record) : List Op :=
  loop root [] recs ++ (dirTimes root recs).map fun d => Op.utimes d.1 d.2

/-- What a call does at a place. -/
inductive Use where
  | read
  | change
  | create
  | remove
  | replace
  | discard
  deriving DecidableEq

/-- A path that was used, and the place it led to. -/
structure Touch where
  use : Use
  (path place : Path)
  deriving DecidableEq

def touch (fs : Fs) (use : Use) (path : Path) : List Touch :=
  match fs.locate path with
  | none => []
  | some place => [⟨use, path, place⟩]

structure Outcome where
  fs : Fs
  touched : List Touch
  ok : Bool

def linkPrefix : Bytes := ascii ".dbr2-link-"

/-- The temporary name beside a path. -/
def sibling (path : Path) : Path := path.dropLast ++ [linkPrefix ++ path.getLastD []]

/-- Link under the temporary name, then rename over the path. -/
def relinkVia (fs : Fs) (first path tmp : Path) : Outcome :=
  let removed := touch fs (if (fs.remove tmp).isSome then .remove else .read) tmp
  let fs₁ := (fs.remove tmp).getD fs
  match fs₁.link first tmp with
  | none => ⟨fs₁, removed, false⟩
  | some fs₂ =>
    let made := removed ++ touch fs₁ .change first ++ touch fs₁ .create tmp
    match fs₂.rename tmp path with
    | some fs₃ => ⟨fs₃, made ++ touch fs₂ .replace path, true⟩
    | none => ⟨(fs₂.remove tmp).getD fs₂, made ++ touch fs₂ .discard tmp, false⟩

/-- `relink`. -/
def relink (fs : Fs) (first path : Path) : Outcome :=
  match fs.lstat first with
  | none => ⟨fs, touch fs .read first, false⟩
  | some a =>
    let looked := touch fs .read first ++ touch fs .read path
    -- Already linked, or the group's leader is a directory.
    if (fs.lstat path).map (·.ino) = some a.ino then ⟨fs, looked, true⟩
    else if a.kind = .dir then ⟨fs, looked, false⟩
    else
      let o := relinkVia fs first path (sibling path)
      { o with touched := looked ++ o.touched }

def changed (fs : Fs) (path : Path) : Option Fs → Outcome
  | none => ⟨fs, touch fs .read path, false⟩
  | some fs' => ⟨fs', touch fs .change path, true⟩

/-- One call, with the places it touches. -/
def Op.exec (fs : Fs) : Op → Outcome
  | .escape => ⟨fs, [], false⟩
  | .relink first path => Fsmeta.relink fs first path
  | .lsetxattr path name value => changed fs path (fs.setxattr path name value)
  | .utimes path ns => changed fs path (fs.utimes path ns)

structure ApplyStats where
  (records links xattrs dirTimes errors : Nat)
  deriving DecidableEq

def ApplyStats.count (st : ApplyStats) (op : Op) (ok : Bool) : ApplyStats :=
  if ok = false then { st with errors := st.errors + 1 }
  else match op with
    | .escape => st
    | .relink _ _ => { st with links := st.links + 1 }
    | .lsetxattr _ _ _ => { st with xattrs := st.xattrs + 1 }
    | .utimes _ _ => { st with dirTimes := st.dirTimes + 1 }

structure Work where
  fs : Fs
  stats : ApplyStats
  trace : List Touch

def Work.step (w : Work) (op : Op) : Work :=
  let o := op.exec w.fs
  ⟨o.fs, w.stats.count op o.ok, w.trace ++ o.touched⟩

def start (fs : Fs) (recs : List Record) : Work := ⟨fs, ⟨recs.length, 0, 0, 0, 0⟩, []⟩

/-- `Apply` on a whole stream of records; one that breaks off, and a cancelled context, end
it before the times of the directories are set. -/
def apply (root : Root) (fs : Fs) (recs : List Record) : Work :=
  run Work.step (start fs recs) (program root.path recs)

def selinux : Bytes := ascii "security.selinux"

/-- SELinux labels are compared without their final NUL. -/
def trimNUL (name v : Bytes) : Bytes :=
  if name = selinux then (v.reverse.dropWhile (· == 0)).reverse else v

def compare (groups : List (Bytes × Nat)) (h : Bytes) (ino : Nat) : List (Bytes × Nat) × Nat :=
  if h = [] then (groups, 0)
  else match groups.lookup h with
    | none => ((h, ino) :: groups, 0)
    | some first => (groups, if first = ino then 0 else 1)

def matchesAttr (fs : Fs) (path : Path) (a : Bytes × Bytes) : Bool :=
  (fs.getxattr path a.1).any fun v => trimNUL a.1 v = trimNUL a.1 a.2

/-- The loop of `Verify`. -/
def mismatches (root : Path) (fs : Fs) (groups : List (Bytes × Nat)) : List Record → Nat
  | [] => 0
  | rec :: rest =>
    match (localPath root rec.p).bind fun path => (fs.lstat path).map fun s => (path, s) with
    | none => 1 + mismatches root fs groups rest
    | some (path, s) =>
      (compare groups rec.h s.ino).2 + rec.x.countP (fun a => !matchesAttr fs path a) +
        (if rec.dm.all (· = nano (fs.attr s.ino).mtime) then 0 else 1) +
        mismatches root fs (compare groups rec.h s.ino).1 rest

def verify (root : Root) (fs : Fs) (recs : List Record) : Nat := mismatches root.path fs [] recs

theorem sibling_concat (d : Path) (n : Name) : sibling (d ++ [n]) = d ++ [linkPrefix ++ n] := by
  rw [sibling, dropLast_concat, getLastD_concat]

theorem length_linkPrefix : linkPrefix.length = 11 := by decide

theorem plain_linkPrefix (n : Name) : linkPrefix ++ n ≠ dot ∧ linkPrefix ++ n ≠ dotdot := by
  have hlen : (linkPrefix ++ n).length = 11 + n.length := by rw [length_append, length_linkPrefix]
  constructor
  · intro h
    have hdot : dot.length = 1 := rfl
    rw [h] at hlen
    omega
  · intro h
    have hdotdot : dotdot.length = 2 := rfl
    rw [h] at hlen
    omega

theorem getLast_push {st : List Name} (e : Name) (h : st.getLast? = some dotdot) :
    (push st e).getLast? = some dotdot := by
  cases st with
  | nil => cases h
  | cons top rest =>
    unfold push
    split
    · exact h
    split
    · dsimp only
      split
      · rw [getLast?_cons_cons]
        exact h
      rename_i htop
      cases rest with
      | nil => exact absurd (Option.some.inj h) htop
      | cons b rest => rwa [getLast?_cons_cons] at h
    · rw [getLast?_cons_cons]
      exact h

theorem getLast_foldl_push {es st : List Name} (h : st.getLast? = some dotdot) :
    (es.foldl push st).getLast? = some dotdot := by
  induction es generalizing st with
  | nil => exact h
  | cons e es ih => exact ih (getLast_push e h)

theorem foldl_descend (root : Path) {es : List Name} (st : List Name) (hst : ∀ n ∈ st, n ≠ dot ∧ n ≠ dotdot)
    (h : (es.foldl push st).getLast? ≠ some dotdot) :
    ∃ out, es.foldl descend (root ++ st.reverse) = root ++ out ∧ ∀ n ∈ out, n ≠ dot ∧ n ≠ dotdot := by
  induction es generalizing st with
  | nil => exact ⟨st.reverse, rfl, fun n hn => hst n (mem_reverse.1 hn)⟩
  | cons e es ih =>
    rw [foldl_cons] at h ⊢
    by_cases hdot : e = dot
    · have hp : push st e = st := if_pos hdot
      have hd : descend (root ++ st.reverse) e = root ++ st.reverse := if_pos hdot
      rw [hp] at h
      rw [hd]
      exact ih st hst h
    by_cases hdd : e = dotdot
    · cases st with
      | nil =>
        -- Once below the root, the path stays there.
        have hp : push [] e = [dotdot] := by
          unfold push
          rw [if_neg hdot, if_pos hdd, hdd]
        rw [hp] at h
        exact absurd (getLast_foldl_push rfl) h
      | cons top rest =>
        have htop := (hst top mem_cons_self).2
        have hp : push (top :: rest) e = rest := by
          unfold push
          rw [if_neg hdot, if_pos hdd]
          exact if_neg htop
        have hd : descend (root ++ (top :: rest).reverse) e = root ++ rest.reverse := by
          unfold descend
          rw [if_neg hdot, if_pos hdd, reverse_cons, ← append_assoc, dropLast_concat]
        rw [hp] at h
        rw [hd]
        exact ih rest (fun n hn => hst n (mem_cons_of_mem _ hn)) h
    have hp : push st e = e :: st := by
      unfold push
      rw [if_neg hdot, if_neg hdd]
    have hd : descend (root ++ st.reverse) e = root ++ (e :: st).reverse := by
      unfold descend
      rw [if_neg hdot, if_neg hdd, reverse_cons, append_assoc]
    rw [hp] at h
    rw [hd]
    refine ih (e :: st) ?_ h
    intro n hn
    rcases mem_cons.1 hn with rfl | hn
    · exact ⟨hdot, hdd⟩
    · exact hst n hn

theorem localPath_below {root path : Path} {p : Bytes} (h : localPath root p = some path) :
    ∃ out, path = root ++ out ∧ ∀ n ∈ out, n ≠ dot ∧ n ≠ dotdot := by
  unfold localPath at h
  split at h
  · exact ⟨[], by rw [append_nil]; exact (Option.some.inj h).symm, by simp⟩
  split at h
  · rename_i hlocal
    unfold isLocal at hlocal
    simp only [Bool.and_eq_true, decide_eq_true_eq] at hlocal
    obtain ⟨out, hout, hplain⟩ := foldl_descend root [] (by simp) hlocal.2
    refine ⟨out, ?_, hplain⟩
    rw [← Option.some.inj h, ← hout, reverse_nil, append_nil]
    rfl
  · cases h

theorem foldl_plain {p : Path} (hp : ∀ n ∈ p, n ≠ dot ∧ n ≠ dotdot) (root : Path) (st : List Name) :
    p.foldl descend root = root ++ p ∧ p.foldl push st = p.reverse ++ st := by
  induction p generalizing root st with
  | nil => exact ⟨(append_nil root).symm, rfl⟩
  | cons n p ih =>
    obtain ⟨hdot, hdd⟩ := hp n mem_cons_self
    have hd : descend root n = root ++ [n] := by
      unfold descend
      rw [if_neg hdot, if_neg hdd]
    have hpu : push st n = n :: st := by
      unfold push
      rw [if_neg hdot, if_neg hdd]
    have ih := ih (fun n hn => hp n (mem_cons_of_mem _ hn)) (root ++ [n]) (n :: st)
    rw [foldl_cons, foldl_cons, hd, hpu, ih.1, ih.2]
    simp

theorem elems_relText {p : Path} (hne : p ≠ []) (hp : ∀ n ∈ p, IsName n) : Fs.elems (relText p) = p := by
  unfold Fs.elems relText
  rw [if_neg hne, splitOn_intercalate 0x2F (fun n hn => (hp n hn).no_slash) hne]
  apply filter_eq_self.2
  intro n hn
  simpa using (hp n hn).ne_nil

theorem localPath_relText {root p : Path} (hp : ∀ n ∈ p, IsName n) :
    localPath root (relText p) = some (root ++ p) := by
  unfold localPath
  by_cases hne : p = []
  · subst hne
    rw [append_nil]
    exact if_pos rfl
  have hplain : ∀ n ∈ p, n ≠ dot ∧ n ≠ dotdot := fun n hn => ⟨(hp n hn).ne_dot, (hp n hn).ne_dotdot⟩
  have helems := elems_relText hne hp
  have hdot : relText p ≠ dot := by
    intro h
    rw [h] at helems
    exact (hplain dot (by rw [← helems]; decide)).1 rfl
  have hlocal : isLocal (relText p) = true := by
    have hnil : relText p ≠ [] := by
      intro h
      rw [h] at helems
      exact hne (by rw [← helems]; decide)
    have hhead : (relText p).head? ≠ some 0x2F := by
      unfold relText
      rw [if_neg hne]
      cases p with
      | nil => exact absurd rfl hne
      | cons n p =>
        have hn := hp n mem_cons_self
        cases n with
        | nil => exact absurd rfl hn.ne_nil
        | cons b n =>
          have hb : b ≠ 0x2F := fun h => hn.no_slash (by rw [h]; exact mem_cons_self)
          cases p with
          | nil => simpa [List.intercalate] using hb
          | cons m p => simpa [List.intercalate] using hb
    have hlast : ((Fs.elems (relText p)).foldl push []).getLast? ≠ some dotdot := by
      rw [helems, (foldl_plain hplain [] []).2, append_nil, getLast?_reverse]
      intro h
      exact (hplain dotdot (mem_of_mem_head? h)).2 rfl
    unfold isLocal
    simp only [Bool.and_eq_true, decide_eq_true_eq]
    exact ⟨⟨hnil, hhead⟩, hlast⟩
  rw [if_neg hdot, if_pos hlocal, join, helems, (foldl_plain hplain root []).1]

theorem errors_count (st : ApplyStats) (op : Op) (ok : Bool) :
    (st.count op ok).errors = st.errors + if ok then 0 else 1 := by
  cases ok <;> cases op <;> rfl

theorem errors_run_le (w : Work) (ops : List Op) : w.stats.errors ≤ (run Work.step w ops).stats.errors := by
  induction ops generalizing w with
  | nil => exact Nat.le_refl _
  | cons op ops ih =>
    refine Nat.le_trans ?_ (ih (w.step op))
    rw [Work.step, errors_count]
    omega

theorem errors_run_iff (w : Work) (ops : List Op) : (run Work.step w ops).stats.errors = w.stats.errors ↔
    Along Work.step (fun w op => (op.exec w.fs).ok = true) w ops := by
  induction ops generalizing w with
  | nil => exact iff_of_true rfl trivial
  | cons op ops ih =>
    have hstep : (w.step op).stats.errors = w.stats.errors + if (op.exec w.fs).ok then 0 else 1 :=
      errors_count _ _ _
    have hle := errors_run_le (w.step op) ops
    rw [run_cons, along_cons]
    cases hok : (op.exec w.fs).ok with
    | true =>
      rw [hok, if_pos rfl, Nat.add_zero] at hstep
      rw [← hstep, ih]
      exact (and_iff_right rfl).symm
    | false =>
      rw [hok, if_neg (by simp)] at hstep
      exact iff_of_false (by omega) (by simp)

end Dbr2.Fsmeta
