import Dbr2.Fsmeta.Apply

/-! What applying metadata touches.

`localPath` keeps a record's path below the root as it is spelled (`localPath_below`), but
the kernel follows the links on the way: where one leads out, so do the calls. And before
a path is linked, what has the temporary name beside it is removed. A run is confined
exactly when at each call the paths it uses lead into the root, the temporary name among
them, and nothing is removed under that name but a path that is to be linked as well
(`confined_iff`). -/
namespace Dbr2.Fsmeta
open Lib Lib.LinkFs List

def hardLinked (root : Path) (recs : List Record) : List Path :=
  recs.filterMap fun rec => if rec.h = [] then none else localPath root rec.p

/-- Where the path ends is inside the root, and it is removed or replaced only if a
hard-link record names it. The links that lead there are not looked at. -/
def Touch.Allowed (root : Path) (linked : List Path) (t : Touch) : Prop :=
  root <+: t.place ∧ (t.use = .remove ∨ t.use = .replace → t.path ∈ linked)

def Confined (root : Root) (fs : Fs) (recs : List Record) : Prop :=
  ∀ t ∈ (apply root fs recs).trace, t.Allowed root.path (hardLinked root.path recs)

def LeadsInto (root : Path) (fs : Fs) (path : Path) : Prop :=
  ∀ place, fs.locate path = some place → root <+: place

/-- The temporary name is inside the root, and what could be removed there is to be linked. -/
def Spare (root : Path) (linked : List Path) (fs : Fs) (tmp : Path) : Prop :=
  LeadsInto root fs tmp ∧ ((fs.remove tmp).isSome = true → tmp ∈ linked)

/-- What a call needs of the file system it meets. A path is linked by way of the temporary
name unless it is already, or the group's first path is missing or a directory. -/
def Guarded (root : Path) (linked : List Path) (w : Work) : Op → Prop
  | .escape => True
  | .relink first path => LeadsInto root w.fs first ∧ ∀ a, w.fs.lstat first = some a → LeadsInto root w.fs path ∧
        ((w.fs.lstat path).map (·.ino) ≠ some a.ino → a.kind ≠ .dir → Spare root linked w.fs (sibling path))
  | .lsetxattr path _ _ => LeadsInto root w.fs path
  | .utimes path _ => LeadsInto root w.fs path

def Below (root path : Path) : Prop := ∃ out, path = root ++ out ∧ ∀ n ∈ out, n ≠ dot ∧ n ≠ dotdot

def Op.Listed (root : Path) (linked : List Path) : Op → Prop
  | .escape => True
  | .relink first path => first ∈ linked ∧ path ∈ linked
  | .lsetxattr path _ _ => Below root path
  | .utimes path _ => Below root path

variable {linked : List Path} {recs : List Record} {root : Path}

theorem below_of_hardLinked {path : Path} (h : path ∈ hardLinked root recs) :
    Below root path := by
  obtain ⟨rec, -, hrec⟩ := mem_filterMap.1 h
  split at hrec
  · cases hrec
  · exact localPath_below hrec

theorem enter_mem {groups : List (Bytes × Path)} {h : Bytes} {path : Path}
    (hgroups : ∀ g ∈ groups, g.2 ∈ linked) (hpath : h ≠ [] → path ∈ linked) :
    (∀ g ∈ (enter groups h path).1, g.2 ∈ linked) ∧
      ∀ first, (enter groups h path).2 = some first → first ∈ linked ∧ path ∈ linked := by
  unfold enter
  split
  · exact ⟨hgroups, by simp⟩
  rename_i hne
  cases hl : groups.lookup h with
  | none =>
    refine ⟨?_, by simp⟩
    intro g hg
    rcases mem_cons.1 hg with rfl | hg
    · exact hpath hne
    · exact hgroups g hg
  | some first =>
    refine ⟨hgroups, ?_⟩
    intro first' hf
    obtain rfl : first = first' := Option.some.inj hf
    obtain ⟨l₁, l₂, rfl, -⟩ := lookup_eq_some_iff.1 hl
    exact ⟨hgroups (h, first) (by simp), hpath hne⟩

theorem loop_listed {groups : List (Bytes × Path)} (hgroups : ∀ g ∈ groups, g.2 ∈ linked)
    (hrecs : ∀ rec ∈ recs, ∀ path, localPath root rec.p = some path → rec.h ≠ [] → path ∈ linked) :
    ∀ op ∈ loop root groups recs, op.Listed root linked := by
  induction recs generalizing groups with
  | nil =>
    intro op h
    cases h
  | cons rec recs ih =>
    have hrest : ∀ rec ∈ recs, ∀ path, localPath root rec.p = some path → rec.h ≠ [] → path ∈ linked :=
      fun rec h => hrecs rec (mem_cons_of_mem _ h)
    intro op hop
    unfold loop at hop
    cases hp : localPath root rec.p with
    | none =>
      rw [hp] at hop
      rcases mem_cons.1 hop with rfl | hop
      · trivial
      · exact ih hgroups hrest op hop
    | some path =>
      rw [hp] at hop
      obtain ⟨hnew, hfirst⟩ := enter_mem hgroups (hrecs rec mem_cons_self path hp)
      rcases mem_append.1 hop with hop | hop
      · rcases mem_append.1 hop with hop | hop
        · obtain ⟨first, hf, rfl⟩ := Option.map_eq_some_iff.1 (Option.mem_toList.1 hop)
          exact hfirst first hf
        · obtain ⟨a, -, rfl⟩ := mem_map.1 hop
          exact localPath_below hp
      · exact ih hnew hrest op hop

theorem program_listed (root : Path) (recs : List Record) :
    ∀ op ∈ program root recs, op.Listed root (hardLinked root recs) := by
  intro op hop
  rcases mem_append.1 hop with hop | hop
  · refine loop_listed (by simp) ?_ op hop
    intro rec hrec path hp hh
    refine mem_filterMap.2 ⟨rec, hrec, ?_⟩
    rw [if_neg hh]
    exact hp
  obtain ⟨d, hd, rfl⟩ := mem_map.1 hop
  obtain ⟨rec, -, hrec⟩ := mem_filterMap.1 ((mem_insertionSort _).1 hd)
  simp only [dirTime, Option.bind_eq_bind, Option.bind_eq_some_iff] at hrec
  obtain ⟨path, hp, ns, -, hd⟩ := hrec
  obtain rfl : (path, ns) = d := Option.some.inj hd
  exact localPath_below hp

def AllAllowed (root : Path) (linked : List Path) (ts : List Touch) : Prop := ∀ t ∈ ts, t.Allowed root linked

theorem allAllowed_append {ts ts' : List Touch} :
    AllAllowed root linked (ts ++ ts') ↔ AllAllowed root linked ts ∧ AllAllowed root linked ts' :=
  forall_mem_append

section Call
variable {root : Path} {linked : List Path} {fs : Fs} {first path tmp : Path}

theorem allAllowed_touch {use : Use} : AllAllowed root linked (touch fs use path) ↔
    ∀ place, fs.locate path = some place → root <+: place ∧ (use = .remove ∨ use = .replace → path ∈ linked) := by
  unfold AllAllowed touch
  cases fs.locate path with
  | none => simp
  | some place => simp [Touch.Allowed]

theorem allAllowed_use {use : Use} (h : use = .remove ∨ use = .replace → path ∈ linked) :
    AllAllowed root linked (touch fs use path) ↔ LeadsInto root fs path := by
  rw [allAllowed_touch]
  exact ⟨fun hall place hp => (hall place hp).1, fun hall place hp => ⟨hall place hp, h⟩⟩

theorem allAllowed_changed (r : Option Fs) :
    AllAllowed root linked (changed fs path r).touched ↔ LeadsInto root fs path := by
  cases r with
  | none => exact allAllowed_use (by simp)
  | some fs' => exact allAllowed_use (by simp)

theorem allAllowed_removed :
    AllAllowed root linked (touch fs (if (fs.remove tmp).isSome then .remove else .read) tmp) ↔
      Spare root linked fs tmp := by
  unfold Spare
  cases hr : (fs.remove tmp).isSome with
  | false =>
    rw [if_neg (by simp), allAllowed_use (by simp)]
    simp
  | true =>
    rw [if_pos rfl, allAllowed_touch]
    -- What is removed is somewhere.
    obtain ⟨fs', h⟩ := Option.isSome_iff_exists.1 hr
    obtain ⟨q, e, hq, -⟩ := Fs.remove_eq_some_iff.1 h
    constructor
    · intro hall
      exact ⟨fun place hp => (hall place hp).1, fun _ => (hall q hq).2 (.inl rfl)⟩
    · rintro ⟨hin, hmem⟩ place hp
      exact ⟨hin place hp, fun _ => hmem rfl⟩

theorem leadsInto_path {fs' : Fs} (hb : Below root path) (hroot : ∀ n ∈ root, n ≠ dot ∧ n ≠ dotdot)
    (hpath : LeadsInto root fs path) {place : Path} (htmp : fs.locate (sibling path) = some place)
    (htmp' : fs'.locate (sibling path) = some place) : LeadsInto root fs' path := by
  obtain ⟨out, rfl, hout⟩ := hb
  intro q hq
  obtain hnil | ⟨d, n, hd⟩ := eq_nil_or_concat' (root ++ out)
  · rw [(append_eq_nil_iff.1 hnil).1]
    exact List.nil_prefix
  rw [hd] at hq hpath htmp htmp'
  rw [sibling_concat] at htmp htmp'
  have hn : n ≠ dot ∧ n ≠ dotdot := by
    have hmem : n ∈ root ++ out := by
      rw [hd]
      exact mem_append_right _ mem_cons_self
    rcases mem_append.1 hmem with h | h
    · exact hroot n h
    · exact hout n h
  obtain ⟨-, -, hfits, -⟩ := Fs.locate_concat (m := [0x61]) hn (by decide) (by decide) hq
  obtain ⟨dir, hdir, -, hin⟩ := Fs.locate_concat (plain_linkPrefix n) hn hfits htmp
  obtain ⟨dir', hdir', -, hin'⟩ := Fs.locate_concat (plain_linkPrefix n) hn hfits htmp'
  have hsame := (append_inj_left' (hdir'.symm.trans hdir) rfl)
  rw [hsame, hq] at hin'
  exact hpath q (hin.trans hin'.symm)

theorem allAllowed_relinkVia (hb : Below root path) (hroot : ∀ n ∈ root, n ≠ dot ∧ n ≠ dotdot)
    (hlinked : path ∈ linked) (hfirst : LeadsInto root fs first) (hpath : LeadsInto root fs path) :
    AllAllowed root linked (relinkVia fs first path (sibling path)).touched ↔
      Spare root linked fs (sibling path) := by
  unfold relinkVia
  dsimp only
  -- Whatever happens later, the temporary name is looked at first.
  generalize hfs₁ : (fs.remove (sibling path)).getD fs = fs₁
  have hback : ∀ p q, fs₁.locate p = some q → fs.locate p = some q := by
    intro p q
    apply Fs.locate_mono
    intro p k hk
    rw [← hfs₁] at hk
    exact Fs.kindAt_removed hk
  cases hlink : fs₁.link first (sibling path) with
  | none => exact allAllowed_removed
  | some fs₂ =>
    obtain ⟨-, place, -, hplace, -⟩ := Fs.link_eq_some_iff.1 hlink
    have hplace₂ := Fs.locate_mono (fun p k => Fs.kindAt_link hlink) hplace
    have hmade : Spare root linked fs (sibling path) →
        AllAllowed root linked (touch fs (if (fs.remove (sibling path)).isSome then .remove else .read) (sibling path) ++
          touch fs₁ .change first ++ touch fs₁ .create (sibling path)) := by
      intro hspare
      rw [allAllowed_append, allAllowed_append, allAllowed_removed, allAllowed_use (by simp), allAllowed_use (by simp)]
      exact ⟨⟨hspare, fun q hq => hfirst q (hback _ _ hq)⟩, fun q hq => hspare.1 q (hback _ _ hq)⟩
    dsimp only
    cases fs₂.rename (sibling path) path with
    | none =>
      rw [allAllowed_append]
      constructor
      · intro h
        exact allAllowed_removed.1 (allAllowed_append.1 (allAllowed_append.1 h.1).1).1
      · intro hspare
        refine ⟨hmade hspare, (allAllowed_use (by simp)).2 ?_⟩
        intro q hq
        rw [hplace₂] at hq
        exact hspare.1 q (hq ▸ hback _ _ hplace)
    | some fs₃ =>
      rw [allAllowed_append]
      constructor
      · intro h
        exact allAllowed_removed.1 (allAllowed_append.1 (allAllowed_append.1 h.1).1).1
      · intro hspare
        refine ⟨hmade hspare, (allAllowed_use fun _ => hlinked).2 ?_⟩
        exact leadsInto_path hb hroot hpath (hback _ _ hplace) hplace₂

theorem allAllowed_relink (hb : Below root path) (hroot : ∀ n ∈ root, n ≠ dot ∧ n ≠ dotdot)
    (hlinked : path ∈ linked) : AllAllowed root linked (relink fs first path).touched ↔
      LeadsInto root fs first ∧ ∀ a, fs.lstat first = some a → LeadsInto root fs path ∧
        ((fs.lstat path).map (·.ino) ≠ some a.ino → a.kind ≠ .dir → Spare root linked fs (sibling path)) := by
  unfold relink
  cases fs.lstat first with
  | none =>
    rw [allAllowed_use (by simp)]
    simp
  | some a =>
    have hlooked : AllAllowed root linked (touch fs .read first ++ touch fs .read path) ↔
        LeadsInto root fs first ∧ LeadsInto root fs path := by
      rw [allAllowed_append, allAllowed_use (by simp), allAllowed_use (by simp)]
    simp only [Option.some.injEq, forall_eq']
    split
    · rename_i hsame
      rw [hlooked]
      simp [hsame]
    rename_i hother
    split
    · rename_i hdir
      rw [hlooked]
      simp [hdir]
    rename_i hdir
    rw [allAllowed_append, hlooked]
    constructor
    · rintro ⟨⟨hf, hp⟩, hvia⟩
      exact ⟨hf, hp, fun _ _ => (allAllowed_relinkVia hb hroot hlinked hf hp).1 hvia⟩
    · rintro ⟨hf, hp, hspare⟩
      exact ⟨⟨hf, hp⟩, (allAllowed_relinkVia hb hroot hlinked hf hp).2 (hspare hother hdir)⟩

end Call

theorem Root.plain (root : Root) : ∀ n ∈ root.path, n ≠ dot ∧ n ≠ dotdot :=
  fun n hn => ⟨(root.named n hn).ne_dot, (root.named n hn).ne_dotdot⟩

theorem exec_allowed_iff {root : Root} {w : Work} {op : Op} (hop : op.Listed root.path (hardLinked root.path recs)) :
    AllAllowed root.path (hardLinked root.path recs) (op.exec w.fs).touched ↔
      Guarded root.path (hardLinked root.path recs) w op := by
  cases op with
  | escape => exact iff_of_true (fun t ht => nomatch ht) trivial
  | relink first path => exact allAllowed_relink (below_of_hardLinked hop.2) root.plain hop.2
  | lsetxattr path name value => exact allAllowed_changed _
  | utimes path ns => exact allAllowed_changed _

theorem trace_allowed_iff {root : Root} {ops : List Op} (w : Work)
    (hops : ∀ op ∈ ops, op.Listed root.path (hardLinked root.path recs)) :
    AllAllowed root.path (hardLinked root.path recs) (run Work.step w ops).trace ↔
      AllAllowed root.path (hardLinked root.path recs) w.trace ∧
        Along Work.step (Guarded root.path (hardLinked root.path recs)) w ops := by
  induction ops generalizing w with
  | nil => exact (and_iff_left trivial).symm
  | cons op ops ih =>
    have hstep : AllAllowed root.path (hardLinked root.path recs) (w.step op).trace ↔
        AllAllowed root.path (hardLinked root.path recs) w.trace ∧
          Guarded root.path (hardLinked root.path recs) w op := by
      rw [← exec_allowed_iff (hops op mem_cons_self)]
      exact allAllowed_append
    rw [run_cons, along_cons, ih (w.step op) fun op h => hops op (mem_cons_of_mem _ h), hstep, and_assoc]

/-- Apply stays inside the root exactly when each call, as it is made, is guarded. -/
theorem confined_iff (root : Root) (fs : Fs) (recs : List Record) : Confined root fs recs ↔
    Along Work.step (Guarded root.path (hardLinked root.path recs)) (start fs recs) (program root.path recs) := by
  have h := trace_allowed_iff (start fs recs) (program_listed root.path recs)
  exact h.trans (and_iff_right fun t ht => nomatch ht)

def linkedOut : Fs where
  entries := [([ascii "staging"], ⟨1, .dir⟩), ([ascii "staging", ascii "conf"], ⟨2, .symlink (ascii "/etc")⟩),
    ([ascii "etc"], ⟨3, .dir⟩), ([ascii "etc", ascii "shadow"], ⟨4, .file⟩)]
  attr := fun _ => ⟨[], 0⟩
  now := 0

/-- The record of a path behind the link sets an attribute of a file outside the root. -/
theorem attribute_set_outside :
    ¬ Confined staging linkedOut [⟨ascii "conf/shadow", [(ascii "user.note", ascii "x")], [], none⟩] := by
  intro h
  have hout := h ⟨.change, [ascii "staging", ascii "conf", ascii "shadow"], [ascii "etc", ascii "shadow"]⟩ (by decide)
  exact absurd hout.1 (by decide)

end Dbr2.Fsmeta
