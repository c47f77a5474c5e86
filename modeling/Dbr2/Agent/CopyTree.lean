import Dbr2.Lib.Act
import Dbr2.Lib.FileTree
import Dbr2.Lib.PathParts
import Mathlib.Logic.Function.Basic

/-! Copying a directory out of a container (`stageDir`, `writeSpool` and `copyTree` of
`internal/agent/dump.go`).

The container chooses the names and kinds of the entries, and any call may fail. The stage is a directory
that MkdirTemp has made, in which only this code writes: nothing in it is a link, and a place is told by the
parts of its path. An entry that is accepted has its place at or below that of the source's base name; what
stands between it and the stage is there already (`Below`). -/
namespace Dbr2.CopyTree
open Lib Lib.GoPath List

abbrev Content := List UInt8

inductive Typeflag
  | reg
  | dir
  | other

/-- `h.Size` is the length of the content. -/
structure Header where
  name : Text
  typeflag : Typeflag
  content : Content

inductive Err
  | copyOut
  | next
  | unexpected (name : Text)
  | notRegular (name : Text)
  | os

structure Copy where
  fs : List Text → Option (Entry Content)
  n : Nat
  size : Nat

/-- A call succeeds, does nothing, or fails after it has written some bytes. -/
inductive Draw
  | ok
  | refused
  | cut (written : Nat)
  deriving DecidableEq, Inhabited

abbrev Prog := Act Draw Copy Err

def Copy.set (s : Copy) (p : List Text) (e : Entry Content) : Copy := {s with fs := Function.update s.fs p (some e)}

def mkdir (p : List Text) : Prog Unit := Act.prim fun d s =>
  match s.fs p with
  | some .dir => (.ok (), s)
  | some (.file _) => (.err .os, s)
  | none => if d = .ok then (.ok (), s.set p .dir) else (.err .os, s)

/-- `os.MkdirAll`, from the root down. -/
def mkdirAll (p : Text) : Prog Unit := Act.each mkdir (parts p).inits

/-- With O_EXCL; what is read for the file may end early too. -/
def writeSpool (dst : Text) (content : Content) : Prog Unit := Act.prim fun d s =>
  if s.fs (parts dst) = none ∧ s.fs (parts dst).dropLast = some .dir then
    match d with
    | .ok => (.ok (), s.set (parts dst) (.file content))
    | .refused => (.err .os, s)
    | .cut k => (.err .os, s.set (parts dst) (.file (content.take k)))
  else (.err .os, s)

def copyEntry (top stage : Text) (h : Header) : Prog Unit :=
  let name := clean (trimPrefix h.name ['.', '/'])
  if name ≠ top ∧ hasPrefix name (top ++ ['/']) = false ∨ ['.', '.'] <:+: name then Act.throw (.unexpected h.name)
  else
    let dst := join stage name
    match h.typeflag with
    | .dir => mkdirAll dst
    | .reg => do
      mkdirAll (dir dst)
      writeSpool dst h.content
      Act.modify fun s => {s with n := s.n + 1, size := s.size + h.content.length}
    | .other => Act.throw (.notRegular h.name)

/-- The archive has these entries, and its end or an error of the reader after them; or there is none. -/
def copyTree (srcPath stage : Text) : Option (List Header × Bool) → Prog (Nat × Nat)
  | none => Act.throw .copyOut
  | some (entries, eof) => do
    Act.each (copyEntry (base srcPath) stage) entries
    if eof then do
      let s ← Act.get
      pure (s.n, s.size)
    else Act.throw .next

variable {d name top nm srcPath : Text} {t : FileTree Text Content} {place p q : List Text} {s : Copy}

theorem elems_base (p : Text) : (elems (base p)).length ≤ 1 := by
  unfold base
  dsimp only
  split
  · decide
  split
  · decide
  · rename_i hb
    rw [elems_of_no_slash hb (slash_not_mem_rtakeWhile _)]
    exact Nat.le_refl 1

theorem elems_accepted (h : ¬ (name ≠ top ∧ hasPrefix name (top ++ ['/']) = false ∨ ['.', '.'] <:+: name)) :
    ['.', '.'] ∉ elems name ∧ ∃ rest, elems name = elems top ++ rest := by
  obtain ⟨hname, hdots⟩ := not_or.1 h
  refine ⟨fun hm => hdots (mem_elems hm).2.2, ?_⟩
  by_cases he : name = top
  · exact ⟨[], by rw [he, append_nil]⟩
  · have hp : hasPrefix name (top ++ ['/']) = true := by
      cases hp : hasPrefix name (top ++ ['/']) with
      | true => rfl
      | false => exact absurd ⟨he, hp⟩ hname
    obtain ⟨rest, rfl⟩ := exists_of_hasPrefix_slash hp
    exact ⟨elems rest, elems_append_slash top rest⟩

theorem parts_stage (hd : d ≠ []) (hnm : Plain nm) : parts (inDir d nm) = parts d ++ [nm] := by
  rw [parts, rooted_inDir hd, elems_inDir hnm.ne_nil hnm.no_slash, walk_concat, push_plain hnm, reverse_cons]
  rfl

theorem parts_in (hd : d ≠ []) (h : ['.', '.'] ∉ elems name) :
    parts (join d name) = parts d ++ (elems name).filter (· ≠ ['.']) := by
  rw [parts_join hd, walk, foldl_push h, reverse_append, reverse_reverse, reverse_reverse]

/-- What is missing on the way to `p` is at or below the place. -/
def Below (t : FileTree Text Content) (place p : List Text) : Prop := ∀ q, q <+: p → t.get q = none → place <+: q

theorem Below.of_prefix (h : Below t place p) (hq : q <+: p) : Below t place q :=
  fun r hr => h r (hr.trans hq)

theorem below_accepted (hd : d ≠ []) (hnm : Plain nm) (hstage : t.get (parts (inDir d nm)) = some .dir)
    (h : ¬ (name ≠ base srcPath ∧ hasPrefix name (base srcPath ++ ['/']) = false ∨ ['.', '.'] <:+: name)) :
    Below t (parts (join (inDir d nm) (base srcPath))) (parts (join (inDir d nm) name)) ∧
    parts (dir (join (inDir d nm) name)) <+: parts (join (inDir d nm) name) := by
  have hne : inDir d nm ≠ [] := by
    unfold inDir
    split <;> simp [hd]
  obtain ⟨hdots, rest, hrest⟩ := elems_accepted h
  have hparts := parts_in hne hdots
  constructor
  · have hbase : ['.', '.'] ∉ elems (base srcPath) := fun hm => hdots (hrest ▸ mem_append_left _ hm)
    have htop := parts_in hne hbase
    have hlen := Nat.le_trans (length_filter_le (· ≠ ['.']) _) (elems_base srcPath)
    rw [hrest, filter_append, ← append_assoc, ← htop] at hparts
    intro q hq hnone
    rw [hparts] at hq
    rcases List.prefix_or_prefix_of_prefix (prefix_append _ _) hq with hplace | hqp
    · exact hplace
    by_cases hlt : q.length < (parts (join (inDir d nm) (base srcPath))).length
    · -- A place above is the stage or above it, and so it is there.
      rw [htop] at hqp hlt
      rw [length_append] at hlt
      obtain ⟨r, hr⟩ : q <+: parts (inDir d nm) :=
        prefix_of_prefix_length_le hqp (prefix_append _ _) (by omega)
      have habsent := congrFun (FileTree.view_of_get_none hnone) r
      rw [FileTree.view, hr, hstage] at habsent
      cases habsent
    · rw [hqp.eq_of_length_le (Nat.le_of_not_lt hlt)]
  · have hplain : ∀ e ∈ nm :: (elems name).filter (· ≠ ['.']), Plain e := by
      intro e he
      obtain rfl | he := mem_cons.1 he
      · exact hnm
      · obtain ⟨hmem, hdot⟩ := mem_filter.1 he
        exact ⟨(mem_elems hmem).1, (mem_elems hmem).2.1, by simpa using hdot, fun h => hdots (h ▸ hmem)⟩
    rw [parts_stage hd hnm, append_assoc, singleton_append] at hparts
    obtain ⟨init, x, hx⟩ := (eq_nil_or_concat' (nm :: (elems name).filter (· ≠ ['.']))).resolve_left (by simp)
    rw [hx, ← append_assoc] at hparts
    have hdir := (clean_split (clean_join hne name) hparts (hplain x (by rw [hx]; simp))).2.1
    rw [hdir, hparts]
    exact prefix_append _ _

/-- Nothing changed but what is new, which is at or below the place. -/
def Frame (t : FileTree Text Content) (place : List Text) (s : Copy) : Prop :=
  ∀ p, s.fs p = t.get p ∨ t.get p = none ∧ place <+: p

/-- The regular files at and below the place. -/
structure Lists (place : List Text) (s : Copy) (files : List (List Text × Content)) : Prop where
  nodup : (files.map Prod.fst).Nodup
  mem : ∀ p c, (p, c) ∈ files ↔ place <+: p ∧ s.fs p = some (.file c)

def Counted (place : List Text) (s : Copy) : Prop :=
  ∃ files, Lists place s files ∧ s.n = files.length ∧ s.size = (files.flatMap Prod.snd).length

def Inv (t : FileTree Text Content) (place : List Text) (s : Copy) : Prop :=
  Frame t place s ∧ (t.get place = none → Counted place s)

theorem Frame.set (h : Frame t place s) (hp : s.fs p = none) (hb : Below t place p) (e : Entry Content) :
    Frame t place (s.set p e) ∧ place <+: p := by
  have hnone : t.get p = none := by
    rcases h p with he | he
    · exact he.symm.trans hp
    · exact he.1
  have hplace := hb p (prefix_refl p) hnone
  refine ⟨fun q => ?_, hplace⟩
  by_cases hq : q = p
  · exact .inr ⟨hq ▸ hnone, hq ▸ hplace⟩
  · have hsame : (s.set p e).fs q = s.fs q := Function.update_of_ne hq ..
    rw [hsame]
    exact h q

theorem set_fs (s : Copy) (p q : List Text) (e : Entry Content) : (s.set p e).fs q = if q = p then some e else s.fs q :=
  Function.update_apply ..

theorem mkdir_inv (hb : Below t place p) :
    Triple (Inv t place) (mkdir p) (fun _ => Inv t place) (fun _ => Frame t place) (Frame t place) := by
  refine .prim fun draw s h => ?_
  split
  · exact h
  · exact h.1
  rename_i hp
  split
  · obtain ⟨hframe, -⟩ := h.1.set hp hb .dir
    refine ⟨hframe, fun hnone => ?_⟩
    obtain ⟨files, hfiles, hn⟩ := h.2 hnone
    refine ⟨files, ⟨hfiles.nodup, fun q c => ?_⟩, hn⟩
    rw [hfiles.mem, set_fs]
    split
    · rename_i hq
      rw [hq, hp]
      simp
    · rfl
  · exact h.1

theorem mkdirAll_inv {dst : Text} (hb : Below t place (parts dst)) :
    Triple (Inv t place) (mkdirAll dst) (fun _ => Inv t place) (fun _ => Frame t place) (Frame t place) :=
  Triple.each_keeps fun q hq => mkdir_inv (hb.of_prefix ((mem_inits q _).1 hq))

theorem writeSpool_inv {dst : Text} (hb : Below t place (parts dst)) (content : Content) :
    Triple (Inv t place) (writeSpool dst content)
      (fun _ s => Inv t place {s with n := s.n + 1, size := s.size + content.length})
      (fun _ => Frame t place) (Frame t place) := by
  refine .prim fun draw s h => ?_
  split
  · rename_i hfree
    cases draw with
    | ok =>
      obtain ⟨hframe, hplace⟩ := h.1.set hfree.1 hb (.file content)
      refine ⟨hframe, fun hnone => ?_⟩
      obtain ⟨files, hfiles, hn, hsize⟩ := h.2 hnone
      refine ⟨(parts dst, content) :: files, ⟨?_, fun q c => ?_⟩, by simp [Copy.set, hn], ?_⟩
      · refine nodup_cons.2 ⟨fun hmem => ?_, hfiles.nodup⟩
        obtain ⟨⟨q, c⟩, hfile, rfl⟩ := mem_map.1 hmem
        have hthere := ((hfiles.mem _ _).1 hfile).2
        rw [hfree.1] at hthere
        cases hthere
      · show _ ↔ place <+: q ∧ (s.set (parts dst) (.file content)).fs q = _
        rw [mem_cons, hfiles.mem, set_fs, Prod.mk.injEq]
        by_cases hq : q = parts dst
        · simp [hq, hfree.1, hplace, eq_comm]
        · simp [hq]
      · simp [Copy.set, hsize, Nat.add_comm]
    | refused => exact h.1
    | cut k => exact (h.1.set hfree.1 hb _).1
  · exact h.1

/-- One header of the archive stays below its destination. -/
theorem copyEntry_inv (hd : d ≠ []) (hnm : Plain nm) (hstage : t.get (parts (inDir d nm)) = some .dir) (h : Header) :
    Triple (Inv t (parts (join (inDir d nm) (base srcPath)))) (copyEntry (base srcPath) (inDir d nm) h)
      (fun _ => Inv t (parts (join (inDir d nm) (base srcPath))))
      (fun _ => Frame t (parts (join (inDir d nm) (base srcPath))))
      (Frame t (parts (join (inDir d nm) (base srcPath)))) := by
  unfold copyEntry
  dsimp only
  split
  · exact .throw fun _ hs => hs.1
  rename_i hname
  obtain ⟨hb, hdir⟩ := below_accepted hd hnm hstage hname
  split
  · exact mkdirAll_inv hb
  · refine (mkdirAll_inv (hb.of_prefix hdir)).bind fun _ => ?_
    exact (writeSpool_inv hb _).bind fun _ => .modify fun _ hs => hs
  · exact .throw fun _ hs => hs.1

/-- Whatever the archive has and whichever call fails, only things at and below the base name are created, and
what was there is as it was. If there was nothing, the numbers of a success are those of the regular files
there. -/
theorem copyTree_confined (t : FileTree Text Content) (srcPath d nm : Text) (hd : d ≠ []) (hnm : Plain nm)
    (hstage : t.get (parts (inDir d nm)) = some .dir) (archive : Option (List Header × Bool)) (draws : List Draw) :
    let place := parts (join (inDir d nm) (base srcPath))
    let r := copyTree srcPath (inDir d nm) archive draws ⟨t.get, 0, 0⟩
    Frame t place r.2.2 ∧
    (t.get place = none → ∀ n size, r.1 = .ok (n, size) →
      ∃ files, Lists place r.2.2 files ∧ n = files.length ∧ size = (files.flatMap Prod.snd).length) := by
  intro place r
  have hrun : Triple (Inv t place) (copyTree srcPath (inDir d nm) archive)
      (fun a s => Frame t place s ∧ (t.get place = none → Counted place s) ∧ a = (s.n, s.size))
      (fun _ => Frame t place) (Frame t place) := by
    cases archive with
    | none => exact .throw fun _ hs => hs.1
    | some archive =>
      unfold copyTree
      refine (Triple.each_keeps fun h _ => copyEntry_inv hd hnm hstage h).bind fun _ => ?_
      split
      · refine (Triple.get (R := fun a s => Inv t place s ∧ a = s) fun _ hs => ⟨hs, rfl⟩).bind fun a => ?_
        refine .pure fun s hs => ?_
        obtain ⟨hs, rfl⟩ := hs
        exact ⟨hs.1, hs.2, rfl⟩
      · exact .throw fun _ hs => hs.1
  have hstart : Inv t place ⟨t.get, 0, 0⟩ := by
    refine ⟨fun _ => .inl rfl, fun hnone => ⟨[], ⟨nodup_nil, fun p c => ?_⟩, rfl, rfl⟩⟩
    simp only [not_mem_nil, false_iff, not_and]
    rintro ⟨q, rfl⟩ hfile
    have habsent := congrFun (FileTree.view_of_get_none hnone) q
    exact Option.some_ne_none _ (hfile.symm.trans habsent)
  refine ⟨(hrun.post fun _ _ hs => hs.1).final hstart draws, fun hnone n size hr => ?_⟩
  have hend := hrun draws _ hstart
  rw [show (copyTree srcPath (inDir d nm) archive draws ⟨t.get, 0, 0⟩).1 = .ok (n, size) from hr] at hend
  obtain ⟨-, hcounted, heq⟩ := hend
  cases heq
  exact hcounted hnone

/-- A file of two bytes in a directory is copied to the stage `/s`. -/
theorem copyTree_confined_one :
    let t : FileTree Text Content := .ofEntries [([], .dir), ([['s']], .dir)] (by decide)
    let r := copyTree ['/', 'd'] (inDir ['/'] ['s']) (some ([⟨['d', '/', 'f'], .reg, [1, 2]⟩], true)) [] ⟨t.get, 0, 0⟩
    r.1 = .ok (1, 2) ∧ Frame t [['s'], ['d']] r.2.2 :=
  ⟨rfl, (copyTree_confined _ ['/', 'd'] ['/'] ['s'] (by decide) (by decide) (by decide) _ _).1⟩

end Dbr2.CopyTree
