import Dbr2.Fsmeta.Apply

/-! What `Apply` calls for the records of a tree.

The paths of an inode form a group, and the first in the order of the walk leads it (`Tree.lead`).
From the records `Write` builds, `Apply` links every other path of the group to it, sets the
attributes of every path (`entryOps`), and in the end the time of every directory:
`program_records`. -/
namespace Dbr2.Fsmeta
open Lib Lib.LinkFs List

namespace Tree
variable (t : Tree)

def paths : List Path := t.entries.map Prod.fst

/-- The first path of an inode in the order of the walk. -/
def lead (i : Nat) : Path := ((t.entries.find? fun x => x.2.ino = i).map Prod.fst).getD []

/-- The calls for one path: the link to the first path of its inode, then the attributes. -/
def entryOps (root : Path) (x : Path × Entry) : List Op :=
  (if t.lead x.2.ino = x.1 then [] else [Op.relink (root ++ t.lead x.2.ino) (root ++ x.1)]) ++
    (t.attr x.2.ino).xattrs.map fun a => Op.lsetxattr (root ++ x.1) a.1 a.2

variable {t} {x y : Path × Entry} {done rest : List (Path × Entry)}

theorem eq_of_path (hx : x ∈ t.entries) (hy : y ∈ t.entries) (h : x.1 = y.1) : x = y :=
  inj_on_of_nodup_map t.nodup hx hy h

theorem mem_of_split (h : t.entries = done ++ x :: rest) : x ∈ t.entries := by
  rw [h]
  simp

theorem exists_lead (hx : x ∈ t.entries) : ∃ y ∈ t.entries, y.2.ino = x.2.ino ∧ y.1 = t.lead x.2.ino := by
  unfold lead
  cases hf : t.entries.find? fun y => y.2.ino = x.2.ino with
  | none =>
    have := find?_eq_none.1 hf x hx
    simp at this
  | some y => exact ⟨y, mem_of_find?_eq_some hf, by simpa using find?_some hf, rfl⟩

theorem lead_of_dir (hx : x ∈ t.entries) (hdir : x.2.kind = .dir) : t.lead x.2.ino = x.1 := by
  obtain ⟨y, hy, hino, hlead⟩ := exists_lead hx
  rw [← hlead]
  exact (t.single x hx y hy hino.symm hdir).symm

theorem nlink_of_lead_ne (hx : x ∈ t.entries) (h : t.lead x.2.ino ≠ x.1) : 1 < t.nlink x.2.ino := by
  obtain ⟨y, hy, hino, hlead⟩ := exists_lead hx
  have hne : y ≠ x := by
    rintro rfl
    exact h hlead.symm
  obtain ⟨pre, post, hsplit⟩ := append_of_mem hx
  have hcount := t.links x.2.ino
  have hmem : y ∈ pre ++ post := by
    rw [hsplit] at hy
    simp only [mem_append, mem_cons] at hy ⊢
    rcases hy with hy | rfl | hy
    · exact .inl hy
    · exact absurd rfl hne
    · exact .inr hy
  have hpos : 0 < (pre ++ post).countP fun z => z.2.ino = x.2.ino :=
    countP_pos_iff.2 ⟨y, hmem, by simpa using hino⟩
  rw [hsplit, countP_append, countP_cons_of_pos (by simp)] at hcount
  rw [countP_append] at hpos
  omega

/-- A path of the inode is among those the walk has passed. -/
def Met (done : List (Path × Entry)) (i : Nat) : Bool := done.any fun y => y.2.ino = i

/-- A path leads its inode when the walk meets the inode there first. -/
theorem lead_eq_iff (h : t.entries = done ++ x :: rest) : t.lead x.2.ino = x.1 ↔ Met done x.2.ino = false := by
  have hx := mem_of_split h
  have hnot : ∀ y ∈ done, y.1 ≠ x.1 := by
    intro y hy heq
    have hnd := t.nodup
    rw [h, map_append, map_cons] at hnd
    exact (nodup_append.1 hnd).2.2 y.1 (mem_map_of_mem hy) x.1 mem_cons_self heq
  have hfind : t.entries.find? (fun y => y.2.ino = x.2.ino) =
      ((done.find? fun y => y.2.ino = x.2.ino).or (some x)) := by
    rw [h, find?_append, find?_cons_of_pos (by simp)]
  unfold lead Met
  rw [hfind]
  cases hd : done.find? fun y => y.2.ino = x.2.ino with
  | none =>
    refine iff_of_true rfl ?_
    rw [any_eq_false]
    intro y hy
    exact find?_eq_none.1 hd y hy
  | some y =>
    have hy := mem_of_find?_eq_some hd
    refine iff_of_false (hnot y hy) ?_
    have hino := find?_some hd
    rw [Bool.not_eq_false, any_eq_true]
    exact ⟨y, hy, hino⟩

/-- Of the inodes with several paths, `groups` has those met in `done`, each with its value. -/
def Grouped (t : Tree) {β : Type} (val : Nat → β) (done : List (Path × Entry)) (groups : List (Bytes × β)) : Prop :=
  ∀ i, 1 < t.nlink i → (∀ y ∈ t.entries, y.2.ino = i → y.2.kind ≠ .dir) →
    groups.lookup (group t.dev i) = if Met done i then some (val i) else none

theorem grouped_nil {β : Type} (val : Nat → β) : Grouped t val [] [] := fun _ _ _ => rfl

theorem met_concat (i : Nat) : Met (done ++ [x]) i = (Met done i || decide (x.2.ino = i)) := by
  simp [Met, any_append]

theorem lead_of_no_group (hx : x ∈ t.entries) (h : (t.recordOf x).h = []) : t.lead x.2.ino = x.1 := by
  by_contra hne
  have hn := nlink_of_lead_ne hx hne
  have hk : x.2.kind ≠ .dir := fun hd => hne (lead_of_dir hx hd)
  unfold recordOf at h
  rw [if_pos ⟨hk, hn⟩] at h
  exact group_ne_nil _ _ h

theorem recordOf_h_cases (x : Path × Entry) : (t.recordOf x).h = [] ∨
    (t.recordOf x).h = group t.dev x.2.ino ∧ x.2.kind ≠ .dir ∧ 1 < t.nlink x.2.ino := by
  unfold recordOf
  split
  · rename_i h
    exact .inr ⟨rfl, h⟩
  · exact .inl rfl

theorem grouped_enter {β : Type} {val : Nat → β} {groups : List (Bytes × β)} (hg : Grouped t val done groups) :
    Grouped t val (done ++ [x]) ((group t.dev x.2.ino, val x.2.ino) :: groups) := by
  intro i hn hk
  rw [lookup_cons, met_concat]
  by_cases hi : i = x.2.ino
  · subst hi
    simp
  have hb : (group t.dev i == group t.dev x.2.ino) = false := by
    rw [beq_eq_false_iff_ne]
    exact fun heq => hi (group_inj heq)
  rw [hb, decide_eq_false (Ne.symm hi), Bool.or_false]
  exact hg i hn hk

section Enter
variable {β : Type} {val : Nat → β} {groups : List (Bytes × β)} (h : t.entries = done ++ x :: rest)
  (hg : Grouped t val done groups)
include h hg

theorem grouped_skip (hh : (t.recordOf x).h = []) : Grouped t val (done ++ [x]) groups := by
  intro i hn hk
  have hx := mem_of_split h
  have hne : x.2.ino ≠ i := by
    rintro rfl
    unfold recordOf at hh
    rw [if_pos ⟨hk x hx rfl, hn⟩] at hh
    exact group_ne_nil _ _ hh
  rw [hg i hn hk, met_concat, decide_eq_false hne, Bool.or_false]

theorem grouped_keep (hlead : t.lead x.2.ino ≠ x.1) : Grouped t val (done ++ [x]) groups := by
  intro i hn hk
  rw [hg i hn hk, met_concat]
  by_cases hi : x.2.ino = i
  · subst hi
    have hmet : Met done x.2.ino = true := by
      rw [← Bool.not_eq_false]
      exact fun hf => hlead ((lead_eq_iff h).2 hf)
    rw [hmet, Bool.true_or]
  · rw [decide_eq_false hi, Bool.or_false]

theorem lookup_group (hk : x.2.kind ≠ .dir) (hn : 1 < t.nlink x.2.ino) :
    groups.lookup (group t.dev x.2.ino) = if t.lead x.2.ino = x.1 then none else some (val x.2.ino) := by
  have hx := mem_of_split h
  have hkind : ∀ y ∈ t.entries, y.2.ino = x.2.ino → y.2.kind ≠ .dir := by
    intro y hy hino
    rw [t.kinds y hy x hx hino]
    exact hk
  rw [hg _ hn hkind]
  by_cases hlead : t.lead x.2.ino = x.1
  · rw [if_pos hlead, (lead_eq_iff h).1 hlead, if_neg (by simp)]
  have hmet : Met done x.2.ino = true := by
    rw [← Bool.not_eq_false]
    exact fun hf => hlead ((lead_eq_iff h).2 hf)
  rw [if_neg hlead, hmet, if_pos rfl]

end Enter

theorem enter_recordOf {root : Path} {groups : List (Bytes × Path)} (h : t.entries = done ++ x :: rest)
    (hg : Grouped t (fun i => root ++ t.lead i) done groups) : ∃ groups',
      enter groups (t.recordOf x).h (root ++ x.1) =
        (groups', if t.lead x.2.ino = x.1 then none else some (root ++ t.lead x.2.ino)) ∧
      Grouped t (fun i => root ++ t.lead i) (done ++ [x]) groups' := by
  have hx := mem_of_split h
  unfold enter
  rcases t.recordOf_h_cases x with hh | ⟨hh, hk, hn⟩
  · rw [if_pos hh, if_pos (lead_of_no_group hx hh)]
    exact ⟨groups, rfl, grouped_skip h hg hh⟩
  rw [hh, if_neg (group_ne_nil _ _), lookup_group h hg hk hn]
  by_cases hlead : t.lead x.2.ino = x.1
  · rw [if_pos hlead]
    have hnew := grouped_enter (x := x) hg
    rw [hlead] at hnew
    exact ⟨_, rfl, hnew⟩
  · rw [if_neg hlead]
    exact ⟨groups, rfl, grouped_keep h hg hlead⟩

theorem compare_recordOf {val : Nat → Nat} {groups : List (Bytes × Nat)} (h : t.entries = done ++ x :: rest)
    (hg : Grouped t val done groups) : ∃ groups', compare groups (t.recordOf x).h (val x.2.ino) = (groups', 0) ∧
      Grouped t val (done ++ [x]) groups' := by
  have hx := mem_of_split h
  unfold compare
  rcases t.recordOf_h_cases x with hh | ⟨hh, hk, hn⟩
  · rw [if_pos hh]
    exact ⟨groups, rfl, grouped_skip h hg hh⟩
  rw [hh, if_neg (group_ne_nil _ _), lookup_group h hg hk hn]
  by_cases hlead : t.lead x.2.ino = x.1
  · rw [if_pos hlead]
    exact ⟨_, rfl, grouped_enter hg⟩
  rw [if_neg hlead]
  dsimp only
  rw [if_pos rfl]
  exact ⟨groups, rfl, grouped_keep h hg hlead⟩

theorem recorded_eq_false (h : t.recorded x = false) :
    (t.recordOf x).dm.isSome = false ∧ (t.recordOf x).h = [] ∧ (t.attr x.2.ino).xattrs = [] := by
  unfold recorded at h
  simp only [Bool.or_eq_false_iff, decide_eq_false_iff_not, not_not] at h
  exact ⟨h.1.1, h.1.2, h.2⟩

theorem entryOps_of_not_recorded (root : Path) (hx : x ∈ t.entries) (h : t.recorded x = false) :
    t.entryOps root x = [] ∧ x.2.kind ≠ .dir := by
  obtain ⟨hdm, hh, hattr⟩ := recorded_eq_false h
  unfold entryOps
  rw [if_pos (lead_of_no_group hx hh), hattr]
  refine ⟨rfl, fun hdir => ?_⟩
  unfold recordOf at hdm
  rw [if_pos hdir] at hdm
  cases hdm

/-- The loop of `Apply` from any point of the walk. -/
theorem loop_records {root : Path} {groups : List (Bytes × Path)} (done : List (Path × Entry)) (h : t.entries = done ++ rest)
    (hg : Grouped t (fun i => root ++ t.lead i) done groups) :
    loop root groups ((rest.filter t.recorded).map t.recordOf) = rest.flatMap (t.entryOps root) := by
  induction rest generalizing done groups with
  | nil => rfl
  | cons x rest ih =>
    have hx := mem_of_split h
    have hsplit : t.entries = done ++ [x] ++ rest := by rw [h, append_assoc, singleton_append]
    cases hrec : t.recorded x with
    | false =>
      rw [filter_cons_of_neg (by simp [hrec]), flatMap_cons, (entryOps_of_not_recorded root hx hrec).1,
        nil_append]
      exact ih _ hsplit (grouped_skip h hg (recorded_eq_false hrec).2.1)
    | true =>
      obtain ⟨groups', henter, hg'⟩ := enter_recordOf h hg
      have hpath : localPath root (t.recordOf x).p = some (root ++ x.1) := localPath_relText (t.named x hx)
      rw [filter_cons_of_pos hrec, map_cons, loop, hpath]
      dsimp only
      rw [henter, ih _ hsplit hg', flatMap_cons]
      unfold entryOps
      by_cases hlead : t.lead x.2.ino = x.1
      · rw [if_pos hlead, if_pos hlead]
        rfl
      · rw [if_neg hlead, if_neg hlead]
        rfl

theorem filterMap_dirTime (root : Path) (l : List (Path × Entry)) (hl : ∀ x ∈ l, x ∈ t.entries) :
    ((l.filter t.recorded).map t.recordOf).filterMap (dirTime root) =
      (l.filter (·.2.kind = .dir)).map fun x => (root ++ x.1, nano (t.attr x.2.ino).mtime) := by
  induction l with
  | nil => rfl
  | cons x l ih =>
    have hx := hl x mem_cons_self
    have ih := ih fun y hy => hl y (mem_cons_of_mem _ hy)
    have hpath : localPath root (t.recordOf x).p = some (root ++ x.1) := localPath_relText (t.named x hx)
    by_cases hdir : x.2.kind = .dir
    · have hdm : (t.recordOf x).dm = some (nano (t.attr x.2.ino).mtime) := if_pos hdir
      have hrec : t.recorded x = true := by
        unfold recorded
        rw [hdm]
        rfl
      have htime : dirTime root (t.recordOf x) = some (root ++ x.1, nano (t.attr x.2.ino).mtime) := by
        unfold dirTime
        rw [hpath, hdm]
        rfl
      rw [filter_cons_of_pos hrec, filter_cons_of_pos (by simpa using hdir), map_cons,
        filterMap_cons_some htime, ih, map_cons]
    have hdm : (t.recordOf x).dm = none := if_neg hdir
    have htime : dirTime root (t.recordOf x) = none := by
      unfold dirTime
      rw [hpath, hdm]
      rfl
    have hskip : (x :: l).filter (·.2.kind = .dir) = l.filter (·.2.kind = .dir) :=
      filter_cons_of_neg (by simpa using hdir)
    rw [hskip]
    by_cases hrec : t.recorded x = true
    · rw [filter_cons_of_pos hrec, map_cons, filterMap_cons_none htime, ih]
    · rw [filter_cons_of_neg hrec, ih]

/-- `Apply` on the records that `Write` makes of a tree. -/
theorem program_records (t : Tree) (root : Path) : program root t.records =
    t.entries.flatMap (t.entryOps root) ++ (dirTimes root t.records).map fun d => Op.utimes d.1 d.2 := by
  unfold program records
  rw [loop_records [] rfl (grouped_nil _)]

/-- The times are those of the directories, each with its own. -/
theorem mem_dirTimes {root : Path} {d : Path × Int} : d ∈ dirTimes root t.records ↔
    ∃ x ∈ t.entries, x.2.kind = .dir ∧ d = (root ++ x.1, nano (t.attr x.2.ino).mtime) := by
  unfold dirTimes records
  rw [mem_insertionSort, filterMap_dirTime root t.entries fun _ h => h, mem_map]
  constructor
  · rintro ⟨x, hx, rfl⟩
    obtain ⟨hx, hdir⟩ := mem_filter.1 hx
    exact ⟨x, hx, by simpa using hdir, rfl⟩
  · rintro ⟨x, hx, hdir, rfl⟩
    exact ⟨x, mem_filter.2 ⟨hx, by simpa using hdir⟩, rfl⟩

theorem nodup_dirTimes (t : Tree) (root : Path) : ((dirTimes root t.records).map Prod.fst).Nodup := by
  have hperm := (perm_insertionSort (fun a b : Path × Int => b.1.length ≤ a.1.length)
    (t.records.filterMap (dirTime root))).map Prod.fst
  have hsub : ((t.entries.filter (·.2.kind = .dir)).map Prod.fst).Nodup :=
    (filter_sublist.map Prod.fst).nodup t.nodup
  refine hperm.nodup_iff.2 ?_
  unfold records
  rw [filterMap_dirTime root t.entries fun _ h => h, map_map]
  have hmap : ((t.entries.filter (·.2.kind = .dir)).map Prod.fst).map (root ++ ·) =
      (t.entries.filter (·.2.kind = .dir)).map (Prod.fst ∘ fun x => (root ++ x.1, nano (t.attr x.2.ino).mtime)) := by
    rw [map_map]
    rfl
  rw [← hmap]
  exact hsub.map fun _ _ => append_cancel_left

end Tree

end Dbr2.Fsmeta
