import Dbr2.Fsmeta.Relinking

/-! Applying the records of a tree to a copy of it, entry by entry.

What is to survive a backup and a restore is stated here (`Survives`), and what it needs of the
temporary names (`Tree.Relinkable`): they fit, and where the tree has an entry of that name, it is
one that is linked itself, and later. The calls for an entry either change no entry or put that of
the group's first path in its place (`EntryDone`); an entry whose name was needed for a link is
gone, and it stays away unless its own turn comes later. -/
namespace Dbr2.Fsmeta
open Lib Lib.LinkFs List

/-- The same names and kinds below the root, fresh inodes and no attributes. -/
structure IsCopy (t : Tree) (root : Root) (fs : Fs) : Prop where
  above : ∀ pre, pre ≠ [] → Above pre root.path → fs.IsDir pre
  same : ∀ x ∈ t.entries, fs.kindAt (root.path ++ x.1) = some x.2.kind
  only : ∀ p e, fs.get (root.path ++ p) = some e → p ∈ t.paths
  fresh : ∀ p q d e, fs.get (root.path ++ p) = some d → fs.get (root.path ++ q) = some e → d.ino = e.ino → p = q
  bare : ∀ p e, fs.get (root.path ++ p) = some e → (fs.attr e.ino).xattrs = []

def SamePartition (t : Tree) (root : Root) (fs : Fs) : Prop :=
  ∀ x ∈ t.entries, ∀ y ∈ t.entries, x.2.kind ≠ .dir → y.2.kind ≠ .dir →
    ∃ d e, fs.get (root.path ++ x.1) = some d ∧ fs.get (root.path ++ y.1) = some e ∧
      (d.ino = e.ino ↔ x.2.ino = y.2.ino)

/-- `Apply` and then `Verify` of these records find nothing wrong, and the links are back. -/
def Restores (t : Tree) (root : Root) (fs : Fs) (recs : List Record) : Prop :=
  (apply root fs recs).stats.errors = 0 ∧ verify root (apply root fs recs).fs recs = 0 ∧
    SamePartition t root (apply root fs recs).fs

def Survives (t : Tree) (root : Root) (fs : Fs) : Prop :=
  read t.write = some t.records ∧ Restores t root fs ((read t.write).getD [])

/-- Where a path is linked to the one that leads its group, the temporary name can be a name
and no entry is lost to it: one that has it is linked itself, later. -/
def Tree.Relinkable (t : Tree) : Prop :=
  ∀ pre x post, t.entries = pre ++ x :: post → t.lead x.2.ino ≠ x.1 → (x.1.getLastD []).length ≤ 244 ∧
      ∀ z ∈ t.entries, z.1 = sibling x.1 → z ∈ post ∧ t.lead z.2.ino ≠ z.1

def effect (fs : Fs) (op : Op) : Fs := (op.exec fs).fs

def Succeeds (fs : Fs) (op : Op) : Prop := (op.exec fs).ok = true

/-- The file system of a run, without its trace and statistics. -/
theorem fs_run (w : Work) (ops : List Op) : (run Work.step w ops).fs = run effect w.fs ops := by
  induction ops generalizing w with
  | nil => rfl
  | cons op ops ih => exact ih (w.step op)

theorem along_succeeds (w : Work) (ops : List Op) :
    Along Work.step (fun w op => (op.exec w.fs).ok = true) w ops ↔ Along effect Succeeds w.fs ops := by
  induction ops generalizing w with
  | nil => exact Iff.rfl
  | cons op ops ih => exact and_congr_right fun _ => ih (w.step op)

theorem errors_eq_zero_iff (root : Root) (fs : Fs) (recs : List Record) :
    (apply root fs recs).stats.errors = 0 ↔ Along effect Succeeds fs (program root.path recs) :=
  (errors_run_iff (start fs recs) _).trans (along_succeeds _ _)

def Op.SetsAttr : Op → Prop
  | .lsetxattr _ _ _ => True
  | .utimes _ _ => True
  | _ => False

theorem get_effect (fs : Fs) (op : Op) (h : op.SetsAttr) (p : Path) : (effect fs op).get p = fs.get p := by
  cases op with
  | escape => cases h
  | relink first path => cases h
  | lsetxattr path name value =>
    show (changed fs path (fs.setxattr path name value)).fs.get p = _
    cases hs : fs.setxattr path name value with
    | none => rfl
    | some fs' =>
      obtain ⟨e, -, rfl⟩ := Fs.setxattr_eq_some_iff.1 hs
      rfl
  | utimes path ns =>
    show (changed fs path (fs.utimes path ns)).fs.get p = _
    cases hs : fs.utimes path ns with
    | none => rfl
    | some fs' =>
      obtain ⟨e, -, rfl⟩ := Fs.utimes_eq_some_iff.1 hs
      rfl

theorem get_run (fs : Fs) {ops : List Op} (h : ∀ op ∈ ops, op.SetsAttr) (p : Path) :
    (run effect fs ops).get p = fs.get p := by
  induction ops generalizing fs with
  | nil => rfl
  | cons op ops ih =>
    rw [run_cons, ih _ fun op h' => h op (mem_cons_of_mem _ h'), get_effect fs op (h op mem_cons_self)]

section Run
variable {t : Tree} {root : Root} {x y : Path × Entry} {done post : List (Path × Entry)} {fs fs' : Fs}

/-- What the calls for one entry do to the entries of the file system. -/
def EntryDone (t : Tree) (root : Root) (fs fs' : Fs) (x : Path × Entry) : Prop :=
  if t.lead x.2.ino = x.1 then ∀ a, fs'.get a = fs.get a
  else ∃ e, fs.get (root.path ++ t.lead x.2.ino) = some e ∧ ∀ a, fs'.get a =
    if a = root.path ++ x.1 then some e else if a = root.path ++ sibling x.1 then none else fs.get a

theorem EntryDone.shaped (hd : EntryDone t root fs fs' x) (hs : Shaped t root fs) (hx : x ∈ t.entries) :
    Shaped t root fs' := by
  unfold EntryDone at hd
  split at hd
  · exact hs.of_get_le (fun a e h => (hd a).symm.trans h) fun pre _ => hd pre
  obtain ⟨e, he, hget⟩ := hd
  obtain ⟨y, hy, hino, hlead⟩ := Tree.exists_lead hx
  have hkind : e.kind = x.2.kind := by
    rw [← hlead] at he
    rw [hs.kinds y hy e he, t.kinds y hy x hx hino]
  -- An entry that is not the new one was there before.
  have hold : ∀ p d, p ≠ x.1 → fs'.get (root.path ++ p) = some d → fs.get (root.path ++ p) = some d := by
    intro p d hp h
    rw [hget, if_neg fun heq => hp (append_cancel_left heq)] at h
    split at h
    · cases h
    · exact h
  have hself : fs'.get (root.path ++ x.1) = some e := by rw [hget, if_pos rfl]
  refine ⟨?_, ?_, ?_⟩
  · intro pre hne hpre
    rw [Fs.IsDir, Fs.kindAt, hget, if_neg (ne_of_above_root hpre), if_neg (ne_of_above_root hpre)]
    exact hs.above pre hne hpre
  · intro z hz d h
    by_cases hzx : z.1 = x.1
    · obtain rfl := Tree.eq_of_path hz hx hzx
      rw [hself] at h
      rw [← Option.some.inj h]
      exact hkind
    · exact hs.kinds z hz d (hold z.1 d hzx h)
  · intro p d h
    by_cases hp : p = x.1
    · rw [hp]
      exact mem_map_of_mem hx
    · exact hs.only p d (hold p d hp h)

def home (root : Root) (fs₀ : Fs) (p : Path) : Nat := ((fs₀.get (root.path ++ p)).map (·.ino)).getD 0

/-- What is there has the inode it came with, or that of the path it is linked to. -/
def Homed (t : Tree) (root : Root) (fs₀ : Fs) (done : List (Path × Entry)) (fs : Fs) : Prop :=
  ∀ x ∈ t.entries, ∀ e, fs.get (root.path ++ x.1) = some e →
    e.ino = home root fs₀ (if x ∈ done then t.lead x.2.ino else x.1)

variable {fs₀ : Fs}

theorem lead_lead (hx : x ∈ t.entries) (hy : y ∈ t.entries) (h : y.1 = t.lead x.2.ino) : t.lead y.2.ino = y.1 := by
  obtain ⟨z, hz, hino, hlead⟩ := Tree.exists_lead hx
  obtain rfl := Tree.eq_of_path hy hz (h.trans hlead.symm)
  rw [hino, h]

theorem EntryDone.homed (hd : EntryDone t root fs fs' x) (hh : Homed t root fs₀ done fs) (hx : x ∈ t.entries) :
    Homed t root fs₀ (done ++ [x]) fs' := by
  have hnew : ∀ z, z ≠ x → (z ∈ done ++ [x] ↔ z ∈ done) := by
    intro z hz
    rw [mem_append, mem_singleton, or_iff_left hz]
  have hin : x ∈ done ++ [x] := mem_append_right _ (mem_singleton.2 rfl)
  unfold EntryDone at hd
  intro z hz d h
  split at hd
  · rename_i hlead
    rw [hd] at h
    have hzd := hh z hz d h
    by_cases hzx : z = x
    · subst hzx
      rw [if_pos hin, hlead]
      rwa [hlead, ite_self] at hzd
    · rwa [if_congr (hnew z hzx) rfl rfl]
  obtain ⟨e, he, hget⟩ := hd
  rw [hget] at h
  by_cases hzx : z = x
  · subst hzx
    rw [if_pos rfl] at h
    obtain ⟨y, hy, -, hlead⟩ := Tree.exists_lead hz
    rw [← hlead] at he
    have hyd := hh y hy e he
    rw [lead_lead hz hy hlead, ite_self] at hyd
    rw [if_pos hin, ← Option.some.inj h, hyd, hlead]
  rw [if_neg fun heq => hzx (Tree.eq_of_path hz hx (append_cancel_left heq))] at h
  split at h
  · cases h
  · rw [if_congr (hnew z hzx) rfl rfl]
    exact hh z hz d h

theorem not_mem_done (h : t.entries = done ++ x :: post) : x ∉ done := by
  intro hx
  have hnd := t.nodup
  rw [h, map_append, map_cons] at hnd
  exact (nodup_append.1 hnd).2.2 x.1 (mem_map_of_mem hx) x.1 mem_cons_self rfl

theorem IsCopy.exists_get (hc : IsCopy t root fs₀) (hx : x ∈ t.entries) :
    ∃ e, fs₀.get (root.path ++ x.1) = some e ∧ e.kind = x.2.kind ∧ e.ino = home root fs₀ x.1 := by
  obtain ⟨e, he, hk⟩ := Option.map_eq_some_iff.1 (hc.same x hx)
  refine ⟨e, he, hk, ?_⟩
  unfold home
  rw [he]
  rfl

theorem IsCopy.home_inj (hc : IsCopy t root fs₀) (hx : x ∈ t.entries) (hy : y ∈ t.entries)
    (h : home root fs₀ x.1 = home root fs₀ y.1) : x.1 = y.1 := by
  obtain ⟨d, hd, -, hdi⟩ := hc.exists_get hx
  obtain ⟨e, he, -, hei⟩ := hc.exists_get hy
  exact hc.fresh x.1 y.1 d e hd he (by rw [hdi, hei, h])

theorem IsCopy.shaped (hc : IsCopy t root fs₀) : Shaped t root fs₀ where
  above := hc.above
  kinds x hx e he := by
    obtain ⟨d, hd, hk, -⟩ := hc.exists_get hx
    rw [hd] at he
    rw [← Option.some.inj he]
    exact hk
  only := hc.only

theorem homed_nil (t : Tree) (root : Root) (fs₀ : Fs) : Homed t root fs₀ [] fs₀ := by
  intro x _ e he
  rw [if_neg not_mem_nil, home, he]
  rfl

theorem Homed.ino_ne (hc : IsCopy t root fs₀) (hh : Homed t root fs₀ done fs) (hx : x ∈ t.entries)
    (hdone : x ∉ done) (hlead : t.lead x.2.ino ≠ x.1) {e : Entry}
    (he : fs.get (root.path ++ t.lead x.2.ino) = some e) :
    (fs.get (root.path ++ x.1)).map (·.ino) ≠ some e.ino := by
  intro h
  obtain ⟨d, hd, hde⟩ := Option.map_eq_some_iff.1 h
  obtain ⟨y, hy, -, hy'⟩ := Tree.exists_lead hx
  rw [← hy'] at he
  have hdi := hh x hx d hd
  have hei := hh y hy e he
  rw [if_neg hdone] at hdi
  rw [lead_lead hx hy hy', ite_self] at hei
  exact hlead (by rw [← hy', hc.home_inj hx hy (by rw [← hdi, ← hei, hde])])

theorem setsAttr_xattrs (path : Path) (l : List (Bytes × Bytes)) :
    ∀ op ∈ l.map (fun a => Op.lsetxattr path a.1 a.2), op.SetsAttr := by
  intro op hop
  obtain ⟨a, -, rfl⟩ := mem_map.1 hop
  trivial

theorem entryOps_of_lead (hlead : t.lead x.2.ino = x.1) : t.entryOps root.path x =
    (t.attr x.2.ino).xattrs.map fun a => Op.lsetxattr (root.path ++ x.1) a.1 a.2 := by
  unfold Tree.entryOps
  rw [if_pos hlead]
  rfl

theorem entryOps_of_relinked (hlead : t.lead x.2.ino ≠ x.1) : t.entryOps root.path x =
    Op.relink (root.path ++ t.lead x.2.ino) (root.path ++ x.1) ::
      (t.attr x.2.ino).xattrs.map fun a => Op.lsetxattr (root.path ++ x.1) a.1 a.2 := by
  unfold Tree.entryOps
  rw [if_neg hlead]
  rfl

theorem kind_of_relinked (hx : x ∈ t.entries) (hlead : t.lead x.2.ino ≠ x.1) : x.2.kind ≠ .dir :=
  fun hd => hlead (Tree.lead_of_dir hx hd)

theorem entryDone_of_succeeds (hc : IsCopy t root fs₀) (hs : Shaped t root fs) (hh : Homed t root fs₀ done fs)
    (h : t.entries = done ++ x :: post) (hok : Along effect Succeeds fs (t.entryOps root.path x)) :
    EntryDone t root fs (run effect fs (t.entryOps root.path x)) x ∧
      (t.lead x.2.ino ≠ x.1 → fits (linkPrefix ++ x.1.getLastD []) = true) := by
  have hx := Tree.mem_of_split h
  unfold EntryDone
  by_cases hlead : t.lead x.2.ino = x.1
  · rw [if_pos hlead, entryOps_of_lead hlead]
    exact ⟨fun a => get_run _ (setsAttr_xattrs _ _) a, fun hne => absurd hlead hne⟩
  rw [if_neg hlead]
  rw [entryOps_of_relinked hlead] at hok ⊢
  obtain ⟨y, hy, -, hy'⟩ := Tree.exists_lead hx
  have hrelink := hok.1
  rw [← hy'] at hrelink
  obtain ⟨e, he, hcase⟩ := relink_ok hs hx hy (kind_of_relinked hx hlead) (Tree.ne_nil_of_relinked hx hlead) hrelink
  rw [hy'] at he hcase
  obtain ⟨hmoved, hfits⟩ := hcase.resolve_left (hh.ino_ne hc hx (not_mem_done h) hlead he)
  refine ⟨⟨e, he, fun a => ?_⟩, fun _ => hfits⟩
  rw [run_cons, get_run _ (setsAttr_xattrs _ _)]
  exact hmoved.get a

theorem EntryDone.lost {q : Path} (hd : EntryDone t root fs fs' x) (hq : x.1 = q → t.lead x.2.ino = x.1)
    (hlost : fs.get (root.path ++ q) = none) : fs'.get (root.path ++ q) = none := by
  unfold EntryDone at hd
  split at hd
  · rw [hd]
    exact hlost
  rename_i hlead
  obtain ⟨e, -, hget⟩ := hd
  have hne : root.path ++ q ≠ root.path ++ x.1 := fun heq => hlead (hq (append_cancel_left heq).symm)
  rw [hget, if_neg hne]
  split
  · rfl
  · exact hlost

theorem run_entries (hc : IsCopy t root fs₀) (done pre post : List (Path × Entry)) (hs : Shaped t root fs)
    (hh : Homed t root fs₀ done fs) (h : t.entries = done ++ pre ++ post)
    (hok : Along effect Succeeds fs (pre.flatMap (t.entryOps root.path))) :
    let fs' := run effect fs (pre.flatMap (t.entryOps root.path))
    Shaped t root fs' ∧ Homed t root fs₀ (done ++ pre) fs' ∧ ∀ q, (∀ z ∈ pre, z.1 = q → t.lead z.2.ino = z.1) →
      fs.get (root.path ++ q) = none → fs'.get (root.path ++ q) = none := by
  induction pre generalizing done fs with
  | nil => exact ⟨hs, by rwa [append_nil], fun _ _ hlost => hlost⟩
  | cons x pre ih =>
    have hsplit : t.entries = done ++ x :: (pre ++ post) := by rw [h]; simp
    have hx := Tree.mem_of_split hsplit
    rw [flatMap_cons, along_append] at hok
    obtain ⟨hd, -⟩ := entryDone_of_succeeds hc hs hh hsplit hok.1
    obtain ⟨hs', hh', hlost'⟩ := ih (done ++ [x]) (hd.shaped hs hx) (hd.homed hh hx) (by rw [h]; simp) hok.2
    rw [flatMap_cons, run_append]
    refine ⟨hs', ?_, fun q hq hlost => ?_⟩
    · rwa [append_assoc, singleton_append] at hh'
    · exact hlost' q (fun z hz => hq z (mem_cons_of_mem _ hz)) (hd.lost (hq x mem_cons_self) hlost)

theorem setsAttr_utimes (l : List (Path × Int)) : ∀ op ∈ l.map (fun d => Op.utimes d.1 d.2), op.SetsAttr := by
  intro op hop
  obtain ⟨a, -, rfl⟩ := mem_map.1 hop
  trivial

theorem lstat_of_succeeds {l : List (Path × Int)}
    (h : Along effect Succeeds fs (l.map fun d => Op.utimes d.1 d.2)) : ∀ d ∈ l, fs.lstat d.1 ≠ none := by
  induction l generalizing fs with
  | nil =>
    intro d hd
    cases hd
  | cons d l ih =>
    intro d' hd'
    rcases mem_cons.1 hd' with rfl | hd'
    · intro hnone
      have hok : (changed fs d'.1 (fs.utimes d'.1 d'.2)).ok = true := h.1
      unfold Fs.utimes at hok
      rw [hnone] at hok
      cases hok
    · have hrest := ih h.2 d' hd'
      rwa [Fs.lstat_congr fun p => get_effect fs (.utimes d.1 d.2) trivial p] at hrest

theorem length_of_fits {n : Name} (h : fits (linkPrefix ++ n) = true) : n.length ≤ 244 := by
  unfold fits at h
  simp only [Bool.and_eq_true, decide_eq_true_eq] at h
  have hlen := h.1
  rw [length_append, length_linkPrefix] at hlen
  omega

theorem Restores.entries (hc : IsCopy t root fs₀) (h : Restores t root fs₀ t.records) :
    Along effect Succeeds fs₀ (t.entries.flatMap (t.entryOps root.path)) ∧
      ∀ z ∈ t.entries, (run effect fs₀ (t.entries.flatMap (t.entryOps root.path))).get (root.path ++ z.1) ≠ none := by
  obtain ⟨herrors, -, hpart⟩ := h
  have hfs : (apply root fs₀ t.records).fs = run effect fs₀ (program root.path t.records) := fs_run _ _
  rw [errors_eq_zero_iff, Tree.program_records, along_append] at herrors
  rw [hfs, Tree.program_records, run_append] at hpart
  obtain ⟨hentries, htimes⟩ := herrors
  have hs := (run_entries hc [] t.entries [] hc.shaped (homed_nil t root fs₀) (by simp) hentries).1
  refine ⟨hentries, ?_⟩
  intro z hz hnone
  by_cases hdir : z.2.kind = .dir
  · -- Its time could be set.
    have hmem : (root.path ++ z.1, nano (t.attr z.2.ino).mtime) ∈ dirTimes root.path t.records :=
      Tree.mem_dirTimes.2 ⟨z, hz, hdir, rfl⟩
    obtain ⟨e, he⟩ := Option.ne_none_iff_exists'.1 (lstat_of_succeeds htimes _ hmem)
    rw [((hs.lstat_entry hz).1 he).1] at hnone
    cases hnone
  obtain ⟨d, e, hzd, -, -⟩ := hpart z hz z hz hdir hdir
  rw [get_run _ (setsAttr_utimes _), hnone] at hzd
  cases hzd

theorem EntryDone.get_sibling (hd : EntryDone t root fs fs' x) (hx : x ∈ t.entries) (hlead : t.lead x.2.ino ≠ x.1) :
    fs'.get (root.path ++ sibling x.1) = none := by
  unfold EntryDone at hd
  rw [if_neg hlead] at hd
  obtain ⟨e, -, hget⟩ := hd
  have hne : root.path ++ sibling x.1 ≠ root.path ++ x.1 :=
    fun heq => sibling_ne (Tree.ne_nil_of_relinked hx hlead) (append_cancel_left heq)
  rw [hget, if_neg hne, if_pos rfl]

theorem relinkable_of_restores (hc : IsCopy t root fs₀) (h : Restores t root fs₀ t.records) : t.Relinkable := by
  intro pre x post hsplit hlead
  have hx := Tree.mem_of_split hsplit
  obtain ⟨hok, hthere⟩ := h.entries hc
  rw [hsplit, flatMap_append, flatMap_cons, along_append, along_append] at hok
  obtain ⟨hpre, hxok, hpost⟩ := hok
  -- The state before the path is linked, and after it.
  obtain ⟨hs₁, hh₁, -⟩ := run_entries hc [] pre (x :: post) hc.shaped (homed_nil t root fs₀) hsplit hpre
  obtain ⟨hd, hfits⟩ := entryDone_of_succeeds hc hs₁ hh₁ hsplit hxok
  refine ⟨length_of_fits (hfits hlead), ?_⟩
  intro z hz hzs
  by_contra hnot
  have hlater : ∀ z' ∈ post, z'.1 = z.1 → t.lead z'.2.ino = z'.1 := by
    intro z' hz' heq
    obtain rfl := Tree.eq_of_path (by rw [hsplit]; simp [hz']) hz heq
    by_contra hne
    exact hnot ⟨hz', hne⟩
  obtain ⟨-, -, hlost⟩ := run_entries hc (pre ++ [x]) post [] (hd.shaped hs₁ hx) (hd.homed hh₁ hx)
    (by rw [hsplit]; simp) hpost
  have hgone := hthere z hz
  rw [hsplit, flatMap_append, flatMap_cons, run_append, run_append] at hgone
  exact hgone (hlost z.1 hlater (by rw [hzs]; exact hd.get_sibling hx hlead))

end Run

end Dbr2.Fsmeta
