import Dbr2.Fsmeta.EntryRuns

/-! Metadata through a backup and a restore.

Where the temporary names do no harm, every call succeeds: what a link needs is there, and
an entry that has gone for a while is linked again (`Applied`, `run_applied`). The times of
the directories come last, so no link disturbs them. Then `Verify` finds everything, and the
metadata of a tree survives exactly when the recorded paths and attribute names are UTF-8
and the tree is relinkable (`survives_iff`). -/
namespace Dbr2.Fsmeta
open Lib Lib.LinkFs List

section Attributes
variable {fs : Fs}

theorem changed_ok {path : Path} {r : Option Fs} {fs' : Fs} (h : r = some fs') :
    (changed fs path r).ok = true ∧ (changed fs path r).fs = fs' := by
  rw [h]
  exact ⟨rfl, rfl⟩

theorem effect_lsetxattr {path : Path} {e : Entry} (h : fs.lstat path = some e) (name value : Bytes) :
    Succeeds fs (.lsetxattr path name value) ∧ effect fs (.lsetxattr path name value) =
      { fs with attr := Function.update fs.attr e.ino ((fs.attr e.ino).setx name value) } := by
  have hset : fs.setxattr path name value =
      some { fs with attr := Function.update fs.attr e.ino ((fs.attr e.ino).setx name value) } :=
    Fs.setxattr_eq_some_iff.2 ⟨e, h, rfl⟩
  exact changed_ok hset

theorem effect_utimes {path : Path} {e : Entry} (h : fs.lstat path = some e) (ns : Int) :
    Succeeds fs (.utimes path ns) ∧ effect fs (.utimes path ns) =
      { fs with attr := Function.update fs.attr e.ino { fs.attr e.ino with mtime := ns } } := by
  have hset : fs.utimes path ns =
      some { fs with attr := Function.update fs.attr e.ino { fs.attr e.ino with mtime := ns } } :=
    Fs.utimes_eq_some_iff.2 ⟨e, h, rfl⟩
  exact changed_ok hset

theorem run_xattrs {path : Path} {e : Entry} {l : List (Bytes × Bytes)} (h : fs.lstat path = some e)
    (hnd : (l.map Prod.fst).Nodup) :
    Along effect Succeeds fs (l.map fun a => Op.lsetxattr path a.1 a.2) ∧
      (∀ i, i ≠ e.ino → (run effect fs (l.map fun a => Op.lsetxattr path a.1 a.2)).attr i = fs.attr i) ∧
      (∀ k, k ∉ l.map Prod.fst →
        ((run effect fs (l.map fun a => Op.lsetxattr path a.1 a.2)).attr e.ino).xattrs.lookup k =
          (fs.attr e.ino).xattrs.lookup k) ∧
      ∀ a ∈ l, ((run effect fs (l.map fun a => Op.lsetxattr path a.1 a.2)).attr e.ino).xattrs.lookup a.1 =
        some a.2 := by
  induction l generalizing fs with
  | nil => exact ⟨trivial, fun _ _ => rfl, fun _ _ => rfl, fun a ha => nomatch ha⟩
  | cons a l ih =>
    obtain ⟨hok, heff⟩ := effect_lsetxattr h a.1 a.2
    have hstat : (effect fs (.lsetxattr path a.1 a.2)).lstat path = some e := by
      rw [Fs.lstat_congr fun p => get_effect fs (.lsetxattr path a.1 a.2) trivial p]
      exact h
    rw [map_cons, nodup_cons] at hnd
    obtain ⟨hok', hother, hkeep, hset⟩ := ih hstat hnd.2
    have hself : ∀ k, ((effect fs (.lsetxattr path a.1 a.2)).attr e.ino).xattrs.lookup k =
        if k = a.1 then some a.2 else (fs.attr e.ino).xattrs.lookup k := by
      intro k
      rw [heff]
      show (Function.update fs.attr e.ino ((fs.attr e.ino).setx a.1 a.2) e.ino).xattrs.lookup k = _
      rw [Function.update_self, Fs.lookup_setx]
    rw [map_cons, run_cons]
    refine ⟨⟨hok, hok'⟩, ?_, ?_, ?_⟩
    · intro i hi
      rw [hother i hi, heff]
      exact Function.update_of_ne hi _ _
    · intro k hk
      rw [map_cons, mem_cons, not_or] at hk
      rw [hkeep k hk.2, hself, if_neg hk.1]
    · intro b hb
      rcases mem_cons.1 hb with rfl | hb
      · rw [hkeep b.1 hnd.1, hself, if_pos rfl]
      · exact hset b hb

theorem run_utimes (fs : Fs) {l : List (Path × Int)} (hstat : ∀ d ∈ l, ∃ e, fs.lstat d.1 = some e)
    (hnd : l.Pairwise fun d d' => ∀ e e', fs.lstat d.1 = some e → fs.lstat d'.1 = some e' → e.ino ≠ e'.ino) :
    Along effect Succeeds fs (l.map fun d => Op.utimes d.1 d.2) ∧
      (∀ i, ((run effect fs (l.map fun d => Op.utimes d.1 d.2)).attr i).xattrs = (fs.attr i).xattrs) ∧
      (∀ i, (∀ d ∈ l, ∀ e, fs.lstat d.1 = some e → e.ino ≠ i) →
        ((run effect fs (l.map fun d => Op.utimes d.1 d.2)).attr i).mtime = (fs.attr i).mtime) ∧
      ∀ d ∈ l, ∀ e, fs.lstat d.1 = some e →
        ((run effect fs (l.map fun d => Op.utimes d.1 d.2)).attr e.ino).mtime = d.2 := by
  induction l generalizing fs with
  | nil => exact ⟨trivial, fun _ => rfl, fun _ _ => rfl, fun d hd => nomatch hd⟩
  | cons d l ih =>
    obtain ⟨e, he⟩ := hstat d mem_cons_self
    obtain ⟨hok, heff⟩ := effect_utimes he d.2
    have hsame : ∀ p, (effect fs (.utimes d.1 d.2)).lstat p = fs.lstat p :=
      fun p => Fs.lstat_congr (fun p => get_effect fs (.utimes d.1 d.2) trivial p) p
    obtain ⟨hfirst, hpair⟩ := pairwise_cons.1 hnd
    obtain ⟨hok', hx, hkeep, hset⟩ := ih (effect fs (.utimes d.1 d.2))
      (fun d' hd' => by rw [hsame]; exact hstat d' (mem_cons_of_mem _ hd'))
      (by simpa only [hsame] using hpair)
    simp only [hsame] at hkeep hset
    have hself : (effect fs (.utimes d.1 d.2)).attr e.ino = { fs.attr e.ino with mtime := d.2 } := by
      rw [heff]
      exact Function.update_self _ _ _
    have hother : ∀ i, i ≠ e.ino → (effect fs (.utimes d.1 d.2)).attr i = fs.attr i := by
      intro i hi
      rw [heff]
      exact Function.update_of_ne hi _ _
    rw [map_cons, run_cons]
    refine ⟨⟨hok, hok'⟩, ?_, ?_, ?_⟩
    · intro i
      rw [hx]
      by_cases hi : i = e.ino
      · rw [hi, hself]
      · rw [hother i hi]
    · intro i hi
      rw [hkeep i fun d' hd' => hi d' (mem_cons_of_mem _ hd'), hother i (hi d mem_cons_self e he).symm]
    · intro d' hd' e' he'
      rcases mem_cons.1 hd' with rfl | hd'
      · -- The times set later are those of other inodes.
        obtain rfl : e = e' := Option.some.inj (he.symm.trans he')
        rw [hkeep e.ino fun d'' hd'' e'' he'' => (hfirst d'' hd'' e e'' he he'').symm, hself]
      · exact hset d' hd' e' he'

end Attributes

def Present (t : Tree) (root : Root) (done : List (Path × Entry)) (fs : Fs) : Prop :=
  ∀ z ∈ t.entries, fs.get (root.path ++ z.1) = none → z ∉ done ∧ t.lead z.2.ino ≠ z.1

structure Applied (t : Tree) (root : Root) (fs₀ : Fs) (done : List (Path × Entry)) (fs : Fs) : Prop where
  shaped : Shaped t root fs
  homed : Homed t root fs₀ done fs
  present : Present t root done fs
  attrs : ∀ z ∈ done, ∀ a ∈ (t.attr z.2.ino).xattrs,
    (fs.attr (home root fs₀ (t.lead z.2.ino))).xattrs.lookup a.1 = some a.2

section Entries
variable {t : Tree} {root : Root} {fs₀ fs fs' : Fs} {x y : Path × Entry} {done post : List (Path × Entry)}

theorem Present.reach (hp : Present t root done fs) (hx : x ∈ t.entries) : Reach root fs x.1 := by
  intro pre hpre _ hnone
  obtain ⟨d, hd, hdir⟩ := Tree.dir_above (e := x.2) hx hpre
  exact (hp (pre, d) hd hnone).2 (Tree.lead_of_dir hd hdir)

theorem Present.exists_get (hp : Present t root done fs) (hx : x ∈ t.entries)
    (h : x ∈ done ∨ t.lead x.2.ino = x.1) : ∃ e, fs.get (root.path ++ x.1) = some e := by
  apply Option.ne_none_iff_exists'.1
  intro hnone
  obtain ⟨hdone, hlead⟩ := hp x hx hnone
  exact h.elim hdone hlead

theorem fits_of_length {n : Name} (hn : fits n = true) (h : n.length ≤ 244) : fits (linkPrefix ++ n) = true := by
  unfold fits at hn ⊢
  simp only [Bool.and_eq_true, decide_eq_true_eq, Bool.not_eq_true', contains_eq_mem,
    decide_eq_false_iff_not] at hn ⊢
  have hzero : (0 : UInt8) ∉ linkPrefix := by decide
  constructor
  · rw [length_append, length_linkPrefix]
    omega
  · rw [mem_append, not_or]
    exact ⟨hzero, hn.2⟩

theorem fits_getLastD (hx : x ∈ t.entries) (hne : x.1 ≠ []) : fits (x.1.getLastD []) = true := by
  obtain ⟨d, n, hd⟩ := (eq_nil_or_concat' x.1).resolve_left hne
  rw [hd, getLastD_concat]
  exact (t.named x hx n (by rw [hd]; simp)).fits

theorem relink_of_applied (hc : IsCopy t root fs₀) (hr : t.Relinkable) (ha : Applied t root fs₀ done fs)
    (h : t.entries = done ++ x :: post) (hlead : t.lead x.2.ino ≠ x.1) :
    Succeeds fs (.relink (root.path ++ t.lead x.2.ino) (root.path ++ x.1)) ∧
      ∃ e, fs.get (root.path ++ t.lead x.2.ino) = some e ∧
        Moved root fs (effect fs (.relink (root.path ++ t.lead x.2.ino) (root.path ++ x.1))) x.1 e := by
  have hx := Tree.mem_of_split h
  have hne := Tree.ne_nil_of_relinked hx hlead
  obtain ⟨y, hy, hino, hy'⟩ := Tree.exists_lead hx
  have hyl := lead_lead hx hy hy'
  obtain ⟨hlen, hsib⟩ := hr done x post h hlead
  -- The path that leads the group is not linked, so it is there.
  obtain ⟨e, he⟩ := ha.present.exists_get hy (.inr hyl)
  have hys : y.1 ≠ sibling x.1 := fun heq => (hsib y hy heq).2 hyl
  have hfree : fs.kindAt (root.path ++ sibling x.1) ≠ some .dir := by
    intro hk
    obtain ⟨d, hd, hdk⟩ := Option.map_eq_some_iff.1 hk
    obtain ⟨z, hz, hzs⟩ := mem_map.1 (ha.shaped.only _ d hd)
    rw [← hzs] at hd
    exact kind_of_relinked hz (hsib z hz hzs).2 ((ha.shaped.kinds z hz d hd).symm.trans hdk)
  rw [← hy']
  have hready := relink_of_ready ha.shaped hx hy hino (kind_of_relinked hx hlead) hne he (ha.present.reach hy)
    (ha.present.reach hx) (ha.homed.ino_ne hc hx (not_mem_done h) hlead (by rw [← hy']; exact he))
    (fits_of_length (fits_getLastD hx hne) hlen) hys hfree
  exact ⟨hready.1, e, he, hready.2⟩

theorem EntryDone.present (hd : EntryDone t root fs fs' x) (hp : Present t root done fs) (hr : t.Relinkable)
    (h : t.entries = done ++ x :: post) : Present t root (done ++ [x]) fs' := by
  have hnd : (done ++ x :: post).Nodup := by
    rw [← h]
    exact t.nodup.of_map
  have hkeep : ∀ z, z ∉ done → z ≠ x → z ∉ done ++ [x] := by
    intro z hz hzx hmem
    rcases mem_append.1 hmem with hmem | hmem
    · exact hz hmem
    · exact hzx (mem_singleton.1 hmem)
  unfold EntryDone at hd
  intro z hz hnone
  split at hd
  · rename_i hlead
    rw [hd] at hnone
    obtain ⟨hdone, hzl⟩ := hp z hz hnone
    refine ⟨hkeep z hdone ?_, hzl⟩
    rintro rfl
    exact hzl hlead
  rename_i hlead
  obtain ⟨e, -, hget⟩ := hd
  rw [hget] at hnone
  split at hnone
  · cases hnone
  rename_i hzx
  have hzx' : z ≠ x := by
    rintro rfl
    exact hzx rfl
  split at hnone
  · -- Its name was needed; it is linked later.
    rename_i hzs
    obtain ⟨hpost, hzl⟩ := (hr done x post h hlead).2 z hz (append_cancel_left hzs)
    have hdone : z ∉ done := fun hm =>
      (nodup_append.1 hnd).2.2 z hm z (mem_cons_of_mem _ hpost) rfl
    exact ⟨hkeep z hdone hzx', hzl⟩
  · obtain ⟨hdone, hzl⟩ := hp z hz hnone
    exact ⟨hkeep z hdone hzx', hzl⟩

theorem EntryDone.congr {fs₁ : Fs} (hd : EntryDone t root fs fs₁ x) (h : ∀ a, fs'.get a = fs₁.get a) :
    EntryDone t root fs fs' x := by
  unfold EntryDone at hd ⊢
  simpa only [h] using hd

theorem ino_of_lead (hx : x ∈ t.entries) (hy : y ∈ t.entries) (h : t.lead x.2.ino = t.lead y.2.ino) :
    x.2.ino = y.2.ino := by
  obtain ⟨x', hx', hxi, hxl⟩ := Tree.exists_lead hx
  obtain ⟨y', hy', hyi, hyl⟩ := Tree.exists_lead hy
  obtain rfl := Tree.eq_of_path hx' hy' (by rw [hxl, hyl, h])
  rw [← hxi, ← hyi]

section

variable (hc : IsCopy t root fs₀)
include hc

theorem IsCopy.ino_of_home (hx : x ∈ t.entries) (hy : y ∈ t.entries)
    (h : home root fs₀ (t.lead x.2.ino) = home root fs₀ (t.lead y.2.ino)) : x.2.ino = y.2.ino := by
  obtain ⟨x', hx', -, hxl⟩ := Tree.exists_lead hx
  obtain ⟨y', hy', -, hyl⟩ := Tree.exists_lead hy
  refine ino_of_lead hx hy ?_
  rw [← hxl, ← hyl] at h ⊢
  exact hc.home_inj hx' hy' h

theorem link_entry (hr : t.Relinkable) (ha : Applied t root fs₀ done fs)
    (h : t.entries = done ++ x :: post) : ∃ link, t.entryOps root.path x =
        link ++ ((t.attr x.2.ino).xattrs.map fun a => Op.lsetxattr (root.path ++ x.1) a.1 a.2) ∧
      Along effect Succeeds fs link ∧ EntryDone t root fs (run effect fs link) x ∧
      ∀ i, ((run effect fs link).attr i).xattrs = (fs.attr i).xattrs := by
  by_cases hlead : t.lead x.2.ino = x.1
  · refine ⟨[], entryOps_of_lead hlead, trivial, ?_, fun i => rfl⟩
    unfold EntryDone
    rw [if_pos hlead]
    exact fun a => rfl
  obtain ⟨hok, e, he, hmoved⟩ := relink_of_applied hc hr ha h hlead
  refine ⟨[Op.relink (root.path ++ t.lead x.2.ino) (root.path ++ x.1)], entryOps_of_relinked hlead,
    ⟨hok, trivial⟩, ?_, hmoved.xattrs⟩
  unfold EntryDone
  rw [if_neg hlead]
  exact ⟨e, he, hmoved.get⟩

theorem applied_entry (hr : t.Relinkable) (ha : Applied t root fs₀ done fs)
    (h : t.entries = done ++ x :: post) : Along effect Succeeds fs (t.entryOps root.path x) ∧
      Applied t root fs₀ (done ++ [x]) (run effect fs (t.entryOps root.path x)) := by
  have hx := Tree.mem_of_split h
  have hin : x ∈ done ++ [x] := mem_append_right _ (mem_singleton.2 rfl)
  obtain ⟨link, hops, hok, hd, hsame⟩ := link_entry hc hr ha h
  have hs₁ := hd.shaped ha.shaped hx
  have hh₁ := hd.homed ha.homed hx
  have hp₁ := hd.present ha.present hr h
  rw [hops, along_append, run_append]
  generalize run effect fs link = fs₁ at *
  obtain ⟨e, he⟩ := hp₁.exists_get hx (.inl hin)
  have hino : e.ino = home root fs₀ (t.lead x.2.ino) := by
    have := hh₁ x hx e he
    rwa [if_pos hin] at this
  obtain ⟨hok', hother, -, hset⟩ := run_xattrs ((hs₁.lstat_entry hx).2 ⟨he, hp₁.reach hx⟩) (t.attrNames x.2.ino)
  have hget := fun a => get_run fs₁ (setsAttr_xattrs (root.path ++ x.1) (t.attr x.2.ino).xattrs) a
  generalize run effect fs₁ ((t.attr x.2.ino).xattrs.map fun a => Op.lsetxattr (root.path ++ x.1) a.1 a.2) = fs₂ at *
  have hd₂ := hd.congr hget
  refine ⟨⟨hok, hok'⟩, hd₂.shaped ha.shaped hx, hd₂.homed ha.homed hx, hd₂.present ha.present hr h, ?_⟩
  intro z hz a haz
  have hz' : z ∈ t.entries := by
    rw [h]
    rcases mem_append.1 hz with hz | hz
    · exact mem_append_left _ hz
    · rw [mem_singleton.1 hz]
      simp
  by_cases heq : home root fs₀ (t.lead z.2.ino) = e.ino
  · -- Links of one inode have the same attributes.
    have hzx := hc.ino_of_home hz' hx (heq.trans hino)
    rw [hzx] at haz
    rw [heq]
    exact hset a haz
  have hdone : z ∈ done := by
    rcases mem_append.1 hz with hz | hz
    · exact hz
    · rw [mem_singleton.1 hz] at heq
      exact absurd hino.symm heq
  rw [hother _ heq, hsame]
  exact ha.attrs z hdone a haz

theorem run_applied (hr : t.Relinkable) (done rest : List (Path × Entry))
    (ha : Applied t root fs₀ done fs) (h : t.entries = done ++ rest) :
    Along effect Succeeds fs (rest.flatMap (t.entryOps root.path)) ∧
      Applied t root fs₀ t.entries (run effect fs (rest.flatMap (t.entryOps root.path))) := by
  induction rest generalizing done fs with
  | nil =>
    rw [append_nil] at h
    rw [h]
    exact ⟨trivial, ha⟩
  | cons x rest ih =>
    obtain ⟨hok, ha'⟩ := applied_entry hc hr ha h
    obtain ⟨hok', hend⟩ := ih (done ++ [x]) ha' (by rw [h]; simp)
    rw [flatMap_cons, along_append, run_append]
    exact ⟨⟨hok, hok'⟩, hend⟩

theorem applied_nil : Applied t root fs₀ [] fs₀ where
  shaped := hc.shaped
  homed := homed_nil t root fs₀
  present z hz hnone := by
    obtain ⟨e, he, -⟩ := hc.exists_get hz
    rw [he] at hnone
    cases hnone
  attrs z hz := nomatch hz

end

structure Restored (t : Tree) (root : Root) (fs₀ fs : Fs) : Prop where
  stat : ∀ x ∈ t.entries, ∃ e, fs.lstat (root.path ++ x.1) = some e ∧ fs.get (root.path ++ x.1) = some e ∧
    e.ino = home root fs₀ (t.lead x.2.ino)
  attrs : ∀ x ∈ t.entries, ∀ a ∈ (t.attr x.2.ino).xattrs,
    (fs.attr (home root fs₀ (t.lead x.2.ino))).xattrs.lookup a.1 = some a.2
  times : ∀ x ∈ t.entries, x.2.kind = .dir →
    (fs.attr (home root fs₀ (t.lead x.2.ino))).mtime = nano (t.attr x.2.ino).mtime

theorem Applied.stat (ha : Applied t root fs₀ t.entries fs) (hx : x ∈ t.entries) :
    ∃ e, fs.lstat (root.path ++ x.1) = some e ∧ fs.get (root.path ++ x.1) = some e ∧
      e.ino = home root fs₀ (t.lead x.2.ino) := by
  obtain ⟨e, he⟩ := ha.present.exists_get hx (.inl hx)
  have hino := ha.homed x hx e he
  rw [if_pos hx] at hino
  exact ⟨e, (ha.shaped.lstat_entry hx).2 ⟨he, ha.present.reach hx⟩, he, hino⟩

theorem run_times (hc : IsCopy t root fs₀) (ha : Applied t root fs₀ t.entries fs) :
    Along effect Succeeds fs ((dirTimes root.path t.records).map fun d => Op.utimes d.1 d.2) ∧
      Restored t root fs₀ (run effect fs ((dirTimes root.path t.records).map fun d => Op.utimes d.1 d.2)) := by
  have hstat : ∀ d ∈ dirTimes root.path t.records, ∃ e, fs.lstat d.1 = some e := by
    intro d hd
    obtain ⟨x, hx, -, rfl⟩ := Tree.mem_dirTimes.1 hd
    obtain ⟨e, he, -⟩ := ha.stat hx
    exact ⟨e, he⟩
  have hpair : (dirTimes root.path t.records).Pairwise fun d d' =>
      ∀ e e', fs.lstat d.1 = some e → fs.lstat d'.1 = some e' → e.ino ≠ e'.ino := by
    refine (pairwise_map.1 (t.nodup_dirTimes root.path)).imp_of_mem ?_
    intro d d' hd hd' hne e e' he he' heq
    obtain ⟨x, hx, hxd, rfl⟩ := Tree.mem_dirTimes.1 hd
    obtain ⟨y, hy, hyd, rfl⟩ := Tree.mem_dirTimes.1 hd'
    obtain ⟨e₁, he₁, -, hi₁⟩ := ha.stat hx
    obtain ⟨e₂, he₂, -, hi₂⟩ := ha.stat hy
    cases (he₁.symm.trans he)
    cases (he₂.symm.trans he')
    exact hne (by rw [t.single x hx y hy (hc.ino_of_home hx hy (by rw [← hi₁, ← hi₂, heq])) hxd])
  obtain ⟨hok, hx, -, hset⟩ := run_utimes fs hstat hpair
  have hget := fun a => get_run fs (setsAttr_utimes (dirTimes root.path t.records)) a
  refine ⟨hok, ⟨fun x hx => ?_, fun x hx' a hax => ?_, fun x hx' hdir => ?_⟩⟩
  · obtain ⟨e, hst, he, hi⟩ := ha.stat hx
    exact ⟨e, by rw [Fs.lstat_congr hget, hst], by rw [hget, he], hi⟩
  · rw [hx]
    exact ha.attrs x hx' a hax
  · obtain ⟨e, hst, -, hi⟩ := ha.stat hx'
    have hmem : (root.path ++ x.1, nano (t.attr x.2.ino).mtime) ∈ dirTimes root.path t.records :=
      Tree.mem_dirTimes.2 ⟨x, hx', hdir, rfl⟩
    rw [← hi]
    exact hset _ hmem e hst

theorem Restored.samePartition (hc : IsCopy t root fs₀) (h : Restored t root fs₀ fs) : SamePartition t root fs := by
  intro x hx y hy _ _
  obtain ⟨d, -, hd, hdi⟩ := h.stat x hx
  obtain ⟨e, -, he, hei⟩ := h.stat y hy
  refine ⟨d, e, hd, he, ?_⟩
  rw [hdi, hei]
  constructor
  · exact hc.ino_of_home hx hy
  · intro heq
    rw [heq]

section Verify
variable (h : Restored t root fs₀ fs) (hx : x ∈ t.entries) {e : Entry}
  (hst : fs.lstat (root.path ++ x.1) = some e) (hi : e.ino = home root fs₀ (t.lead x.2.ino))
include h hx hst hi

theorem Restored.attrs_match : (t.recordOf x).x.countP (fun a => !matchesAttr fs (root.path ++ x.1) a) = 0 := by
  rw [countP_eq_zero]
  intro a ha
  have hlookup : fs.getxattr (root.path ++ x.1) a.1 = some a.2 := by
    unfold Fs.getxattr
    rw [hst]
    show (fs.attr e.ino).xattrs.lookup a.1 = some a.2
    rw [hi]
    exact h.attrs x hx a ha
  simp [matchesAttr, hlookup]

omit hst in
theorem Restored.time_matches : (t.recordOf x).dm.all (· = nano (fs.attr e.ino).mtime) = true := by
  unfold Tree.recordOf
  dsimp only
  split
  · rename_i hdir
    rw [hi, h.times x hx hdir, nano, nano, Int.bmod_bmod]
    simp
  · rfl

end Verify

theorem Restored.mismatches_eq_zero (h : Restored t root fs₀ fs) {groups : List (Bytes × Nat)}
    (done rest : List (Path × Entry)) (hsplit : t.entries = done ++ rest)
    (hg : Tree.Grouped t (fun i => home root fs₀ (t.lead i)) done groups) :
    mismatches root.path fs groups ((rest.filter t.recorded).map t.recordOf) = 0 := by
  induction rest generalizing done groups with
  | nil => rfl
  | cons x rest ih =>
    have hx := Tree.mem_of_split hsplit
    have hsplit' : t.entries = done ++ [x] ++ rest := by rw [hsplit]; simp
    cases hrec : t.recorded x with
    | false =>
      rw [filter_cons_of_neg (by simp [hrec])]
      exact ih _ hsplit' (Tree.grouped_skip hsplit hg (Tree.recorded_eq_false hrec).2.1)
    | true =>
      obtain ⟨groups', hcompare, hg'⟩ := Tree.compare_recordOf hsplit hg
      obtain ⟨e, hst, -, hi⟩ := h.stat x hx
      have hpath : localPath root.path (t.recordOf x).p = some (root.path ++ x.1) :=
        localPath_relText (t.named x hx)
      have hstat : ((localPath root.path (t.recordOf x).p).bind fun path =>
          (fs.lstat path).map fun s => (path, s)) = some (root.path ++ x.1, e) := by
        rw [hpath, Option.bind_some, hst]
        rfl
      rw [filter_cons_of_pos hrec, map_cons, mismatches, hstat]
      dsimp only
      rw [hi, hcompare, h.attrs_match hx hst hi, ← hi, if_pos (h.time_matches hx hi), ih _ hsplit' hg']

theorem restores_of_relinkable (hc : IsCopy t root fs₀) (hr : t.Relinkable) : Restores t root fs₀ t.records := by
  have hfs : (apply root fs₀ t.records).fs = run effect fs₀ (program root.path t.records) := fs_run _ _
  obtain ⟨hok, ha⟩ := run_applied hc hr [] t.entries (applied_nil hc) rfl
  obtain ⟨htimes, hend⟩ := run_times hc ha
  unfold Restores
  rw [errors_eq_zero_iff, hfs, Tree.program_records, run_append]
  refine ⟨along_append.2 ⟨hok, htimes⟩, ?_, hend.samePartition hc⟩
  exact hend.mismatches_eq_zero [] t.entries rfl (Tree.grouped_nil _)

end Entries

def beside (taken : Bool) : Name := if taken then ascii ".dbr2-link-b" else ascii "c"

def linkedFiles (taken : Bool) : Tree where
  dev := 1
  entries := [([], ⟨1, .dir⟩), ([beside taken], ⟨2, .file⟩), ([ascii "a"], ⟨3, .file⟩), ([ascii "b"], ⟨3, .file⟩)]
  attr := fun _ => ⟨[], 0⟩
  nlink := fun i => if i = 3 then 2 else 1
  root := ⟨⟨1, .dir⟩, mem_cons_self, .inl rfl⟩
  nodup := by cases taken <;> decide
  named := by cases taken <;> decide
  parents := by
    intro p n e h
    have hp : p = [] := by
      rcases p with _ | ⟨m, p⟩
      · rfl
      · simp at h
    subst hp
    exact ⟨⟨1, .dir⟩, mem_cons_self, rfl⟩
  kinds := by simp
  single := by simp
  links i := by
    simp only [countP_cons, countP_nil, decide_eq_true_eq]
    split <;> split <;> split <;> split <;> omega
  attrNames _ := nodup_nil

def linkedFilesCopy (taken : Bool) : Fs where
  entries := [([ascii "staging"], ⟨11, .dir⟩), ([ascii "staging", beside taken], ⟨12, .file⟩),
    ([ascii "staging", ascii "a"], ⟨13, .file⟩), ([ascii "staging", ascii "b"], ⟨14, .file⟩)]
  attr := fun _ => ⟨[], 0⟩
  now := 0

theorem isCopy_linkedFilesCopy (taken : Bool) : IsCopy (linkedFiles taken) staging (linkedFilesCopy taken) where
  above pre hne hpre := by
    rcases above_cons.1 hpre with rfl | ⟨pre', -, h⟩
    · exact absurd rfl hne
    · exact absurd h (not_above_nil pre')
  same := by cases taken <;> decide
  only p e he := by
    have hall : ∀ y ∈ (linkedFilesCopy taken).entries, y.1.drop 1 ∈ (linkedFiles taken).paths := by
      cases taken <;> decide
    exact hall _ (Fs.mem_of_get he)
  fresh p q d e hd he hino := by
    have hall : ∀ y ∈ (linkedFilesCopy taken).entries, ∀ z ∈ (linkedFilesCopy taken).entries,
        y.2.ino = z.2.ino → y.1 = z.1 := by
      cases taken <;> decide
    exact append_cancel_left (hall _ (Fs.mem_of_get hd) _ (Fs.mem_of_get he) hino)
  bare _ _ _ := rfl

end Dbr2.Fsmeta
