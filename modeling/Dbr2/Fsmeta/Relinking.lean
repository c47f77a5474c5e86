import Dbr2.Fsmeta.TreeProgram

/-! Linking the paths of a tree on a copy of it.

While metadata is applied to a copy, the places below the root are the tree's paths and hold entries
of the right kinds, or none for a while (`Shaped`). A path then leads to its own place, and linking
it to the first path of its group either finds it linked or does exactly this (`relink_ok`): the
entry of the first path is at the path, nothing is at the temporary name beside it, and everything
else is as before (`Moved`). -/
namespace Dbr2.Fsmeta
open Lib Lib.LinkFs List

theorem sibling_append (root : Path) {p : Path} (hp : p ≠ []) : sibling (root ++ p) = root ++ sibling p := by
  obtain ⟨d, n, rfl⟩ := (eq_nil_or_concat' p).resolve_left hp
  rw [← append_assoc, sibling_concat, sibling_concat, append_assoc]

theorem sibling_ne {p : Path} (hp : p ≠ []) : sibling p ≠ p := by
  obtain ⟨d, n, rfl⟩ := (eq_nil_or_concat' p).resolve_left hp
  rw [sibling_concat]
  intro h
  have hlen := congrArg List.length (singleton_inj.1 (append_cancel_left h))
  rw [length_append, length_linkPrefix] at hlen
  omega

theorem above_sibling {pre p : Path} (hp : p ≠ []) : Above pre (sibling p) ↔ Above pre p := by
  obtain ⟨d, n, rfl⟩ := (eq_nil_or_concat' p).resolve_left hp
  rw [sibling_concat, above_concat, above_concat]

namespace Tree
variable {t : Tree} {x : Path × Entry}

theorem dir_above {p pre : Path} {e : Entry} (hp : (p, e) ∈ t.entries) (h : Above pre p) :
    ∃ d, (pre, d) ∈ t.entries ∧ d.kind = .dir := by
  induction p using List.reverseRecOn generalizing e with
  | nil => exact absurd h (not_above_nil pre)
  | append_singleton p n ih =>
    obtain ⟨d, hd, hdir⟩ := t.parents p n e hp
    by_cases hpre : pre = p
    · subst hpre
      exact ⟨d, hd, hdir⟩
    · exact ih hd ⟨above_concat.1 h, hpre⟩

theorem ne_nil_of_relinked (hx : x ∈ t.entries) (h : t.lead x.2.ino ≠ x.1) : x.1 ≠ [] := by
  intro hnil
  obtain ⟨y, hy, hino, hlead⟩ := exists_lead hx
  have hy' : y.1 ≠ [] := by
    intro hy'
    exact h (by rw [← hlead, hy', hnil])
  obtain ⟨d, hd, hdir⟩ := dir_above (t := t) (p := y.1) (e := y.2) hy ⟨List.nil_prefix, Ne.symm hy'⟩
  have hxd := eq_of_path hx hd hnil
  exact h (lead_of_dir hx (by rw [hxd]; exact hdir))

end Tree

structure Shaped (t : Tree) (root : Root) (fs : Fs) : Prop where
  above : ∀ pre, pre ≠ [] → Above pre root.path → fs.IsDir pre
  kinds : ∀ x ∈ t.entries, ∀ e, fs.get (root.path ++ x.1) = some e → e.kind = x.2.kind
  only : ∀ p e, fs.get (root.path ++ p) = some e → p ∈ t.paths

/-- Nothing is missing on the way. The root of the file system is not looked up. -/
def Reach (root : Root) (fs : Fs) (p : Path) : Prop :=
  ∀ pre, Above pre p → root.path ++ pre ≠ [] → fs.get (root.path ++ pre) ≠ none

namespace Shaped
variable {t : Tree} {root : Root} {fs : Fs} {x y : Path × Entry} {p q : Path} {e : Entry}

section

variable (hs : Shaped t root fs)
include hs

theorem isDir_iff {d : Entry} (hd : (p, d) ∈ t.entries) (hdir : d.kind = .dir) :
    fs.IsDir (root.path ++ p) ↔ fs.get (root.path ++ p) ≠ none := by
  unfold Fs.IsDir Fs.kindAt
  cases hg : fs.get (root.path ++ p) with
  | none => simp
  | some e =>
    have hk := hs.kinds (p, d) hd e hg
    simp [hk, hdir]

theorem locate_iff (hung : ∀ pre, Above pre p → ∃ d, (pre, d) ∈ t.entries ∧ d.kind = .dir)
    (hplain : ∀ n ∈ p, n ≠ dot ∧ n ≠ dotdot) : fs.locate (root.path ++ p) = some q ↔
      q = root.path ++ p ∧ (∀ n ∈ p, fits n = true) ∧ Reach root fs p := by
  have hnames : ∀ n ∈ root.path ++ p, n ≠ dot ∧ n ≠ dotdot := by
    intro n hn
    rcases mem_append.1 hn with hn | hn
    · exact ⟨(root.named n hn).ne_dot, (root.named n hn).ne_dotdot⟩
    · exact hplain n hn
  have hlinks : fs.Unlinked (root.path ++ p) := by
    intro pre target hne hpre hk
    rcases above_append.1 hpre with h | ⟨pre', rfl, h⟩
    · have hdir := hs.above pre hne h
      rw [Fs.IsDir, hk] at hdir
      cases hdir
    obtain ⟨d, hd, hdir⟩ := hung pre' h
    obtain ⟨e, he, hke⟩ := Option.map_eq_some_iff.1 hk
    rw [hs.kinds (pre', d) hd e he, hdir] at hke
    cases hke
  rw [Fs.locate_eq_some_iff hnames hlinks]
  refine and_congr_right fun _ => ?_
  constructor
  · rintro ⟨hfits, hdirs⟩
    refine ⟨fun n hn => hfits n (mem_append_right _ hn), ?_⟩
    intro pre hpre hne
    obtain ⟨d, hd, hdir⟩ := hung pre hpre
    exact (hs.isDir_iff hd hdir).1 (hdirs _ hne (above_append.2 (.inr ⟨pre, rfl, hpre⟩)))
  · rintro ⟨hfits, hreach⟩
    constructor
    · intro n hn
      rcases mem_append.1 hn with hn | hn
      · exact (root.named n hn).fits
      · exact hfits n hn
    · intro pre hne hpre
      rcases above_append.1 hpre with h | ⟨pre', rfl, h⟩
      · exact hs.above pre hne h
      · obtain ⟨d, hd, hdir⟩ := hung pre' h
        exact (hs.isDir_iff hd hdir).2 (hreach pre' h hne)

theorem locate_entry (hx : x ∈ t.entries) :
    fs.locate (root.path ++ x.1) = some q ↔ q = root.path ++ x.1 ∧ Reach root fs x.1 := by
  rw [hs.locate_iff (fun pre h => Tree.dir_above (e := x.2) hx h) fun n hn =>
    ⟨(t.named x hx n hn).ne_dot, (t.named x hx n hn).ne_dotdot⟩]
  exact and_congr_right fun _ => and_iff_right fun n hn => (t.named x hx n hn).fits

theorem lstat_entry (hx : x ∈ t.entries) :
    fs.lstat (root.path ++ x.1) = some e ↔ fs.get (root.path ++ x.1) = some e ∧ Reach root fs x.1 := by
  rw [Fs.lstat_eq_some_iff]
  constructor
  · rintro ⟨q, hq, he⟩
    obtain ⟨rfl, hreach⟩ := (hs.locate_entry hx).1 hq
    exact ⟨he, hreach⟩
  · rintro ⟨he, hreach⟩
    exact ⟨_, (hs.locate_entry hx).2 ⟨rfl, hreach⟩, he⟩

theorem locate_sibling (hx : x ∈ t.entries) (hne : x.1 ≠ []) :
    fs.locate (root.path ++ sibling x.1) = some q ↔
      q = root.path ++ sibling x.1 ∧ fits (linkPrefix ++ x.1.getLastD []) = true ∧ Reach root fs x.1 := by
  have hparts : ∀ n ∈ x.1.dropLast, IsName n := fun n hn => t.named x hx n (dropLast_subset _ hn)
  have hreach : Reach root fs (sibling x.1) ↔ Reach root fs x.1 :=
    forall_congr' fun pre => by rw [above_sibling hne]
  have hfits : (∀ n ∈ sibling x.1, fits n = true) ↔ fits (linkPrefix ++ x.1.getLastD []) = true := by
    unfold sibling
    rw [forall_mem_append]
    constructor
    · intro h
      exact h.2 _ (mem_singleton.2 rfl)
    · intro h
      refine ⟨fun n hn => (hparts n hn).fits, ?_⟩
      intro n hn
      rw [mem_singleton.1 hn]
      exact h
  rw [hs.locate_iff (fun pre h => Tree.dir_above (e := x.2) hx ((above_sibling hne).1 h)) ?_, hfits, hreach]
  intro n hn
  rcases mem_append.1 hn with hn | hn
  · exact ⟨(hparts n hn).ne_dot, (hparts n hn).ne_dotdot⟩
  · rw [mem_singleton.1 hn]
    exact plain_linkPrefix _

theorem of_get_le {fs' : Fs} (h : ∀ a e, fs'.get a = some e → fs.get a = some e)
    (habove : ∀ pre, Above pre root.path → fs'.get pre = fs.get pre) : Shaped t root fs' where
  above pre hne hpre := by
    rw [Fs.IsDir, Fs.kindAt, habove pre hpre]
    exact hs.above pre hne hpre
  kinds x hx e he := hs.kinds x hx e (h _ e he)
  only p e he := hs.only p e (h _ e he)

end

end Shaped

theorem ne_of_above_root {root p pre : Path} (h : Above pre root) : pre ≠ root ++ p := by
  rintro rfl
  have hlen := h.1.length_le
  rw [length_append] at hlen
  exact h.2 (by rw [length_eq_zero_iff.1 (by omega : p.length = 0), append_nil])

structure Moved (root : Root) (fs fs' : Fs) (p : Path) (e : Entry) : Prop where
  get : ∀ a, fs'.get a = if a = root.path ++ p then some e else if a = root.path ++ sibling p then none else fs.get a
  xattrs : ∀ i, (fs'.attr i).xattrs = (fs.attr i).xattrs

def Cut (root : Root) (fs fs₁ : Fs) (p : Path) : Prop :=
  ∀ a, fs₁.get a = if a = root.path ++ sibling p then none else fs.get a

section Relink
variable {t : Tree} {root : Root} {fs fs₁ : Fs} {x y : Path × Entry}

namespace Cut
variable {p : Path} (hcut : Cut root fs fs₁ p)
include hcut

theorem get_some {a : Path} {e : Entry} (h : fs₁.get a = some e) : fs.get a = some e := by
  rw [hcut] at h
  split at h
  · cases h
  · exact h

theorem shaped (hs : Shaped t root fs) : Shaped t root fs₁ := by
  refine hs.of_get_le (fun a e h => hcut.get_some h) ?_
  intro pre hpre
  rw [hcut, if_neg (ne_of_above_root hpre)]

theorem reach (hs : Shaped t root fs) (hfree : fs.kindAt (root.path ++ sibling p) ≠ some .dir)
    (hx : x ∈ t.entries) (hr : Reach root fs x.1) : Reach root fs₁ x.1 := by
  intro pre hpre hnil
  obtain ⟨d, hd, hdir⟩ := Tree.dir_above (e := x.2) hx hpre
  have hpre' : root.path ++ pre ≠ root.path ++ sibling p := by
    intro heq
    exact hfree (heq ▸ (hs.isDir_iff hd hdir).2 (hr pre hpre hnil))
  rw [hcut, if_neg hpre']
  exact hr pre hpre hnil

end Cut

theorem cut_removed (hs : Shaped t root fs) (hx : x ∈ t.entries) (hne : x.1 ≠ [])
    (hfree : ((fs.remove (root.path ++ sibling x.1)).getD fs).get (root.path ++ sibling x.1) = none) :
    Cut root fs ((fs.remove (root.path ++ sibling x.1)).getD fs) x.1 ∧
    ∀ i, (((fs.remove (root.path ++ sibling x.1)).getD fs).attr i).xattrs = (fs.attr i).xattrs := by
  cases hr : fs.remove (root.path ++ sibling x.1) with
  | none =>
    rw [hr] at hfree
    refine ⟨fun a => ?_, fun i => rfl⟩
    rw [Option.getD_none]
    split
    · rename_i ha
      rw [ha]
      exact hfree
    · rfl
  | some fs' =>
    obtain ⟨q, e, hq, -, -, rfl⟩ := Fs.remove_eq_some_iff.1 hr
    obtain ⟨rfl, -⟩ := (hs.locate_sibling hx hne).1 hq
    exact ⟨fun a => Fs.get_unlinkAt fs _ a, fun i => Fs.xattrs_unlinkAt fs _ i⟩

theorem locate_beside_sibling (hx : x ∈ t.entries) (hne : x.1 ≠ [])
    (hq : fs₁.locate (root.path ++ sibling x.1) = some (root.path ++ sibling x.1)) :
    fs₁.locate (root.path ++ x.1) = some (root.path ++ x.1) := by
  obtain ⟨d, n, hd⟩ := (eq_nil_or_concat' x.1).resolve_left hne
  have hn := t.named x hx n (by rw [hd]; simp)
  have htmp : root.path ++ sibling x.1 = root.path ++ d ++ [linkPrefix ++ n] := by
    rw [hd, sibling_concat, append_assoc]
  rw [htmp] at hq
  obtain ⟨dir, hdir, -, hin⟩ := Fs.locate_concat (plain_linkPrefix n) ⟨hn.ne_dot, hn.ne_dotdot⟩ hn.fits hq
  obtain rfl : root.path ++ d = dir := append_inj_left' hdir rfl
  rw [hd, ← append_assoc]
  exact hin

section

variable (hs : Shaped t root fs)
include hs

theorem linked_eq (hy : y ∈ t.entries) (hcut : Cut root fs fs₁ x.1) {e e' : Entry}
    (hfirst : fs.lstat (root.path ++ y.1) = some e) (hold : fs₁.lstat (root.path ++ y.1) = some e') : e' = e := by
  have hthen := hcut.get_some (((hcut.shaped hs).lstat_entry hy).1 hold).1
  exact Option.some.inj (hthen.symm.trans ((hs.lstat_entry hy).1 hfirst).1)

theorem rename_linked (hx : x ∈ t.entries) (hk : x.2.kind ≠ .dir) (hne : x.1 ≠ [])
    (hcut : Cut root fs fs₁ x.1) {e : Entry} (hdir : e.kind ≠ .dir)
    (hother : (fs.get (root.path ++ x.1)).map (·.ino) ≠ some e.ino) {fs₂ : Fs}
    (hq : fs₁.locate (root.path ++ sibling x.1) = some (root.path ++ sibling x.1))
    (hfs₂ : fs₁.linkAt (root.path ++ sibling x.1) e = fs₂)
    (hkeeps : ∀ p k, fs₁.kindAt p = some k → fs₂.kindAt p = some k) :
    fs₂.rename (root.path ++ sibling x.1) (root.path ++ x.1) =
      some (fs₂.moveAt (root.path ++ sibling x.1) (root.path ++ x.1) e) := by
  have hsib : root.path ++ x.1 ≠ root.path ++ sibling x.1 := fun h => sibling_ne hne (append_cancel_left h).symm
  have hget : fs₂.get (root.path ++ x.1) = fs.get (root.path ++ x.1) := by
    rw [← hfs₂, Fs.get_linkAt, if_neg hsib, hcut, if_neg hsib]
  apply Fs.rename_eq_some
  · exact Fs.locate_mono hkeeps hq
  · rw [← hfs₂, Fs.get_linkAt, if_pos rfl]
  · exact Fs.locate_mono hkeeps (locate_beside_sibling hx hne hq)
  · exact hdir
  · intro h
    obtain ⟨d, hd, hdk⟩ := Option.map_eq_some_iff.1 h
    rw [hget] at hd
    exact hk ((hs.kinds x hx d hd).symm.trans hdk)
  · rwa [hget]

theorem relinkVia_of_link (hx : x ∈ t.entries) (hy : y ∈ t.entries)
    (hk : x.2.kind ≠ .dir) (hne : x.1 ≠ []) {e : Entry}
    (hfirst : fs.lstat (root.path ++ y.1) = some e)
    (hother : (fs.lstat (root.path ++ x.1)).map (·.ino) ≠ some e.ino) {fs₂ : Fs}
    (hlink : ((fs.remove (root.path ++ sibling x.1)).getD fs).link (root.path ++ y.1)
      (root.path ++ sibling x.1) = some fs₂) :
    (relinkVia fs (root.path ++ y.1) (root.path ++ x.1) (root.path ++ sibling x.1)).ok = true ∧
      Moved root fs (relinkVia fs (root.path ++ y.1) (root.path ++ x.1) (root.path ++ sibling x.1)).fs x.1 e ∧
      fits (linkPrefix ++ x.1.getLastD []) = true := by
  unfold relinkVia
  dsimp only
  obtain ⟨e', q, hold, hq, hdir, hfree, hfs₂⟩ := Fs.link_eq_some_iff.1 hlink
  have hbefore := Fs.locate_mono (fun p k => Fs.kindAt_removed) hq
  obtain ⟨rfl, hfits, hreach⟩ := (hs.locate_sibling hx hne).1 hbefore
  obtain ⟨hcut, hattr⟩ := cut_removed hs hx hne hfree
  generalize (fs.remove (root.path ++ sibling x.1)).getD fs = fs₁ at *
  obtain rfl := linked_eq hs hy hcut hfirst hold
  have hstat : fs.lstat (root.path ++ x.1) = fs.get (root.path ++ x.1) := by
    rw [Fs.lstat, locate_beside_sibling hx hne hbefore]
    rfl
  rw [hstat] at hother
  have hrename := rename_linked hs hx hk hne hcut hdir hother hq hfs₂ fun p k => Fs.kindAt_link hlink
  rw [hlink]
  dsimp only
  rw [hrename]
  refine ⟨rfl, ⟨fun a => ?_, fun i => ?_⟩, hfits⟩
  · rw [Fs.get_moveAt]
    split
    · rfl
    split
    · rfl
    · rename_i ha
      rw [← hfs₂, Fs.get_linkAt, if_neg ha, hcut, if_neg ha]
  · rw [Fs.xattrs_moveAt, ← hfs₂, Fs.xattrs_linkAt, hattr]

theorem relink_ok (hx : x ∈ t.entries) (hy : y ∈ t.entries)
    (hk : x.2.kind ≠ .dir) (hne : x.1 ≠ [])
    (hok : (relink fs (root.path ++ y.1) (root.path ++ x.1)).ok = true) :
    ∃ e, fs.get (root.path ++ y.1) = some e ∧ (((fs.get (root.path ++ x.1)).map (·.ino) = some e.ino) ∨
        (Moved root fs (relink fs (root.path ++ y.1) (root.path ++ x.1)).fs x.1 e ∧
          fits (linkPrefix ++ x.1.getLastD []) = true)) := by
  unfold relink at hok ⊢
  cases hfirst : fs.lstat (root.path ++ y.1) with
  | none =>
    rw [hfirst] at hok
    cases hok
  | some e =>
    rw [hfirst] at hok
    refine ⟨e, ((hs.lstat_entry hy).1 hfirst).1, ?_⟩
    dsimp only at hok ⊢
    by_cases hsame : (fs.lstat (root.path ++ x.1)).map (·.ino) = some e.ino
    · obtain ⟨d, hd, hdi⟩ := Option.map_eq_some_iff.1 hsame
      left
      rw [((hs.lstat_entry hx).1 hd).1, Option.map_some, hdi]
    rw [if_neg hsame] at hok ⊢
    by_cases hdir : e.kind = .dir
    · rw [if_pos hdir] at hok
      cases hok
    rw [if_neg hdir] at hok ⊢
    rw [sibling_append _ hne] at hok ⊢
    right
    cases hlink : ((fs.remove (root.path ++ sibling x.1)).getD fs).link (root.path ++ y.1)
        (root.path ++ sibling x.1) with
    | none =>
      unfold relinkVia at hok
      dsimp only at hok
      rw [hlink] at hok
      cases hok
    | some fs₂ => exact (relinkVia_of_link hs hx hy hk hne hfirst hsame hlink).2

theorem cut_of_free (hx : x ∈ t.entries) (hne : x.1 ≠ [])
    (hfits : fits (linkPrefix ++ x.1.getLastD []) = true) (hrx : Reach root fs x.1)
    (hfree : fs.kindAt (root.path ++ sibling x.1) ≠ some .dir) :
    Cut root fs ((fs.remove (root.path ++ sibling x.1)).getD fs) x.1 := by
  refine (cut_removed hs hx hne ?_).1
  have htmp :=
    (hs.locate_sibling hx hne).2 ⟨rfl, hfits, hrx⟩
  cases hg : fs.get (root.path ++ sibling x.1) with
  | none =>
    cases hr : fs.remove (root.path ++ sibling x.1) with
    | none => exact hg
    | some fs' =>
      obtain ⟨q, d, hq, -, -, rfl⟩ := Fs.remove_eq_some_iff.1 hr
      cases (htmp.symm.trans hq)
      rw [Option.getD_some, Fs.get_unlinkAt, if_pos rfl]
  | some d =>
    have hdir : d.kind ≠ .dir := by
      intro h
      exact hfree (by rw [Fs.kindAt, hg, Option.map_some, h])
    have hr :=
      Fs.remove_eq_some_iff.2 ⟨_, d, htmp, hg, fun h => hdir h.1, rfl⟩
    rw [hr, Option.getD_some, Fs.get_unlinkAt, if_pos rfl]

theorem exists_link (hx : x ∈ t.entries) (hy : y ∈ t.entries) (hne : x.1 ≠ [])
    (hcut : Cut root fs fs₁ x.1) {e : Entry} (hdir : e.kind ≠ .dir) (hfirst : fs.get (root.path ++ y.1) = some e)
    (hry : Reach root fs y.1) (hrx : Reach root fs x.1) (hfits : fits (linkPrefix ++ x.1.getLastD []) = true)
    (hys : y.1 ≠ sibling x.1) (hfree : fs.kindAt (root.path ++ sibling x.1) ≠ some .dir) :
    ∃ fs₂, fs₁.link (root.path ++ y.1) (root.path ++ sibling x.1) = some fs₂ := by
  have hs₁ := hcut.shaped hs
  have hget : fs₁.get (root.path ++ y.1) = some e := by
    rw [hcut, if_neg fun h => hys (append_cancel_left h)]
    exact hfirst
  refine ⟨_, Fs.link_eq_some_iff.2 ⟨e, root.path ++ sibling x.1, ?_, ?_, hdir, ?_, rfl⟩⟩
  · exact (hs₁.lstat_entry hy).2 ⟨hget, hcut.reach hs hfree hy hry⟩
  · exact (hs₁.locate_sibling hx hne).2 ⟨rfl, hfits, hcut.reach hs hfree hx hrx⟩
  · rw [hcut, if_pos rfl]

theorem relink_of_ready (hx : x ∈ t.entries) (hy : y ∈ t.entries)
    (hino : y.2.ino = x.2.ino) (hk : x.2.kind ≠ .dir) (hne : x.1 ≠ []) {e : Entry}
    (hfirst : fs.get (root.path ++ y.1) = some e) (hry : Reach root fs y.1) (hrx : Reach root fs x.1)
    (hother : (fs.get (root.path ++ x.1)).map (·.ino) ≠ some e.ino)
    (hfits : fits (linkPrefix ++ x.1.getLastD []) = true) (hys : y.1 ≠ sibling x.1)
    (hfree : fs.kindAt (root.path ++ sibling x.1) ≠ some .dir) :
    (relink fs (root.path ++ y.1) (root.path ++ x.1)).ok = true ∧
      Moved root fs (relink fs (root.path ++ y.1) (root.path ++ x.1)).fs x.1 e := by
  have hstat := (hs.lstat_entry hy).2 ⟨hfirst, hry⟩
  have hother' : (fs.lstat (root.path ++ x.1)).map (·.ino) ≠ some e.ino := by
    intro h
    obtain ⟨d, hd, hdi⟩ := Option.map_eq_some_iff.1 h
    exact hother (by rw [((hs.lstat_entry hx).1 hd).1, Option.map_some, hdi])
  have hdir : e.kind ≠ .dir := by
    rw [hs.kinds y hy e hfirst, t.kinds y hy x hx hino]
    exact hk
  have hcut := cut_of_free hs hx hne hfits hrx hfree
  obtain ⟨fs₂, hlink⟩ := exists_link hs hx hy hne hcut hdir hfirst hry hrx hfits hys hfree
  have hvia := relinkVia_of_link hs hx hy hk hne hstat hother' hlink
  unfold relink
  rw [hstat]
  dsimp only
  rw [if_neg hother', if_neg hdir, sibling_append _ hne]
  exact ⟨hvia.1, hvia.2.1⟩

end

end Relink

end Dbr2.Fsmeta
