import Dbr2.Agent.SwapRules

/-! What RestoreComponents keeps while it goes forward.

`Head` holds between two swaps: both journals lead back and no swap is under way.
`Begun` and `Swapping` are its states within one swap. Whatever fails leaves
`Failing`, from where the rollback of the command starts; wherever the agent dies,
the journal on disk leads back. Every unfinished record of a slot of the command that
is looked at (`mine`) is its own. -/
namespace Dbr2.Agent
open Lib List

section Forward
variable (before : Tree) (slots : List Slot) (vols : String → Option Volume) (mine : List Slot)

structure Failing (d : Disk) : Prop where
  safe : Safe before slots mine d
  own : ∀ i r, d.mem.swaps[i]? = some r → r.state.finished = false → r.slot ∈ mine → i ∈ d.swaps

structure Head (d : Disk) : Prop extends Failing before slots mine d where
  idle : ∀ r ∈ d.mem.swaps, r.state ≠ .swapping
  volumes : d.volumes = vols

structure Begun (i : Nat) (s : Slot) (d : Disk) : Prop extends Head before slots vols mine d where
  record : ∃ r, d.mem.swaps[i]? = some r ∧ r.slot = s ∧ r.state = .staging
  untouched : Untouched before s d.fs
  alone : ∀ r ∈ d.mem.swaps, r.target = s.target → r.state ≠ .swapped

structure Swapping (i : Nat) (s : Slot) (d : Disk) : Prop extends
    Failing before slots mine d where
  record : ∃ r, d.mem.swaps[i]? = some r ∧ r.slot = s ∧ r.state = .swapping ∧ r.hadPrevious = before.has s.target
  others : ∀ j r, d.mem.swaps[j]? = some r → j ≠ i → r.state ≠ .swapping
  alone : ∀ r ∈ d.mem.swaps, r.target = s.target → r.state ≠ .swapped
  volumes : d.volumes = vols

variable {before slots vols mine}

variable {d : Disk} {I E C : Disk → Prop} {rs : List SwapRecord} {i : Nat} {s : Slot} {r : SwapRecord}
    {t : Tree}

theorem Safe.beside (h : Safe before slots mine d) (ht : Beside slots d.fs t) :
    Safe before slots mine {d with fs := t} := h.settles ht.settles

theorem Failing.beside (h : Failing before slots mine d)
    (ht : Beside slots d.fs t) : Failing before slots mine {d with fs := t} :=
  ⟨h.safe.beside ht, h.own⟩

theorem head_closed : Closed slots (Head before slots vols mine) :=
  fun _ _ h ht => ⟨h.toFailing.beside ht, h.idle, h.volumes⟩

theorem begun_closed (hs : s ∈ slots) : Closed slots (Begun before slots vols mine i s) := fun _ _ h ht =>
  ⟨head_closed _ _ h.toHead ht, h.record, ht.untouched hs h.untouched, h.alone⟩

/-- Kept when the journal in memory gets a new time stamp, and when it is saved. -/
def Savable (I : Disk → Prop) : Prop :=
  ∀ d n, I d → I {d with mem := d.mem.stamped n} ∧
    I {d with mem := d.mem.stamped n, journal := some (d.mem.stamped n)}

theorem Safe.save (h : Safe before slots mine d) (n : Nat) :
    Safe before slots mine {d with mem := d.mem.stamped n} ∧ Safe before slots mine
        {d with mem := d.mem.stamped n, journal := some (d.mem.stamped n)} := by
  refine ⟨⟨⟨h.undo, h.sighted, h.plain⟩, h.mem, fun hw => (h.memPlain hw).stamped n⟩,
    ⟨⟨h.mem, h.sighted, fun hw j hj => ?_⟩, h.mem, fun hw => (h.memPlain hw).stamped n⟩⟩
  cases hj
  exact (h.memPlain hw).stamped n

theorem failing_savable : Savable (Failing before slots mine) := fun _ n h =>
  ⟨⟨(h.safe.save n).1, h.own⟩, ⟨(h.safe.save n).2, h.own⟩⟩

theorem head_savable : Savable (Head before slots vols mine) := fun d n h =>
  ⟨⟨(failing_savable d n h.toFailing).1, h.idle, h.volumes⟩, ⟨(failing_savable d n h.toFailing).2, h.idle, h.volumes⟩⟩

theorem begun_savable (i : Nat) (s : Slot) : Savable (Begun before slots vols mine i s) :=
  fun d n h => ⟨⟨(head_savable d n h.toHead).1, h.record, h.untouched, h.alone⟩,
    ⟨(head_savable d n h.toHead).2, h.record, h.untouched, h.alone⟩⟩

theorem Savable.saveJournal (hI : Savable I) (hE : ∀ d, I d → E d)
    (hC : ∀ d, I d → C d) : OnDisk I saveJournal (fun _ => I) E C :=
  saveJournal_onDisk (fun d n h => ⟨(hI d n h).2, hC _ (hI d n h).2⟩)
    fun d n h => ⟨hE _ (hI d n h).1, hC _ (hI d n h).1⟩

theorem mayFail_keeps (e : Err) (hE : ∀ d, I d → E d) (hC : ∀ d, I d → C d) :
    OnDisk I (mayFail e) (fun _ => I) E C := mayFail_onDisk e (fun _ h => h) hE hC

theorem report_keeps (f : ComponentResult → ComponentResult) :
    OnDisk I (report f) (fun _ => I) E C := Triple.modify fun _ h => h

theorem autoResumed_keeps (id : String) (hC : ∀ d, I d → C d) : OnDisk I (autoResumed id) (fun _ => I) E C := by
  have hlock := (disk_timerInv I).lock (E := fun _ w => E w.disk)
  exact .bind (hlock.conseq (fun _ h => h) (fun _ _ h => h) (fun _ _ h => h) fun w h => hC w.disk h) fun _ =>
    Triple.get_keeps fun _ => .pure fun _ h => h

def Disk.opened (d : Disk) (id : String) : Journal := d.journal.getD (newJournal id)

theorem Disk.opened_swaps (d : Disk) (id : String) : (d.opened id).swaps = d.journaled := by
  unfold opened journaled
  cases d.journal <;> rfl

theorem Disk.opened_of_some {j : Journal} (h : d.journal = some j) (id : String) : d.opened id = j := by
  rw [opened, h]
  rfl

theorem Disk.opened_of_none (h : d.journal = none) (id : String) : d.opened id = newJournal id := by
  rw [opened, h]
  rfl

section Opening
variable {P E C : Disk → Prop}

theorem loadJournal_onDisk (hE : ∀ d, P d → E d) (hC : ∀ d, P d → C d) :
    OnDisk P loadJournal (fun j d => P d ∧ j = d.journal) E C := by
  refine .bind (mayFail_keeps _ hE hC) fun _ => ?_
  exact .get_bind fun w hw => Triple.pure fun _ h => by
    subst h
    exact ⟨hw, rfl⟩

theorem openJournal_triple {Q : Disk → Prop} {id : String} (hE : ∀ d, P d → E d)
    (hC : ∀ d, P d → C d) (hQ : ∀ d, P d → Q {d with mem := d.opened id}) :
    OnDisk P (openJournal id) (fun _ => Q) E C := by
  refine .bind (loadJournal_onDisk hE hC) fun j => Triple.of_forall fun w hw => ?_
  obtain ⟨hw, rfl⟩ := hw
  have hopen := hQ _ hw
  split
  · rename_i hj
    rw [Disk.opened_of_none hj] at hopen
    exact .modify fun _ h => h ▸ hopen
  rename_i j hj
  rw [Disk.opened_of_some hj] at hopen
  split
  · exact .throw fun _ h => h ▸ hE _ hw
  · exact .modify fun _ h => h ▸ hopen

end Opening

theorem Undoable.append {restored : List (Path × Tree)}
    (h : Undoable before slots restored rs t) (hs : r.slot ∈ slots)
    (hst : r.state = .staging) : Undoable before slots restored (rs ++ [r]) t := by
  have hmem {x : SwapRecord} (hx : x ∈ rs ++ [r]) : x ∈ rs ∨ x = r := by simpa using hx
  refine ⟨fun x hx => ?_, fun x hx hm => ?_, fun s hs => ?_, fun x hx hsw => ?_, fun x hx => ?_⟩
  · rcases hmem hx with hx | rfl
    · exact h.slot x hx
    · exact hs
  · rcases hmem hx with hx | rfl
    · exact h.had x hx hm
    · rw [hst] at hm
      cases hm
  · exact (h.pending s hs).imp_right fun ⟨hp, x, hx, hxs⟩ =>
      ⟨hp, x, mem_append_left _ hx, hxs⟩
  · rcases hmem hx with hx | rfl
    · exact h.content x hx hsw
    · rw [hst] at hsw
      cases hsw
  · rcases hmem hx with hx | rfl
    · exact h.uncommitted x hx
    · rw [hst]
      simp

theorem Head.untouched (h : Head before slots vols mine d) (hs : s ∈ slots)
    (halone : ∀ r ∈ d.mem.swaps, r.target = s.target → r.state ≠ .swapped) :
    Untouched before s d.fs := by
  rcases h.safe.mem.pending s hs with hu | ⟨-, r, hr, rfl, hm⟩
  · exact hu
  cases hst : r.state with
  | swapping => exact absurd hst (h.idle r hr)
  | swapped => exact absurd hst (halone r hr rfl)
  | _ =>
    rw [hst] at hm
    cases hm

theorem Head.begun (h : Head before slots vols mine d) (hs : s ∈ slots)
    (halone : ∀ r ∈ d.mem.swaps, r.target = s.target → r.state ≠ .swapped)
    (hr : r.slot = s) (hst : r.state = .staging) :
    Begun before slots vols mine d.mem.swaps.length s {d with
        mem := {d.mem with swaps := d.mem.swaps ++ [r]}
        swaps := d.swaps ++ [d.mem.swaps.length]} := by
  have hmem {x : SwapRecord} (hx : x ∈ d.mem.swaps ++ [r]) : x ∈ d.mem.swaps ∨ x = r := by
    simpa using hx
  refine ⟨⟨⟨⟨⟨h.safe.undo, h.safe.sighted, h.safe.plain⟩, h.safe.mem.append (hr ▸ hs) hst,
    fun hw => (h.safe.memPlain hw).withSwaps _⟩, fun i x hx hf hmine => ?_⟩,
    fun x hx => ?_, h.volumes⟩, ⟨r, by simp, hr, hst⟩, h.untouched hs halone, fun x hx => ?_⟩
  · by_cases hi : i < d.mem.swaps.length
    · rw [getElem?_append_left hi] at hx
      exact mem_append_left _ (h.own i x hx hf hmine)
    obtain ⟨hlt, -⟩ := List.getElem?_eq_some_iff.1 hx
    rw [length_append, length_singleton] at hlt
    obtain rfl : i = d.mem.swaps.length := by omega
    simp
  · rcases hmem hx with hx | rfl
    · exact h.idle x hx
    · rw [hst]
      simp
  · rcases hmem hx with hx | rfl
    · exact halone x hx
    · rw [hst]
      simp

theorem begin_onDisk (hl : Layout slots) (hs : s ∈ slots) (id component : String) (kind : SwapKind) :
    OnDisk (Head before slots vols mine) (begin id component kind s)
      (fun i => Begun before slots vols mine i s) (Failing before slots mine)
      (Recoverable before slots mine) := by
  refine .get_bind fun w hw => ?_
  split
  · exact .throw fun _ h => h ▸ hw.toFailing
  rename_i hany
  have halone : ∀ r ∈ w.disk.mem.swaps, r.target = s.target → r.state ≠ .swapped := by
    intro r hr ht hst
    exact hany (any_eq_true.2 ⟨r, hr, by simp [ht, hst]⟩)
  have hC : ∀ d, Begun before slots vols mine w.mem.swaps.length s d →
      Recoverable before slots mine d := fun _ h => h.safe.toRecoverable
  refine .bind (Q := fun _ x => Begun before slots vols mine w.mem.swaps.length s x.disk)
    (.modify fun x hx => ?_) fun _ => ?_
  · subst hx
    exact hw.begun hs halone rfl rfl
  refine .bind ((begun_savable _ s).saveJournal (fun _ h => h.toFailing) hC) fun _ => ?_
  refine .bind (Q := fun _ x => Begun before slots vols mine w.mem.swaps.length s x.disk)
    (((begun_closed hs).removeAll hC hl hs (.inl rfl)).mapError fun _ _ h => h.toFailing) fun _ => ?_
  exact .pure fun _ h => h

theorem placed_cons_self (p : Path) (t : Tree) (rs : List (Path × Tree)) : placed ((p, t) :: rs) p = t.get := by
  simp [placed]

theorem placed_cons_ne {p q : Path} (h : q ≠ p) (t : Tree) (rs : List (Path × Tree)) :
    placed ((p, t) :: rs) q = placed rs q := by
  simp [placed, Ne.symm h]

theorem Undoable.pend {restored restored' : List (Path × Tree)} {t' : Tree}
    (h : Undoable before slots restored rs t) (hrec : ∃ r ∈ rs, r.slot = s ∧ r.state.moved = true)
    (halone : ∀ r ∈ rs, r.target = s.target → r.state ≠ .swapped)
    (hothers : ∀ s' ∈ slots, s' ≠ s → t'.view s'.target = t.view s'.target ∧
      t'.view s'.previous = t.view s'.previous ∧
      placed restored' s'.target = placed restored s'.target)
    (hp : Pending before s t') : Undoable before slots restored' rs t' := by
  refine ⟨h.slot, h.had, fun s' hs' => ?_, fun r hr hst => ?_, h.uncommitted⟩
  · by_cases he : s' = s
    · subst he
      exact .inr ⟨hp, hrec⟩
    obtain ⟨hT, hP, -⟩ := hothers s' hs' he
    have hset : SlotSettles before restored s' t t' := .of_view hT hP
    rcases h.pending s' hs' with hu | ⟨hp', hr⟩
    · exact .inl (hset.untouched hu)
    · exact (hset.pending hp').symm.imp_right fun hp' => ⟨hp', hr⟩
  · have hne : r.slot ≠ s := fun he => halone r hr (congrArg Slot.target he) hst
    obtain ⟨hT, hP, hpl⟩ := hothers _ (h.slot r hr) hne
    have hc := (h.content r hr hst).congr hT hP
    exact fun hh hhp => (hc hh hhp).trans hpl.symm

/-- What the renames of a swap keep: the journal on disk is the one in memory, so
both say that the slot may be moved. -/
structure Moving (before : Tree) (slots : List Slot) (vols : String → Option Volume)
    (mine : List Slot) (i : Nat) (s : Slot) (d : Disk) : Prop extends
    Swapping before slots vols mine i s d where
  saved : d.journaled = d.mem.swaps

theorem Moving.pend (h : Moving before slots vols mine i s d) (restored : List (Path × Tree))
    (hothers : ∀ s' ∈ slots, s' ≠ s → t.view s'.target = d.fs.view s'.target ∧
      t.view s'.previous = d.fs.view s'.previous ∧
      placed restored s'.target = placed d.restored s'.target) (hp : Pending before s t) :
    Moving before slots vols mine i s {d with fs := t, restored := restored} := by
  have hrec : ∃ r ∈ d.mem.swaps, r.slot = s ∧ r.state.moved = true := by
    obtain ⟨r, hr, hslot, hst, -⟩ := h.record
    exact ⟨r, mem_of_getElem? hr, hslot, by rw [hst]; rfl⟩
  have hmem := h.safe.mem.pend hrec h.alone hothers hp
  have hdisk := h.saved ▸ hmem
  exact ⟨⟨⟨⟨⟨hdisk, h.safe.sighted, h.safe.plain⟩, hmem, h.safe.memPlain⟩, h.own⟩, h.record, h.others, h.alone, h.volumes⟩, h.saved⟩

section Renames
variable (hl : Layout slots) {s : Slot} (hs : s ∈ slots)
include hl hs

theorem Layout.view_rename_others {p q : Path} (hp : p ∈ s.all) (hq : q ∈ s.all) (t : Tree)
    {s' : Slot} (hs' : s' ∈ slots) (hne : s' ≠ s) :
    (t.rename p q).view s'.target = t.view s'.target ∧ (t.rename p q).view s'.previous = t.view s'.previous :=
  ⟨FileTree.view_rename_apart (hl.others hs hs' hne (by simp [Slot.all]) hp)
    (hl.others hs hs' hne (by simp [Slot.all]) hq),
    FileTree.view_rename_apart (hl.others hs hs' hne (by simp [Slot.all]) hp)
    (hl.others hs hs' hne (by simp [Slot.all]) hq)⟩

theorem Layout.pending_aside {t : Tree} (hu : Untouched before s t) (hc : canRename t s.target s.previous = true) :
    Pending before s (t.rename s.target s.previous) := by
  have hap := (hl.target_inner hs).2.1
  have hpar :=
    FileTree.hasParent_removeAll hap.1 (hasParent_of_canRename hc)
  refine ⟨fun _ => (FileTree.view_rename_target hpar).trans hu.target, fun hb => ?_⟩
  -- there was nothing to move
  have hnone : t.get s.target = none := by
    rw [FileTree.get_congr hu.target]
    simpa [FileTree.has] using hb
  simp [canRename, hnone] at hc

theorem Layout.pending_in {t : Tree} (hp : Pending before s t) : Pending before s (t.rename s.staging s.target) := by
  have hP : (t.rename s.staging s.target).view s.previous = t.view s.previous :=
    FileTree.view_rename_apart (hl.previous_inner hs).1 (hl.target_inner hs).2.1.symm
  exact ⟨fun hb => hP.trans (hp.had hb), fun hb => (FileTree.get_congr hP).trans (hp.hadNot hb)⟩

theorem moveIn_onDisk (id : String) (i : Nat) {had : Bool} (hhad : had = before.has s.target) :
    OnDisk (fun d => Moving before slots vols mine i s d ∧ Untouched before s d.fs) (moveIn id s had)
      (fun _ d => Moving before slots vols mine i s d ∧ d.fs.view s.target = placed d.restored s.target)
      (Failing before slots mine) (Recoverable before slots mine) := by
  refine .bind (Q := fun _ w => Moving before slots vols mine i s w.disk ∧
    Pending before s w.disk.fs) ?_ fun _ => ?_
  · refine .when (fun hh => ?_) fun hh w h => ⟨h.1, h.2.pending ?_⟩
    · refine .mapError (renameNoting_onDisk (g := fun w => w.note (.renamed id))
        (f := fun d => d) (fun _ => rfl) _ _
        (P := fun d => Moving before slots vols mine i s d ∧ Untouched before s d.fs)
        (R := fun _ d => Moving before slots vols mine i s d ∧ Pending before s d.fs)
        (E := Failing before slots mine) (C := Recoverable before slots mine)
        (fun d h hc => ?_) fun d h => ⟨h.1.toFailing, h.1.safe.toRecoverable⟩)
        (E := fun _ w => Failing before slots mine w.disk) fun _ _ h => h
      have hp := hl.pending_aside hs h.2 hc
      have hm := h.1.pend d.restored (fun s' hs' hne =>
        have hv := hl.view_rename_others hs (by simp [Slot.all]) (by simp [Slot.all]) d.fs hs' hne
        ⟨hv.1, hv.2, rfl⟩) hp
      exact ⟨⟨hm, hp⟩, hm.safe.toRecoverable⟩
    · rw [← hhad]
      simpa using hh
  · refine .mapError (renameNoting_onDisk (g := World.noteRestored id s)
      (f := fun d => {d with restored := (s.target, d.fs.sub s.staging) :: d.restored})
      (fun _ => rfl) _ _
      (P := fun d => Moving before slots vols mine i s d ∧ Pending before s d.fs)
      (R := fun _ d => Moving before slots vols mine i s d ∧ d.fs.view s.target = placed d.restored s.target)
      (E := Failing before slots mine) (C := Recoverable before slots mine)
      (fun d h hc => ?_) fun d h => ⟨h.1.toFailing, h.1.safe.toRecoverable⟩)
      (E := fun _ w => Failing before slots mine w.disk) fun _ _ h => h
    have hap := (hl.target_inner hs).1.symm
    have hpar :=
      FileTree.hasParent_removeAll hap.1 (hasParent_of_canRename hc)
    have hm := h.1.pend ((s.target, d.fs.sub s.staging) :: d.restored) (fun s' hs' hne =>
        have hv := hl.view_rename_others hs (by simp [Slot.all]) (by simp [Slot.all]) d.fs hs' hne
        have hT : s'.target ≠ s.target := fun he =>
          (hl.others hs hs' hne (p := s'.target) (q := s.target) (by simp [Slot.all])
            (by simp [Slot.all])).1 (he ▸ prefix_rfl)
        ⟨hv.1, hv.2, placed_cons_ne hT _ _⟩) (hl.pending_in hs h.2)
    refine ⟨⟨hm, ?_⟩, hm.safe.toRecoverable⟩
    rw [FileTree.view_rename_target hpar, placed_cons_self, FileTree.get_sub]

end Renames
theorem getElem?_modify_some {j : Nat} {x : SwapRecord}
    {f : SwapRecord → SwapRecord} (h : (rs.modify i f)[j]? = some x) :
    ∃ r, rs[j]? = some r ∧ x = if i = j then f r else r := by
  rw [getElem?_modify] at h
  cases hr : rs[j]? with
  | none =>
    rw [hr] at h
    cases h
  | some r =>
    rw [hr] at h
    refine ⟨r, rfl, ?_⟩
    split
    · simpa [*, eq_comm] using h
    · simpa [*, eq_comm] using h

theorem Failing.own_modify (h : Failing before slots mine d) (hi : d.mem.swaps[i]? = some r) (hr : r.state.finished = false)
    {f : SwapRecord → SwapRecord} (hslot : (f r).slot = r.slot) :
    ∀ j x, (d.mem.swaps.modify i f)[j]? = some x → x.state.finished = false → x.slot ∈ mine → j ∈ d.swaps := by
  intro j x hx hf hmine
  obtain ⟨y, hy, rfl⟩ := getElem?_modify_some hx
  by_cases hij : i = j
  · subst hij
    obtain rfl : r = y := Option.some.inj (hi.symm.trans hy)
    rw [if_pos rfl, hslot] at hmine
    exact h.own i r hi hr hmine
  · rw [if_neg hij] at hf hmine
    exact h.own j y hy hf hmine

theorem Begun.swapping (h : Begun before slots vols mine i s d) {had : Bool} (hhad : had = before.has s.target) :
    Swapping before slots vols mine i s {d with mem := {d.mem with
      swaps := d.mem.swaps.modify i (fun r => {r with hadPrevious := had, state := .swapping})}} := by
  obtain ⟨r, hr, rfl, hst⟩ := h.record
  have hmem : Undoable before slots d.restored (d.mem.swaps.modify i
      (fun r => {r with hadPrevious := had, state := .swapping})) d.fs :=
    h.safe.mem.modify hr rfl (fun _ => hhad) (fun hm => by rw [hst] at hm; cases hm)
      (fun hm => by cases hm) (fun hm => by cases hm)
  refine ⟨⟨⟨⟨h.safe.undo, h.safe.sighted, h.safe.plain⟩, hmem, fun hw => (h.safe.memPlain hw).withSwaps _⟩,
      h.own_modify hr (by rw [hst]; rfl) rfl⟩,
    ⟨{r with hadPrevious := had, state := .swapping}, ?_, rfl, rfl, hhad⟩,
    fun j x hx hne => ?_, fun x hx ht => ?_, h.volumes⟩
  · show (d.mem.swaps.modify i _)[i]? = _
    rw [getElem?_modify, hr]
    simp
  · obtain ⟨y, hy, rfl⟩ := getElem?_modify_some hx
    rw [if_neg (Ne.symm hne)]
    exact h.idle y (mem_of_getElem? hy)
  · rcases mem_modify hr hx with rfl | hx
    · simp
    · exact h.alone x hx ht

theorem Moving.head (h : Moving before slots vols mine i s d)
    (hc : d.fs.view s.target = placed d.restored s.target) :
    Head before slots vols mine {d with mem := {d.mem with
      swaps := d.mem.swaps.modify i (fun r => {r with state := .swapped})}} := by
  obtain ⟨r, hr, rfl, hst, hhad⟩ := h.record
  have hmem : Undoable before slots d.restored (d.mem.swaps.modify i (fun r => {r with state := .swapped})) d.fs :=
    h.safe.mem.modify hr rfl (fun _ => hhad) (fun _ => .inl rfl) (fun _ _ _ => hc) (fun hm => by cases hm)
  refine ⟨⟨⟨⟨h.safe.undo, h.safe.sighted, h.safe.plain⟩, hmem, fun hw => (h.safe.memPlain hw).withSwaps _⟩,
    h.own_modify hr (by rw [hst]; rfl) rfl⟩, fun x hx => ?_, h.volumes⟩
  obtain ⟨j, hj⟩ := mem_iff_getElem?.1 hx
  obtain ⟨y, hy, rfl⟩ := getElem?_modify_some hj
  split
  · simp
  · exact h.others j y hy (Ne.symm ‹_›)

/-- The journal says that the swap moves before anything is renamed. -/
theorem swap_onDisk (hl : Layout slots) (hs : s ∈ slots) (id : String) (i : Nat) :
    OnDisk (Begun before slots vols mine i s) (swap id i s)
      (fun _ => Head before slots vols mine) (Failing before slots mine)
      (Recoverable before slots mine) := by
  refine .bind (autoResumed_keeps id fun _ h => h.safe.toRecoverable) fun expired => ?_
  split
  · exact .throw fun _ h => h.toFailing
  refine .bind (Q := fun _ w => Begun before slots vols mine i s w.disk)
    (.modify fun _ h => h) fun _ => ?_
  refine .bind (pathExists_onDisk s.target (R := fun had d =>
    Begun before slots vols mine i s d ∧ had = before.has s.target) (fun _ h => h.safe.sighted) fun d h => ?_)
    fun had => ?_
  · exact ⟨h, has_congr h.untouched.target⟩
  refine .of_forall fun w hw => ?_
  obtain ⟨hw, hhad⟩ := hw
  refine .bind (Q := fun _ w => Swapping before slots vols mine i s w.disk ∧
    Untouched before s w.disk.fs) (.modify fun x hx => ?_) fun _ => ?_
  · subst hx
    exact ⟨hw.swapping hhad, hw.untouched⟩
  refine .bind (saveJournal_onDisk
    (P := fun d => Swapping before slots vols mine i s d ∧ Untouched before s d.fs)
    (R := fun _ d => Moving before slots vols mine i s d ∧ Untouched before s d.fs)
    (fun d n h => ?_) fun d n h => ?_)
    fun _ => .bind (moveIn_onDisk hl hs id i hhad) fun _ => ?_
  · have hf := (failing_savable d n h.1.toFailing).2
    exact ⟨⟨⟨⟨hf, h.1.record, h.1.others, h.1.alone, h.1.volumes⟩, rfl⟩, h.2⟩, hf.safe.toRecoverable⟩
  · have hf := (failing_savable d n h.1.toFailing).1
    exact ⟨hf, hf.safe.toRecoverable⟩
  refine .bind (Q := fun _ w => Head before slots vols mine w.disk)
    (.modify fun w h => h.1.head h.2) fun _ => ?_
  refine .bind (head_savable.saveJournal (fun _ h => h.toFailing)
    fun _ h => h.safe.toRecoverable) fun _ => .pure fun _ h => h

section Components
variable {repo : Repository} {c : RestoreCommand}

variable {I E C : Disk → Prop} {s : RestoreSpec}

theorem metadata_keeps (s : RestoreSpec) (hE : ∀ d, I d → E d)
    (hC : ∀ d, I d → C d) : OnDisk I (metadata s) (fun _ => I) E C := by
  have hmay (e : Err) : OnDisk I (mayFail e) (fun _ => I) E C := mayFail_keeps e hE hC
  have hmode : OnDisk I (setMode s.mode) (fun _ => I) E C := by
    unfold setMode
    split
    · exact .throw fun _ h => hE _ h
    · exact hmay _
  have hwhen {p : Prop} [Decidable p] {m : Prog Unit} (h : OnDisk I m (fun _ => I) E C) :
      OnDisk I (Act.when p m) (fun _ => I) E C := Triple.when (fun _ => h) fun _ _ h => h
  exact .bind (hwhen (hmay _)) fun _ => .bind (hwhen hmode) fun _ =>
    Triple.bind (hwhen (hmay _)) fun _ => hwhen (hmay _)

theorem getSnapshot_keeps (id : String) (hE : ∀ d, I d → E d)
    (hC : ∀ d, I d → C d) : OnDisk I (getSnapshot repo id) (fun _ => I) E C := by
  refine .bind (mayFail_keeps _ hE hC) fun _ => ?_
  split
  · exact .pure fun _ h => h
  · exact .throw fun _ h => hE _ h

theorem singleFile_keeps (s : RestoreSpec) (snap : Snapshot) (target : Path)
    (hE : ∀ d, I d → E d) (hC : ∀ d, I d → C d) :
    OnDisk I (singleFile s snap target) (fun _ => I) E C := by
  unfold singleFile
  split
  · split
    · exact .pure fun _ h => h
    · exact .throw fun _ h => hE _ h
  split
  · exact .pure fun _ h => h
  refine .get_keeps fun w => ?_
  split
  · exact .pure fun _ h => h
  refine .bind (mayFail_keeps _ hE hC) fun _ => ?_
  split
  · exact .pure fun _ h => h
  · exact .pure fun _ h => h

theorem rootFile_keeps (snap : Snapshot) (id name : String) (hE : ∀ d, I d → E d) (hC : ∀ d, I d → C d) :
    OnDisk I (rootFile snap id name) (fun _ => I) E C := by
  refine .bind (mayFail_keeps _ hE hC) fun _ => ?_
  split
  · exact .bind (mayFail_keeps _ hE hC) fun _ => .pure fun _ h => h
  · exact .throw fun _ h => hE _ h
  · exact .throw fun _ h => hE _ h

theorem stageContent_keeps (hI : Closed slots I) (hl : Layout slots)
    {slot : Slot} (hs : slot ∈ slots) (s : RestoreSpec) (snap : Snapshot) (file : Option String)
    (hE : ∀ d, I d → E d) (hC : ∀ d, I d → C d) :
    OnDisk I (stageContent s snap file slot.staging) (fun _ => I) E C := by
  have hstage (excl : Bool) (t : Tree) : OnDisk I (stage excl slot.staging t) (fun _ => I) E C :=
    (hI.stage hC hl hs excl t).conseq (fun _ h => h) (fun _ _ h => h) (fun _ _ h => hE _ h) (fun _ h => h)
  cases file with
  | some name =>
    exact .bind (rootFile_keeps snap _ name hE hC) fun content =>
      Triple.bind (hstage _ _) fun _ => report_keeps _
  | none => exact (hstage _ _).mapError fun _ _ h => h

/-- The paths of the swaps of a component, as the command finds the volumes. -/
def componentSlots (repo : Repository) (vols : String → Option Volume) (c : RestoreCommand)
    (s : RestoreSpec) : List Slot :=
  match s.kind with
  | .volume =>
    match vols s.volumeName with
    | some v => if v.mountpoint.abs then [paths c.restoreId v.mountpoint.clean ""] else []
    | none => []
  | .bindMount =>
    if s.targetPath.abs then [paths c.restoreId s.targetPath.clean (suffixOf s.targetPath.base)]
    else []
  | .config =>
    match repo s.snapshotId with
    | some snap => ((walkFiles snap.tree ["files"]).filter
        (fun f => (remap c.pathRemaps f.1).abs)).map (fun f => configSlot c f.1)
    | none => []
  | .other _ => []

structure Fits (repo : Repository) (vols : String → Option Volume) (slots : List Slot)
    (c : RestoreCommand) (s : RestoreSpec) : Prop where
  slots : ∀ slot ∈ componentSlots repo vols c s, slot ∈ slots
  volume : s.kind = .volume → (vols s.volumeName).isSome = true

theorem volume_onDisk (hfit : Fits repo vols slots c s) (hk : s.kind = .volume) :
    OnDisk (Head before slots vols mine) (volume s)
      (fun mp d => Head before slots vols mine d ∧ paths c.restoreId mp "" ∈ slots)
      (Failing before slots mine) (Recoverable before slots mine) := by
  have hE : ∀ d, Head before slots vols mine d → Failing before slots mine d :=
    fun _ h => h.toFailing
  have hC : ∀ d, Head before slots vols mine d → Recoverable before slots mine d :=
    fun _ h => h.safe.toRecoverable
  unfold volume
  split
  · exact .throw fun _ h => hE _ h
  refine .bind (mayFail_keeps _ hE hC) fun _ => ?_
  refine .bind (Q := fun v w => Head before slots vols mine w.disk ∧
    vols s.volumeName = some v) ?_ fun v => Triple.of_forall fun w hw => ?_
  · refine .bind (Q := fun v w => Head before slots vols mine w.disk ∧
      v = vols s.volumeName) ?_ fun v => Triple.of_forall fun w hw => ?_
    · refine .bind (mayFail_keeps _ hE hC) fun _ => ?_
      exact .get_bind fun w hw => Triple.pure fun _ h => by
        subst h
        exact ⟨hw, congrFun hw.volumes _⟩
    · obtain ⟨hw, rfl⟩ := hw
      obtain ⟨v, hv⟩ := Option.isSome_iff_exists.1 (hfit.volume hk)
      rw [hv]
      exact .pure fun _ h => h ▸ ⟨hw, rfl⟩
  · obtain ⟨hw, hv⟩ := hw
    split
    · rename_i habs
      refine .pure fun _ h => h ▸ ⟨hw, hfit.slots _ ?_⟩
      simp [componentSlots, hk, hv, habs]
    · exact .throw fun _ h => h ▸ hE _ hw

section

variable (hl : Layout slots)
include hl

theorem resolveTarget_onDisk (hfit : Fits repo vols slots c s) (hk : s.kind = .volume ∨ s.kind = .bindMount) :
    OnDisk (Head before slots vols mine) (resolveTarget s)
      (fun p d => Head before slots vols mine d ∧ paths c.restoreId p.1 p.2 ∈ slots)
      (Failing before slots mine) (Recoverable before slots mine) := by
  unfold resolveTarget
  split
  · exact .bind (volume_onDisk hfit ‹_›) fun mp => Triple.pure fun _ h => h
  rename_i hv
  have hb := hk.resolve_left hv
  split
  · exact .throw fun _ h => h.toFailing
  rename_i habs
  have hslot : paths c.restoreId s.targetPath.clean (suffixOf s.targetPath.base) ∈ slots := by
    refine hfit.slots _ ?_
    have habs : s.targetPath.abs = true := by simpa using habs
    simp [componentSlots, hb, habs]
  have hparents := Closed.ensureParents (I := Head before slots vols mine)
    (C := Recoverable before slots mine) head_closed (fun _ h => h.safe.toRecoverable) hl hslot
  exact .bind (hparents.mapError fun _ _ h => h.toFailing) fun _ =>
    Triple.pure fun _ h => ⟨h, hslot⟩

theorem filesystem_onDisk (hfit : Fits repo vols slots c s) (hk : s.kind = .volume ∨ s.kind = .bindMount) :
    OnDisk (Head before slots vols mine) (filesystem repo c.restoreId s)
      (fun _ => Head before slots vols mine) (Failing before slots mine)
      (Recoverable before slots mine) := by
  have hE : ∀ d, Head before slots vols mine d → Failing before slots mine d :=
    fun _ h => h.toFailing
  have hC : ∀ d, Head before slots vols mine d → Recoverable before slots mine d :=
    fun _ h => h.safe.toRecoverable
  refine .bind (resolveTarget_onDisk hl hfit hk) fun p => Triple.of_forall fun w hw => ?_
  rcases p with ⟨target, suffix⟩
  obtain ⟨hw, hslot⟩ := hw
  refine .pre (A := fun w => Head before slots vols mine w.disk) ?_ fun _ h => h ▸ hw
  refine .bind (report_keeps _) fun _ => .bind (getSnapshot_keeps _ hE hC) fun snap => ?_
  refine .bind (report_keeps _) fun _ =>
    Triple.bind (singleFile_keeps s snap target hE hC) fun file => ?_
  refine .bind (mayFail_keeps _ hE hC) fun _ =>
    Triple.bind (begin_onDisk hl hslot c.restoreId s.name _) fun i => ?_
  have hE' : ∀ d, Begun before slots vols mine i (paths c.restoreId target suffix) d →
      Failing before slots mine d := fun _ h => h.toFailing
  have hC' : ∀ d, Begun before slots vols mine i (paths c.restoreId target suffix) d →
      Recoverable before slots mine d := fun _ h => h.safe.toRecoverable
  refine .bind (stageContent_keeps (begun_closed hslot) hl hslot s snap file hE' hC') fun _ => ?_
  refine .bind (metadata_keeps s hE' hC') fun _ =>
    Triple.bind (swap_onDisk hl hslot c.restoreId i) fun had => ?_
  exact .when (fun _ => report_keeps _) fun _ _ h => h

theorem configFile_onDisk (s : RestoreSpec) {f : Path × String}
    (hslot : (remap c.pathRemaps f.1).abs = true → configSlot c f.1 ∈ slots) :
    OnDisk (Head before slots vols mine) (configFile c s f)
      (fun _ => Head before slots vols mine) (Failing before slots mine)
      (Recoverable before slots mine) := by
  unfold configFile
  split
  · exact .throw fun _ h => h.toFailing
  rename_i habs
  have hs := hslot (by simpa using habs)
  have hparents := Closed.ensureParents (I := Head before slots vols mine)
    (C := Recoverable before slots mine) head_closed (fun _ h => h.safe.toRecoverable) hl hs
  refine .bind (hparents.mapError fun _ _ h => h.toFailing) fun _ =>
    Triple.bind (begin_onDisk hl hs c.restoreId s.name .file) fun i => ?_
  have hE : ∀ d, Begun before slots vols mine i (configSlot c f.1) d →
      Failing before slots mine d := fun _ h => h.toFailing
  have hC : ∀ d, Begun before slots vols mine i (configSlot c f.1) d →
      Recoverable before slots mine d := fun _ h => h.safe.toRecoverable
  have hstage := ((begun_closed hs).stage hC hl hs true (.ofFile f.2)).conseq (fun _ h => h)
    (fun _ _ h => h) (fun _ _ h => hE _ h) (fun _ h => h)
  exact .bind (mayFail_keeps _ hE hC) fun _ => .bind hstage fun _ =>
    Triple.bind (swap_onDisk hl hs c.restoreId i) fun _ => report_keeps _

theorem config_onDisk (hfit : Fits repo vols slots c s) (hk : s.kind = .config) :
    OnDisk (Head before slots vols mine) (config repo c s)
      (fun _ => Head before slots vols mine) (Failing before slots mine)
      (Recoverable before slots mine) := by
  refine .bind (mayFail_keeps _ (fun _ h => h.toFailing) fun _ h => h.safe.toRecoverable) fun _ => ?_
  split
  · exact .throw fun _ h => h.toFailing
  rename_i snap hsnap
  refine .each_keeps fun f hf => configFile_onDisk hl s fun habs => hfit.slots _ ?_
  simp only [componentSlots, hk, hsnap, mem_map, mem_filter]
  exact ⟨f, ⟨hf, habs⟩, rfl⟩

theorem component_onDisk (hfit : Fits repo vols slots c s) :
    OnDisk (Head before slots vols mine) (component repo c s)
      (fun _ => Head before slots vols mine) (Failing before slots mine)
      (Recoverable before slots mine) := by
  unfold component
  split
  · exact .throw fun _ h => h.toFailing
  split
  · exact .bind (filesystem_onDisk hl hfit (.inl ‹_›)) fun _ => report_keeps _
  · exact .bind (filesystem_onDisk hl hfit (.inr ‹_›)) fun _ => report_keeps _
  · exact .bind (config_onDisk hl hfit ‹_›) fun _ => report_keeps _
  · exact report_keeps _

theorem restoreLoop_onDisk (ss : List RestoreSpec) (hfit : ∀ s ∈ ss, Fits repo vols slots c s) :
    OnDisk (Head before slots vols mine) (restoreLoop repo c ss)
      (fun _ => Failing before slots mine) E (Recoverable before slots mine) := by
  induction ss with
  | nil => exact .pure fun _ h => h.toFailing
  | cons s ss ih =>
    refine .bind (report_keeps _) fun _ => ?_
    refine .bind (component_onDisk hl (hfit s mem_cons_self)).attempted fun r => ?_
    cases r with
    | error e =>
      exact .get_keeps fun _ => .pure fun _ h => h
    | ok _ =>
      refine .get_keeps fun _ => ?_
      exact .bind (ih fun x hx => hfit x (mem_cons_of_mem _ hx)) fun _ =>
        Triple.pure fun _ h => h

end

theorem Left.untouched {ss : List Slot} {d : Disk} (h : Left before ss [] d) : ∀ s ∈ ss, Untouched before s d.fs :=
  fun s hs => (h s hs).resolve_right fun ⟨_, hi, _⟩ => by cases hi

theorem saveAfter_onDisk (es : List Err) (ss : List Slot) :
    OnDisk (fun d => Safe before slots mine d ∧ (es = [] → ∀ s ∈ ss, Untouched before s d.fs)) (saveAfter es)
      (fun es d => Safe before slots mine d ∧ (es = [] → ∀ s ∈ ss, Untouched before s d.fs)) E
      (Recoverable before slots mine) := by
  have hsave : Savable (fun d => Safe before slots mine d ∧ (es = [] → ∀ s ∈ ss, Untouched before s d.fs)) :=
    fun d n h => ⟨⟨(h.1.save n).1, h.2⟩, ⟨(h.1.save n).2, h.2⟩⟩
  refine .bind (.attempt (hsave.saveJournal (E := Safe before slots mine)
    (C := Recoverable before slots mine) (fun _ h => h.1) (fun _ h => h.1.toRecoverable))
    (R := fun r w => Safe before slots mine w.disk ∧ (r.isOk = true → es = [] →
      ∀ s ∈ ss, Untouched before s w.disk.fs))
    (fun _ _ h => ⟨h.1, fun _ => h.2⟩) (fun _ _ h => ⟨h, fun hr => by cases hr⟩)) fun r => ?_
  cases r with
  | ok _ => exact .pure fun _ h => ⟨h.1, h.2 rfl⟩
  | error e => exact .pure fun _ h => ⟨h.1, fun he => by simp at he⟩

theorem Disk.opened_cases {d : Disk} {P : Journal → Prop} (h : ∀ j, d.journal = some j → P j)
    {id : String} (hnew : P (newJournal id)) : P (d.opened id) := by
  unfold opened
  cases hj : d.journal with
  | none => exact hnew
  | some j => exact h j hj

theorem newJournal_plain (id : String) : (newJournal id).Plain := ⟨rfl, rfl, rfl, rfl⟩

theorem Recoverable.opened {d : Disk} (h : Recoverable before slots mine d) (id : String) :
    Safe before slots mine {d with mem := d.opened id} :=
  ⟨⟨h.undo, h.sighted, h.plain⟩, (d.opened_swaps id).symm ▸ h.undo,
    fun hw => Disk.opened_cases (h.plain hw) (newJournal_plain id)⟩

variable (before slots vols mine) in
/-- The journal leads back, and has no swap at a slot of the command to undo. -/
structure Attached (d : Disk) : Prop extends Recoverable before slots mine d where
  volumes : d.volumes = vols
  done : ∀ r ∈ d.journaled, r.slot ∈ mine → r.state.finished = true

variable (before slots vols mine) in
/-- `Attached` with the journal loaded; the swaps under way are among these places. -/
structure Reopened (is : List Nat) (d : Disk) : Prop extends Safe before slots mine d where
  volumes : d.volumes = vols
  done : ∀ r ∈ d.journaled, r.slot ∈ mine → r.state.finished = true
  memDone : ∀ r ∈ d.mem.swaps, r.slot ∈ mine → r.state.finished = true
  under : ∀ i r, d.mem.swaps[i]? = some r → r.state = .swapping → i ∈ is

theorem Reopened.attached {is : List Nat} {d : Disk} (h : Reopened before slots vols mine is d) :
    Attached before slots vols mine d := ⟨h.toRecoverable, h.volumes, h.done⟩

theorem Attached.untouched {d : Disk} (h : Attached before slots vols mine d) {s : Slot} (hs : s ∈ mine) (hslot : s ∈ slots) :
    Untouched before s d.fs := by
  refine (h.undo.pending s hslot).resolve_right ?_
  rintro ⟨-, r, hr, rfl, hm⟩
  have hf := h.done r hr hs
  cases hst : r.state <;> simp_all [SwapState.moved, SwapState.finished]

theorem reopened_savable : Savable (Reopened before slots vols mine []) := fun _ n h =>
  ⟨⟨(h.toSafe.save n).1, h.volumes, h.done, h.memDone, h.under⟩,
    ⟨(h.toSafe.save n).2, h.volumes, h.memDone, h.memDone, h.under⟩⟩

theorem undoInterrupted_onDisk (hl : Layout slots) (i : Nat) (is : List Nat) :
    OnDisk (Reopened before slots vols mine (i :: is)) (undoInterrupted i)
      (fun _ => Reopened before slots vols mine is) (Attached before slots vols mine)
      (Recoverable before slots mine) := by
  have hskip {d : Disk} (h : Reopened before slots vols mine (i :: is) d)
      (hi : ∀ r, d.mem.swaps[i]? = some r → r.state ≠ .swapping) : Reopened before slots vols mine is d :=
    ⟨h.toSafe, h.volumes, h.done, h.memDone, fun j r hr hst =>
      (mem_cons.1 (h.under j r hr hst)).resolve_left fun he => hi r (he ▸ hr) hst⟩
  refine .get_bind fun w hw => ?_
  split
  · rename_i hnone
    refine .pure fun _ h => h ▸ hskip hw fun r hr => ?_
    cases hnone.symm.trans hr
  rename_i r hr
  refine .when (fun _ => ?_) fun hst x hx => ?_
  · have hundo := undoSwapFor_onDisk hl (fun target => "undo interrupted swap of " ++ target ++ ": ")
      i (P := Reopened before slots vols mine (i :: is)) (fun _ h => h.toSafe)
      (Q := Reopened before slots vols mine is) (E := Attached before slots vols mine) (fun D d hD h => ?_)
      fun D d hD h => ⟨(h.safe hD.toSafe).toRecoverable, by rw [h.eq]; exact hD.volumes,
        by rw [h.eq]; exact hD.done⟩
    · refine .bind (.mapError (hundo.pre fun _ h => h ▸ hw) fun _ _ h => h) fun _ =>
        Triple.pure fun _ h => h
    have hof {j : Nat} {x : SwapRecord} (hx : d.mem.swaps[j]? = some x) := h.getElem? hx
    refine ⟨h.safe hD.toSafe, by rw [h.eq]; exact hD.volumes, by rw [h.eq]; exact hD.done,
      fun x hx hs => ?_, fun j x hx hst => ?_⟩
    · obtain ⟨j, hj⟩ := mem_iff_getElem?.1 hx
      obtain ⟨y, hy, rfl⟩ := hof hj
      split
      · rfl
      · rw [if_neg ‹_›] at hs
        exact hD.memDone y (mem_of_getElem? hy) hs
    · obtain ⟨y, hy, rfl⟩ := hof hx
      by_cases hij : i = j
      · cases hf : y.state.finished <;> simp_all [SwapState.finished]
      · rw [if_neg fun he => hij he.1] at hst
        exact (mem_cons.1 (hD.under j y hy hst)).resolve_left (Ne.symm hij)
  · subst hx
    refine hskip hw fun y hy => ?_
    obtain rfl : r = y := Option.some.inj (hr.symm.trans hy)
    exact fun he => hst (.inr he)

section Command
variable (hl : Layout slots) (hmine : ∀ s ∈ mine, s ∈ slots)
include hl hmine

theorem rollback_onDisk : OnDisk (Failing before slots mine) rollback
      (fun es d => Safe before slots mine d ∧ (es = [] → ∀ s ∈ mine, Untouched before s d.fs)) E
      (Recoverable before slots mine) := by
  refine .get_bind fun w hw => ?_
  have hleft : Left before mine w.swaps.reverse w.disk :=
    fun s hs => (hw.safe.mem.pending s (hmine s hs)).imp_right fun ⟨_, r, hr, hslot, hm⟩ => by
      obtain ⟨i, hi⟩ := mem_iff_getElem?.1 hr
      have hf : r.state.finished = false := by
        cases hst : r.state <;> simp_all [SwapState.moved, SwapState.finished]
      exact ⟨i, mem_reverse.2 (hw.own i r hi hf (hslot ▸ hs)), r, hi, hslot, hm⟩
  refine .bind ((undoAll_onDisk hl _ _ hmine).pre fun _ h => ?_) fun p => ?_
  · subst h
    exact ⟨hw.safe, hleft⟩
  exact (saveAfter_onDisk p.2 mine).pre fun _ h => ⟨h.1, fun he => (h.2 he).untouched⟩

theorem restoreLocked_onDisk (hfit : ∀ s ∈ c.components, Fits repo vols slots c s) :
    OnDisk (Attached before slots vols mine) (restoreLocked repo c)
      (fun p d => Recoverable before slots mine d ∧
        ∀ f, p.2 = some f → f.rollback = [] → ∀ s ∈ mine, Untouched before s d.fs)
      (Attached before slots vols mine) (Recoverable before slots mine) := by
  have hE : ∀ d, Reopened before slots vols mine [] d → Attached before slots vols mine d := fun _ h => h.attached
  have hC : ∀ d, Reopened before slots vols mine [] d → Recoverable before slots mine d := fun _ h => h.toRecoverable
  refine .bind (openJournal_triple (fun _ h => h) (fun _ h => h.toRecoverable)
    (Q := fun d => Reopened before slots vols mine (List.range d.mem.swaps.length) d) fun d h => ?_) fun _ => ?_
  · have hmem := d.opened_swaps c.restoreId
    exact ⟨h.toRecoverable.opened _, h.volumes, h.done, hmem.symm ▸ h.done,
      fun i r hr _ => mem_range.2 (List.getElem?_eq_some_iff.1 hr).1⟩
  refine .bind (.get (R := fun w w' =>
    Reopened before slots vols mine (List.range w'.mem.swaps.length) w'.disk ∧ w = w') fun _ h => ⟨h, rfl⟩) fun w => ?_
  refine .bind ((Triple.each (I := fun is (w : World) => Reopened before slots vols mine is w.disk)
    (undoInterrupted_onDisk hl) _).pre fun x h => h.2 ▸ h.1) fun _ => ?_
  refine .bind (reopened_savable.saveJournal hE hC) fun _ =>
    Triple.bind (mayFail_keeps _ hE hC) fun _ => ?_
  refine .bind (Q := fun _ w => Head before slots vols mine w.disk) (.modify fun w h => ?_) fun _ => ?_
  · refine ⟨⟨⟨⟨h.undo, h.sighted, h.plain⟩, h.mem, h.memPlain⟩, fun i r hr hf hs => ?_⟩, fun r hr hst => ?_, h.volumes⟩
    · cases hf.symm.trans (h.memDone r (mem_of_getElem? hr) hs)
    · obtain ⟨i, hi⟩ := mem_iff_getElem?.1 hr
      cases h.under i r hi hst
  refine .bind (restoreLoop_onDisk hl c.components hfit) fun p => ?_
  rcases p with ⟨rs, failure⟩
  cases failure with
  | none => exact .pure fun _ h => ⟨h.safe.toRecoverable, fun f hf => by cases hf⟩
  | some e =>
    refine .bind (rollback_onDisk hl hmine) fun es => Triple.pure fun w h =>
      ⟨h.1.toRecoverable, fun f hf hes => ?_⟩
    obtain rfl := Option.some.inj hf
    exact h.2 hes

/-- The command from any host that earlier restores have left. -/
theorem restoreComponents_onDisk (hfit : ∀ s ∈ c.components, Fits repo vols slots c s) :
    OnDisk (Attached before slots vols mine) (restoreComponents repo c)
      (fun p d => Recoverable before slots mine d ∧
        ∀ f, p.2 = some f → f.rollback = [] → ∀ s ∈ mine, Untouched before s d.fs)
      (Attached before slots vols mine) (Recoverable before slots mine) := by
  unfold restoreComponents
  split
  · exact .throw fun _ h => h
  split
  · exact .throw fun _ h => h
  split
  · exact .throw fun _ h => h
  exact .bind (mayFail_keeps _ (fun _ h => h) fun _ h => h.toRecoverable) fun _ =>
    Triple.bind (mayFail_keeps _ (fun _ h => h) fun _ h => h.toRecoverable) fun _ =>
    restoreLocked_onDisk hl hmine hfit

end Command

end Components
end Forward
end Dbr2.Agent
