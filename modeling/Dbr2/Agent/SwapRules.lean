import Dbr2.Agent.LeaseRules
import Dbr2.Agent.Restore

/-! What undoing swaps keeps and brings about.

A restore works on slots: a target and the three paths beside it. Against the file system `before`
the restore, a slot is `Untouched`, or `Pending`: what its target held stands at its previous path.
A list of records is `Undoable` when every slot that is not untouched is pending and has a record
that says so; undoing a record keeps every such list undoable, whether it ends, fails or dies
half-way, and leaves its slot untouched when it ends. -/
namespace Dbr2.Agent
open Lib List

structure Disk where
  fs : Tree
  volumes : String → Option Volume
  journal : Option Journal
  mem : Journal
  swaps : List Nat
  restored : List (Path × Tree)
  /-- No `os.Lstat` is to fail on a path that is there. -/
  sighted : Bool

def World.disk (w : World) : Disk :=
  ⟨w.fs, w.volumes, w.journal, w.mem, w.swaps, w.restored, w.lstats.all (!·)⟩

def Disk.journaled (d : Disk) : List SwapRecord := (d.journal.map (·.swaps)).getD []

/-- The lease manager does not touch the restore's part of the host. -/
theorem disk_timerInv (P : Disk → Prop) : TimerInv (fun w => P w.disk) where
  tick _ _ h := h
  disarm _ _ h := h
  save _ h := h
  expire _ _ h _ _ _ _ := h
  warn _ _ h _ _ := h
  back _ _ _ _ h _ := h
  next _ _ _ h _ _ := h
  ended _ _ _ _ h _ _ := h
  gone _ _ h _ _ := h
  failed _ _ h _ := h

theorem Draw.before_disk (d : Draw) (w : World) : (d.before w).disk = w.disk :=
  (disk_timerInv (· = w.disk)).before rfl d

abbrev OnDisk {α : Type} (P : Disk → Prop) (m : Prog α) (Q : α → Disk → Prop) (E C : Disk → Prop) :
    Prop :=
  Triple (fun w => P w.disk) m (fun a w => Q a w.disk) (fun _ w => E w.disk) (fun w => C w.disk)

section Steps
variable {α : Type} {P : Disk → Prop} {Q : α → Disk → Prop} {E C : Disk → Prop}

theorem OnDisk.hostStep {f : Draw → World → Outcome Err α × World}
    (h : ∀ d w, P w.disk → (f d w).1.meets (fun a w => Q a w.disk) (fun _ w => E w.disk)
      (fun w => C w.disk) (f d w).2) : OnDisk P (hostStep f) Q E C :=
  Triple.prim fun d w hw => h d (d.before w) (by rw [d.before_disk]; exact hw)

variable {R : Unit → Disk → Prop}

theorem mayFail_onDisk (e : Err) (hok : ∀ d, P d → R () d)
    (herr : ∀ d, P d → E d) (hC : ∀ d, P d → C d) : OnDisk P (mayFail e) R E C := by
  refine OnDisk.hostStep fun d w h => ?_
  split
  · exact Draw.meets_ends (hok _ h) (hC _ h)
  · exact Draw.meets_ends (herr _ h) (hC _ h)

theorem sighted_of {w : World} (h : ∀ b ∈ w.lstats, b = false) : w.disk.sighted = true :=
  all_eq_true.2 fun b hb => by rw [h b hb]; rfl

theorem World.disk_looked {w : World} (h : w.disk.sighted = true) :
    w.lstats.headD false = false ∧ World.disk {w with lstats := w.lstats.tail} = w.disk := by
  have hall : w.lstats.all (!·) = true := h
  cases hl : w.lstats with
  | nil => simp [World.disk, hl]
  | cons b bs =>
    rw [hl] at hall
    simp_all [World.disk]

theorem pathExists_onDisk (p : Path) {R : Bool → Disk → Prop} (hs : ∀ d, P d → d.sighted = true)
    (h : ∀ d, P d → R (d.fs.has p) d) : OnDisk P (pathExists p) R E C := by
  refine .get_bind fun w hw => ?_
  obtain ⟨hsee, hdisk⟩ := World.disk_looked (hs _ hw)
  have hR := h _ hw
  split
  · rename_i hhas
    refine .bind (Q := fun _ x => x.disk = w.disk) (.modify fun x hx => hx ▸ hdisk) fun _ =>
      Triple.pure fun x hx => ?_
    rw [show FileTree.has w.disk.fs p = true from hhas] at hR
    rw [hx, hsee]
    exact hR
  · rename_i hhas
    have hhas : FileTree.has w.fs p = false := by simpa using hhas
    rw [show FileTree.has w.disk.fs p = false from hhas] at hR
    exact .pure fun x hx => hx ▸ hR

theorem removeAll_onDisk (p : Path)
    (hok : ∀ d, P d → R () {d with fs := d.fs.removeAll p} ∧ C {d with fs := d.fs.removeAll p})
    (hfail : ∀ d rs, P d → E {d with fs := d.fs.removeSome p rs} ∧
      C {d with fs := d.fs.removeSome p rs}) : OnDisk P (removeAll p) R E C := by
  refine OnDisk.hostStep fun d w h => ?_
  split
  · exact Draw.meets_ends (hok _ h).1 (hok _ h).2
  · exact Draw.meets_ends (hfail _ _ h).1 (hfail _ _ h).2

theorem renameNoting_onDisk {g : World → World} {f : Disk → Disk} (hnote : ∀ w, (g w).disk = f w.disk) (p q : Path)
    (hok : ∀ d, P d → canRename d.fs p q = true →
      R () {f d with fs := d.fs.rename p q} ∧ C {f d with fs := d.fs.rename p q})
    (hfail : ∀ d, P d → E d ∧ C d) : OnDisk P (renameNoting g p q) R E C := by
  refine OnDisk.hostStep fun d w h => ?_
  split
  · rename_i hc
    have hd : World.disk {g w with fs := w.fs.rename p q} = {f w.disk with fs := w.disk.fs.rename p q} := by
      rw [← hnote w]
      rfl
    obtain ⟨hR, hC⟩ := hok _ h (Bool.and_eq_true _ _ ▸ hc).1
    rw [← hd] at hR hC
    exact Draw.meets_ends hR hC
  · exact Draw.meets_ends (hfail _ h).1 (hfail _ h).2

def Journal.stamped (j : Journal) (now : Nat) : Journal := {j with updatedAt := now}

theorem saveJournal_onDisk
    (hok : ∀ d n, P d → R () {d with mem := d.mem.stamped n, journal := some (d.mem.stamped n)} ∧
      C {d with mem := d.mem.stamped n, journal := some (d.mem.stamped n)})
    (hfail : ∀ d n, P d → E {d with mem := d.mem.stamped n} ∧ C {d with mem := d.mem.stamped n}) :
    OnDisk P saveJournal R E C := by
  refine OnDisk.hostStep fun d w h => ?_
  split
  · obtain ⟨hR, hC⟩ := hok _ w.now h
    exact Draw.meets_ends hR hC
  · obtain ⟨hE, hC⟩ := hfail _ w.now h
    exact Draw.meets_ends hE hC

end Steps

def SwapRecord.slot (r : SwapRecord) : Slot := ⟨r.target, r.staging, r.previous, r.discard⟩

def Slot.all (s : Slot) : List Path := [s.target, s.staging, s.previous, s.discard]

/-- No path of a slot is at or below another of it, or one of another slot. -/
structure Layout (slots : List Slot) : Prop where
  inner : ∀ s ∈ slots, s.all.Pairwise Apart
  outer : ∀ s ∈ slots, ∀ s' ∈ slots, s ≠ s' → ∀ p ∈ s.all, ∀ q ∈ s'.all, Apart p q

instance (slots : List Slot) : Decidable (Layout slots) :=
  decidable_of_iff ((∀ s ∈ slots, s.all.Pairwise Apart) ∧
    ∀ s ∈ slots, ∀ s' ∈ slots, s ≠ s' → ∀ p ∈ s.all, ∀ q ∈ s'.all, Apart p q)
    ⟨fun h => ⟨h.1, h.2⟩, fun h => ⟨h.inner, h.outer⟩⟩

def placed (rs : List (Path × Tree)) (p : Path) : Path → Option (Entry String) :=
  match rs.find? (fun r => decide (r.1 = p)) with
  | some r => r.2.get
  | none => FileTree.absent

section Slots
variable (before : Tree) (slots : List Slot) (restored : List (Path × Tree))

structure Untouched (s : Slot) (t : Tree) : Prop where
  target : t.view s.target = before.view s.target
  previous : t.get s.previous = none

structure Pending (s : Slot) (t : Tree) : Prop where
  had : before.has s.target = true → t.view s.previous = before.view s.target
  hadNot : before.has s.target = false → t.get s.previous = none

/-- Where a swap shows, the target holds what it put in place: the target is there,
and so is the previous path when there was something to move aside. -/
def Content (s : Slot) (t : Tree) : Prop :=
  t.has s.target = true → (before.has s.target = true → t.has s.previous = true) →
    t.view s.target = placed restored s.target

/-- From `t` to `t'` an untouched slot stays untouched, a pending one pending unless it
becomes untouched, and the content of a swapped one is not spoiled. -/
structure SlotSettles (s : Slot) (t t' : Tree) : Prop where
  untouched : Untouched before s t → Untouched before s t'
  pending : Pending before s t → Pending before s t' ∨ Untouched before s t'
  content : Content before restored s t → Content before restored s t'

def Settles (t t' : Tree) : Prop := ∀ s ∈ slots, SlotSettles before restored s t t'

/-- From `t` to `t'` nothing shows at a target or a previous path. -/
def Beside (t t' : Tree) : Prop :=
  ∀ s ∈ slots, t'.view s.target = t.view s.target ∧ t'.view s.previous = t.view s.previous

variable {before slots restored}

theorem Settles.refl (t : Tree) : Settles before slots restored t t :=
  fun _ _ => ⟨fun h => h, fun h => .inl h, fun h => h⟩

variable {rs : List SwapRecord} {i : Nat} {p : Path} {s : Slot} {r : SwapRecord} {f : SwapRecord → SwapRecord}
    {t t' : Tree}

theorem Settles.trans {t'' : Tree} (h : Settles before slots restored t t')
    (h' : Settles before slots restored t' t'') : Settles before slots restored t t'' := fun s hs =>
  ⟨fun hu => (h' s hs).untouched ((h s hs).untouched hu),
    fun hp => ((h s hs).pending hp).elim (h' s hs).pending fun hu => .inr ((h' s hs).untouched hu),
    fun hc => (h' s hs).content ((h s hs).content hc)⟩

theorem has_congr (h : t'.view p = t.view p) : t'.has p = t.has p := by
  rw [FileTree.has, FileTree.get_congr h, FileTree.has]

theorem Content.congr (hT : t'.view s.target = t.view s.target)
    (hP : t'.view s.previous = t.view s.previous) (h : Content before restored s t) :
    Content before restored s t' := by
  intro hh hp
  rw [has_congr hT] at hh
  rw [has_congr hP] at hp
  exact hT.trans (h hh hp)

theorem SlotSettles.of_view (hT : t'.view s.target = t.view s.target)
    (hP : t'.view s.previous = t.view s.previous) : SlotSettles before restored s t t' where
  untouched hu := ⟨hT.trans hu.target, (FileTree.get_congr hP).trans hu.previous⟩
  pending hp := .inl ⟨fun hb => hP.trans (hp.had hb), fun hb => (FileTree.get_congr hP).trans (hp.hadNot hb)⟩
  content hc := hc.congr hT hP

theorem Beside.settles (h : Beside slots t t') : Settles before slots restored t t' :=
  fun s hs => .of_view (h s hs).1 (h s hs).2

theorem Beside.untouched (h : Beside slots t t') (hs : s ∈ slots)
    (hu : Untouched before s t) : Untouched before s t' :=
  ⟨(h s hs).1.trans hu.target, (FileTree.get_congr (h s hs).2).trans hu.previous⟩

theorem Untouched.pending (h : Untouched before s t) (hb : before.has s.target = false) : Pending before s t :=
  ⟨fun hh => absurd (hb.symm.trans hh) (by simp), fun _ => h.previous⟩

namespace Layout
variable (hl : Layout slots) {s : Slot} (hs : s ∈ slots)
include hl hs

theorem target_inner : Apart s.target s.staging ∧ Apart s.target s.previous ∧ Apart s.target s.discard := by
  have := hl.inner s hs
  simp only [Slot.all, pairwise_cons] at this
  exact ⟨this.1 _ (by simp), this.1 _ (by simp), this.1 _ (by simp)⟩

theorem previous_inner : Apart s.previous s.staging ∧ Apart s.previous s.discard := by
  have := hl.inner s hs
  simp only [Slot.all, pairwise_cons] at this
  exact ⟨(this.2.1 _ (by simp)).symm, this.2.2.1 _ (by simp)⟩

theorem scratch {p : Path} (hp : p = s.staging ∨ p = s.discard) {s' : Slot} (hs' : s' ∈ slots) :
    Apart s'.target p ∧ Apart s'.previous p := by
  by_cases he : s = s'
  · subst he
    rcases hp with rfl | rfl
    · exact ⟨(hl.target_inner hs).1, (hl.previous_inner hs).1⟩
    · exact ⟨(hl.target_inner hs).2.2, (hl.previous_inner hs).2⟩
  have hmem : p ∈ s.all := by rcases hp with rfl | rfl <;> simp [Slot.all]
  exact ⟨(hl.outer s hs s' hs' he p hmem _ (by simp [Slot.all])).symm,
    (hl.outer s hs s' hs' he p hmem _ (by simp [Slot.all])).symm⟩

theorem others {s' : Slot} (hs' : s' ∈ slots) (hne : s' ≠ s) {p q : Path} (hp : p ∈ s'.all)
    (hq : q ∈ s.all) : Apart p q := hl.outer s' hs' s hs hne p hp q hq

theorem target_ne_nil : s.target ≠ [] := by
  intro h
  have := (hl.target_inner hs).1.1
  rw [h] at this
  exact this List.nil_prefix

end Layout

theorem hasParent_of_canRename {q : Path} (h : canRename t p q = true) : t.hasParent q = true := by
  unfold canRename at h
  split at h
  · cases h
  · simp only [Bool.and_eq_true] at h
    simp only [inDir, isDir, Bool.and_eq_true, decide_eq_true_eq] at h
    simp [FileTree.hasParent, FileTree.has, h.1.2]
  · cases h
  · cases h
  · rename_i hq
    obtain ⟨e, he, hp⟩ := FileTree.get_isSome_iff.1 (by rw [hq]; rfl)
    obtain ⟨e', he', hp'⟩ := t.closed e he q.dropLast (hp ▸ List.dropLast_prefix q)
    have := FileTree.get_isSome_iff.2 ⟨e', he', hp'⟩
    simp [FileTree.hasParent, FileTree.has, this]

theorem Layout.beside_of (hl : Layout slots) (hs : s ∈ slots) (hp : p = s.staging ∨ p = s.discard)
    (h : ∀ q, Apart q p → t'.view q = t.view q) : Beside slots t t' :=
  fun _ hs' => ⟨h _ (hl.scratch hs hp hs').1, h _ (hl.scratch hs hp hs').2⟩

theorem Layout.beside_mkdir (hl : Layout slots) (hs : s ∈ slots)
    (hp : p <+: s.target.dropLast) (t : Tree) : Beside slots t (t.mkdir p) := by
  have habove : ∀ q, Apart q s.target → ¬ q <+: p := fun q hq hqp =>
    hq.1 ((hqp.trans hp).trans (List.dropLast_prefix _))
  have hself : ¬ s.target <+: p := by
    intro h
    have hlen := (h.trans hp).length_le
    have hpos := length_pos_iff.2 (hl.target_ne_nil hs)
    rw [length_dropLast] at hlen
    omega
  refine fun s' hs' => ⟨FileTree.view_mkdir t ?_, FileTree.view_mkdir t ?_⟩
  · by_cases he : s' = s
    · exact he ▸ hself
    · exact habove _ (hl.others hs hs' he (by simp [Slot.all]) (by simp [Slot.all]))
  · by_cases he : s' = s
    · exact habove _ (he ▸ (hl.target_inner hs).2.1.symm)
    · exact habove _ (hl.others hs hs' he (by simp [Slot.all]) (by simp [Slot.all]))

variable (slots) in
def Closed (I : Disk → Prop) : Prop := ∀ d t, I d → Beside slots d.fs t → I {d with fs := t}

section Keep
variable {I C : Disk → Prop} (hI : Closed slots I) (hC : ∀ d, I d → C d)
include hI hC

variable {s : Slot}

theorem Closed.removeAll (hl : Layout slots) (hs : s ∈ slots) {p : Path}
    (hp : p = s.staging ∨ p = s.discard) : OnDisk I (removeAll p) (fun _ => I) I C := by
  refine removeAll_onDisk p (fun d h => ?_) (fun d rs h => ?_)
  · have h' := hI d _ h (hl.beside_of hs hp fun _ hq => FileTree.view_removeAll_apart d.fs hq)
    exact ⟨h', hC _ h'⟩
  · have h' := hI d _ h (hl.beside_of hs hp fun _ hq => FileTree.view_removeSome_apart d.fs hq rs)
    exact ⟨h', hC _ h'⟩

theorem Closed.stage (hl : Layout slots) (hs : s ∈ slots) (excl : Bool) (t : Tree) :
    OnDisk I (stage excl s.staging t) (fun _ => I) I C := by
  have hput : ∀ (w : World) (t' : Tree), I w.disk → I (World.disk {w with fs := w.fs.put s.staging t'}) :=
    fun w t' h => hI w.disk _ h (hl.beside_of hs (.inl rfl) fun _ hq => FileTree.view_put_apart w.fs hq t')
  refine OnDisk.hostStep fun d w h => ?_
  split
  · exact Draw.meets_ends h (hC _ h)
  split
  · exact Draw.meets_ends (hput w t h) (hC _ (hput w t h))
  · exact Draw.meets_ends (hput w _ h) (hC _ (hput w _ h))

theorem Closed.ensureParents (hl : Layout slots) (hs : s ∈ slots) :
    OnDisk I (ensureParents s.target) (fun _ => I) I C := by
  refine .get_keeps fun w => ?_
  refine .each_keeps fun p hp => OnDisk.hostStep fun d w h => ?_
  have hp := (mem_inits _ _).1 (mem_filter.1 hp).1
  have h' : I (World.disk {w with fs := w.fs.mkdir p}) :=
    hI w.disk _ h (hl.beside_mkdir hs hp w.fs)
  split
  · exact Draw.meets_ends h (hC _ h)
  · exact Draw.meets_effect h' (fun _ => h') (fun _ => h) (hC _ h') (hC _ h)

end Keep

structure From (D : Disk) (R : Tree → Prop) (d : Disk) : Prop where
  eq : d = {D with fs := d.fs}
  tree : R d.fs

theorem From.start (D : Disk) : From D (fun t => t = D.fs) D := ⟨rfl, rfl⟩

variable {D d : Disk} {R R' : Tree → Prop}

theorem From.mono (h : From D R d) (hR : ∀ t, R t → R' t) :
    From D R' d := ⟨h.eq, hR _ h.tree⟩

theorem From.trans {D' : Disk} (h : From D R D') (h' : From D' R' d) :
    From D R' d := ⟨h'.eq.trans (by rw [h.eq]), h'.tree⟩

theorem From.set (h : From D R d) (ht : R' t) : From D R' {d with fs := t} := ⟨by rw [h.eq], ht⟩

theorem From.restored_eq (h : From D R d) : d.restored = D.restored := by
  have := congrArg Disk.restored h.eq
  exact this

theorem From.sighted_eq (h : From D R d) : d.sighted = D.sighted := by
  have := congrArg Disk.sighted h.eq
  exact this

theorem closed_from (D : Disk) : Closed slots (From D (Settles before slots D.restored D.fs)) :=
  fun _ _ h ht => h.set (h.tree.trans ht.settles)

variable (slots) in
/-- From `t` to `t'` nothing shows at a target or a previous path but that the target
of `s` may be gone. -/
structure OnlyTarget (s : Slot) (t t' : Tree) : Prop where
  others : ∀ s' ∈ slots, s' ≠ s → t'.view s'.target = t.view s'.target ∧ t'.view s'.previous = t.view s'.previous
  previous : t'.view s.previous = t.view s.previous
  target : t'.view s.target = t.view s.target ∨ t'.get s.target = none

theorem OnlyTarget.refl (s : Slot) (t : Tree) : OnlyTarget slots s t t :=
  ⟨fun _ _ _ => ⟨rfl, rfl⟩, rfl, .inl rfl⟩

theorem OnlyTarget.trans {t'' : Tree} (h : OnlyTarget slots s t t')
    (h' : OnlyTarget slots s t' t'') : OnlyTarget slots s t t'' where
  others s' hs' hne := ⟨(h'.others s' hs' hne).1.trans (h.others s' hs' hne).1,
    (h'.others s' hs' hne).2.trans (h.others s' hs' hne).2⟩
  previous := h'.previous.trans h.previous
  target := h'.target.elim (fun he => h.target.imp he.trans fun hn =>
    (FileTree.get_congr he).trans hn) .inr

theorem OnlyTarget.settles (h : OnlyTarget slots s t t')
    (hs : Untouched before s t → t'.view s.target = before.view s.target) :
    Settles before slots restored t t' := by
  intro s' hs'
  by_cases he : s' = s
  · subst he
    refine ⟨fun hu => ⟨hs hu, (FileTree.get_congr h.previous).trans hu.previous⟩,
      fun hp => .inl ⟨fun hb => h.previous.trans (hp.had hb),
        fun hb => (FileTree.get_congr h.previous).trans (hp.hadNot hb)⟩, fun hc => ?_⟩
    rcases h.target with hT | hnone
    · exact hc.congr hT h.previous
    intro hh
    rw [FileTree.has, hnone] at hh
    cases hh
  · exact .of_view (h.others s' hs' he).1 (h.others s' hs' he).2

section Undo
variable (hl : Layout slots) {s : Slot} (hs : s ∈ slots)
include hl hs

theorem Layout.onlyTarget_of (h : ∀ q, Apart q s.discard → t'.view q = t.view q) : OnlyTarget slots s t t' :=
  ⟨fun _ hs' _ => hl.beside_of hs (.inr rfl) h _ hs', h _ (hl.previous_inner hs).2, .inl (h _ (hl.target_inner hs).2.2)⟩

theorem Layout.onlyTarget_rename (t : Tree) : OnlyTarget slots s t (t.rename s.target s.discard) := by
  refine ⟨fun s' hs' hne => ⟨?_, ?_⟩, ?_, .inr ?_⟩
  · exact FileTree.view_rename_apart (hl.others hs hs' hne (by simp [Slot.all]) (by simp [Slot.all]))
      (hl.scratch hs (.inr rfl) hs').1
  · exact FileTree.view_rename_apart (hl.others hs hs' hne (by simp [Slot.all]) (by simp [Slot.all]))
      (hl.scratch hs (.inr rfl) hs').2
  · exact FileTree.view_rename_apart (hl.target_inner hs).2.1.symm (hl.previous_inner hs).2
  · exact FileTree.view_eq_absent_iff.1 (FileTree.view_rename_source (hl.target_inner hs).2.2)

theorem discard_onDisk (D : Disk) (hD : D.sighted = true) : OnDisk (From D fun t => t = D.fs) (discard s.target s.discard)
      (fun _ => From D fun t => OnlyTarget slots s D.fs t ∧ t.get s.target = none)
      (From D fun t => OnlyTarget slots s D.fs t ∧ D.fs.has s.target = true)
      (From D fun t => OnlyTarget slots s D.fs t ∧ (D.fs.has s.target = true ∨ t.get s.target = none)) := by
  refine .bind (pathExists_onDisk s.target (R := fun b d => From D (fun t => t = D.fs) d ∧
    b = D.fs.has s.target) (fun _ h => h.sighted_eq.trans hD) fun d h => ⟨h, by rw [h.tree]⟩) fun b => ?_
  refine .of_forall fun w hw => ?_
  obtain ⟨hw, rfl⟩ := hw
  refine .when (fun hhas => ?_) fun hhas w' h => ?_
  · -- the target is there: it goes aside in one rename
    refine .bind (Q := fun _ w => From D (OnlyTarget slots s D.fs) w.disk) ?_ fun _ =>
      Triple.bind (Q := fun _ w => From D (fun t => OnlyTarget slots s D.fs t ∧
        t.get s.target = none) w.disk) ?_ fun _ => ?_
    · refine .pre (removeAll_onDisk (P := From D (OnlyTarget slots s D.fs)) s.discard
        (fun d h => ?_) fun d rs h => ?_) fun _ h => h ▸ hw.mono fun t ht => ht ▸ .refl s t
      · have ht := h.tree.trans (hl.onlyTarget_of hs fun _ hq => FileTree.view_removeAll_apart d.fs hq)
        exact ⟨h.set ht, h.set ⟨ht, .inl hhas⟩⟩
      · have ht := h.tree.trans (hl.onlyTarget_of hs fun _ hq => FileTree.view_removeSome_apart d.fs hq rs)
        exact ⟨h.set ⟨ht, hhas⟩, h.set ⟨ht, .inl hhas⟩⟩
    · refine renameNoting_onDisk (f := id) (fun _ => rfl) _ _ (fun d h _ => ?_) fun d h =>
        ⟨h.mono fun _ ht => ⟨ht, hhas⟩, h.mono fun _ ht => ⟨ht, .inl hhas⟩⟩
      have ht := h.tree.trans (hl.onlyTarget_rename hs d.fs)
      have hnone : (d.fs.rename s.target s.discard).get s.target = none :=
        FileTree.view_eq_absent_iff.1 (FileTree.view_rename_source (hl.target_inner hs).2.2)
      exact ⟨h.set ⟨ht, hnone⟩, h.set ⟨ht, .inr hnone⟩⟩
    · refine removeAll_onDisk s.discard (fun d h => ?_) fun d rs h => ?_
      · have ht := h.tree.1.trans (hl.onlyTarget_of hs fun _ hq => FileTree.view_removeAll_apart d.fs hq)
        have hnone := (FileTree.get_congr (FileTree.view_removeAll_apart d.fs (hl.target_inner hs).2.2)).trans h.tree.2
        exact ⟨h.set ⟨ht, hnone⟩, h.set ⟨ht, .inr hnone⟩⟩
      · have ht := h.tree.1.trans (hl.onlyTarget_of hs fun _ hq => FileTree.view_removeSome_apart d.fs hq rs)
        exact ⟨h.set ⟨ht, hhas⟩, h.set ⟨ht, .inl hhas⟩⟩
  · -- it is not: nothing to do
    subst h
    refine hw.mono fun t ht => ⟨ht ▸ .refl s t, ?_⟩
    rw [ht]
    simpa [FileTree.has] using hhas

theorem Layout.untouched_rename {t : Tree} (hp : Pending before s t)
    (hb : before.has s.target = true) (hc : canRename t s.previous s.target = true) :
    Untouched before s (t.rename s.previous s.target) := by
  have hap := (hl.target_inner hs).2.1.symm
  have hpar :=
    FileTree.hasParent_removeAll hap.1 (hasParent_of_canRename hc)
  exact ⟨(FileTree.view_rename_target hpar).trans (hp.had hb),
    FileTree.view_eq_absent_iff.1 (FileTree.view_rename_source hap)⟩

theorem Layout.settles_rename {t : Tree} {restored : List (Path × Tree)}
    (hb : before.has s.target = true) (hu : Untouched before s (t.rename s.previous s.target)) :
    Settles before slots restored t (t.rename s.previous s.target) := by
  intro s' hs'
  by_cases he : s' = s
  · subst he
    refine ⟨fun _ => hu, fun _ => .inr hu, fun _ _ hp => ?_⟩
    have hp := hp hb
    rw [FileTree.has, hu.previous] at hp
    cases hp
  have hx (p q : Path) (hp : p ∈ s'.all) (hq : q ∈ s.all) := hl.others hs hs' he hp hq
  exact .of_view (FileTree.view_rename_apart (hx _ _ (by simp [Slot.all]) (by simp [Slot.all]))
      (hx _ _ (by simp [Slot.all]) (by simp [Slot.all])))
    (FileTree.view_rename_apart (hx _ _ (by simp [Slot.all]) (by simp [Slot.all]))
      (hx _ _ (by simp [Slot.all]) (by simp [Slot.all])))

theorem putBack_onDisk (D : Disk) (hD : D.sighted = true) (hb : before.has s.target = true) (hp : Pending before s D.fs)
    (hnot : ¬ Untouched before s D.fs) :
    OnDisk (From D fun t => t = D.fs) (do discard s.target s.discard; rename s.previous s.target)
      (fun _ => From D fun t => Settles before slots D.restored D.fs t ∧ Untouched before s t)
      (From D (Settles before slots D.restored D.fs)) (From D (Settles before slots D.restored D.fs)) := by
  have hset {t : Tree} (ht : OnlyTarget slots s D.fs t) : Settles before slots D.restored D.fs t :=
    ht.settles fun hu => absurd hu hnot
  refine .bind ((discard_onDisk hl hs D hD).conseq (fun _ h => h) (fun _ _ h => h)
    (fun _ _ h => h.mono fun _ ht => hset ht.1) (fun _ h => h.mono fun _ ht => hset ht.1)) fun _ => ?_
  refine renameNoting_onDisk (f := id) (fun _ => rfl) _ _ (fun d h hc => ?_) fun d h =>
    ⟨h.mono fun _ ht => hset ht.1, h.mono fun _ ht => hset ht.1⟩
  have hpd :=
    ((hset h.tree.1 s hs).pending hp).resolve_right fun hu => by
      have hbv := FileTree.get_congr (hp.had hb)
      have hd := FileTree.get_congr h.tree.1.previous
      rw [hu.previous] at hd
      rw [FileTree.has, ← hbv, ← hd] at hb
      cases hb
  have hu := hl.untouched_rename hs hpd hb hc
  have htrans := (hset h.tree.1).trans (hl.settles_rename hs hb hu)
  exact ⟨h.set ⟨htrans, hu⟩, h.set htrans⟩

theorem discardNew_onDisk (D : Disk) (hD : D.sighted = true) (hb : before.has s.target = false)
    (hprev : D.fs.get s.previous = none) :
    OnDisk (From D fun t => t = D.fs) (discard s.target s.discard)
      (fun _ => From D fun t => Settles before slots D.restored D.fs t ∧ Untouched before s t)
      (From D (Settles before slots D.restored D.fs)) (From D (Settles before slots D.restored D.fs)) := by
  have habs :=
    FileTree.view_of_get_none (by simpa [FileTree.has] using hb)
  have hset {t : Tree} (ht : OnlyTarget slots s D.fs t) (hor : D.fs.has s.target = true ∨ t.get s.target = none) :
      Settles before slots D.restored D.fs t := ht.settles fun hu => by
    have hnone : D.fs.has s.target = false := by
      rw [FileTree.has, FileTree.get_congr hu.target]
      exact hb
    rw [hnone] at hor
    rw [habs]
    exact FileTree.view_of_get_none (hor.resolve_left (by simp))
  refine (discard_onDisk hl hs D hD).conseq (fun _ h => h) (fun _ _ h => ?_)
    (fun _ _ h => h.mono fun _ ht => hset ht.1 (.inl ht.2))
    (fun _ h => h.mono fun _ ht => hset ht.1 ht.2)
  refine h.mono fun t ht => ⟨hset ht.1 (.inr ht.2), ?_, ?_⟩
  · rw [habs]
    exact FileTree.view_of_get_none ht.2
  · exact (FileTree.get_congr ht.1.previous).trans hprev

theorem moveBack_onDisk (D : Disk) (hD : D.sighted = true) {r : SwapRecord} (hr : r.slot = s)
    (hst : r.state ≠ .staging)
    (hhad : r.hadPrevious = before.has s.target)
    (hok : Untouched before s D.fs ∨ Pending before s D.fs) :
    OnDisk (From D fun t => t = D.fs) (moveBack r)
      (fun _ => From D fun t => Settles before slots D.restored D.fs t ∧ Untouched before s t)
      (From D (Settles before slots D.restored D.fs)) (From D (Settles before slots D.restored D.fs)) := by
  subst hr
  rw [moveBack, if_neg hst]
  split
  · rename_i hh
    rw [hhad] at hh
    refine .bind (pathExists_onDisk r.slot.previous (R := fun b d =>
      From D (fun t => t = D.fs) d ∧ b = D.fs.has r.slot.previous) (fun _ h => h.sighted_eq.trans hD)
      fun d h => ⟨h, by rw [h.tree]⟩) fun b => Triple.of_forall fun w hw => ?_
    obtain ⟨hw, rfl⟩ := hw
    refine .bind (Q := fun _ w => From D (fun t => Settles before slots D.restored D.fs t ∧
      Untouched before r.slot t) w.disk) ?_ fun _ => .pure fun _ h => h
    refine .when (fun hthere => ?_) fun hgone w' h => ?_
    · have hnot : ¬ Untouched before r.slot D.fs := fun hu => by
        rw [FileTree.has, hu.previous] at hthere
        cases hthere
      exact (putBack_onDisk hl hs D hD hh (hok.resolve_left hnot) hnot).pre fun _ h => h ▸ hw
    · -- it did not happen, or it was undone already
      subst h
      have hu := hok.resolve_right fun hp => by
        have hb := FileTree.get_congr (hp.had hh)
        rw [FileTree.has, ← hb] at hh
        exact hgone hh
      exact hw.mono fun t ht => by rw [ht]; exact ⟨Settles.refl _, hu⟩
  rename_i hh
  have hb : before.has r.slot.target = false := by rw [← hhad]; simpa using hh
  have hprev :=
    hok.elim (fun hu => hu.previous) fun hp => hp.hadNot hb
  exact .bind (discardNew_onDisk hl hs D hD hb hprev) fun _ => .pure fun _ h => h

end Undo

def SwapState.moved : SwapState → Bool
  | .swapping | .swapped => true
  | _ => false

variable (before slots restored) in
/-- The records lead back from `t` to `before`, and tell which targets hold what was
restored. -/
structure Undoable (rs : List SwapRecord) (t : Tree) : Prop where
  slot : ∀ r ∈ rs, r.slot ∈ slots
  had : ∀ r ∈ rs, r.state.moved = true → r.hadPrevious = before.has r.target
  pending : ∀ s ∈ slots, Untouched before s t ∨ (Pending before s t ∧ ∃ r ∈ rs, r.slot = s ∧ r.state.moved = true)
  content : ∀ r ∈ rs, r.state = .swapped → Content before restored r.slot t
  uncommitted : ∀ r ∈ rs, r.state ≠ .committed

theorem Undoable.settles (h : Undoable before slots restored rs t) (ht : Settles before slots restored t t') :
    Undoable before slots restored rs t' where
  slot := h.slot
  had := h.had
  pending s hs := (h.pending s hs).elim (fun hu => .inl ((ht s hs).untouched hu)) fun hp =>
    ((ht s hs).pending hp.1).elim (fun hp' => .inr ⟨hp', hp.2⟩) .inl
  content r hr hst := (ht _ (h.slot r hr)).content (h.content r hr hst)
  uncommitted := h.uncommitted

theorem Undoable.of_untouched (hslot : ∀ r ∈ rs, r.slot ∈ slots)
    (hrs : ∀ r ∈ rs, r.state = .rolledBack) (h : ∀ s ∈ slots, Untouched before s t) :
    Undoable before slots restored rs t := by
  refine ⟨hslot, fun r hr hm => ?_, fun s hs => .inl (h s hs), fun r hr hst => ?_, fun r hr hst => ?_⟩
  · rw [hrs r hr] at hm
    cases hm
  · cases hst.symm.trans (hrs r hr)
  · cases hst.symm.trans (hrs r hr)

theorem mem_modify {x : SwapRecord} (hi : rs[i]? = some r) (hx : x ∈ rs.modify i f) : x = f r ∨ x ∈ rs := by
  obtain ⟨j, hj⟩ := mem_iff_getElem?.1 hx
  rw [getElem?_modify] at hj
  by_cases hij : i = j
  · subst hij
    left
    simpa [hi, eq_comm] using hj
  · right
    exact mem_of_getElem? (i := j) (by simpa [hij] using hj)

theorem Undoable.modify (h : Undoable before slots restored rs t) (hi : rs[i]? = some r)
    (hslot : (f r).slot = r.slot) (hhad : (f r).state.moved = true → (f r).hadPrevious = before.has (f r).target)
    (hmoved : r.state.moved = true → (f r).state.moved = true ∨ Untouched before r.slot t)
    (hcontent : (f r).state = .swapped → Content before restored r.slot t)
    (hopen : (f r).state ≠ .committed) : Undoable before slots restored (rs.modify i f) t := by
  have hr := mem_of_getElem? hi
  refine ⟨fun x hx => ?_, fun x hx => ?_, fun s hs => ?_, fun x hx hst => ?_, fun x hx => ?_⟩
  · rcases mem_modify hi hx with rfl | hx
    · exact hslot ▸ h.slot r hr
    · exact h.slot x hx
  · rcases mem_modify hi hx with rfl | hx
    · exact hhad
    · exact h.had x hx
  · rcases h.pending s hs with hu | ⟨hp, x, hx, rfl, hm⟩
    · exact .inl hu
    obtain ⟨j, hj⟩ := mem_iff_getElem?.1 hx
    by_cases hij : i = j
    · subst hij
      obtain rfl : r = x := Option.some.inj (hi.symm.trans hj)
      rcases hmoved hm with hm' | hu
      · refine .inr ⟨hp, f r, mem_of_getElem? (i := i) ?_, hslot, hm'⟩
        rw [getElem?_modify, hi]
        simp
      · exact .inl hu
    · refine .inr ⟨hp, x, mem_of_getElem? (i := j) ?_, rfl, hm⟩
      rw [getElem?_modify, hj]
      simp [hij]
  · rcases mem_modify hi hx with rfl | hx
    · exact hslot ▸ hcontent hst
    · exact h.content x hx hst
  · rcases mem_modify hi hx with rfl | hx
    · exact hopen
    · exact h.uncommitted x hx

theorem undoRecord_onDisk (hl : Layout slots) (D : Disk) (hD : D.sighted = true) (hs : r.slot ∈ slots)
    (hhad : r.state.moved = true → r.hadPrevious = before.has r.target) (hf : r.state.finished = false)
    (hok : ∀ s ∈ slots, Untouched before s D.fs ∨ Pending before s D.fs) :
    OnDisk (From D fun t => t = D.fs) (undoRecord r)
      (fun _ => From D fun t => Settles before slots D.restored D.fs t ∧
        (r.state.moved = true → Untouched before r.slot t))
      (From D (Settles before slots D.restored D.fs)) (From D (Settles before slots D.restored D.fs)) := by
  refine .bind (.pre (Closed.removeAll (closed_from D) (fun _ h => h) hl hs (.inl rfl))
    fun _ h => h.mono fun t ht => ht ▸ .refl t) fun _ => ?_
  refine .bind (Q := fun _ (w : World) => From D (fun t => Settles before slots D.restored D.fs t ∧
    (r.state.moved = true → Untouched before r.slot t)) w.disk) ?_ fun b => ?_
  · by_cases hst : r.state = .staging
    · rw [moveBack, if_pos hst]
      exact .pure fun _ h => h.mono fun _ ht => ⟨ht, fun hm => by rw [hst] at hm; cases hm⟩
    have hm : r.state.moved = true := by
      cases h : r.state <;> simp_all [SwapState.moved, SwapState.finished]
    refine .of_forall fun w hw => ?_
    have hok' := (hok _ hs).elim (fun hu => .inl ((hw.tree _ hs).untouched hu))
      fun hp => ((hw.tree _ hs).pending hp).symm
    have hre := hw.restored_eq
    refine (moveBack_onDisk hl hs w.disk (hw.sighted_eq.trans hD) rfl hst (hhad hm) hok').conseq
      (fun _ h => h ▸ From.start w.disk) (fun _ _ h => ?_) (fun _ _ h => ?_) (fun _ h => ?_)
    · exact (hw.trans h).mono fun _ ht => ⟨hw.tree.trans (hre ▸ ht.1), fun _ => ht.2⟩
    · exact (hw.trans h).mono fun _ ht => hw.tree.trans (hre ▸ ht)
    · exact (hw.trans h).mono fun _ ht => hw.tree.trans (hre ▸ ht)
  · have hclosed : Closed slots (From D fun t => Settles before slots D.restored D.fs t ∧
        (r.state.moved = true → Untouched before r.slot t)) := fun _ _ h ht =>
      h.set ⟨h.tree.1.trans ht.settles, fun hm =>
        ht.untouched hs (h.tree.2 hm)⟩
    have hremove := Closed.removeAll hclosed (C := From D (Settles before slots D.restored D.fs))
      (fun _ h => h.mono fun _ ht => ht.1) hl hs (.inr rfl)
    exact .bind (hremove.attempt (fun _ _ h => h) (fun _ _ h => h)) fun _ =>
      Triple.pure fun _ h => h

structure Journal.Plain (j : Journal) : Prop where
  active : j.state = .active
  volumes : j.createdVolumes = []
  networks : j.createdNetworks = []
  containers : j.createdContainers = []

theorem Journal.Plain.withSwaps {j : Journal} (h : j.Plain) (rs : List SwapRecord) :
    Journal.Plain {j with swaps := rs} := ⟨h.active, h.volumes, h.networks, h.containers⟩

theorem Journal.Plain.stamped {j : Journal} (h : j.Plain) (now : Nat) : (j.stamped now).Plain :=
  ⟨h.active, h.volumes, h.networks, h.containers⟩

variable (before slots) (mine : List Slot) in
/-- The journal on disk leads back, and no `os.Lstat` is to fail. Where the whole history
of the restore is told, not one command with the slots `mine`, it is open and has created
nothing. -/
structure Recoverable (d : Disk) : Prop where
  undo : Undoable before slots d.restored d.journaled d.fs
  sighted : d.sighted = true
  plain : mine = [] → ∀ j, d.journal = some j → j.Plain

variable (before slots) (mine : List Slot) in
structure Safe (d : Disk) : Prop extends Recoverable before slots mine d where
  mem : Undoable before slots d.restored d.mem.swaps d.fs
  memPlain : mine = [] → d.mem.Plain

variable {mine : List Slot}

theorem Recoverable.congr {d' : Disk} (h : Recoverable before slots mine d) (hfs : d'.fs = d.fs)
    (hj : d'.journal = d.journal) (hr : d'.restored = d.restored) (hs : d'.sighted = d.sighted) :
    Recoverable before slots mine d' := by
  obtain ⟨hu, hd, hp⟩ := h
  refine ⟨?_, hs.trans hd, hj ▸ hp⟩
  rw [Disk.journaled, hfs, hj, hr]
  exact hu

theorem Recoverable.settles (h : Recoverable before slots mine d) (ht : Settles before slots d.restored d.fs t) :
    Recoverable before slots mine {d with fs := t} := ⟨h.undo.settles ht, h.sighted, h.plain⟩

theorem Safe.settles (h : Safe before slots mine d)
    (ht : Settles before slots d.restored d.fs t) : Safe before slots mine {d with fs := t} :=
  ⟨h.toRecoverable.settles ht, h.mem.settles ht, h.memPlain⟩

def undone (i : Nat) (rs : List SwapRecord) : List SwapRecord :=
  rs.modify i (fun r => if r.state.finished then r else {r with state := .rolledBack})

variable (before slots) in
structure Undone (i : Nat) (D d : Disk) : Prop where
  eq : d = {D with fs := d.fs, mem := {D.mem with swaps := undone i D.mem.swaps}}
  tree : Settles before slots D.restored D.fs d.fs
  slot : ∀ r, D.mem.swaps[i]? = some r → r.state.moved = true → Untouched before r.slot d.fs

theorem modify_self (h : ∀ r, rs[i]? = some r → f r = r) : rs.modify i f = rs := by
  refine ext_getElem? fun j => ?_
  rw [getElem?_modify]
  by_cases hij : i = j
  · subst hij
    cases hr : rs[i]? with
    | none => simp
    | some r => simp [h r hr]
  · simp [hij]

theorem Undone.skip (h : ∀ r, D.mem.swaps[i]? = some r → r.state.finished = true) : Undone before slots i D D := by
  have hsame : undone i D.mem.swaps = D.mem.swaps := modify_self fun r hr => by simp [h r hr]
  refine ⟨by rw [hsame], .refl _, fun r hr hm => ?_⟩
  have hf := h r hr
  cases hs : r.state <;> simp_all [SwapState.moved, SwapState.finished]

theorem modify_rolledBack (hr : rs[i]? = some r) (hf : r.state.finished = false) :
    rs.modify i (fun r => {r with state := .rolledBack}) = undone i rs := by
  refine ext_getElem? fun j => ?_
  rw [undone, getElem?_modify, getElem?_modify]
  by_cases hij : i = j
  · subst hij
    simp [hr, hf]
  · simp [hij]

/-- An undo that fails or dies leaves the swap to be undone again. -/
theorem undoSwap_onDisk (hl : Layout slots) (i : Nat) (hD : Safe before slots mine D) :
    OnDisk (fun d => d = D) (undoSwap i) (fun _ => Undone before slots i D)
      (From D (Settles before slots D.restored D.fs))
      (From D (Settles before slots D.restored D.fs)) := by
  refine .get_bind fun w hw => ?_
  have hmem : w.mem.swaps = D.mem.swaps := hw ▸ rfl
  rw [hmem]
  split
  · rename_i hnone
    refine .pure fun _ h => ?_
    subst h
    rw [hw]
    exact .skip fun r hr => (by cases hnone.symm.trans hr)
  rename_i r hr
  split
  · rename_i hf
    refine .pure fun _ h => ?_
    subst h
    rw [hw]
    refine .skip fun x hx => ?_
    obtain rfl : r = x := Option.some.inj (hr.symm.trans hx)
    exact hf
  rename_i hf
  have hf : r.state.finished = false := by simpa using hf
  have hr' := mem_of_getElem? hr
  have hok : ∀ s ∈ slots, Untouched before s D.fs ∨ Pending before s D.fs :=
    fun s hs => (hD.mem.pending s hs).imp_right (·.1)
  refine .bind ((undoRecord_onDisk hl D hD.sighted (hD.mem.slot r hr') (hD.mem.had r hr') hf hok).pre
    fun _ h => ?_) fun changed => ?_
  · subst h
    exact hw ▸ From.start _
  refine .bind (Q := fun _ w => Undone before slots i D w.disk) (.modify fun x h => ?_)
    fun _ => .pure fun _ h => h
  have hxm : x.mem = D.mem := congrArg (fun d : Disk => d.mem) h.eq
  refine ⟨?_, h.tree.1, fun y hy hm => ?_⟩
  · have heq := h.eq
    simp only [World.disk, World.setSwap, Disk.mk.injEq] at heq ⊢
    rw [hxm, modify_rolledBack hr hf]
    exact ⟨trivial, heq.2.1, heq.2.2.1, rfl, heq.2.2.2.2⟩
  · obtain rfl : r = y := Option.some.inj (hr.symm.trans hy)
    exact h.tree.2 hm

variable (before slots) in
/-- The slots that are not untouched have a record among these places. -/
def Left (is : List Nat) (d : Disk) : Prop :=
  ∀ s ∈ slots, Untouched before s d.fs ∨ ∃ i ∈ is, ∃ r, d.mem.swaps[i]? = some r ∧ r.slot = s ∧ r.state.moved = true

namespace Undone
variable {i : Nat} {D d : Disk} (h : Undone before slots i D d)
include h

theorem getElem? {j : Nat} {x : SwapRecord} (hx : d.mem.swaps[j]? = some x) : ∃ r, D.mem.swaps[j]? = some r ∧
      x = if i = j ∧ r.state.finished = false then {r with state := .rolledBack} else r := by
  have hm : d.mem.swaps = undone i D.mem.swaps := by rw [h.eq]
  rw [hm, undone, getElem?_modify] at hx
  cases hr : D.mem.swaps[j]? with
  | none =>
    rw [hr] at hx
    cases hx
  | some r =>
    refine ⟨r, rfl, ?_⟩
    rw [hr] at hx
    by_cases hij : i = j
    · cases hf : r.state.finished <;> simp_all
    · simp_all

theorem safe (hD : Safe before slots mine D) : Safe before slots mine d := by
  have hD' := hD.settles h.tree
  have hmem : Undoable before slots D.restored (undone i D.mem.swaps) d.fs := by
    cases hi : D.mem.swaps[i]? with
    | none =>
      rw [undone, modify_self fun r hr => by rw [hi] at hr; cases hr]
      exact hD'.mem
    | some r =>
      have hst : ∀ st, (if r.state.finished then r else {r with state := .rolledBack}).state = st →
          st = r.state ∧ r.state.finished = true ∨ st = .rolledBack := by
        rintro st rfl
        split
        · exact .inl ⟨rfl, ‹_›⟩
        · exact .inr rfl
      refine hD'.mem.modify hi (by split <;> rfl) (fun hm => ?_) (fun hm => .inr (h.slot r hi hm))
        (fun hm => ?_) (fun hm => ?_)
      · rcases hst _ rfl with ⟨he, hf⟩ | he
        · rw [he] at hm
          cases hs : r.state <;> simp_all [SwapState.moved, SwapState.finished]
        · rw [he] at hm
          cases hm
      · rcases hst _ hm with ⟨he, hf⟩ | he
        · rw [← he] at hf
          cases hf
        · cases he
      · rcases hst _ hm with ⟨he, -⟩ | he
        · exact hD.mem.uncommitted r (mem_of_getElem? hi) he.symm
        · cases he
  rw [h.eq]
  exact ⟨⟨hD'.undo, hD.sighted, hD.plain⟩, hmem, fun hw => (hD.memPlain hw).withSwaps _⟩

theorem left {ss : List Slot} (hss : ∀ s ∈ ss, s ∈ slots) {is : List Nat} (hD : Left before ss (i :: is) D) :
    Left before ss is d := by
  intro s hs
  rcases hD s hs with hu | ⟨j, hj, r, hr, rfl, hm⟩
  · exact .inl ((h.tree s (hss s hs)).untouched hu)
  by_cases hij : i = j
  · subst hij
    exact .inl (h.slot r hr hm)
  refine .inr ⟨j, (mem_cons.1 hj).resolve_left fun he => hij he.symm, r, ?_, rfl, hm⟩
  rw [h.eq]
  rw [undone, getElem?_modify, hr]
  simp [hij]

end Undone

theorem From.safe (hD : Safe before slots mine D)
    (h : From D (Settles before slots D.restored D.fs) d) : Safe before slots mine d := by
  rw [h.eq]
  exact hD.settles h.tree

theorem undoSwapFor_onDisk (hl : Layout slots) (context : String → String) (i : Nat) {P Q E : Disk → Prop}
    (hP : ∀ d, P d → Safe before slots mine d) (hQ : ∀ D d, P D → Undone before slots i D d → Q d)
    (hE : ∀ D d, P D → From D (Settles before slots D.restored D.fs) d → E d) :
    OnDisk P (undoSwapFor context i) (fun _ => Q) E (Recoverable before slots mine) := by
  refine .get_keeps fun _ => ?_
  refine .mapError (F := fun _ w => E w.disk) (.of_forall fun w hw => ?_) fun _ _ h => h
  refine (undoSwap_onDisk hl i (hP _ hw)).conseq (fun _ h => by rw [h]) (fun _ _ h => hQ _ _ hw h)
    (fun _ _ h => hE _ _ hw h) (fun _ h => (h.safe (hP _ hw)).toRecoverable)

/-- A pass over these places that collects no error leaves none of the slots whose
records they are. -/
theorem undoAll_onDisk {E : Disk → Prop} (hl : Layout slots) (context : String → String) (is : List Nat)
    {ss : List Slot} (hss : ∀ s ∈ ss, s ∈ slots) :
    OnDisk (fun d => Safe before slots mine d ∧ Left before ss is d) (undoAll context is)
      (fun p d => Safe before slots mine d ∧ (p.2 = [] → Left before ss [] d)) E
      (Recoverable before slots mine) := by
  refine (Triple.collect (I := fun is (w : World) => Safe before slots mine w.disk ∧
      Left before ss is w.disk) (J := fun w => Safe before slots mine w.disk)
    (fun i is => undoSwapFor_onDisk hl context i
      (P := fun d => Safe before slots mine d ∧ Left before ss (i :: is) d)
      (fun _ h => h.1) (Q := fun d => Safe before slots mine d ∧ Left before ss is d)
      (fun D d hD h => ⟨h.safe hD.1, h.left hss hD.2⟩) fun D d hD h => h.safe hD.1)
    (fun i => undoSwapFor_onDisk hl context i (fun _ h => h) (fun D d hD h => h.safe hD) fun D d hD h => h.safe hD)
    is).post fun p w h => ?_
  split at h
  · exact ⟨h.1, fun _ => h.2⟩
  · exact ⟨h, fun he => absurd he ‹_›⟩

end Slots
end Dbr2.Agent
