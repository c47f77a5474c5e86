import Dbr2.Agent.RestoreRules
import Dbr2.Agent.Finalize

/-! What the commands of one restore keep, told over its whole life.

Until it is committed the journal leads back (`Recoverable`), through any number of
RestoreComponents and half-done rollbacks. A commit that has begun gives that up:
the previous content goes, and what is left to say is that the targets hold what
was restored (`Committable`). -/
namespace Dbr2.Agent
open Lib List

section Finalize
variable {before : Tree} {slots : List Slot} {vols : String → Option Volume} {repo : Repository}
  {c : RestoreCommand}

variable {d : Disk} {J E : Disk → Prop} {j : Journal} {r : SwapRecord}

/-- What an invariant of the open journal owes for the cleanup at agent start to keep
it: only staging paths are touched, and only records that never began are closed. -/
structure Cleanable (slots : List Slot) (J : Disk → Prop) : Prop where
  closed : Closed slots J
  savable : Savable J
  slot : ∀ d, J d → ∀ r ∈ d.mem.swaps, r.slot ∈ slots
  close : ∀ d i r, J d → d.mem.swaps[i]? = some r → r.state = .staging → J {d with mem := {d.mem with
      swaps := d.mem.swaps.modify i (fun r => {r with state := .rolledBack})}}

theorem Cleanable.cleanupSwap (hJ : Cleanable slots J) (hl : Layout slots)
    (i : Nat) : OnDisk J (cleanupSwap i) (fun _ => J) E J := by
  refine .get_bind fun w hw => ?_
  split
  · exact .pure fun _ h => h ▸ hw
  rename_i r hr
  split
  · exact .pure fun _ h => h ▸ hw
  rename_i hst
  have hst : r.state = .staging := by simpa using hst
  have hs := hJ.slot _ hw r (mem_of_getElem? hr)
  -- the journal in memory does not change while the staging path is removed
  have hI : Closed slots (fun d => J d ∧ d.mem = w.mem) := fun d t h ht => ⟨hJ.closed d t h.1 ht, h.2⟩
  have hremove := Closed.removeAll hI (C := J) (fun _ h => h.1) hl hs (.inl rfl)
  refine .bind ((Triple.pre (P := fun x => x = w) hremove fun _ h => ?_).attempt
    (R := fun _ x => J x.disk ∧ x.disk.mem = w.mem) (fun _ _ h => h) (fun _ _ h => h)) fun a => ?_
  · rw [h]
    exact ⟨hw, rfl⟩
  cases a with
  | error e => exact .pure fun _ h => h.1
  | ok _ =>
    refine .bind (Q := fun _ x => J x.disk) (.modify fun x h => ?_) fun _ =>
      Triple.pure fun _ h => h
    exact hJ.close x.disk i r h.1 (by rw [h.2]; exact hr) hst

theorem Cleanable.cleanupRestores {I R : Disk → Prop} (hJ : Cleanable slots J) (hl : Layout slots)
    (hload : ∀ d j, I d → d.journal = some j → j.state = .active → J {d with mem := j})
    (hdrop : ∀ d j, I d → d.journal = some j → j.state ≠ .active → R {d with journal := none})
    (hI : ∀ d, J d → I d) : OnDisk I cleanupRestores (fun _ d => I d ∨ R d) I I := by
  have hswaps (is : List Nat) : OnDisk J (cleanupSwaps is) (fun _ => J) I I := by
    induction is with
    | nil => exact .pure fun _ h => h
    | cons i is ih =>
      refine .bind ((hJ.cleanupSwap hl i).conseq (fun _ h => h) (fun _ _ h => h)
        (fun _ _ h => h) fun _ h => hI _ h) fun _ => .bind ih fun _ => .pure fun _ h => h
  refine .bind ((loadJournal_onDisk (P := I) (E := I) (C := I) (fun _ h => h)
    fun _ h => h).attempt (R := fun r w => I w.disk ∧ ∀ j, r = .ok j → j = w.disk.journal)
    (fun j w h => ⟨h.1, fun j' hj' => by cases hj'; exact h.2⟩)
    (fun _ _ h => ⟨h, fun _ hj => by cases hj⟩)) fun r => Triple.of_forall fun w hw => ?_
  obtain ⟨hw, hr⟩ := hw
  split
  · exact .pure fun _ h => h ▸ .inl hw
  · exact .pure fun _ h => h ▸ .inl hw
  rename_i j
  have hj := (hr _ rfl).symm
  split
  · rename_i hst
    refine .modify fun x hx => ?_
    subst hx
    split
    · exact .inr (hdrop _ j hw hj hst)
    · rw [← hj]
      exact .inl hw
  rename_i hst
  have hst : j.state = .active := by simpa using hst
  refine .bind (Q := fun _ x => J x.disk) (.modify fun x hx => ?_) fun _ => ?_
  · subst hx
    exact hload _ j hw hj hst
  refine .bind (hswaps _) fun changed => ?_
  refine .when (fun _ => ?_) fun _ _ h => .inl (hI _ h)
  exact .bind ((hJ.savable.saveJournal (E := J) (fun _ h => h) hI).attempt
    (R := fun _ x => J x.disk) (fun _ _ h => h) (fun _ _ h => h)) fun _ =>
    Triple.pure fun _ h => .inl (hI _ h)

theorem safe_cleanable : Cleanable slots (Safe before slots []) where
  closed _ _ h ht := h.beside ht
  savable _ n h := h.save n
  slot _ h := h.mem.slot
  close d i r h hr hst := by
    have hmem := h.mem.modify (f := fun r => {r with state := .rolledBack}) hr rfl
      (fun hm => by cases hm) (fun hm => by rw [hst] at hm; cases hm) (fun hm => by cases hm)
      (fun hm => by cases hm)
    exact ⟨⟨h.undo, h.sighted, h.plain⟩, hmem, fun hw => (h.memPlain hw).withSwaps _⟩

def SwapState.stands : SwapState → Bool
  | .swapped | .committed => true
  | _ => false

variable (before slots) (restored : List (Path × Tree)) in
/-- No swap is under way, and the targets of those that stand hold what was restored,
whatever is left of their previous content. -/
structure Committable (rs : List SwapRecord) (t : Tree) : Prop where
  slot : ∀ r ∈ rs, r.slot ∈ slots
  had : ∀ r ∈ rs, r.state.moved = true → r.hadPrevious = before.has r.target
  ended : ∀ r ∈ rs, r.interrupted = false
  content : ∀ r ∈ rs, r.state.stands = true → t.view r.target = placed restored r.target
  free : ∀ r ∈ rs, r.state = .swapped → before.has r.target = false → t.get r.previous = none
  rest : ∀ s ∈ slots, Untouched before s t ∨ ∃ r ∈ rs, r.slot = s ∧ r.state.stands = true

variable (slots) in
/-- From `t` to `t'` no target changes, and nothing appears at a previous path. -/
def Trims (t t' : Tree) : Prop :=
  ∀ s ∈ slots, t'.view s.target = t.view s.target ∧ (t.get s.previous = none → t'.get s.previous = none)

variable {t t' : Tree}

theorem Beside.trims (h : Beside slots t t') : Trims slots t t' := fun s hs =>
  ⟨(h s hs).1, fun hn => (FileTree.get_congr (h s hs).2).trans hn⟩

variable {restored : List (Path × Tree)}

theorem Committable.trims {rs : List SwapRecord}
    (h : Committable before slots restored rs t) (ht : Trims slots t t') :
    Committable before slots restored rs t' where
  slot := h.slot
  had := h.had
  ended := h.ended
  content r hr hst := (ht _ (h.slot r hr)).1.trans (h.content r hr hst)
  free r hr hst hb := (ht _ (h.slot r hr)).2 (h.free r hr hst hb)
  rest s hs := (h.rest s hs).imp_left fun hu =>
    ⟨(ht s hs).1.trans hu.target, (ht s hs).2 hu.previous⟩

theorem interrupted_eq_false : r.interrupted = false ↔ r.state ≠ .staging ∧ r.state ≠ .swapping := by
  simp [SwapRecord.interrupted]

theorem Committable.commit {rs : List SwapRecord} (h : Committable before slots restored rs t) {i : Nat}
    (hi : rs[i]? = some r) (hr : r.state = .swapped) :
    Committable before slots restored (rs.modify i (fun r => {r with state := .committed})) t := by
  have hmem := mem_of_getElem? hi
  have hst : r.state.stands = true := by rw [hr]; rfl
  refine ⟨fun x hx => ?_, fun x hx hm => ?_, fun x hx => ?_, fun x hx hs => ?_, fun x hx hs hb => ?_, fun s hs => ?_⟩
  · rcases mem_modify hi hx with rfl | hx
    · exact h.slot r hmem
    · exact h.slot x hx
  · rcases mem_modify hi hx with rfl | hx
    · cases hm
    · exact h.had x hx hm
  · rcases mem_modify hi hx with rfl | hx
    · simp [SwapRecord.interrupted]
    · exact h.ended x hx
  · rcases mem_modify hi hx with rfl | hx
    · exact h.content r hmem hst
    · exact h.content x hx hs
  · rcases mem_modify hi hx with rfl | hx
    · cases hs
    · exact h.free x hx hs hb
  · refine (h.rest s hs).imp_right fun ⟨x, hx, hslot, hst⟩ => ?_
    obtain ⟨j, hj⟩ := mem_iff_getElem?.1 hx
    by_cases hij : i = j
    · subst hij
      obtain rfl : r = x := Option.some.inj (hi.symm.trans hj)
      refine ⟨{r with state := .committed}, mem_of_getElem? (i := i) ?_, hslot, rfl⟩
      rw [getElem?_modify, hi]
      simp
    refine ⟨x, mem_of_getElem? (i := j) ?_, hslot, hst⟩
    rw [getElem?_modify, hj]
    simp [hij]

theorem Layout.trims_removeAll (hl : Layout slots) {s : Slot} (hs : s ∈ slots) (t : Tree)
    (r : Path) : Trims slots t (t.removeAll (s.previous ++ r)) := by
  intro s' hs'
  refine ⟨?_, fun hn => ?_⟩
  · have hap : Apart s'.target s.previous := by
      by_cases he : s' = s
      · subst he
        exact (hl.target_inner hs).2.1
      · exact hl.others hs hs' he (by simp [Slot.all]) (by simp [Slot.all])
    have hap' : Apart s'.target (s.previous ++ r) :=
      ⟨hap.symm.not_prefix_append r, fun h => hap.2 ((prefix_append _ _).trans h)⟩
    exact FileTree.view_removeAll_apart t hap'
  · rw [FileTree.get_removeAll]
    split
    · rfl
    · exact hn

theorem Trims.trans {t'' : Tree} (h : Trims slots t t') (h' : Trims slots t' t'') :
    Trims slots t t'' := fun s hs =>
  ⟨(h' s hs).1.trans (h s hs).1, fun hn => (h' s hs).2 ((h s hs).2 hn)⟩

theorem Layout.trims_removeSome (hl : Layout slots) {s : Slot} (hs : s ∈ slots) (t : Tree)
    (rs : List Path) : Trims slots t (t.removeSome s.previous rs) := by
  induction rs generalizing t with
  | nil => exact fun _ _ => ⟨rfl, id⟩
  | cons r rs ih => exact (hl.trims_removeAll hs t r).trans (ih _)

/-- A journal that is not rolled back, and has created nothing while it is open. -/
structure Journal.Unrolled (j : Journal) : Prop where
  state : j.state ≠ .rolledBack
  plain : j.state = .active → j.Plain

theorem Journal.Plain.unrolled (h : j.Plain) : j.Unrolled :=
  ⟨by rw [h.active]; simp, fun _ => h⟩

theorem Journal.Unrolled.withSwaps (h : j.Unrolled) (rs : List SwapRecord) :
    Journal.Unrolled {j with swaps := rs} := ⟨h.state, fun ha => (h.plain ha).withSwaps rs⟩

theorem Journal.Unrolled.stamped (h : j.Unrolled) (now : Nat) :
    (j.stamped now).Unrolled := ⟨h.state, fun ha => (h.plain ha).stamped now⟩

variable (before slots) in
structure Committing (d : Disk) : Prop where
  records : Committable before slots d.restored d.journaled d.fs
  sighted : d.sighted = true
  unrolled : ∀ j, d.journal = some j → j.Unrolled

variable (before slots) in
structure CommitSafe (d : Disk) : Prop extends Committing before slots d where
  mem : Committable before slots d.restored d.mem.swaps d.fs
  memUnrolled : d.mem.Unrolled

theorem CommitSafe.trims (h : CommitSafe before slots d)
    (ht : Trims slots d.fs t) : CommitSafe before slots {d with fs := t} :=
  ⟨⟨h.records.trims ht, h.sighted, h.unrolled⟩, h.mem.trims ht, h.memUnrolled⟩

theorem commitSafe_savable : Savable (CommitSafe before slots) := by
  intro d n h
  refine ⟨⟨⟨h.records, h.sighted, h.unrolled⟩, h.mem, h.memUnrolled.stamped n⟩, ⟨⟨h.mem, h.sighted, fun j hj => ?_⟩, h.mem,
    h.memUnrolled.stamped n⟩⟩
  cases hj
  exact h.memUnrolled.stamped n

theorem CommitSafe.commit (h : CommitSafe before slots d) {i : Nat}
    (hi : d.mem.swaps[i]? = some r) (hr : r.state = .swapped) :
    CommitSafe before slots {d with mem := {d.mem with
      swaps := d.mem.swaps.modify i (fun r => {r with state := .committed})}} :=
  ⟨⟨h.records, h.sighted, h.unrolled⟩, h.mem.commit hi hr, h.memUnrolled.withSwaps _⟩

theorem commitSafe_cleanable : Cleanable slots (CommitSafe before slots) where
  closed _ _ h ht := h.trims ht.trims
  savable := commitSafe_savable
  slot _ h := h.mem.slot
  close d i r h hr hst := by
    have := h.mem.ended r (mem_of_getElem? hr)
    simp [SwapRecord.interrupted, hst] at this

theorem commitSwap_onDisk (hl : Layout slots) (i : Nat) :
    OnDisk (CommitSafe before slots) (commitSwap i) (fun _ => CommitSafe before slots)
      (CommitSafe before slots) (Committing before slots) := by
  refine .get_bind fun w hw => ?_
  split
  · exact .pure fun _ h => h ▸ hw
  rename_i r hr
  split
  · exact .pure fun _ h => h ▸ hw
  rename_i hst
  have hst : r.state = .swapped := by simpa using hst
  have hs := hw.mem.slot r (mem_of_getElem? hr)
  -- the removals leave the record where it is
  have htrim {d : Disk} {t : Tree} (h : CommitSafe before slots d ∧ d.mem = w.mem) (ht : Trims slots d.fs t) :
      CommitSafe before slots {d with fs := t} ∧ ({d with fs := t} : Disk).mem = w.mem :=
    ⟨h.1.trims ht, h.2⟩
  have hprev : OnDisk (fun d => CommitSafe before slots d ∧ d.mem = w.mem) (removeAll r.slot.previous)
      (fun _ d => CommitSafe before slots d ∧ d.mem = w.mem) (CommitSafe before slots)
      (Committing before slots) := by
    refine removeAll_onDisk _ (fun d h => ?_) fun d rs h => ?_
    · have h' := htrim h (append_nil r.slot.previous ▸ hl.trims_removeAll hs d.fs [])
      exact ⟨h', h'.1.toCommitting⟩
    · have h' := htrim h (hl.trims_removeSome hs d.fs rs)
      exact ⟨h'.1, h'.1.toCommitting⟩
  have hbeside : Closed slots (fun d => CommitSafe before slots d ∧ d.mem = w.mem) :=
    fun d t h ht => htrim h ht.trims
  have hscratch {p : Path} (hp : p = r.slot.staging ∨ p = r.slot.discard) :=
    (Closed.removeAll hbeside (C := Committing before slots) (fun _ h => h.1.toCommitting) hl hs
      hp).attempt (F := fun _ x => CommitSafe before slots x.disk)
      (R := fun _ x => CommitSafe before slots x.disk ∧ x.disk.mem = w.mem)
      (fun _ _ h => h) (fun _ _ h => h)
  refine .bind (.mapError (.pre (P := fun x => x = w) hprev fun _ h => ?_)
    fun _ _ h => h) fun _ => .bind (hscratch (.inl rfl)) fun _ =>
    Triple.bind (hscratch (.inr rfl)) fun _ => ?_
  · rw [h]
    exact ⟨hw, rfl⟩
  refine .bind (Q := fun _ x => CommitSafe before slots x.disk) (.modify fun x h => ?_)
    fun _ => .pure fun _ h => h
  exact h.1.commit (d := x.disk) (by rw [h.2]; exact hr) hst

theorem commitRestore_onDisk (hl : Layout slots) :
    OnDisk (CommitSafe before slots) commitRestore (fun _ => Committing before slots)
      (Committing before slots) (Committing before slots) := by
  have hdown : ∀ d, CommitSafe before slots d → Committing before slots d := fun _ h => h.toCommitting
  refine .get_keeps fun w => ?_
  split
  · exact .throw fun _ h => hdown _ h
  refine .bind (.collect_keeps (J := fun (w : World) => CommitSafe before slots w.disk)
    (commitSwap_onDisk hl) _) fun p => ?_
  refine .bind (Q := fun _ w => CommitSafe before slots w.disk) (.modify fun x h => ?_) fun _ => ?_
  · refine ⟨⟨h.records, h.sighted, h.unrolled⟩, h.mem, ?_⟩
    show Journal.Unrolled {x.mem with state := if p.2 = [] then .committed else x.mem.state}
    by_cases hp : p.2 = []
    · rw [if_pos hp]
      exact ⟨by simp, fun ha => by cases ha⟩
    · rw [if_neg hp]
      exact h.memUnrolled
  refine .bind (Q := fun _ (w : World) => Committing before slots w.disk) ?_ fun es => ?_
  · refine .bind ((commitSafe_savable.saveJournal (E := CommitSafe before slots)
      (fun _ h => h) hdown).attempt (R := fun _ w => Committing before slots w.disk)
      (fun _ _ h => hdown _ h) (fun _ _ h => hdown _ h)) fun r => ?_
    cases r with
    | ok _ => exact .pure fun _ h => h
    | error e => exact .pure fun _ h => h
  · split
    · exact .throw fun _ h => h
    · exact .pure fun _ h => h

section Runtime
variable {I E C : Disk → Prop} (hE : ∀ d, I d → E d) (hC : ∀ d, I d → C d)
include hE hC

theorem runtimeCall_keeps (what id : String) (f : Containers → String → Except Err Containers) :
    OnDisk I (runtimeCall what id f) (fun _ => I) E C := by
  refine OnDisk.hostStep fun d w h => ?_
  split
  · exact Draw.meets_ends (hE _ h) (hC _ h)
  · exact Draw.meets_effect h (fun _ => hE _ h) (fun _ => hE _ h) (hC _ h) (hC _ h)

theorem inspectDetails_keeps (id : String) : OnDisk I (inspectDetails id) (fun _ => I) E C :=
  Triple.bind (mayFail_keeps _ hE hC) fun _ =>
    Triple.get_keeps fun _ => .pure fun _ h => h

theorem stopOne_keeps (id : String) : OnDisk I (stopOne id) (fun _ => I) E C := by
  refine .bind (inspectDetails_keeps hE hC id) fun st => ?_
  cases st with
  | none => exact .pure fun _ h => h
  | some st =>
    exact .bind (.when (fun _ => runtimeCall_keeps hE hC _ _ _) fun _ _ h => h) fun _ =>
      Triple.when (fun _ => runtimeCall_keeps hE hC _ _ _) fun _ _ h => h

theorem startOne_keeps (id : String) : OnDisk I (startOne id) (fun _ => I) E C := by
  refine .bind (inspectDetails_keeps hE hC id) fun st => ?_
  cases st with
  | none => exact .throw fun _ h => hE _ h
  | some st => exact .when (fun _ => runtimeCall_keeps hE hC _ _ _) fun _ _ h => h

end Runtime

variable (before slots) in
structure RolledBack (d : Disk) : Prop where
  journal : ∃ j, d.journal = some j ∧ j.state = .rolledBack ∧ ∀ r ∈ j.swaps, r.slot ∈ slots
  sighted : d.sighted = true
  untouched : ∀ s ∈ slots, Untouched before s d.fs

variable (before slots) in
def Reverting (d : Disk) : Prop := Recoverable before slots [] d ∨ RolledBack before slots d

variable (before slots) in
structure Reverted (d : Disk) : Prop extends Safe before slots [] d where
  untouched : ∀ s ∈ slots, Untouched before s d.fs

theorem removeEach_none {α : Type} {f : α → Prog Unit} {xs : List α} (hxs : xs = [])
    {C : Disk → Prop} (I : Disk → Prop) :
    OnDisk I (removeEach f xs) (fun p d => I d ∧ p = ([], [], [])) E C := by
  subst hxs
  exact .pure fun _ h => ⟨h, rfl⟩

theorem removeAllCreated_onDisk (hj : j.Plain) {A : Disk → Prop} {C : Disk → Prop}
    (hA : ∀ d m, A d → A {d with mem := m}) :
    OnDisk (fun d => Safe before slots [] d ∧ A d) (removeAllCreated j)
      (fun p d => (Safe before slots [] d ∧ A d) ∧ p.2 = []) E C := by
  have hset {d : Disk} (h : Safe before slots [] d ∧ A d) {m : Journal}
      (hm : m.swaps = d.mem.swaps) (hp : m.Plain) :
      Safe before slots [] {d with mem := m} ∧ A {d with mem := m} :=
    ⟨⟨⟨h.1.undo, h.1.sighted, h.1.plain⟩, hm ▸ h.1.mem, fun _ => hp⟩, hA d m h.2⟩
  have hstep {f : Journal → Journal} (hs : ∀ m, (f m).swaps = m.swaps) (hp : ∀ m, m.Plain → (f m).Plain) :
      OnDisk (fun d => Safe before slots [] d ∧ A d)
        (.modify fun w => {w with mem := f w.mem}) (fun _ d => Safe before slots [] d ∧ A d) E C :=
    Triple.modify fun w h => hset h (hs _) (hp _ (h.1.memPlain rfl))
  let I := fun d => Safe before slots [] d ∧ A d
  refine .bind (removeEach_none hj.containers I) fun p => Triple.of_forall fun w hw => ?_
  obtain ⟨hw, rfl⟩ := hw
  refine .bind (.pre (P := fun x => x = w) (hstep (f := fun m =>
    {m with createdContainers := []}) (fun _ => rfl) fun m hm => ⟨hm.active, hm.volumes, hm.networks,
    rfl⟩) fun _ h => h ▸ hw) fun _ => ?_
  refine .bind (removeEach_none (by rw [hj.networks]; rfl) I) fun p =>
    Triple.of_forall fun w hw => ?_
  obtain ⟨hw, rfl⟩ := hw
  refine .bind (.pre (P := fun x => x = w) (hstep (f := fun m =>
    {m with createdNetworks := []}) (fun _ => rfl) fun m hm => ⟨hm.active, hm.volumes, rfl,
    hm.containers⟩) fun _ h => h ▸ hw) fun _ => ?_
  refine .bind (removeEach_none hj.volumes I) fun p => Triple.of_forall fun w hw => ?_
  obtain ⟨hw, rfl⟩ := hw
  refine .bind (.pre (P := fun x => x = w) (hstep (f := fun m =>
    {m with createdVolumes := []}) (fun _ => rfl) fun m hm => ⟨hm.active, rfl, hm.networks,
    hm.containers⟩) fun _ h => h ▸ hw) fun _ => ?_
  exact .pure fun _ h => ⟨h, rfl⟩

theorem restartPrevious_onDisk (restart : List String) (changed : List Bool) (removed : List String) :
    OnDisk (Reverted before slots) (restartPrevious restart changed removed)
      (fun _ => Reverting before slots) (Reverting before slots) (Reverting before slots) := by
  have hdown : ∀ d, Reverted before slots d → Reverting before slots d :=
    fun _ h => .inl h.toRecoverable
  refine .bind (.collect_keeps (J := fun (w : World) => Reverted before slots w.disk)
    (startOne_keeps (fun _ h => h) hdown) _) fun p => ?_
  show Triple _ (if p.2 ≠ [] then _ else _) _ _ _
  split
  · exact .throw fun _ h => hdown _ h
  refine .bind (Q := fun _ w => Recoverable before slots [] w.disk ∧
    (∀ s ∈ slots, Untouched before s w.disk.fs) ∧ (∀ r ∈ w.disk.mem.swaps, r.slot ∈ slots) ∧
    w.disk.mem.state = .rolledBack) (.modify fun w h => ?_) fun _ => ?_
  · exact ⟨⟨h.undo, h.sighted, h.plain⟩, h.untouched, h.mem.slot, rfl⟩
  refine .bind (Q := fun _ w => Reverting before slots w.disk) ?_ fun _ => .pure fun _ h => h
  refine saveJournal_onDisk (P := fun d => Recoverable before slots [] d ∧
    (∀ s ∈ slots, Untouched before s d.fs) ∧ (∀ r ∈ d.mem.swaps, r.slot ∈ slots) ∧
    d.mem.state = .rolledBack) (fun d n h => ?_) fun d n h => ?_
  · obtain ⟨hr, hu, hs, hst⟩ := h
    have hR : Reverting before slots {d with mem := d.mem.stamped n, journal := some (d.mem.stamped n)} :=
      .inr ⟨⟨_, rfl, hst, hs⟩, hr.sighted, hu⟩
    exact ⟨hR, hR⟩
  · have hR : Reverting before slots {d with mem := d.mem.stamped n} :=
      .inl (h.1.congr rfl rfl rfl rfl)
    exact ⟨hR, hR⟩

theorem rollBackStopped_onDisk (hl : Layout slots) (restart : List String) :
    OnDisk (Safe before slots []) (rollBackStopped restart) (fun _ => Reverting before slots)
      (Reverting before slots) (Reverting before slots) := by
  have hC : ∀ d, Recoverable before slots [] d → Reverting before slots d := fun _ h => .inl h
  refine .get_bind fun w hw => ?_
  have hleft : Left before slots (List.range w.mem.swaps.length).reverse w.disk :=
    fun s hs => (hw.mem.pending s hs).imp_right fun ⟨_, r, hr, hslot, hm⟩ => by
      obtain ⟨i, hi⟩ := mem_iff_getElem?.1 hr
      exact ⟨i, mem_reverse.2 (mem_range.2 (List.getElem?_eq_some_iff.1 hi).1), r, hi, hslot, hm⟩
  let Done := fun (es : List Err) (d : Disk) =>
    Safe before slots [] d ∧ (es = [] → ∀ s ∈ slots, Untouched before s d.fs)
  have hundo := (undoAll_onDisk (E := Reverting before slots) hl
    (fun target => "roll back " ++ target ++ ": ") (List.range w.mem.swaps.length).reverse fun _ h => h).conseq
    (P := fun x => x = w) (Q := fun p x => Done p.2 x.disk) (fun _ h => ?_)
    (fun _ _ h => ⟨h.1, fun he => (h.2 he).untouched⟩) (fun _ _ h => h) (fun _ h => hC _ h)
  · refine .bind hundo fun p => ?_
    have hsave (es : List Err) : OnDisk (Done es) (saveAfter es) Done (Reverting before slots)
        (Reverting before slots) := (saveAfter_onDisk es slots).conseq (fun _ h => h)
      (fun _ _ h => h) (fun _ _ h => h) (fun _ h => hC _ h)
    refine .bind (hsave p.2) fun es => ?_
    refine .bind (removeAllCreated_onDisk (hw.memPlain rfl)
      (A := fun d => es = [] → ∀ s ∈ slots, Untouched before s d.fs) fun _ _ h => h)
      fun q => Triple.of_forall fun x hx => ?_
    obtain ⟨hx, hq⟩ := hx
    rcases q with ⟨removed, es'⟩
    obtain rfl : es' = [] := hq
    refine .bind ((hsave (es ++ [])).pre fun _ h => ?_) fun es => ?_
    · rw [append_nil]
      exact h ▸ hx
    split
    · exact .throw fun _ h => .inl h.1.toRecoverable
    rename_i hes
    exact (restartPrevious_onDisk restart p.1 removed).pre fun _ h =>
      ⟨h.1, h.2 (by simpa using hes)⟩
  · rw [h]
    exact ⟨hw, hleft⟩

theorem rollbackRestore_onDisk (hl : Layout slots) (restart : List String) :
    OnDisk (Safe before slots []) (rollbackRestore restart) (fun _ => Reverting before slots)
      (Reverting before slots) (Reverting before slots) := by
  have hdown : ∀ d, Safe before slots [] d → Reverting before slots d :=
    fun _ h => .inl h.toRecoverable
  refine .get_keeps fun w => ?_
  refine .bind (Q := fun _ (w : World) => Safe before slots [] w.disk)
    (.when (fun _ => mayFail_keeps _ hdown hdown) fun _ _ h => h) fun _ => ?_
  refine .bind (.collect_keeps (J := fun (w : World) => Safe before slots [] w.disk)
    (stopOne_keeps (fun _ h => h) hdown) _) fun p => ?_
  show Triple _ (if p.2 ≠ [] then _ else _) _ _ _
  split
  · exact .throw fun _ h => hdown _ h
  · exact rollBackStopped_onDisk hl restart

def Standing (d : Disk) : Prop := ∀ r ∈ d.journaled, r.state = .swapped →
  d.fs.has r.target = true ∧ (r.hadPrevious = true → d.fs.has r.previous = true)

/-- No swap is committed, and their previous content is all there. -/
def Intact (before : Tree) (d : Disk) : Prop := ∀ r ∈ d.journaled, r.state ≠ .committed ∧
  (r.state = .swapped → r.hadPrevious = true → d.fs.view r.previous = before.view r.target)

theorem Recoverable.committing (h : Recoverable before slots [] d) (hst : Standing d)
    (hended : ∀ r ∈ d.journaled, r.interrupted = false) : Committing before slots d := by
  have hmoved {r : SwapRecord} (hs : r.state = .swapped) : r.state.moved = true := by rw [hs]; rfl
  refine ⟨⟨h.undo.slot, h.undo.had, hended, fun r hr hs => ?_, fun r hr hs hb => ?_, fun s hs => ?_⟩,
    h.sighted, fun j hj => (h.plain rfl j hj).unrolled⟩
  · cases hrs : r.state with
    | swapped =>
      obtain ⟨hT, hP⟩ := hst r hr hrs
      exact h.undo.content r hr hrs hT fun hb => hP ((h.undo.had r hr (hmoved hrs)).trans hb)
    | committed => exact absurd hrs (h.undo.uncommitted r hr)
    | _ =>
      rw [hrs] at hs
      cases hs
  · exact (h.undo.pending _ (h.undo.slot r hr)).elim (fun hu => hu.previous) fun hp => hp.1.hadNot hb
  · refine (h.undo.pending s hs).imp_right fun ⟨_, r, hr, hslot, hm⟩ => ⟨r, hr, hslot, ?_⟩
    have hne := interrupted_eq_false.1 (hended r hr)
    cases hrs : r.state <;> simp_all [SwapState.moved, SwapState.stands]

theorem Committing.recoverable (h : Committing before slots d) (hi : Intact before d)
    (hj : ∀ j, d.journal = some j → j.state = .active) : Recoverable before slots [] d := by
  refine ⟨⟨h.records.slot, h.records.had, fun s hs => ?_, fun r hr hs _ _ =>
    h.records.content r hr (by rw [hs]; rfl), fun r hr => (hi r hr).1⟩,
    h.sighted, fun _ j hj' => (h.unrolled j hj').plain (hj j hj')⟩
  rcases h.records.rest s hs with hu | ⟨r, hr, rfl, hst⟩
  · exact .inl hu
  have hs : r.state = .swapped := by
    have hne := (hi r hr).1
    cases hrs : r.state <;> simp_all [SwapState.stands]
  have hm : r.state.moved = true := by rw [hs]; rfl
  exact .inr ⟨⟨fun hb => (hi r hr).2 hs ((h.records.had r hr hm).trans hb), h.records.free r hr hs⟩, r, hr, rfl, hm⟩

theorem finalizeRestore_onDisk {P R : Disk → Prop} {id : String} {a : FinalizeAction}
    {restart : List String} (hload : ∀ d, P d → J {d with mem := d.opened id})
    (hrun : OnDisk J (finalizeLoaded id a restart) (fun _ => R) R R) (hP : ∀ d, P d → R d) :
    OnDisk P (finalizeRestore id a restart) (fun _ => R) R R := by
  unfold finalizeRestore
  split
  · exact .throw fun _ h => hP _ h
  refine .bind (loadJournal_onDisk hP hP) fun j => Triple.of_forall fun w hw => ?_
  obtain ⟨hw, rfl⟩ := hw
  exact .bind (.modify fun x hx => by subst hx; exact hload _ hw) fun _ => hrun

theorem finalizeLoaded_onDisk {R : Disk → Prop} {id : String} {a : FinalizeAction} {want : RestoreState}
    {restart : List String} (hwant : a.want = some want) (hJ : ∀ d, J d → R d)
    (hrun : OnDisk J (if want = .committed then commitRestore else rollbackRestore restart) (fun _ => R) R R) :
    OnDisk J (finalizeLoaded id a restart) (fun _ => R) R R := by
  refine .get_keeps fun w => ?_
  rw [hwant]
  dsimp only
  split
  · exact .pure fun _ h => hJ _ h
  split
  · exact .throw fun _ h => hJ _ h
  · exact hrun

theorem Committing.opened (h : Committing before slots d) (id : String) :
    CommitSafe before slots {d with mem := d.opened id} :=
  ⟨⟨h.records, h.sighted, h.unrolled⟩, (d.opened_swaps id).symm ▸ h.records,
    Disk.opened_cases h.unrolled (newJournal_plain id).unrolled⟩

theorem finalizeRestore_commit (hl : Layout slots) (id : String) (restart : List String) :
    OnDisk (Committing before slots) (finalizeRestore id .commit restart)
      (fun _ => Committing before slots) (Committing before slots) (Committing before slots) :=
  finalizeRestore_onDisk (fun _ h => h.opened id)
    (finalizeLoaded_onDisk rfl (fun _ h => h.toCommitting) (commitRestore_onDisk hl)) fun _ h => h

theorem finalizeRestore_rollback (hl : Layout slots) (id : String) (restart : List String) :
    OnDisk (Recoverable before slots []) (finalizeRestore id .rollback restart)
      (fun _ => Reverting before slots) (Reverting before slots) (Reverting before slots) :=
  finalizeRestore_onDisk (fun _ h => h.opened id)
    (finalizeLoaded_onDisk rfl (fun _ h => .inl h.toRecoverable) (rollbackRestore_onDisk hl restart)) fun _ h => .inl h

end Finalize
end Dbr2.Agent
