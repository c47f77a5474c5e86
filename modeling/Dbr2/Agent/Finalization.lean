import Dbr2.Agent.FinalizeRules
import Dbr2.Agent.Atomicity

/-! The life of a restore: RestoreComponents, then FinalizeRestore until it is over.

Commands may be repeated, fail at any step or be cut short by the death of the
agent. What decides is whether a change of mind comes too late: a COMMIT must find
every swap in place unless it goes on with another COMMIT, and a ROLLBACK after a
COMMIT must find all previous content. -/
namespace Dbr2.Agent
open Lib List

/-- Whether the command works on the journal: it is open and, for a COMMIT, has no
interrupted swap. -/
def takes (w : World) (a : FinalizeAction) : Bool :=
  (match w.journal with
    | some j => decide (j.state = .active)
    | none => true) &&
  match a with
  | .commit => w.disk.journaled.all (fun r => !r.interrupted)
  | .rollback => true
  | .unspecified => false

structure Course where
  world : World
  last : Option FinalizeAction

inductive RestoreEvent
  | components (repo : Repository) (c : RestoreCommand) (o : List Draw)
  | finalize (action : FinalizeAction) (restart : List String) (o : List Draw)
  | start (o : List Draw)
  | kill

def startAgent : Prog Unit := do
  cleanupRestores
  startLeases

def courseStep (id : String) (s : Course) : RestoreEvent → Course
  | .components repo c o =>
    if s.world.up then {s with world := settle (restoreComponents repo c o s.world)} else s
  | .finalize a restart o =>
    if s.world.up then
      ⟨settle (finalizeRestore id a restart o s.world), if takes s.world a then some a else s.last⟩
    else s
  | .start o => if s.world.up then s else {s with world := settle (startAgent o s.world)}
  | .kill => {s with world := s.world.down}

/-- What a step has to find. The components come first, with no volume to create. A
COMMIT goes on with a COMMIT or finds every swap in place; a ROLLBACK that follows
a COMMIT finds that nothing was taken away. -/
def Timely (id : String) (before : Tree) (slots : List Slot) (s : Course) : RestoreEvent → Prop
  | .components repo c _ => c.restoreId = id ∧ s.last = none ∧ ∀ x ∈ c.components, Fits repo s.world.volumes slots c x
  | .finalize .commit _ _ => takes s.world .commit = true → s.last ≠ some .commit → Standing s.world.disk
  | .finalize .rollback _ _ => takes s.world .rollback = true → s.last = some .commit → Intact before s.world.disk
  | _ => True

/-- A restore that was rolled back shows nowhere; one that was committed shows at
every target it swapped. -/
structure AllOrNothing (before : Tree) (w : World) : Prop where
  rolledBack : ∀ j, w.journal = some j → j.state = .rolledBack →
    ∀ r ∈ j.swaps, w.fs.view r.target = before.view r.target
  committed : ∀ j, w.journal = some j → j.state = .committed →
    ∀ r ∈ j.swaps, r.state.stands = true → w.fs.view r.target = placed w.restored r.target

section Phase
variable {before : Tree} {slots : List Slot}

structure SameFiles (D d : Disk) : Prop where
  fs : d.fs = D.fs
  journal : d.journal = D.journal
  restored : d.restored = D.restored
  sighted : d.sighted = D.sighted

variable (before slots) in
/-- What holds of a restore that was taken up with this finalization last. -/
def Phase : Option FinalizeAction → Disk → Prop
  | none => Recoverable before slots []
  | some .commit => Committing before slots
  | some _ => Reverting before slots

variable {s : Course} {D d : Disk} {a : FinalizeAction} {last : Option FinalizeAction} {e : RestoreEvent}
    {id : String} {w : World}

theorem Committing.congr (h : Committing before slots D) (hd : SameFiles D d) :
    Committing before slots d := by
  refine ⟨?_, hd.sighted.trans h.sighted, hd.journal ▸ h.unrolled⟩
  rw [Disk.journaled, hd.fs, hd.journal, hd.restored]
  exact h.records

theorem RolledBack.congr (h : RolledBack before slots D) (hd : SameFiles D d) :
    RolledBack before slots d := ⟨hd.journal ▸ h.journal, hd.sighted.trans h.sighted, hd.fs ▸ h.untouched⟩

theorem Reverting.congr (h : Reverting before slots D) (hd : SameFiles D d) :
    Reverting before slots d :=
  h.imp (fun h => h.congr hd.fs hd.journal hd.restored hd.sighted) fun h => h.congr hd

theorem Phase.congr (h : Phase before slots last D) (hd : SameFiles D d) : Phase before slots last d := by
  match last with
  | none => exact Recoverable.congr h hd.fs hd.journal hd.restored hd.sighted
  | some .commit => exact Committing.congr h hd
  | some .rollback | some .unspecified => exact Reverting.congr h hd

theorem settle_phase {α : Type} {a : Option FinalizeAction} {P : Disk → Prop} {m : Prog α}
    (hm : OnDisk P m (fun _ => Phase before slots a) (Phase before slots a)
      (Phase before slots a)) (hw : P w.disk) (o : List Draw) :
    Phase before slots a (settle (m o w)).disk :=
  settle_of_meets (J := fun w => Phase before slots a w.disk) (hm o w hw) (fun _ _ h => h)
    (fun _ _ h => h) fun _ h => h.congr ⟨rfl, rfl, rfl, rfl⟩

theorem finalizeRestore_idle (ht : takes w a = false) (id : String) (restart : List String) :
    OnDisk (fun d => d = w.disk) (finalizeRestore id a restart) (fun _ => SameFiles w.disk)
      (SameFiles w.disk) (SameFiles w.disk) := by
  have hsame : SameFiles w.disk {w.disk with mem := w.disk.opened id} := ⟨rfl, rfl, rfl, rfl⟩
  refine finalizeRestore_onDisk (J := fun d => d = {w.disk with mem := w.disk.opened id})
    (fun _ h => h ▸ rfl) ?_ fun _ h => h ▸ ⟨rfl, rfl, rfl, rfl⟩
  refine .get_bind fun y hy => ?_
  have hmem : y.mem = w.disk.opened id := congrArg Disk.mem hy
  have hswaps : y.mem.swaps = w.disk.journaled := hmem ▸ w.disk.opened_swaps id
  have hy : SameFiles w.disk y.disk := hy ▸ hsame
  -- an open journal is one that is taken up, but for an interrupted swap
  have hopen (hact : ¬ y.mem.state ≠ .active) : (match w.journal with
      | some j => decide (j.state = .active)
      | none => true) = true := by
    rw [hmem, Disk.opened] at hact
    cases hj : w.journal with
    | none => rfl
    | some j =>
      have hact : ¬ j.state ≠ .active := by
        simpa [World.disk, hj] using hact
      simpa using hact
  cases a with
  | unspecified => exact .throw fun _ h => h ▸ hy
  | rollback =>
    show Triple _ (if y.mem.state = .rolledBack then _ else if y.mem.state ≠ .active then _ else _) _ _ _
    split
    · exact .pure fun _ h => h ▸ hy
    split
    · exact .throw fun _ h => h ▸ hy
    · rename_i hact
      simp [takes, hopen hact] at ht
  | commit =>
    show Triple _ (if y.mem.state = .committed then _ else if y.mem.state ≠ .active then _ else _) _ _ _
    split
    · exact .pure fun _ h => h ▸ hy
    split
    · exact .throw fun _ h => h ▸ hy
    rename_i hact
    refine .get_bind fun u hu => ?_
    subst hu
    split
    · exact .throw fun _ h => h ▸ hy
    rename_i hfind
    rw [hswaps, find?_eq_none] at hfind
    have hall : w.disk.journaled.all (fun r => !r.interrupted) = true :=
      all_eq_true.2 fun r hr => by simpa using hfind r hr
    simp [takes, hopen hact, hall] at ht

theorem active_of_takes (h : takes w a = true) (j : Journal) (hj : w.journal = some j) : j.state = .active := by
  rw [takes.eq_def, hj, Bool.and_eq_true] at h
  simpa using h.1

theorem ended_of_takes (h : takes w .commit = true) : ∀ r ∈ w.disk.journaled, r.interrupted = false := by
  rw [takes, Bool.and_eq_true] at h
  exact fun r hr => by simpa using all_eq_true.1 h.2 r hr

theorem RolledBack.not_takes (h : RolledBack before slots w.disk) (a : FinalizeAction) : takes w a = false := by
  obtain ⟨j, hj, hst, -⟩ := h.journal
  cases ht : takes w a with
  | false => rfl
  | true => cases hst.symm.trans (active_of_takes ht j hj)

theorem Phase.committing (h : Phase before slots last w.disk) (ht : takes w .commit = true)
    (hst : last ≠ some .commit → Standing w.disk) : Committing before slots w.disk := by
  have hrev (h : Reverting before slots w.disk) (hst : Standing w.disk) :
      Committing before slots w.disk :=
    (h.resolve_right fun hr => absurd (hr.not_takes .commit) (by simp [ht])).committing hst (ended_of_takes ht)
  match last with
  | none => exact hrev (.inl h) (hst (by simp))
  | some .commit => exact h
  | some .rollback | some .unspecified => exact hrev h (hst (by simp))

theorem Phase.recoverable (h : Phase before slots last w.disk) (ht : takes w .rollback = true)
    (hi : last = some .commit → Intact before w.disk) : Recoverable before slots [] w.disk := by
  have hrev (h : Reverting before slots w.disk) : Recoverable before slots [] w.disk :=
    h.resolve_right fun hr => absurd (hr.not_takes .rollback) (by simp [ht])
  match last with
  | none => exact h
  | some .commit => exact Committing.recoverable h (hi rfl) (active_of_takes ht)
  | some .rollback | some .unspecified => exact hrev h

theorem Phase.finalize (hl : Layout slots)
    {restart : List String} {o : List Draw} (h : Phase before slots s.last s.world.disk)
    (ha : Timely id before slots s (.finalize a restart o)) :
    Phase before slots (if takes s.world a then some a else s.last)
      (settle (finalizeRestore id a restart o s.world)).disk := by
  by_cases ht : takes s.world a = true
  · rw [if_pos ht]
    cases a with
    | commit => exact settle_phase (finalizeRestore_commit hl id restart) (h.committing ht (ha ht)) o
    | rollback =>
      exact settle_phase (a := some .rollback) (finalizeRestore_rollback hl id restart) (h.recoverable ht (ha ht)) o
    | unspecified => simp [takes] at ht
  rw [if_neg ht]
  have hidle := finalizeRestore_idle (by simpa using ht) id restart (w := s.world) (a := a)
  exact settle_phase (P := fun d => d = s.world.disk) (hidle.conseq (fun _ h => h) (fun _ _ hd => h.congr hd)
    (fun _ _ hd => h.congr hd) (fun _ hd => h.congr hd)) rfl o

theorem files_leaseInv (D : Disk) : LeaseInv (fun _ => True) (fun w => SameFiles D w.disk) where
  toTimerInv := disk_timerInv (SameFiles D)
  known _ _ _ _ := trivial
  stable _ _ := ⟨⟨fun _ _ h => h, fun _ h => h⟩, fun _ _ _ h => h⟩
  begin _ _ h _ := h
  delete _ _ h := h
  arm _ _ h := h
  asked _ _ h := h
  resumed _ _ h := h
  opened _ h := h
  down _ h := ⟨h.fs, h.journal, h.restored, h.sighted⟩

theorem phase_forgotten (hs : d.sighted = true) (last : Option FinalizeAction) :
    Phase before [] last {d with journal := none} := by
  have hno {P : SwapRecord → Prop} : ∀ r ∈ Disk.journaled {d with journal := none}, P r := fun r hr => by cases hr
  have hslots {P : Slot → Prop} : ∀ s ∈ ([] : List Slot), P s := fun s hs => by cases hs
  have hnone {P : Journal → Prop} : ∀ j, (none : Option Journal) = some j → P j := fun j h => by cases h
  have hrec : Recoverable before [] [] {d with journal := none} :=
    ⟨⟨hno, hno, hslots, hno, hno⟩, hs, fun _ => hnone⟩
  match last with
  | none => exact hrec
  | some .commit => exact ⟨⟨hno, hno, hno, hno, hno, hslots⟩, hs, hnone⟩
  | some .rollback | some .unspecified => exact .inl hrec

variable (before slots) in
def PhaseOrForgotten (last : Option FinalizeAction) (d : Disk) : Prop :=
  Phase before slots last d ∨ last ≠ none ∧ Phase before [] last d

theorem cleanupRestores_phase (hl : Layout slots) (last : Option FinalizeAction) :
    OnDisk (Phase before slots last) cleanupRestores (fun _ => PhaseOrForgotten before slots last)
      (Phase before slots last) (Phase before slots last) := by
  have hload {d : Disk} {j : Journal} (h : Recoverable before slots [] d)
      (hj : d.journal = some j) : Safe before slots [] {d with mem := j} := by
    have hopen := h.opened ""
    rwa [Disk.opened_of_some hj] at hopen
  match last with
  | none =>
    refine (safe_cleanable.cleanupRestores (R := fun _ => False) hl (fun d j h hj _ => hload h hj)
      (fun d j h hj hst => hst (h.plain rfl j hj).active) fun _ h => h.toRecoverable).post
      fun _ _ h => .inl (h.resolve_right id)
  | some .commit =>
    refine (commitSafe_cleanable.cleanupRestores (R := Phase before [] (some .commit)) hl
      (fun d j h hj _ => ?_) (fun d j h hj hst => phase_forgotten (Committing.sighted h) _)
      fun _ h => h.toCommitting).post fun _ _ h => h.imp_right fun h => ⟨by simp, h⟩
    have hopen := Committing.opened h ""
    rwa [Disk.opened_of_some hj] at hopen
  | some .rollback | some .unspecified =>
    refine (safe_cleanable.cleanupRestores (I := Reverting before slots)
      (R := Phase before [] (some .rollback)) hl (fun d j h hj hst => ?_)
      (fun d j h hj hst => phase_forgotten (h.elim (·.sighted) (·.sighted)) _)
      fun _ h => .inl h.toRecoverable).post fun _ _ h => h.imp_right fun h => ⟨by simp, h⟩
    refine hload (h.resolve_right fun hr => ?_) hj
    obtain ⟨j', hj', hst', -⟩ := hr.journal
    obtain rfl : j = j' := Option.some.inj (hj.symm.trans hj')
    cases hst.symm.trans hst'

theorem startAgent_phase (hl : Layout slots) (last : Option FinalizeAction) :
    OnDisk (Phase before slots last) startAgent (fun _ => PhaseOrForgotten before slots last)
      (PhaseOrForgotten before slots last) (PhaseOrForgotten before slots last) := by
  refine .bind ((cleanupRestores_phase hl last).conseq (fun _ h => h) (fun _ _ h => h)
    (fun _ _ h => .inl h) (fun _ h => .inl h)) fun _ => .of_forall fun w hw => ?_
  have hsame {d : Disk} (hd : SameFiles w.disk d) : PhaseOrForgotten before slots last d :=
    hw.imp (fun h => h.congr hd) fun h => ⟨h.1, h.2.congr hd⟩
  exact (files_leaseInv w.disk).startLeases.conseq (fun _ h => h ▸ ⟨rfl, rfl, rfl, rfl⟩)
    (fun _ _ h => hsame h) (fun _ _ h => hsame h) (fun _ h => hsame h)

/-- A FinalizeRestore of either action, a crash, or a timer. -/
theorem Phase.step (hl : Layout slots) (h : Phase before slots s.last s.world.disk)
    (he : Timely id before slots s e) :
    PhaseOrForgotten before slots (courseStep id s e).last (courseStep id s e).world.disk := by
  cases e with
  | components repo c o =>
    obtain ⟨-, hlast, hfit⟩ := he
    simp only [courseStep]
    split
    · rw [hlast] at h
      have hend : Phase before slots none (settle (restoreComponents repo c o s.world)).disk :=
        settle_phase (a := none) (P := Attached before slots s.world.volumes [])
          ((restoreComponents_onDisk hl (fun _ hs => by cases hs) hfit).conseq (fun _ h => h) (fun _ _ h => h.1)
            (fun _ _ h => h.toRecoverable) fun _ h => h) ⟨h, rfl, fun _ _ hs => by cases hs⟩ o
      exact .inl (hlast ▸ hend)
    · exact .inl h
  | finalize a restart o =>
    simp only [courseStep]
    split
    · exact .inl (h.finalize hl he)
    · exact .inl h
  | start o =>
    simp only [courseStep]
    split
    · exact .inl h
    refine settle_of_meets (J := fun w => PhaseOrForgotten before slots s.last w.disk)
      (startAgent_phase hl s.last o s.world h) (fun _ _ h => h) (fun _ _ h => h) fun _ h => ?_
    exact h.imp (fun h => h.congr ⟨rfl, rfl, rfl, rfl⟩) fun h => ⟨h.1, h.2.congr ⟨rfl, rfl, rfl, rfl⟩⟩
  | kill => exact .inl (h.congr ⟨rfl, rfl, rfl, rfl⟩)

theorem Timely.forget (he : Timely id before slots s e) (hlast : s.last ≠ none) : Timely id before [] s e := by
  cases e with
  | components repo c o => exact absurd he.2.1 hlast
  | finalize a restart o => cases a <;> exact he
  | _ => trivial

theorem layout_nil : Layout [] := ⟨fun _ hs => (by cases hs), fun _ hs => (by cases hs)⟩

theorem courseStep_last (h : s.last ≠ none) : (courseStep id s e).last ≠ none := by
  cases e with
  | kill => exact h
  | finalize a restart o =>
    simp only [courseStep]
    split
    · show (if takes s.world a then some a else s.last) ≠ none
      split
      · simp
      · exact h
    · exact h
  | _ =>
    simp only [courseStep]
    split <;> exact h

theorem PhaseOrForgotten.step (hl : Layout slots) (h : PhaseOrForgotten before slots s.last s.world.disk)
    (he : Timely id before slots s e) :
    PhaseOrForgotten before slots (courseStep id s e).last (courseStep id s e).world.disk := by
  rcases h with h | ⟨hlast, h⟩
  · exact h.step hl he
  · exact .inr ⟨courseStep_last hlast, (h.step layout_nil (he.forget hlast)).elim (fun h => h) (·.2)⟩

theorem Phase.allOrNothing (h : Phase before slots last w.disk) : AllOrNothing before w := by
  have hrec (h : Recoverable before slots [] w.disk) : AllOrNothing before w :=
    ⟨fun j hj hst => (by cases hst.symm.trans (h.plain rfl j hj).active),
      fun j hj hst => (by cases hst.symm.trans (h.plain rfl j hj).active)⟩
  have hrev (h : Reverting before slots w.disk) : AllOrNothing before w := by
    rcases h with h | ⟨⟨j, hj, hst, hs⟩, -, hu⟩
    · exact hrec h
    refine ⟨fun j' hj' _ r hr => ?_, fun j' hj' hst' => ?_⟩
    · obtain rfl : j = j' := Option.some.inj (hj.symm.trans hj')
      exact (hu _ (hs r hr)).target
    · obtain rfl : j = j' := Option.some.inj (hj.symm.trans hj')
      cases hst.symm.trans hst'
  match last with
  | none => exact hrec h
  | some .commit =>
    refine ⟨fun j hj hst => absurd hst (h.unrolled j hj).state, fun j hj _ r hr => ?_⟩
    have hjs : w.disk.journaled = j.swaps := by
      rw [Disk.journaled, show w.disk.journal = some j from hj]
      rfl
    exact h.records.content r (hjs ▸ hr)
  | some .rollback | some .unspecified => exact hrev h

end Phase

/-- **Finalization is all or nothing** for a restore whose paths do not get into each
other's way, in every course whose steps are timely, where no `os.Lstat` fails on a path
that is there. -/
theorem finalization_all_or_nothing (id : String) (slots : List Slot) (hl : Layout slots) (w : World)
    (hnew : w.journal = none) (hsee : ∀ b ∈ w.lstats, b = false) (hfree : ∀ s ∈ slots, w.fs.get s.previous = none)
    (es : List RestoreEvent) (hes : Along (courseStep id) (Timely id w.fs slots) ⟨w, none⟩ es) :
    AllOrNothing w.fs (run (courseStep id) ⟨w, none⟩ es).world := by
  have hjs : w.disk.journaled = [] := by
    rw [Disk.journaled, show w.disk.journal = none from hnew]
    rfl
  have h0 : Phase w.fs slots none w.disk := by
    refine ⟨hjs ▸ .of_untouched (fun r hr => (by cases hr)) (fun r hr => (by cases hr))
      fun s hs => ⟨rfl, hfree s hs⟩, sighted_of hsee, fun _ j hj => ?_⟩
    cases hnew.symm.trans hj
  have hend := hes.invariant (I := fun s : Course =>
    PhaseOrForgotten w.fs slots s.last s.world.disk) (.inl h0) fun s e h he => h.step hl he
  exact hend.elim (fun h => h.allOrNothing) fun h => h.2.allOrNothing

def halfCommitted : List RestoreEvent :=
  [.components .newFile (.ofVolumes ["a", "b"]) [],
    .finalize .commit [] (List.replicate 4 default ++ [{(default : Draw) with fault := .fail false}])]

theorem finalization_all_or_nothing_repeated :
    AllOrNothing World.apartVolumes.fs (run (courseStep "r") ⟨.apartVolumes, none⟩
      (halfCommitted ++ [.finalize .commit [] []])).world := by
  refine finalization_all_or_nothing "r" apartSlots (by decide) .apartVolumes rfl (by decide) (by decide) _
    ⟨⟨rfl, rfl, fun x hx => ?_⟩, fun _ _ => ?_, fun _ h => absurd rfl h, trivial⟩
  · have hx : x = .ofVolume "a" ∨ x = .ofVolume "b" := by
      simpa [RestoreCommand.ofVolumes] using hx
    rcases hx with rfl | rfl
    · exact ⟨by decide, fun _ => rfl⟩
    · exact ⟨by decide, fun _ => rfl⟩
  · unfold Standing
    decide

/-- A ROLLBACK after it reports success and leaves what was restored at the first
target, the previous content at the second. -/
theorem rollback_after_half_commit : (run (courseStep "r") ⟨.apartVolumes, none⟩
      (halfCommitted ++ [.finalize .rollback [] []])).world.journal.map (·.state) = some .rolledBack ∧
    ¬ AllOrNothing World.apartVolumes.fs (run (courseStep "r") ⟨.apartVolumes, none⟩
      (halfCommitted ++ [.finalize .rollback [] []])).world := by
  refine ⟨by decide, fun h => ?_⟩
  have ha := congrFun (h.rolledBack _ rfl rfl _ mem_cons_self) ["f"]
  exact absurd ha (by decide)

end Dbr2.Agent
