import Dbr2.Agent.SwapRules
import Dbr2.Agent.Finalize

/-! RestoreComponents seen from the lease manager.

Whatever the command does on the host, the lease manager sees only that its timers
run before each step, that it is asked about the lease, and that swaps rename. A
predicate that these keep (`SideInv`) is kept by the whole command. -/
namespace Dbr2.Agent
open Lib

/-- What the host steps of a restore may replace. -/
def World.withDisk (w : World) (d : Disk) (r : ComponentResult) : World :=
  {w with
    fs := d.fs
    volumes := d.volumes
    journal := d.journal
    mem := d.mem
    swaps := d.swaps
    restored := d.restored
    result := r}

/-- What RestoreComponents does under the lease manager's eyes keeps `I`. -/
structure SideInv (id : String) (I : World → Prop) : Prop extends TimerInv I where
  up : ∀ w, I w → w.up = true
  disk : ∀ w d r, I w → I (w.withDisk d r)
  looked : ∀ w, I w → I {w with lstats := w.lstats.tail}
  renamed : ∀ w, I w → I (w.note (.renamed id))
  checked : ∀ w, I w → w.resuming = none →
    (∀ l, findLease w.leases id = some l → l.active = true) → I (w.note (.checked id))

section Keeps
variable {α β : Type} {I : World → Prop}

theorem Keeps.pure (a : α) : Keeps I (Pure.pure a) := Triple.pure fun _ h => h

theorem Keeps.throw (e : Err) : Keeps I (Act.throw e : Prog α) := Triple.throw fun _ h => h

theorem Keeps.get : Keeps I (Act.get : Prog World) := Triple.get fun _ h => h

theorem Keeps.modify {f : World → World} (h : ∀ w, I w → I (f w)) : Keeps I (Act.modify f : Prog Unit) :=
  Triple.modify h

theorem Keeps.bind {m : Prog α} {f : α → Prog β} (hm : Keeps I m) (hf : ∀ a, Keeps I (f a)) :
    Keeps I (m >>= f) := Triple.bind hm hf

theorem Keeps.when {c : Prop} [Decidable c] {m : Prog Unit} (h : Keeps I m) :
    Keeps I (Act.when c m) := Triple.when (fun _ => h) fun _ _ h => h

theorem Keeps.mapError {m : Prog α} (h : Keeps I m) (f : Err → Err) : Keeps I (Act.mapError f m) :=
  Triple.mapError h fun _ _ h => h

theorem Keeps.each {f : β → Prog Unit} (h : ∀ x, Keeps I (f x)) (xs : List β) :
    Keeps I (Act.each f xs) := Triple.each_keeps fun x _ => h x

theorem Keeps.collect {f : β → Prog α} (h : ∀ x, Keeps I (f x)) (xs : List β) :
    Keeps I (Act.collect f xs) := Triple.collect_keeps h xs

theorem meets_keeps {r : Outcome Err α} {w : World} (h : I w) : r.meets (fun _ => I) (fun _ => I) I w := by
  cases r <;> exact h

@[simp] theorem Draw.ends_snd (d : Draw) (r : Outcome Err α) (w : World) : (d.ends r w).2 = w := by
  unfold Draw.ends
  split <;> rfl

theorem Draw.effect_snd (d : Draw) (what : String) (f : World → World) (w : World) :
    (d.effect what f w).2 = w ∨ (d.effect what f w).2 = f w := by
  unfold Draw.effect
  split <;> simp

theorem Draw.effect_keeps {d : Draw} {what : String} {f : World → World} {w : World} (hw : I w)
    (hf : I (f w)) : I (d.effect what f w).2 := by
  rcases d.effect_snd what f w with h | h <;> rw [h] <;> assumption

end Keeps

namespace World

theorem resumeStep_resuming (w : World) (r : Resuming) (c : ContainerState)
    (rest : List ContainerState) (b : Bool) (f : Fault) :
    ∃ r', (w.resumeStep r c rest b f).resuming = some r' ∧ r'.todo = rest := by
  unfold resumeStep
  split <;> exact ⟨_, rfl, rfl⟩

theorem resumeStep_up (w : World) (r : Resuming) (c : ContainerState)
    (rest : List ContainerState) (b : Bool) (f : Fault) : (w.resumeStep r c rest b f).up = w.up := by
  have hone : (w.restoreOne r.leaseId c b f).2.up = w.up := by
    rcases w.restoreOne_cases r.leaseId c b f with h | ⟨cs, h⟩ <;> rw [h]
    rfl
  unfold resumeStep
  split <;> rename_i he <;> rw [he] at hone <;> exact hone

theorem endResume_resuming (w : World) (r : Resuming) (f : Fault) : (w.endResume r f).resuming = none := by
  unfold endResume
  split
  · cases f <;> rfl
  · rfl
  · rfl

/-- An automatic resume that goes on undisturbed ends. -/
theorem resumeRest_resuming {w : World} {r : Resuming} {cs : List ContainerState} (hup : w.up = true)
    (hr : w.resuming = some r) (hcs : r.todo = cs) : (w.resumeRest cs).resuming = none := by
  induction cs generalizing w r with
  | nil =>
    simp only [resumeRest, timerStep, hup, hr, hcs, Bool.not_true, Bool.false_eq_true, if_false, if_true]
    exact w.endResume_resuming r _
  | cons c cs ih =>
    obtain ⟨r', hr', hcs'⟩ := w.resumeStep_resuming r c cs false .none
    have hstep : w.timerStep (.resume false .none) = w.resumeStep r c cs false .none := by
      simp only [timerStep, hup, hr, hcs, Bool.not_true, Bool.false_eq_true, if_false]
    simp only [resumeRest]
    rw [hstep]
    exact ih ((w.resumeStep_up r c cs _ _).trans hup) hr' hcs'

theorem drain_resuming {w : World} (hup : w.up = true) : w.drain.resuming = none := by
  unfold drain
  split
  · assumption
  · exact resumeRest_resuming hup ‹_› rfl

end World

namespace SideInv
variable {α : Type} {id : String} {I : World → Prop} (hI : SideInv id I)
include hI

theorem hostStep {f : Draw → World → Outcome Err α × World} (h : ∀ d w, I w → I (f d w).2) : Keeps I (hostStep f) :=
  Triple.prim fun d w hw => meets_keeps (h d (d.before w) (hI.before hw d))

theorem setFs (w : World) (h : I w) (t : Tree) : I {w with fs := t} :=
  hI.disk w {w.disk with fs := t} w.result h

theorem setMem (w : World) (h : I w) (j : Journal) : I {w with mem := j} :=
  hI.disk w {w.disk with mem := j} w.result h

theorem pathExists (p : Path) : Keeps I (pathExists p) := by
  refine Keeps.get.bind fun _ => ?_
  split
  · exact (Keeps.modify fun w h => hI.looked w h).bind fun _ => .pure _
  · exact .pure _

theorem mayFail (e : Err) : Keeps I (mayFail e) :=
  hI.hostStep fun d w h => by split <;> simpa using h

theorem removeAll (p : Path) : Keeps I (removeAll p) := by
  refine hI.hostStep fun d w h => ?_
  split
  · simpa using hI.setFs w h _
  · simpa using hI.setFs w h _

theorem renameNoting {note : World → World} (hn : ∀ w, I w → I (note w)) (p q : Path) :
    Keeps I (renameNoting note p q) := by
  refine hI.hostStep fun d w h => ?_
  split
  · simpa using hI.setFs _ (hn w h) _
  · simpa using h

theorem rename (p q : Path) : Keeps I (rename p q) := hI.renameNoting (fun _ h => h) p q

theorem saveJournal : Keeps I saveJournal := by
  refine hI.hostStep fun d w h => ?_
  split
  · rw [Draw.ends_snd]
    exact hI.disk w {w.disk with mem := w.touch.mem, journal := some w.touch.mem} w.result h
  · rw [Draw.ends_snd]
    exact hI.setMem w h w.touch.mem

theorem saveAfter (es : List Err) : Keeps I (saveAfter es) := by
  refine hI.saveJournal.attempt.bind fun r => ?_
  cases r <;> exact .pure _

theorem loadJournal : Keeps I loadJournal := (hI.mayFail _).bind fun _ => Keeps.get.bind fun _ => .pure _

theorem discard (p q : Path) : Keeps I (discard p q) :=
  (hI.pathExists p).bind fun _ => .when <| (hI.removeAll q).bind fun _ =>
    (hI.rename p q).bind fun _ => hI.removeAll q

theorem undoRecord (r : SwapRecord) : Keeps I (undoRecord r) := by
  have hmove : Keeps I (moveBack r) := by
    unfold moveBack
    split
    · exact .pure _
    split
    · exact (hI.pathExists _).bind fun _ => (Keeps.when <| (hI.discard _ _).bind fun _ =>
        hI.rename _ _).bind fun _ => .pure _
    · exact (hI.discard _ _).bind fun _ => .pure _
  exact (hI.removeAll _).bind fun _ => hmove.bind fun _ => (hI.removeAll _).attempt.bind fun _ => .pure _

theorem undoSwapFor (context : String → String) (i : Nat) : Keeps I (undoSwapFor context i) := by
  refine Keeps.get.bind fun _ => Keeps.mapError (Keeps.get.bind fun w => ?_) _
  split
  · exact .pure _
  split
  · exact .pure _
  · exact (hI.undoRecord _).bind fun _ => (Keeps.modify fun w h => hI.setMem w h _).bind fun _ => .pure _

theorem rollback : Keeps I rollback :=
  Keeps.get.bind fun _ => (Keeps.collect (hI.undoSwapFor _) _).bind fun _ => hI.saveAfter _

theorem report (f : ComponentResult → ComponentResult) : Keeps I (report f) :=
  .modify fun w h => hI.disk w w.disk (f w.result) h

theorem stage (excl : Bool) (p : Path) (t : Tree) : Keeps I (stage excl p t) := by
  refine hI.hostStep fun d w h => ?_
  split
  · simpa using h
  split
  · simpa using hI.setFs w h _
  · simpa using hI.setFs w h _

theorem ensureParents (p : Path) : Keeps I (ensureParents p) := by
  refine Keeps.get.bind fun _ => Keeps.each (fun q => hI.hostStep fun d w h => ?_) _
  split
  · simpa using h
  · exact Draw.effect_keeps h (hI.setFs w h _)

theorem begin (component : String) (kind : SwapKind) (s : Slot) : Keeps I (begin id component kind s) := by
  refine Keeps.get.bind fun w => ?_
  split
  · exact .throw _
  refine (Keeps.modify fun w h => ?_).bind fun _ => hI.saveJournal.bind fun _ =>
    ((hI.removeAll _).mapError _).bind fun _ => .pure _
  exact hI.disk w {w.disk with
    mem := {w.mem with swaps := w.mem.swaps ++
      [⟨component, kind, s.target, s.staging, s.previous, s.discard, false, .staging⟩]}
    swaps := w.swaps ++ [w.mem.swaps.length]} w.result h

/-- A negative answer: nothing is being resumed, and the lease, if there, is active. -/
theorem autoResumed : Triple I (autoResumed id) (fun b w => I w ∧ (b = false → w.resuming = none ∧
      ∀ l, findLease w.leases id = some l → l.active = true)) (fun _ => I) I := by
  refine Triple.bind (Q := fun _ w => I w ∧ w.resuming = none) (Triple.prim fun d w h => ?_) fun _ => ?_
  · have hb := hI.before h d
    exact Draw.meets_ends ⟨hI.drain hb, World.drain_resuming (hI.up _ hb)⟩ (hI.drain hb)
  refine Triple.bind (Triple.get (R := fun w w' => (I w' ∧ w'.resuming = none) ∧ w = w')
    fun _ h => ⟨h, rfl⟩) fun w => Triple.pure fun w' h => ⟨h.1.1, fun hb => ⟨h.1.2, fun l hl => ?_⟩⟩
  rw [h.2, hl] at hb
  simpa using hb

/-- The question is noted when it was answered no, then come the renames. -/
theorem swap (i : Nat) (s : Slot) : Keeps I (swap id i s) := by
  refine Triple.bind hI.autoResumed fun b => ?_
  cases b with
  | true => exact Triple.throw fun _ h => h.1
  | false =>
    refine Triple.bind (Q := fun _ => I) (Triple.modify fun w h => hI.checked w h.1 (h.2 rfl).1 (h.2 rfl).2)
      fun _ => ?_
    have hin : ∀ had, Keeps I (moveIn id s had) := fun had =>
      (Keeps.when <| (hI.renameNoting (fun w h => hI.renamed w h) _ _).mapError _).bind fun _ =>
        (hI.renameNoting (fun w h => hI.disk _ {w.disk with
          restored := (s.target, w.fs.sub s.staging) :: w.restored} w.result (hI.renamed w h))
          _ _).mapError _
    exact (hI.pathExists _).bind fun had => (Keeps.modify fun w h => hI.setMem w h _).bind fun _ =>
      hI.saveJournal.bind fun _ => (hin had).bind fun _ =>
      (Keeps.modify fun w h => hI.setMem w h _).bind fun _ => hI.saveJournal.bind fun _ => .pure _

variable (s : RestoreSpec)

theorem metadata : Keeps I (metadata s) := by
  have hmode : Keeps I (setMode s.mode) := by
    unfold setMode
    split
    · exact .throw _
    · exact hI.mayFail _
  exact (Keeps.when (hI.mayFail _)).bind fun _ => (Keeps.when hmode).bind fun _ =>
    (Keeps.when (hI.mayFail _)).bind fun _ => Keeps.when (hI.mayFail _)

theorem volume : Keeps I (volume s) := by
  unfold Agent.volume
  split
  · exact .throw _
  refine (hI.mayFail _).bind fun _ => Keeps.bind ?_ fun v => ?_
  · refine ((hI.mayFail _).bind fun _ => Keeps.get.bind fun _ => .pure _).bind fun v => ?_
    split
    · exact .pure _
    refine (Keeps.modify fun w h => hI.setMem w h _).bind fun _ => hI.saveJournal.bind fun _ =>
      Keeps.bind (hI.hostStep fun d w h => ?_) fun _ => (hI.report _).bind fun _ => .pure _
    have hadd : I (w.addVolume s.volumeName s.volumeDriver d.mountpoint) :=
      hI.disk w {w.disk with
        volumes := (w.addVolume s.volumeName s.volumeDriver d.mountpoint).volumes
        fs := (w.addVolume s.volumeName s.volumeDriver d.mountpoint).fs} w.result h
    split
    · simpa using hadd
    · simpa using hadd
    · simpa using h
  · split
    · exact .pure _
    · exact .throw _

theorem resolveTarget : Keeps I (resolveTarget s) := by
  unfold Agent.resolveTarget
  split
  · exact (hI.volume s).bind fun _ => .pure _
  split
  · exact .throw _
  · exact ((hI.ensureParents _).mapError _).bind fun _ => .pure _

variable {repo : Repository}

theorem stageContent (snap : Snapshot) (file : Option String) (p : Path) :
    Keeps I (stageContent s snap file p) := by
  cases file with
  | none => exact (hI.stage _ _ _).mapError _
  | some name =>
    have hroot : Keeps I (rootFile snap s.snapshotId name) := by
      refine (hI.mayFail _).bind fun _ => ?_
      split
      · exact (hI.mayFail _).bind fun _ => .pure _
      · exact .throw _
      · exact .throw _
    exact hroot.bind fun _ => (hI.stage _ _ _).bind fun _ => hI.report _

theorem singleFile (snap : Snapshot) (target : Path) : Keeps I (singleFile s snap target) := by
  unfold Agent.singleFile
  split
  · split
    · exact .pure _
    · exact .throw _
  split
  · exact .pure _
  refine Keeps.get.bind fun w => ?_
  split
  · exact .pure _
  refine (hI.mayFail _).bind fun _ => ?_
  split <;> exact .pure _

theorem filesystem : Keeps I (filesystem repo id s) := by
  have hsnap : Keeps I (getSnapshot repo s.snapshotId) := by
    refine (hI.mayFail _).bind fun _ => ?_
    split
    · exact .pure _
    · exact .throw _
  refine (hI.resolveTarget s).bind fun p => (hI.report _).bind fun _ => hsnap.bind fun snap =>
    (hI.report _).bind fun _ => (hI.singleFile s snap _).bind fun file => (hI.mayFail _).bind fun _ =>
    (hI.begin _ _ _).bind fun i => (hI.stageContent s snap file _).bind fun _ =>
    (hI.metadata s).bind fun _ => (hI.swap i _).bind fun had => Keeps.when (hI.report _)

section

variable {c : RestoreCommand} (hc : c.restoreId = id)
include hc

theorem config (s : RestoreSpec) : Keeps I (config repo c s) := by
  subst hc
  refine (hI.mayFail _).bind fun _ => ?_
  split
  · exact .throw _
  refine Keeps.each (fun f => ?_) _
  unfold configFile
  split
  · exact .throw _
  exact ((hI.ensureParents _).mapError _).bind fun _ => (hI.begin _ _ _).bind fun i =>
    (hI.mayFail _).bind fun _ => (hI.stage _ _ _).bind fun _ => (hI.swap i _).bind fun _ =>
    hI.report _

theorem component (s : RestoreSpec) : Keeps I (component repo c s) := by
  have hfs : Keeps I (Agent.filesystem repo c.restoreId s) := hc ▸ hI.filesystem s
  unfold Agent.component
  split
  · exact .throw _
  split
  · exact hfs.bind fun _ => hI.report _
  · exact hfs.bind fun _ => hI.report _
  · exact (hI.config hc s).bind fun _ => hI.report _
  · exact hI.report _

theorem restoreLoop (ss : List RestoreSpec) :
    Keeps I (restoreLoop repo c ss) := by
  induction ss with
  | nil => exact .pure _
  | cons s ss ih =>
    refine (hI.report _).bind fun _ => (hI.component hc s).attempt.bind fun r =>
      Keeps.get.bind fun w => ?_
    cases r with
    | error e => exact .pure _
    | ok _ => exact ih.bind fun _ => .pure _

end

theorem undoInterrupted (i : Nat) : Keeps I (undoInterrupted i) := by
  refine Keeps.get.bind fun w => ?_
  split
  · exact .pure _
  · exact .when <| ((hI.undoSwapFor _ i).mapError _).bind fun _ => .pure _

theorem openJournal (id : String) : Keeps I (openJournal id) := by
  refine hI.loadJournal.bind fun j => ?_
  split
  · exact .modify fun w h => hI.setMem w h _
  split
  · exact .throw _
  · exact .modify fun w h => hI.setMem w h _

/-- The whole command keeps `I`, whatever it meets on the host. -/
theorem restoreComponents {c : RestoreCommand} (hc : c.restoreId = id) : Keeps I (restoreComponents repo c) := by
  unfold Agent.restoreComponents
  split
  · exact .throw _
  split
  · exact .throw _
  split
  · exact .throw _
  refine (hI.mayFail _).bind fun _ => (hI.mayFail _).bind fun _ => (hI.openJournal _).bind fun _ =>
    Keeps.get.bind fun _ => (Keeps.each hI.undoInterrupted _).bind fun _ =>
    hI.saveJournal.bind fun _ => (hI.mayFail _).bind fun _ => (Keeps.modify fun w h =>
      hI.disk w {w.disk with swaps := []} w.result h).bind fun _ =>
    (hI.restoreLoop hc _).bind fun p => ?_
  rcases p with ⟨rs, failure⟩
  cases failure with
  | none => exact .pure _
  | some e => exact hI.rollback.bind fun _ => .pure _

end SideInv
end Dbr2.Agent
