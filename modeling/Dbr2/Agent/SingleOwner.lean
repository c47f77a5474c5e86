import Dbr2.Agent.Ownership

/-! The commands of the lease manager keep ownership, and so does every run of it.

A Quiesce journals its lease before it holds anything, and gives it up only when what it held came
back; a Resume gives it up after its containers came back; a start reads the leases from the journal
and arms them. -/
namespace Dbr2.Agent
open Lib List

def Nobody (_ : String) : Prop := False

section Commands
variable {w : World}

variable {l : Lease} {ls : List Lease} {X : String → Prop}

theorem Locked.delete (h : Locked X w) {id : String}
    (hs : ∀ l ∈ w.leases, l.leaseId = id → l.active = true → Settled l w.log) :
    Locked (fun x => X x ∧ x ≠ id) (w.deleteLease id) :=
  ⟨h.toGuarded.delete h.idle hs, h.idle⟩

theorem Locked.imp {Y : String → Prop} (h : Locked X w)
    (hXY : ∀ l ∈ w.leases, l.active = true → X l.leaseId → Y l.leaseId) : Locked Y w :=
  ⟨h.toGuarded.imp hXY, h.idle⟩

theorem Locked.arm (h : Locked X w) (l : Lease) : Locked (fun x => X x ∧ x ≠ l.leaseId) (w.arm l) :=
  ⟨h.toGuarded.arm h.idle l, h.idle⟩

structure Taking (l : Lease) (w : World) : Prop extends Locked (· = l.leaseId) w where
  mem : l ∈ w.leases

structure Holding (l : Lease) (w : World) : Prop extends Taking l w where
  journaled : l ∈ w.leaseFile

theorem Taking.settled (h : Taking l w) (hs : Settled l w.log) : Locked Nobody (w.deleteLease l.leaseId) := by
  refine (h.toLocked.delete fun x hx hid _ => ?_).imp fun _ _ _ hX => hX.2 hX.1
  rwa [eq_of_apart h.apart hx h.mem hid]

theorem Taking.arm (h : Taking l w) : Locked Nobody (w.arm l) :=
  (h.toLocked.arm l).imp fun _ _ _ hX => hX.2 hX.1

theorem Taking.congr {w' : World} (h : Taking l w) (e : Alike w w') : Taking l w' :=
  ⟨h.toLocked.congr e, e.leases ▸ h.mem⟩

theorem Holding.congr {w' : World} (h : Holding l w) (e : Alike w w') : Holding l w' :=
  ⟨h.toTaking.congr e, e.leaseFile ▸ h.journaled⟩

theorem holding_restoring (l : Lease) : Restoring (Holding l) where
  live _ h := h.toLive
  tick _ _ h := h.congr ⟨fun _ => rfl, rfl, rfl, rfl, rfl, rfl, rfl⟩
  back _ lease _ _ h hb := ⟨⟨h.toLocked.back hb lease, h.mem⟩, h.journaled⟩

theorem Locked.take (h : Locked Nobody w) (ha : l.active = true) (hid : ∀ x ∈ w.leases, x.leaseId ≠ l.leaseId)
    (happ : ∀ x ∈ w.leases, x.applicationId = l.applicationId → x.active = false) :
    Taking l {w with leases := putLease w.leases l} := by
  have hsub (x : Lease) (hx : x ∈ w.leases) : x ∈ putLease w.leases l :=
    mem_cons_of_mem _ (mem_eraseLease_iff.2 ⟨hx, hid x hx⟩)
  refine ⟨⟨⟨⟨h.toOwned.congr (fun _ => rfl) rfl rfl, h.up, fun c hc => (h.memory c hc).mono hsub, ?_⟩,
    fun x hx hxa => ?_, fun r hr => (by cases h.idle.symm.trans hr)⟩, h.idle⟩, mem_cons_self⟩
  · refine pairwise_cons.2 ⟨fun x hx => ?_, apart_erase h.apart _⟩
    have hx := mem_eraseLease hx
    refine ⟨(hid x hx).symm, fun ⟨_, hxa, he⟩ => ?_⟩
    rw [happ x hx he.symm] at hxa
    cases hxa
  · rcases mem_putLease hx with rfl | hx
    · exact .inl rfl
    · exact .inr ((h.guarded x hx hxa).resolve_left id)

theorem hold_holding (ha : l.active = true) {c : ContainerState} (hc : c ∈ l.preState) :
    Triple (Holding l) (hold l.leaseId l.mode c) (fun _ => Holding l) (fun _ => Holding l) Owned := by
  unfold hold
  split
  · exact .pure fun _ h => h
  next hrun =>
  have hrun : c.state = .running := by simpa using hrun
  refine .prim fun d w h => ?_
  have h : Holding l (w.tick d.wait) := h.congr ⟨fun _ => rfl, rfl, rfl, rfl, rfl, rfl, rfl⟩
  simp only
  split
  · exact Draw.meets_ends h h.toOwned
  next cs hcs =>
  have hcov {ls : List Lease} (hl : l ∈ ls) : Covers ls c.id := ⟨l, hl, ha, c, hc, rfl, hrun⟩
  have hheld : Holding l ({w.tick d.wait with containers := cs}.note (.held l.leaseId c.id)) :=
    ⟨⟨⟨⟨h.toLive.hold hcs (hcov h.mem) (hcov h.journaled), h.guarded,
      fun r hr => (by cases h.idle.symm.trans hr)⟩, h.idle⟩, h.mem⟩, h.journaled⟩
  exact Draw.meets_effect hheld (fun _ => hheld) (fun _ => h) hheld.toOwned h.toOwned

theorem logSaveLeases_locked {E : Err → World → Prop} :
    Triple (Locked Nobody) logSaveLeases (fun _ => Locked Nobody) E Owned :=
  Triple.bind (Q := fun _ => Locked Nobody)
    (((Locked.saving.saveLeases).conseq (fun _ h => h) (fun _ _ h => h) (fun _ _ h => h)
      fun _ h => h.toOwned).attempt (fun _ _ h => h) fun _ _ h => h)
    fun _ => .pure fun _ h => h

theorem rollbackQuiesce_locked (l : Lease) (e : Err) :
    Triple (Holding l) (rollbackQuiesce l e) (fun _ => Locked Nobody) (fun _ => Locked Nobody) Owned := by
  refine (restore_settles (holding_restoring l) l).bind fun p => ?_
  obtain ⟨ids, es⟩ := p
  simp only
  split
  · refine .bind (Q := fun _ => Locked Nobody) (.modify fun w h => h.1.toTaking.arm) fun _ => ?_
    exact .throw fun _ h => h
  next hes =>
  refine .bind (Q := fun _ => Locked Nobody) (.modify fun w h => ?_) fun _ => ?_
  · exact h.1.toTaking.settled (h.2 (by simpa using hes))
  · exact logSaveLeases_locked.bind fun _ => .throw fun _ h => h

theorem takeLease_locked (ha : l.active = true) :
    Triple (fun w => Locked Nobody w ∧ Settled l w.log ∧ (∀ x ∈ w.leases, x.leaseId ≠ l.leaseId) ∧
      ∀ x ∈ w.leases, x.applicationId = l.applicationId → x.active = false) (takeLease l)
      (fun _ => Locked Nobody) (fun _ => Locked Nobody) Owned := by
  refine .bind (Q := fun _ w => Taking l w ∧ Settled l w.log)
    (.modify fun w h => ⟨h.1.take ha h.2.2.1 h.2.2.2, h.2.1⟩) fun _ => ?_
  refine .bind (.attempted (Q := fun _ => Holding l)
    (E := fun _ w => Taking l w ∧ Settled l w.log) (.prim fun d w h => ?_)) fun r => ?_
  · have ht : Taking l (w.tick d.wait) := h.1.congr ⟨fun _ => rfl, rfl, rfl, rfl, rfl, rfl, rfl⟩
    simp only
    split
    · have hh : Holding l (w.tick d.wait).saveLeases :=
        ⟨⟨Locked.saving.save _ ht.toLocked, ht.mem⟩, ht.mem⟩
      exact Draw.meets_ends hh hh.toOwned
    · exact Draw.meets_ends ⟨ht, h.2⟩ ht.toOwned
  · cases r with
    | error e =>
      refine .bind (Q := fun _ => Locked Nobody) (.modify fun w h => h.1.settled h.2) fun _ => ?_
      exact .throw fun _ h => h
    | ok _ =>
      refine .bind (Q := fun _ => Holding l) (.modify fun w h =>
        h.congr ⟨fun _ => rfl, rfl, rfl, rfl, rfl, rfl, rfl⟩) fun _ => ?_
      refine ((Triple.each_keeps fun c hc => hold_holding ha hc).attempt (R := fun _ => Holding l)
        (fun _ _ h => h) fun _ _ h => h).bind fun r => ?_
      cases r with
      | error e => exact rollbackQuiesce_locked l e
      | ok _ =>
        refine .bind (Q := fun _ => Locked Nobody) (.modify fun w h => ?_) fun _ =>
          Triple.pure fun _ h => h
        exact h.toTaking.arm.congr ⟨fun _ => rfl, rfl, rfl, rfl, rfl, rfl, rfl⟩

theorem quiesceLocked_locked (q : QuiesceCommand) (mode : Mode) :
    Triple (Locked Nobody) (quiesceLocked q mode) (fun _ => Locked Nobody) (fun _ => Locked Nobody)
      Owned := by
  refine (Triple.get (R := fun a w => Locked Nobody w ∧ a = w) fun w h => ⟨h, rfl⟩).bind fun a => ?_
  split
  · next l _ =>
    unfold repeated
    split
    · exact .throw fun _ h => h.1
    split
    · exact .throw fun _ h => h.1
    · exact .pure fun _ h => h.1
  next hfind =>
  split
  · exact .throw fun _ h => h.1
  next hnone =>
  -- until the lease is taken only time passes
  have hI : Saving fun w => Locked Nobody w ∧ w.leases = a.leases :=
    ⟨fun w d h => ⟨Locked.saving.tick w d h.1, h.2⟩, fun w h => ⟨Locked.saving.save w h.1, h.2⟩⟩
  refine .bind (Q := fun _ w => Locked Nobody w ∧ w.leases = a.leases)
    (hI.control.conseq (fun w h => ⟨h.1, by rw [h.2]⟩) (fun _ _ h => h) (fun _ _ h => h.1)
      fun _ h => h.1.toOwned) fun _ => ?_
  refine .of_forall fun s hs => ?_
  refine .bind ((hI.inspectAll s.containers q.containerIds).conseq
    (fun w h => by rw [h]; exact ⟨hs, rfl⟩) (fun _ _ h => h) (fun _ _ h => h.1)
    fun _ h => h.1.toOwned) fun pre => ?_
  refine (takeLease_locked rfl).pre fun w hw => ?_
  obtain ⟨⟨⟨h, hls⟩, hcs⟩, -, hpre⟩ := hw
  refine ⟨h, ?_, ?_, ?_⟩
  · -- what was inspected as running is not out
    intro x hx hrun
    cases ho : outstanding x.id w.log with
    | false => rfl
    | true =>
      have hst := hpre x hx
      rw [← hcs, hrun] at hst
      exact absurd hst (h.halted x.id ho).1
  · rw [hls]
    exact fun x hx => ne_of_findLease_none hfind hx
  · rw [hls]
    intro x hx happ
    have hx := find?_eq_none.1 hnone x hx
    have happ : x.applicationId = q.applicationId := happ
    simpa [happ] using hx

theorem quiesce_guarded (q : QuiesceCommand) :
    Triple (Guarded Nobody) (quiesce q) (fun _ => Guarded Nobody) (fun _ => Guarded Nobody) Owned := by
  unfold quiesce
  split
  · exact .throw fun _ h => h
  split
  · exact .throw fun _ h => h
  next mode _ =>
  exact lock_guarded.bind fun _ => (quiesceLocked_locked q mode).conseq (fun _ h => h)
    (fun _ _ h => h.toGuarded) (fun _ _ h => h.toGuarded) fun _ h => h

theorem locked_restoring : Restoring fun w => Locked Nobody w where
  live _ h := h.toLive
  tick w d h := Locked.saving.tick w d h
  back _ lease _ _ h hb := h.back hb lease

theorem resumeLocked_locked (id : String) :
    Triple (Locked Nobody) (resumeLocked id) (fun _ => Locked Nobody) (fun _ => Locked Nobody)
      Owned := by
  have hnote (r : ResumeResult) : Triple (Locked Nobody)
      (Act.modify (fun w => w.note (.resumed id)) >>= fun _ => (pure r : Prog ResumeResult))
      (fun _ => Locked Nobody) (fun _ => Locked Nobody) Owned :=
    Triple.bind (Q := fun _ => Locked Nobody) (.modify fun w h =>
      h.congr ⟨fun _ => rfl, rfl, rfl, rfl, rfl, rfl, rfl⟩) fun _ => .pure fun _ h => h
  refine .bind (Q := fun _ => Locked Nobody) (.modify fun w h =>
    h.congr ⟨fun _ => rfl, rfl, rfl, rfl, rfl, rfl, rfl⟩) fun _ => ?_
  refine (Triple.get (R := fun a w => Locked Nobody w ∧ a = w) fun w h => ⟨h, rfl⟩).bind fun a => ?_
  split
  · exact (hnote _).pre fun _ h => h.1
  next l hl =>
  obtain ⟨hmem, rfl⟩ := findLease_mem hl
  split
  · next ha =>
    refine .bind (Q := fun _ => Locked Nobody) (.modify fun w h => ?_) fun _ =>
      logSaveLeases_locked.bind fun _ => hnote _
    obtain ⟨h, rfl⟩ := h
    refine (h.delete fun x hx hid hxa => ?_).imp fun _ _ _ hX => hX.1
    rw [eq_of_apart h.apart hx hmem hid] at hxa
    rw [hxa] at ha
    cases ha
  -- the leases stay as they are while the containers come back
  have hJ : Restoring fun w => Locked Nobody w ∧ w.leases = a.leases :=
    ⟨fun w h => h.1.toLive, fun w d h => ⟨locked_restoring.tick w d h.1, h.2⟩,
      fun w lease c cs h hb => ⟨h.1.back hb lease, h.2⟩⟩
  refine ((restore_settles hJ l).pre fun w h => ⟨h.1, by rw [h.2]⟩).bind fun p => ?_
  obtain ⟨ids, es⟩ := p
  simp only
  split
  · exact .throw fun _ h => h.1.1
  next hes =>
  refine .bind (Q := fun _ => Locked Nobody) (.modify fun w h => ?_) fun _ =>
    logSaveLeases_locked.bind fun _ => hnote _
  obtain ⟨⟨h, hls⟩, hset⟩ := h
  have hdis : Locked (fun x => Nobody x ∨ x = l.leaseId) (w.disarm l.leaseId) :=
    ⟨h.toGuarded.disarm h.idle _, h.idle⟩
  refine (hdis.delete fun x hx hid _ => ?_).imp fun x _ _ hX => hX.1.resolve_right hX.2
  have hx := hls ▸ hx
  rw [eq_of_apart (hls ▸ h.apart) hx hmem hid]
  exact hset (by simpa using hes)

theorem resume_guarded (id : String) :
    Triple (Guarded Nobody) (resume id) (fun _ => Guarded Nobody) (fun _ => Guarded Nobody) Owned := by
  unfold resume
  split
  · exact .throw fun _ h => h
  · exact lock_guarded.bind fun _ => (resumeLocked_locked id).conseq (fun _ h => h)
      (fun _ _ h => h.toGuarded) (fun _ _ h => h.toGuarded) fun _ h => h

/-- The leases in memory are still those of the list, as far as a start looks at them. -/
def Same (ls : List Lease) (w : World) : Prop :=
  ∀ l ∈ ls, ∀ x ∈ w.leases, x.leaseId = l.leaseId → x.preState = l.preState ∧ (x.active = true → l.active = true)

theorem Same.put (h : Same ls w) {l' : Lease} (hl : l ∈ w.leases)
    (hid : l'.leaseId = l.leaseId) (hpre : l'.preState = l.preState)
    (ha : l'.active = true → l.active = true) : Same ls {w with leases := putLease w.leases l'} := by
  intro y hy x hx hxy
  rcases mem_putLease hx with rfl | hx
  · have := h y hy l hl (hid.symm.trans hxy)
    exact ⟨hpre.trans this.1, fun h => this.2 (ha h)⟩
  · exact h y hy x hx hxy

theorem same_timerInv (ls : List Lease) : TimerInv (Same ls) where
  tick _ _ h := h
  disarm _ _ h := h
  save _ h := h
  expire _ _ h _ _ _ _ := h
  warn w l h hl _ := h.put (findLease_mem hl).1 rfl rfl fun h => h
  back _ _ _ _ h _ := h
  next _ _ _ h _ _ := h
  ended w r l ids h _ hl := by
    have hput : Same ls {w with
        leases := putLease w.leases {l with autoResumedAt := some w.now, resumed := ids}} :=
      h.put (findLease_mem hl).1 rfl rfl fun ha => (by cases ha)
    exact hput
  gone _ _ h _ _ := h
  failed _ _ h _ := h

structure Starting (ls : List Lease) (w : World) : Prop extends
    Locked (fun x => ∃ l ∈ ls, l.leaseId = x) w where
  same : Same ls w

theorem Starting.done (h : Locked (fun x => (∃ y ∈ l :: ls, y.leaseId = x) ∧
    x ≠ l.leaseId) w) (hs : Same ls w) : Starting ls w := by
  refine ⟨h.imp fun x _ _ hX => ?_, hs⟩
  obtain ⟨⟨y, hy, hid⟩, hne⟩ := hX
  rcases mem_cons.1 hy with rfl | hy
  · exact absurd hid.symm hne
  · exact ⟨y, hy, hid⟩

structure Waiting (X : String → Prop) (ls : List Lease) (todo : List ContainerState) (w : World) :
    Prop extends Guarded X w where
  same : Same ls w
  resuming : ∃ r, w.resuming = some r ∧ r.todo = todo

section Waiting
variable {X : String → Prop} {ls : List Lease} {todo : List ContainerState}

theorem Waiting.tick (h : Waiting X ls todo w) (d : Nat) : Waiting X ls todo (w.tick d) :=
  ⟨h.toGuarded.congr ⟨fun _ => rfl, rfl, rfl, rfl, rfl, rfl, rfl⟩, h.same, h.resuming⟩

theorem Waiting.resume {c : ContainerState} (h : Waiting X ls (c :: todo) w) (b : Bool) (f : Fault) :
    Waiting X ls todo (w.timerStep (.resume b f)) := by
  obtain ⟨r, hr, hc⟩ := h.resuming
  refine ⟨h.toGuarded.timerStep _, (same_timerInv ls).timerStep h.same _, ?_⟩
  simp only [World.timerStep, h.up, hr, hc, Bool.not_true, Bool.false_eq_true, if_false]
  exact World.resumeStep_resuming _ _ _ _ _ _

theorem Waiting.finish (h : Waiting X ls [] w) (f : Fault) :
    Locked X (w.timerStep (.finish f)) ∧ Same ls (w.timerStep (.finish f)) := by
  obtain ⟨r, hr, hc⟩ := h.resuming
  refine ⟨⟨h.toGuarded.timerStep _, ?_⟩, (same_timerInv ls).timerStep h.same _⟩
  simp only [World.timerStep, h.up, hr, hc, Bool.not_true, Bool.false_eq_true, if_false, if_true]
  exact World.endResume_resuming _ _ _

end Waiting

theorem autoResume_starting {E : Err → World → Prop} :
    Triple (Starting (l :: ls)) (autoResume l) (fun _ => Starting ls) E Owned := by
  refine .bind (Q := fun _ => Waiting (fun x => (∃ y ∈ l :: ls, y.leaseId = x) ∧ x ≠ l.leaseId)
    ls l.preState) (.modify fun w h => ?_) fun _ => ?_
  · exact ⟨h.toGuarded.begin h.idle fun x hx hid => (h.same l mem_cons_self x hx hid).1,
      fun y hy => h.same y (mem_cons_of_mem _ hy), ⟨_, rfl, rfl⟩⟩
  refine .bind (.each (I := Waiting _ ls) (fun c rest => Triple.prim fun d w h => ?_)
    l.preState) fun _ => .prim fun d w h => ?_
  · have hstep := (h.tick d.wait).resume d.inspectFails d.fault
    exact Draw.meets_ends hstep hstep.toOwned
  · have hend := (h.tick d.wait).finish d.fault
    exact Draw.meets_ends (Starting.done hend.1 hend.2) hend.1.toOwned

structure Asleep (w : World) : Prop extends Owned w where
  down : w.up = false
  leases : w.leases = []
  idle : w.resuming = none

theorem asleep_down (h : Owned w) : Asleep w.down :=
  ⟨h.congr (fun _ => rfl) rfl rfl, rfl, rfl, rfl⟩

theorem Asleep.opened (h : Asleep w) :
    Starting {w.openLeases with up := true}.leases {w.openLeases with up := true} := by
  have hlog (c : String) : outstanding c {w.openLeases with up := true}.log = outstanding c w.log :=
    dropped_append (outstanding c) (fun _ _ => rfl) _ _
  refine ⟨⟨⟨⟨h.toOwned.congr hlog rfl rfl, rfl, fun c hc => ?_, h.fileApart.filter _⟩,
    fun l hl _ => .inl ⟨l, hl, rfl⟩, fun r hr => (by cases h.idle.symm.trans hr)⟩, h.idle⟩,
    fun l hl x hx hid => ?_⟩
  · obtain ⟨l, hl, ha, hx⟩ := h.file c ((hlog c).symm.trans hc)
    refine ⟨l, mem_filter.2 ⟨hl, ?_⟩, ha, hx⟩
    simp [Lease.outdated, Option.isNone_iff_eq_none.1 ha]
  · rw [eq_of_apart (h.fileApart.filter _) hx hl hid]
    exact ⟨rfl, fun h => h⟩

theorem startLeases_guarded :
    Triple Asleep startLeases (fun _ => Guarded Nobody) (fun _ => Guarded Nobody) Owned := by
  refine .bind (Q := fun _ w => Starting w.leases w) (.modify fun w h => h.opened) fun _ => ?_
  refine (Triple.get (R := fun a w => Starting a.leases w) fun _ h => h).bind fun a => ?_
  refine (Triple.each (I := Starting) (fun l ls => ?_) a.leases).post fun _ w h =>
    h.toGuarded.imp fun _ _ _ ⟨_, hl, _⟩ => by cases hl
  have htail {w : World} (h : Starting (l :: ls) w) : Same ls w := fun y hy =>
    h.same y (mem_cons_of_mem _ hy)
  split
  · next ha =>
    refine .pure fun w h => ⟨h.toLocked.imp fun x hx hxa ⟨y, hy, hid⟩ => ?_, htail h⟩
    rcases mem_cons.1 hy with rfl | hy
    · rw [(h.same _ mem_cons_self x hx hid.symm).2 hxa] at ha
      cases ha
    · exact ⟨y, hy, hid⟩
  refine .get_keeps fun b => ?_
  split
  · exact autoResume_starting
  · exact .modify fun w h => Starting.done (h.toLocked.arm l) (htail (w := w) h)

end Commands

def Kept (w : World) : Prop := Guarded Nobody w ∨ Asleep w

theorem kept_settle {α : Type} {r : Outcome Err α × List Draw × World}
    (h : r.1.meets (fun _ => Guarded Nobody) (fun _ => Guarded Nobody) Owned r.2.2) : Kept (settle r) :=
  settle_of_meets h (fun _ _ h => .inl h) (fun _ _ h => .inl h) fun _ h => .inr (asleep_down h)

/-- Up or down, each container has one lease. -/
theorem Kept.step {w : World} (h : Kept w) (e : LeaseEvent) : Kept (leaseStep w e) := by
  rcases h with h | h
  · cases e with
    | quiesce q o =>
      rw [leaseStep, if_pos h.up]
      exact kept_settle (quiesce_guarded q o w h)
    | resume id o =>
      rw [leaseStep, if_pos h.up]
      exact kept_settle (resume_guarded id o w h)
    | start o =>
      rw [leaseStep, if_pos h.up]
      exact .inl h
    | kill => exact .inr (asleep_down h.toOwned)
    | timer e => exact .inl (h.timerStep e)
    | wait d => exact .inl (h.congr ⟨fun _ => rfl, rfl, rfl, rfl, rfl, rfl, rfl⟩)
  have hup : ¬ w.up = true := by rw [h.down]; simp
  cases e with
  | quiesce q o =>
    rw [leaseStep, if_neg hup]
    exact .inr h
  | resume id o =>
    rw [leaseStep, if_neg hup]
    exact .inr h
  | start o =>
    rw [leaseStep, if_neg hup]
    exact kept_settle (startLeases_guarded o w h)
  | kill => exact .inr (asleep_down h.toOwned)
  | timer e =>
    have hsame : w.timerStep e = w := by simp [World.timerStep, h.down]
    rw [leaseStep, hsame]
    exact .inr h
  | wait d => exact .inr ⟨h.toOwned.congr (fun _ => rfl) rfl rfl, h.down, h.leases, h.idle⟩

structure SingleOwner (w : World) : Prop where
  journaled : ∀ c, outstanding c w.log = true → ∃ l ∈ w.leaseFile, l.active = true ∧
    ∃ x ∈ l.preState, x.id = c ∧ x.state = .running
  single : ∀ app, (w.leases.filter fun l => l.active && l.applicationId == app).length ≤ 1
  singleFile : ∀ app, (w.leaseFile.filter fun l => l.active && l.applicationId == app).length ≤ 1
  guarded : ∀ l ∈ w.leases, l.active = true → w.armed l.leaseId ∨ w.resumes l.leaseId

theorem length_le_one_of_apart {ls : List Lease} (h : ls.Pairwise Apart) (app : String) :
    (ls.filter fun l => l.active && l.applicationId == app).length ≤ 1 := by
  have hf := h.filter (fun l => l.active && l.applicationId == app)
  have hall (l : Lease) (hl : l ∈ ls.filter fun l => l.active && l.applicationId == app) :
      l.active = true ∧ l.applicationId = app := by
    simpa using (mem_filter.1 hl).2
  generalize ls.filter (fun l => l.active && l.applicationId == app) = fs at hf hall
  match fs with
  | [] => simp
  | [_] => simp
  | x :: y :: _ =>
    have hx := hall x (by simp)
    have hy := hall y (by simp)
    have hxy := (pairwise_cons.1 hf).1 y (by simp)
    exact absurd ⟨hx.1, hy.1, hx.2.trans hy.2.symm⟩ hxy.2

theorem Kept.singleOwner {w : World} (h : Kept w) : SingleOwner w := by
  rcases h with h | h
  · exact ⟨h.file, length_le_one_of_apart h.apart, length_le_one_of_apart h.fileApart,
      fun l hl ha => (h.guarded l hl ha).resolve_left id⟩
  · exact ⟨h.file, by simp [h.leases], length_le_one_of_apart h.fileApart, by simp [h.leases]⟩

structure World.Unused (w : World) : Prop where
  down : w.up = false
  leases : w.leases = []
  leaseFile : w.leaseFile = []
  idle : w.resuming = none
  log : ∀ c, outstanding c w.log = false

def World.fresh (cs : Containers) : World := {World.idle cs with up := false}

end Dbr2.Agent
