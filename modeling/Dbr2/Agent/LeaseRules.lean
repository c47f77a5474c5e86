import Dbr2.Agent.Quiesce

/-! Rules for the steps of the lease manager.

`TimerInv I` lists what a predicate on worlds owes for the timers to keep it, one fact for each
thing a timer can do. `Stable lease I` is the same for the steps of a command that holds the lock,
and gives triples for saving the leases and for bringing the containers of a lease back. -/
namespace Dbr2.Agent
open Lib List

variable {l : Lease} {ls : List Lease}

theorem findLease_mem {id : String} (h : findLease ls id = some l) : l ∈ ls ∧ l.leaseId = id :=
  ⟨mem_of_find?_eq_some h, by simpa using find?_some h⟩

theorem mem_eraseLease {id : String} (h : l ∈ eraseLease ls id) : l ∈ ls := (mem_filter.1 h).1

theorem mem_putLease {l' : Lease} (h : l' ∈ putLease ls l) :
    l' = l ∨ l' ∈ ls := (mem_cons.1 h).imp_right mem_eraseLease

abbrev Keeps {α : Type} (I : World → Prop) (m : Prog α) : Prop :=
  Triple I m (fun _ => I) (fun _ => I) I

theorem Keeps.attempt {α : Type} {I : World → Prop} {m : Prog α} (h : Keeps I m) : Keeps I (Act.attempt m) :=
  Triple.attempt h (fun _ _ h => h) (fun _ _ h => h)

theorem World.restoreOne_cases (w : World) (lease : String) (c : ContainerState) (b : Bool)
    (f : Fault) : (w.restoreOne lease c b f).2 = w ∨
    ∃ cs, (w.restoreOne lease c b f).2 = w.broughtBack lease c.id cs := by
  unfold restoreOne
  split
  · exact .inl rfl
  split
  · exact .inl rfl
  split
  · exact .inl rfl
  · exact .inl rfl
  · rename_i cs _
    split
    · exact .inr ⟨cs, rfl⟩
    · exact .inr ⟨cs, rfl⟩
    · exact .inl rfl

structure TimerInv (I : World → Prop) : Prop where
  tick : ∀ w d, I w → I (w.tick d)
  disarm : ∀ w id, I w → I (w.disarm id)
  save : ∀ w, I w → I w.saveLeases
  expire : ∀ w l, I w → w.resuming = none → w.due l.leaseId = true →
    findLease w.leases l.leaseId = some l → l.active = true → I ((w.disarm l.leaseId).beginResume l)
  warn : ∀ w l, I w → findLease w.leases l.leaseId = some l → l.active = true →
    I {w with leases := putLease w.leases {l with warned := true}}
  back : ∀ w r c cs, I w → w.resuming = some r → I (w.broughtBack r.leaseId c cs)
  next : ∀ w r r', I w → w.resuming = some r → r'.leaseId = r.leaseId → I {w with resuming := some r'}
  ended : ∀ w r l ids, I w → w.resuming = some r → findLease w.leases r.leaseId = some l →
    I ((w.release r.leaseId).markAutoResumed l ids)
  gone : ∀ w r, I w → w.resuming = some r → findLease w.leases r.leaseId = none → I (w.release r.leaseId)
  failed : ∀ w r, I w → w.resuming = some r → I ((w.release r.leaseId).retryLater r.leaseId)

namespace TimerInv
variable {I : World → Prop} {w : World}

theorem and {J : World → Prop} (hI : TimerInv I) (hJ : TimerInv J) : TimerInv (fun w => I w ∧ J w) where
  tick w d h := ⟨hI.tick w d h.1, hJ.tick w d h.2⟩
  disarm w id h := ⟨hI.disarm w id h.1, hJ.disarm w id h.2⟩
  save w h := ⟨hI.save w h.1, hJ.save w h.2⟩
  expire w l h hr hd hl ha := ⟨hI.expire w l h.1 hr hd hl ha, hJ.expire w l h.2 hr hd hl ha⟩
  warn w l h hl ha := ⟨hI.warn w l h.1 hl ha, hJ.warn w l h.2 hl ha⟩
  back w r c cs h hr := ⟨hI.back w r c cs h.1 hr, hJ.back w r c cs h.2 hr⟩
  next w r r' h hr hid := ⟨hI.next w r r' h.1 hr hid, hJ.next w r r' h.2 hr hid⟩
  ended w r l ids h hr hl := ⟨hI.ended w r l ids h.1 hr hl, hJ.ended w r l ids h.2 hr hl⟩
  gone w r h hr hl := ⟨hI.gone w r h.1 hr hl, hJ.gone w r h.2 hr hl⟩
  failed w r h hr := ⟨hI.failed w r h.1 hr, hJ.failed w r h.2 hr⟩

theorem up : TimerInv (fun w => w.up = true) where
  tick _ _ h := h
  disarm _ _ h := h
  save _ h := h
  expire _ _ h _ _ _ _ := h
  warn _ _ h _ _ := h
  back _ _ _ _ h _ := h
  next _ _ _ h _ _ := h
  ended _ _ _ _ h _ _ := h
  gone _ _ h _ _ := h
  failed _ _ h _ := h

section

variable (hI : TimerInv I) (h : I w)
include hI h

theorem trySave (f : Fault) : I (w.trySaveLeases f) := by
  cases f with
  | none => exact hI.save w h
  | fail _ => exact h

theorem resumeStep {r : Resuming} (hr : w.resuming = some r)
    (c : ContainerState) (rest : List ContainerState) (b : Bool) (f : Fault) :
    I (w.resumeStep r c rest b f) := by
  have hw : I (w.restoreOne r.leaseId c b f).2 ∧ (w.restoreOne r.leaseId c b f).2.resuming = some r := by
    rcases w.restoreOne_cases r.leaseId c b f with hw | ⟨cs, hw⟩
    · rw [hw]
      exact ⟨h, hr⟩
    · rw [hw]
      exact ⟨hI.back w r c.id cs h hr, hr⟩
  unfold World.resumeStep
  split <;> rename_i w' he <;> rw [he] at hw <;> exact hI.next w' r _ hw.1 hw.2 rfl

theorem endResume {r : Resuming} (hr : w.resuming = some r)
    (f : Fault) : I (w.endResume r f) := by
  unfold World.endResume
  split
  · rename_i l _ hl
    exact hI.trySave (hI.ended w r l _ h hr hl) f
  · rename_i _ hl
    exact hI.gone w r h hr hl
  · exact hI.failed w r h hr

theorem expire_find (hr : w.resuming = none) {id : String}
    (hd : w.due id = true) : I ((w.disarm id).expire id) := by
  unfold World.expire
  split
  · rename_i l hl
    split
    · rename_i ha
      obtain rfl := (findLease_mem hl).2
      exact hI.expire w l h hr hd hl ha
    · exact hI.disarm w id h
  · exact hI.disarm w id h

theorem warn_find (id : String) (f : Fault) : I (w.warn id f) := by
  unfold World.warn
  split
  · rename_i l hl
    split
    · rename_i ha
      simp only [Bool.and_eq_true] at ha
      exact hI.trySave (hI.warn w l h ((findLease_mem hl).2 ▸ hl) ha.1.1) f
    · exact h
  · exact h

theorem timerStep (e : TimerEvent) : I (w.timerStep e) := by
  unfold World.timerStep
  split
  · exact h
  split
  · rename_i hr
    split
    · exact hI.expire_find h hr ‹_›
    · exact h
  · exact hI.warn_find h _ _
  · rename_i hr
    split
    · exact hI.resumeStep h hr _ _ _ _
    · exact h
  · rename_i hr
    split
    · exact hI.endResume h hr _
    · exact h
  · exact h

theorem foldl_timerStep (es : List TimerEvent) : I (es.foldl World.timerStep w) := by
  induction es generalizing w with
  | nil => exact h
  | cons e es ih => exact ih (hI.timerStep h e)

theorem resumeRest (cs : List ContainerState) : I (w.resumeRest cs) := by
  induction cs generalizing w with
  | nil => exact hI.timerStep h _
  | cons c cs ih => exact ih (hI.timerStep h _)

theorem drain : I w.drain := by
  unfold World.drain
  split
  · exact h
  · exact hI.resumeRest h _

theorem before (d : Draw) : I (d.before w) :=
  hI.foldl_timerStep (hI.tick w d.wait h) d.timers

end

theorem lock {E : Err → World → Prop} (hI : TimerInv I) : Triple I lock (fun _ => I) E I :=
  Triple.prim fun d _ h =>
    have h := hI.drain (hI.before h d)
    Draw.meets_ends h h

end TimerInv

structure Saving (I : World → Prop) : Prop where
  tick : ∀ w d, I w → I (w.tick d)
  save : ∀ w, I w → I w.saveLeases

namespace Saving
variable {I : World → Prop}

theorem control (hI : Saving I) : Keeps I control := by
  refine .prim fun d w h => ?_
  have h := hI.tick w d.wait h
  simp only
  split <;> exact Draw.meets_ends h h

theorem saveLeases (hI : Saving I) : Keeps I saveLeases := by
  refine .prim fun d w h => ?_
  have h := hI.tick w d.wait h
  simp only
  split
  · have hs := hI.save _ h
    exact Draw.meets_ends hs hs
  · exact Draw.meets_ends h h

theorem logSaveLeases (hI : Saving I) : Keeps I logSaveLeases :=
  hI.saveLeases.attempt.bind fun _ => .pure fun _ h => h

theorem inspectAll (hI : Saving I) (cs : Containers) (ids : List String) :
    Triple (fun w => I w ∧ w.containers = cs) (inspectAll ids)
      (fun pre w => (I w ∧ w.containers = cs) ∧ pre.map (·.id) = ids ∧ ∀ c ∈ pre, cs.state c.id = some c.state)
      (fun _ => I) I := by
  induction ids with
  | nil => exact .pure fun _ h => ⟨h, rfl, fun c hc => by cases hc⟩
  | cons id ids ih =>
    refine .bind (Q := fun c w => (I w ∧ w.containers = cs) ∧ c.id = id ∧
      cs.state id = some c.state) (.prim fun d w h => ?_) fun c => ?_
    · have hw := hI.tick w d.wait h.1
      simp only
      split
      · rename_i x _ hx
        refine Draw.meets_ends ⟨⟨hw, h.2⟩, rfl, ?_⟩ hw
        have hcs := h.2
        exact hcs ▸ Containers.state_of_inspect hx
      · exact Draw.meets_ends hw hw
      · exact Draw.meets_ends hw hw
    · refine .of_forall fun s hs => ?_
      obtain ⟨hs, rfl, hst⟩ := hs
      refine .bind (ih.pre (P := fun s' => s' = s) fun _ h => h ▸ hs) fun pre =>
        Triple.pure fun w h => ⟨h.1, by rw [map_cons, h.2.1], fun x hx => ?_⟩
      rcases mem_cons.1 hx with rfl | hx
      · exact hst
      · exact h.2.2 x hx

end Saving

structure Stable (lease : String) (I : World → Prop) : Prop extends Saving I where
  back : ∀ w c cs, I w → I (w.broughtBack lease c cs)

namespace Stable
variable {lease : String} {I : World → Prop}

variable {E : Err → World → Prop}

theorem restoreStep (hI : Stable lease I) (c : ContainerState) : Triple I (restoreStep lease c) (fun _ => I) E I := by
  refine .prim fun d w h => ?_
  have h := hI.tick w d.wait h
  have hone : I ((w.tick d.wait).restoreOne lease c d.inspectFails d.fault).2 := by
    rcases (w.tick d.wait).restoreOne_cases lease c d.inspectFails d.fault with hw | ⟨cs, hw⟩
    · rw [hw]
      exact h
    · rw [hw]
      exact hI.back _ c.id cs h
  exact Draw.meets_ends hone hone

theorem restoreLease (hI : Stable lease I) (cs : List ContainerState) :
    Triple I (restoreLease lease cs) (fun _ => I) E I := by
  induction cs with
  | nil => exact .pure fun _ h => h
  | cons c cs ih =>
    refine (hI.restoreStep c).bind fun r => ih.bind fun p => ?_
    rcases r with e | b
    · exact .pure fun _ h => h
    · cases b <;> exact .pure fun _ h => h

theorem restore {l : Lease} (hI : Stable l.leaseId I) : Triple I (restore l) (fun _ => I) E I := by
  refine .bind (.attempt (R := fun _ => I) hI.toSaving.control (fun _ _ h => h)
    fun _ _ h => h) fun r => ?_
  cases r with
  | error e => exact .pure fun _ h => h
  | ok _ => exact hI.restoreLease l.preState

end Stable

theorem dropped_append {α : Type} (f : List Note → α) (hf : ∀ id log, f (.dropped id :: log) = f log)
    (ls : List Lease) (log : List Note) : f (ls.map (fun l => .dropped l.leaseId) ++ log) = f log := by
  induction ls with
  | nil => rfl
  | cons l ls ih => exact (hf l.leaseId _).trans ih

def atLock (o : List Draw) (w : World) : World := ((o.headD default).before w).drain

theorem lock_andThen {α : Type} (f : Unit → Prog α) (o : List Draw) (w : World) : Act.andThen lock f o w =
      if (o.headD default).crash then (.crash, o.tail, atLock o w) else f () o.tail (atLock o w) := by
  unfold Act.andThen lock Act.prim Draw.ends atLock
  generalize o.headD default = d
  by_cases hc : d.crash = true
  · simp [hc]
  · simp [hc]

theorem TimerInv.quiesce {I : World → Prop} (hI : TimerInv I) {q : QuiesceCommand} {w : World} (h : I w) (o : List Draw)
    {Q : QuiesceResult → World → Prop} {P : World → Prop} (hP : P (atLock o w))
    (hbody : ∀ mode, q.mode = some mode → Triple (fun w => I w ∧ P w) (quiesceLocked q mode) Q (fun _ => I) I) :
    (quiesce q o w).1.meets Q (fun _ => I) I (quiesce q o w).2.2 := by
  unfold Agent.quiesce
  split
  · exact h
  cases hm : q.mode with
  | none => exact h
  | some mode =>
    have hlock : I (atLock o w) := hI.drain (hI.before h (o.headD default))
    show Outcome.meets _ _ _ (Act.andThen Agent.lock (fun _ => quiesceLocked q mode) o w).1
      (Act.andThen Agent.lock (fun _ => quiesceLocked q mode) o w).2.2
    rw [lock_andThen]
    split
    · exact hlock
    · exact hbody mode hm o.tail (atLock o w) ⟨hlock, hP⟩

inductive LeaseEvent
  | quiesce (q : QuiesceCommand) (o : List Draw)
  | resume (id : String) (o : List Draw)
  | start (o : List Draw)
  | kill
  | timer (e : TimerEvent)
  | wait (d : Nat)

def settle {α : Type} (r : Outcome Err α × List Draw × World) : World :=
  match r.1 with
  | .crash => r.2.2.down
  | _ => r.2.2

theorem settle_of_meets {α : Type} {r : Outcome Err α × List Draw × World} {Q : α → World → Prop}
    {E : Err → World → Prop} {C J : World → Prop} (h : r.1.meets Q E C r.2.2)
    (hQ : ∀ a w, Q a w → J w) (hE : ∀ e w, E e w → J w) (hC : ∀ w, C w → J w.down) :
    J (settle r) := by
  rcases r with ⟨a | e | _, o, w⟩
  · exact hQ a w h
  · exact hE e w h
  · exact hC w h

def leaseStep (w : World) : LeaseEvent → World
  | .quiesce q o => if w.up then settle (quiesce q o w) else w
  | .resume id o => if w.up then settle (resume id o w) else w
  | .start o => if w.up then w else settle (startLeases o w)
  | .kill => w.down
  | .timer e => w.timerStep e
  | .wait d => w.tick d

/-- What a predicate owes for everything but a Quiesce to keep it. `K` tells the
leases it knows of. -/
structure LeaseInv (K : String → Prop) (I : World → Prop) : Prop extends TimerInv I where
  known : ∀ w l, I w → l ∈ w.leases → K l.leaseId
  stable : ∀ id, K id → Stable id I
  begin : ∀ w l, I w → K l.leaseId → I (w.beginResume l)
  delete : ∀ w id, I w → I (w.deleteLease id)
  arm : ∀ w l, I w → I (w.arm l)
  asked : ∀ w id, I w → I (w.note (.resuming id))
  resumed : ∀ w id, I w → I (w.note (.resumed id))
  opened : ∀ w, I w → I {w.openLeases with up := true}
  down : ∀ w, I w → I w.down

namespace LeaseInv
variable {K : String → Prop} {I : World → Prop}

theorem saving (hI : LeaseInv K I) : Saving I :=
  ⟨hI.tick, hI.save⟩

theorem resume (hI : LeaseInv K I) (id : String) : Keeps I (resume id) := by
  unfold Agent.resume
  split
  · exact .throw fun _ h => h
  refine hI.lock.bind fun _ => .bind (Q := fun _ => I) (.modify fun w h => hI.asked w id h) fun _ => ?_
  refine .bind (.get (R := fun w w' => I w ∧ w' = w) fun w h => ⟨h, rfl⟩) fun w => ?_
  have hnote : ∀ r : ResumeResult, Keeps I
      (Act.modify (fun w => w.note (.resumed id)) >>= fun _ => (pure r : Prog ResumeResult)) :=
    fun r => Triple.bind (.modify fun w h => hI.resumed w id h) fun _ =>
      Triple.pure fun _ h => h
  split
  · exact (hnote _).pre fun _ h => h.2 ▸ h.1
  rename_i l hl
  split
  · refine .bind (Q := fun _ => I) (.modify fun w' h => ?_) fun _ =>
      hI.saving.logSaveLeases.bind fun _ => hnote _
    exact hI.delete w' id (h.2 ▸ h.1)
  refine .of_forall fun s hs => ?_
  have hid := hI.known w l hs.1 (findLease_mem hl).1
  refine ((hI.stable _ hid).restore.pre (P := fun s' => s' = s) fun _ h => h ▸ hs.2 ▸ hs.1).bind fun p => ?_
  rcases p with ⟨ids, es⟩
  simp only
  split
  · exact .throw fun _ h => h
  refine .bind (Q := fun _ => I) (.modify fun w' h => ?_) fun _ =>
    hI.saving.logSaveLeases.bind fun _ => hnote _
  exact hI.delete _ id (hI.disarm w' id h)

theorem autoResume (hI : LeaseInv K I) {l : Lease} (hl : K l.leaseId) : Keeps I (autoResume l) := by
  refine .bind (Q := fun _ => I) (.modify fun w h => hI.begin w l h hl) fun _ => ?_
  have hstep (f : Draw → TimerEvent) : Keeps I (locked fun d w => d.ends (.ok ()) (w.timerStep (f d))) :=
    Triple.prim fun d w h =>
      have h := hI.timerStep (hI.tick w d.wait h) (f d)
      Draw.meets_ends h h
  exact (Triple.each_keeps fun _ _ => hstep fun d => .resume d.inspectFails d.fault).bind fun _ =>
    hstep fun d => .finish d.fault

theorem startLeases (hI : LeaseInv K I) : Keeps I startLeases := by
  refine .bind (Q := fun _ => I) (.modify fun w h => hI.opened w h) fun _ => ?_
  refine .get_bind fun w hw => ?_
  refine .pre (A := I) (.each_keeps fun l hl => ?_) fun _ h => h ▸ hw
  split
  · exact .pure fun _ h => h
  refine .get_keeps fun w' => ?_
  split
  · exact hI.autoResume (hI.known w l hw hl)
  · exact .modify fun w h => hI.arm w l h

theorem settle {α : Type} (hI : LeaseInv K I) {r : Outcome Err α × List Draw × World}
    (h : r.1.meets (fun _ => I) (fun _ => I) I r.2.2) : I (settle r) :=
  settle_of_meets h (fun _ _ h => h) (fun _ _ h => h) hI.down

theorem step (hI : LeaseInv K I) {w : World} (h : I w) (e : LeaseEvent) (hq : ∀ q o, e = .quiesce q o → w.up = true →
      (quiesce q o w).1.meets (fun _ => I) (fun _ => I) I (quiesce q o w).2.2) :
    I (leaseStep w e) := by
  cases e with
  | quiesce q o =>
    rw [leaseStep]
    split
    · rename_i hup
      exact hI.settle (hq q o rfl hup)
    · exact h
  | resume id o =>
    rw [leaseStep]
    split
    · exact hI.settle (hI.resume id o w h)
    · exact h
  | start o =>
    rw [leaseStep]
    split
    · exact h
    · exact hI.settle (hI.startLeases o w h)
  | kill => exact hI.down w h
  | timer e => exact hI.timerStep h e
  | wait d => exact hI.tick w d h

end LeaseInv
end Dbr2.Agent
