import Dbr2.Agent.Delivery

/-! What a Quiesce does that is executed after the Resume of its lease.

Resume forgets the lease, and of a lease it does not know it keeps nothing, so
such a Quiesce is a first delivery again: it pauses or stops what is running
unless something else refuses it. -/
namespace Dbr2.Agent
open Lib List

/-- No container was paused or stopped for a lease after a Resume of that lease
had returned without error; the newest note stands first. -/
def settled : List Note → Bool
  | [] => true
  | .held l _ :: ns => decide (.resumed l ∉ ns) && settled ns
  | _ :: ns => settled ns

/-- What keeps a Quiesce from pausing or stopping anything once it holds the lock:
a lease of that name or another active lease of the application, a container that
is gone, or no container running. -/
def Refused (q : QuiesceCommand) (w : World) : Prop :=
  (findLease w.leases q.leaseId).isSome = true ∨
    (w.leases.any fun l => decide (l.applicationId = q.applicationId) && l.active) = true ∨
    (∃ id ∈ q.containerIds, w.containers.state id = none) ∨
    ∀ id ∈ q.containerIds, w.containers.state id ≠ some .running

instance (q : QuiesceCommand) (w : World) : Decidable (Refused q w) :=
  inferInstanceAs (Decidable (_ ∨ _ ∨ _ ∨ _))

section Settled
variable {q : QuiesceCommand} {w : World}

theorem settled_timerInv : TimerInv (fun w => settled w.log = true) where
  tick _ _ h := h
  disarm _ _ h := h
  save _ h := h
  expire _ _ h _ _ _ _ := h
  warn _ _ h _ _ := h
  back _ _ _ _ h _ := h
  next _ _ _ h _ _ := h
  ended _ _ _ _ h _ _ := h
  gone _ _ h _ _ := h
  failed _ _ h _ := h

theorem settled_stable (lease : String) : Stable lease (fun w => settled w.log = true) where
  tick _ _ h := h
  save _ h := h
  back _ _ _ h := h

/-- While a Quiesce of `lease` is under way: it was not resumed, unless there is
nothing to hold. -/
structure MayHold (lease : String) (nothing : Prop) (w : World) : Prop where
  settled : settled w.log = true
  fresh : nothing ∨ .resumed lease ∉ w.log

theorem mayHold_stable (l lease : String) (nothing : Prop) : Stable l (MayHold lease nothing) where
  tick _ _ h := ⟨h.settled, h.fresh⟩
  save _ h := ⟨h.settled, h.fresh⟩
  back _ _ _ h := ⟨h.settled, h.fresh.imp_right fun hr => by
    simpa [World.broughtBack, World.note] using hr⟩

theorem MayHold.delete {lease : String} {nothing : Prop} (h : MayHold lease nothing w) (id : String) :
    MayHold lease nothing (w.deleteLease id) :=
  ⟨h.settled, h.fresh.imp_right fun hr => by simpa [World.deleteLease, World.note] using hr⟩

theorem rollbackQuiesce_mayHold {lease : String} {nothing : Prop} (l : Lease) (e : Err) :
    Keeps (MayHold lease nothing) (rollbackQuiesce l e) := by
  have hI := mayHold_stable l.leaseId lease nothing
  refine Triple.bind hI.restore fun p => ?_
  rcases p with ⟨ids, es⟩
  simp only
  split
  · exact Triple.bind (Triple.modify fun w h => ⟨h.settled, h.fresh⟩) fun _ =>
      Triple.throw fun _ h => h
  · exact Triple.bind (Triple.modify fun w h => h.delete _) fun _ =>
      Triple.bind hI.toSaving.logSaveLeases fun _ => Triple.throw fun _ h => h

theorem hold_mayHold {lease : String} {nothing : Prop} {mode : Mode} {c : ContainerState}
    (hc : nothing → c.state ≠ .running) : Keeps (MayHold lease nothing) (hold lease mode c) := by
  unfold hold
  split
  · exact Triple.pure fun _ h => h
  rename_i hrun
  refine Triple.prim fun d w h => ?_
  have h := (mayHold_stable lease lease nothing).tick w d.wait h
  simp only
  split
  · exact Draw.meets_ends h h
  rename_i cs _
  have hfresh := h.fresh.resolve_left fun hn => hrun (hc hn)
  have hheld : MayHold lease nothing (World.note {(w.tick d.wait) with containers := cs} (.held lease c.id)) :=
    ⟨by simpa [World.note, Agent.settled] using ⟨hfresh, h.settled⟩,
      .inr (by simpa [World.note, World.tick] using hfresh)⟩
  exact Draw.meets_effect hheld (fun _ => hheld) (fun _ => h) hheld h

theorem takeLease_mayHold (l : Lease) :
    Keeps (MayHold l.leaseId (∀ c ∈ l.preState, c.state ≠ .running)) (takeLease l) := by
  have hI := mayHold_stable l.leaseId l.leaseId (∀ c ∈ l.preState, c.state ≠ .running)
  refine Triple.bind (Triple.modify fun w h => ⟨h.settled, h.fresh⟩) fun _ =>
    hI.toSaving.saveLeases.attempt.bind fun r => ?_
  cases r with
  | error e =>
    exact Triple.bind (Triple.modify fun w h => h.delete _) fun _ => Triple.throw fun _ h => h
  | ok _ =>
    have hloop : Keeps (MayHold l.leaseId (∀ c ∈ l.preState, c.state ≠ .running))
        (Act.each (hold l.leaseId l.mode) l.preState) :=
      Triple.each_keeps fun c hc => hold_mayHold fun hn => hn c hc
    refine Triple.bind (Triple.modify fun w h => ⟨h.settled, h.fresh.imp_right fun hr => by
      simpa [World.note] using hr⟩) fun _ => hloop.attempt.bind fun r => ?_
    cases r with
    | error e => exact rollbackQuiesce_mayHold l e
    | ok _ =>
      refine Triple.bind (Triple.modify fun w h => ⟨h.settled, h.fresh.imp_right fun hr => ?_⟩)
        fun _ => Triple.pure fun _ h => h
      simp only [World.note, World.arm, World.disarm, mem_cons, reduceCtorEq, false_or]
      exact hr

theorem quiesceLocked_settled (mode : Mode) :
    Triple (fun w => settled w.log = true ∧ (Refused q w ∨ .resumed q.leaseId ∉ w.log))
      (quiesceLocked q mode) (fun _ w => settled w.log = true) (fun _ w => settled w.log = true)
      (fun w => settled w.log = true) := by
  refine Triple.get_bind fun s hs => ?_
  obtain ⟨hs, hr⟩ := hs
  split
  · unfold repeated
    split
    · exact Triple.throw fun _ h => h ▸ hs
    split
    · exact Triple.throw fun _ h => h ▸ hs
    · exact Triple.pure fun _ h => h ▸ hs
  rename_i hl
  split
  · exact Triple.throw fun _ h => h ▸ hs
  rename_i ha
  have hI : Saving (fun w => settled w.log = true ∧ w.log = s.log) :=
    ⟨fun _ _ h => h, fun _ h => h⟩
  have hcontrol : Saving (fun w => (settled w.log = true ∧ w.log = s.log) ∧
      w.containers = s.containers) := ⟨fun _ _ h => h, fun _ h => h⟩
  refine Triple.bind (hcontrol.control.conseq (fun _ h => by subst h; exact ⟨⟨hs, rfl⟩, rfl⟩)
    (fun _ _ h => h) (fun _ _ h => h.1.1) (fun _ h => h.1.1)) fun _ => ?_
  refine Triple.bind ((hI.inspectAll s.containers q.containerIds).conseq (fun _ h => h)
    (fun _ _ h => h) (fun _ _ h => h.1) (fun _ h => h.1)) fun pre => ?_
  refine (takeLease_mayHold (q.lease mode pre s.now)).conseq (fun w h => ⟨h.1.1.1, ?_⟩)
    (fun _ _ h => h.settled) (fun _ _ h => h.settled) (fun _ h => h.settled)
  obtain ⟨⟨⟨-, hlog⟩, -⟩, hids, hpre⟩ := h
  rw [hlog]
  refine hr.imp_left fun hr c hc hrun => ?_
  -- what was found running is there, so none of the reasons to refuse applies
  rcases hr with hr | hr | ⟨id, hid, hnone⟩ | hr
  · rw [hl] at hr
    cases hr
  · rw [find?_eq_none] at ha
    obtain ⟨l, hl, h⟩ := any_eq_true.1 hr
    exact ha l hl h
  · obtain ⟨x, hx, rfl⟩ := mem_map.1 (hids ▸ hid)
    rw [hpre x hx] at hnone
    cases hnone
  · exact hr c.id (hids ▸ mem_map.2 ⟨c, hc, rfl⟩) (hrun ▸ hpre c hc)

theorem quiesce_settled (h : settled w.log = true) (o : List Draw)
    (hr : Refused q (atLock o w) ∨ .resumed q.leaseId ∉ (atLock o w).log) :
    (quiesce q o w).1.meets (fun _ w => settled w.log = true) (fun _ w => settled w.log = true)
      (fun w => settled w.log = true) (quiesce q o w).2.2 :=
  settled_timerInv.quiesce h o hr fun mode _ => quiesceLocked_settled mode

/-- All but a Quiesce keep it: nothing else pauses or stops a container. -/
theorem settled_leaseInv : LeaseInv (fun _ => True) (fun w => settled w.log = true) where
  toTimerInv := settled_timerInv
  known _ _ _ _ := trivial
  stable id _ := settled_stable id
  begin _ _ h _ := h
  delete _ _ h := h
  arm _ _ h := h
  asked _ _ h := h
  resumed _ _ h := h
  opened w h := (dropped_append settled (fun _ _ => rfl) _ w.log).trans h
  down _ h := h

end Settled

/-- A Quiesce of a lease that a Resume has ended finds a reason to be refused. -/
def RefusedAfterResume (w : World) : LeaseEvent → Prop
  | .quiesce q o => w.up = true → .resumed q.leaseId ∈ (atLock o w).log → Refused q (atLock o w)
  | _ => True

/-- **Resume is final for its lease** in every history of deliveries, crashes,
restarts and timers in which each Quiesce of a resumed lease is refused. -/
theorem resume_final (w : World) (hw : settled w.log = true) (es : List LeaseEvent)
    (hes : Along leaseStep RefusedAfterResume w es) : settled (run leaseStep w es).log = true := by
  refine Along.invariant (I := fun w => settled w.log = true) hes hw fun w e h he => ?_
  refine settled_leaseInv.step h e fun q o hq hup => ?_
  subst hq
  refine quiesce_settled h o ?_
  by_cases hr : .resumed q.leaseId ∈ (atLock o w).log
  · exact .inl (he hup hr)
  · exact .inr hr

/-- A Quiesce that comes again, after its Resume and the next Quiesce of the
application: the lease of the other is active. -/
theorem resume_final_other :
    settled (run leaseStep (.idle (.two .running .running)) [.quiesce .two [], .resume "lease" [],
      .quiesce {QuiesceCommand.two with leaseId := "next"} [], .quiesce .two []]).log = true :=
  resume_final _ rfl _ ⟨fun _ h => absurd h (by decide), trivial, fun _ h => absurd h (by decide),
    fun _ _ => by decide, trivial⟩

/-- Resume of a lease that is not known yet succeeds, and the Quiesce that comes
after it pauses the application. -/
theorem resume_not_final : settled (run leaseStep (.idle (.two .running .running))
      [.resume "lease" [], .quiesce .two []]).log = false := by
  decide

end Dbr2.Agent
