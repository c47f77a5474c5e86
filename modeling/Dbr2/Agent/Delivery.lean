import Dbr2.Agent.LeaseRules
import Dbr2.Lib.Run

/-! Deliveries of Quiesce and Resume, agent restarts and timers, in any order. -/
namespace Dbr2.Agent
open Lib List

def quiet (mode : Option Mode) : Option DockerState → Bool
  | some .running | some .restarting => false
  | some .paused => mode != some .stop
  | _ => true

/-- The states from which the pause or stop loop quiesces a container: it leaves
one that is not running as it is. -/
def steady (mode : Option Mode) : Option DockerState → Bool
  | some .restarting => false
  | some .paused => mode != some .stop
  | _ => true

/-- Since a Quiesce of the lease ended without error nothing of it was brought
back. -/
def heldSince (lease : String) : List Note → Bool
  | [] => false
  | .quiesced l :: ns => decide (l = lease) || heldSince lease ns
  | .back l _ :: ns => decide (l ≠ lease) && heldSince lease ns
  | .taken l :: ns => decide (l ≠ lease) && heldSince lease ns
  | _ :: ns => heldSince lease ns

section Calm
variable (q : QuiesceCommand)

/-- Only the lease of `q` is known, and while it is held the containers it names
are quiesced. -/
structure Calm (w : World) : Prop where
  file : ∀ l ∈ w.leaseFile, l.leaseId = q.leaseId
  mem : ∀ l ∈ w.leases, l.leaseId = q.leaseId
  auto : ∀ r, w.resuming = some r → r.leaseId = q.leaseId
  held : heldSince q.leaseId w.log = true → ∀ id ∈ q.containerIds, quiet q.mode (w.containers.state id) = true

structure Unheld (w : World) : Prop where
  file : ∀ l ∈ w.leaseFile, l.leaseId = q.leaseId
  mem : ∀ l ∈ w.leases, l.leaseId = q.leaseId
  auto : ∀ r, w.resuming = some r → r.leaseId = q.leaseId
  unheld : heldSince q.leaseId w.log = false

variable {q} {w : World}

theorem Unheld.calm (h : Unheld q w) : Calm q w :=
  ⟨h.file, h.mem, h.auto, fun hh => by rw [h.unheld] at hh; cases hh⟩

variable (q) in
theorem calm_timerInv : TimerInv (Calm q) where
  tick _ _ h := ⟨h.file, h.mem, h.auto, h.held⟩
  disarm _ _ h := ⟨h.file, h.mem, h.auto, h.held⟩
  save _ h := ⟨h.mem, h.mem, h.auto, h.held⟩
  expire w l h _ _ hl _ := ⟨h.file, h.mem, fun r hr => Option.some.inj hr ▸ h.mem l (findLease_mem hl).1, h.held⟩
  warn w l h hl _ := ⟨h.file, fun y hy => (mem_putLease hy).elim
    (fun hy => hy ▸ h.mem l (findLease_mem hl).1) (h.mem y), h.auto, h.held⟩
  back w r c cs h hr := ⟨h.file, h.mem, h.auto, fun hh => by
    simp [World.broughtBack, World.note, heldSince, h.auto r hr] at hh⟩
  next w r r' h hr hid := ⟨h.file, h.mem, fun x hx => Option.some.inj hx ▸ hid.trans (h.auto r hr), h.held⟩
  ended w r l ids h _ hl := ⟨h.file, fun y hy => (mem_putLease hy).elim
    (fun hy => hy ▸ h.mem l (findLease_mem hl).1) (h.mem y), fun _ hx => (by cases hx), h.held⟩
  gone _ _ h _ _ := ⟨h.file, h.mem, fun _ hx => (by cases hx), h.held⟩
  failed _ _ h _ := ⟨h.file, h.mem, fun _ hx => (by cases hx), h.held⟩

variable (q) in
theorem calm_stable : Stable q.leaseId (Calm q) where
  tick _ _ h := ⟨h.file, h.mem, h.auto, h.held⟩
  save _ h := ⟨h.mem, h.mem, h.auto, h.held⟩
  back _ _ _ h := ⟨h.file, h.mem, h.auto, fun hh => by
    simp [World.broughtBack, World.note, heldSince] at hh⟩

variable (q) in
theorem unheld_stable : Stable q.leaseId (Unheld q) where
  tick _ _ h := ⟨h.file, h.mem, h.auto, h.unheld⟩
  save _ h := ⟨h.mem, h.mem, h.auto, h.unheld⟩
  back _ _ _ h := ⟨h.file, h.mem, h.auto, by simp [World.broughtBack, World.note, heldSince]⟩

def AllQuiet (q : QuiesceCommand) (w : World) : Prop :=
  ∀ id ∈ q.containerIds, quiet q.mode (w.containers.state id) = true

/-- Each container the command names is quiesced, or is one that the pause or stop
loop has still to come to. -/
def QuietBut (q : QuiesceCommand) (rest : List ContainerState) (w : World) : Prop :=
  ∀ id ∈ q.containerIds, quiet q.mode (w.containers.state id) = true ∨ ∃ c ∈ rest, c.id = id ∧ c.state = .running

theorem call_ok {mode : Mode} {cs cs' : Containers} {id : String} (h : mode.call cs id = .ok cs') :
    quiet (some mode) (cs'.state id) = true ∧ ∀ x, x ≠ id → cs'.state x = cs.state x := by
  cases hc : cs id with
  | none =>
    cases mode <;> simp [Mode.call, Containers.pause, Containers.stop, Containers.inspect, hc, Bind.bind,
        Except.bind] at h
  | some c =>
    have hst : cs.state id = some c.state := by simp [Containers.state, hc]
    cases mode with
    | pause =>
      by_cases hr : c.state = .running
      · simp only [Mode.call, Containers.pause, Containers.inspect, hc, Bind.bind, Except.bind, hr,
          if_true, Except.ok.injEq] at h
        subst h
        exact ⟨by rw [Containers.state_setState_self _ hc]; rfl, fun x hx => Containers.state_setState_ne _ _ hx⟩
      · simp [Mode.call, Containers.pause, Containers.inspect, hc, Bind.bind, Except.bind, hr] at h
    | stop =>
      simp only [Mode.call, Containers.stop, Containers.inspect, hc, Bind.bind, Except.bind] at h
      cases hs : c.state <;> rw [hs] at h hst <;> simp only [reduceCtorEq, Except.ok.injEq] at h <;> subst h
      all_goals first
        | exact ⟨by rw [hst]; rfl, fun _ _ => rfl⟩
        | exact ⟨by rw [Containers.state_setState_self _ hc]; rfl, fun x hx => Containers.state_setState_ne _ _ hx⟩

theorem hold_quiet {mode : Mode} (hm : q.mode = some mode) (c : ContainerState) (rest : List ContainerState) :
    Triple (fun w => Unheld q w ∧ QuietBut q (c :: rest) w) (hold q.leaseId mode c)
      (fun _ w => Unheld q w ∧ QuietBut q rest w) (fun _ => Unheld q) (Unheld q) := by
  unfold hold
  split
  · -- a container that was not running is none of those left
    rename_i hc
    refine .pure fun w h => ⟨h.1, fun id hid => ?_⟩
    rcases h.2 id hid with hq | ⟨x, hx, rfl, hr⟩
    · exact .inl hq
    rcases mem_cons.1 hx with rfl | hx
    · exact absurd hr hc
    · exact .inr ⟨x, hx, rfl, hr⟩
  refine .prim fun d w h => ?_
  have hu := (unheld_stable q).tick w d.wait h.1
  simp only
  split
  · exact Draw.meets_ends hu hu
  rename_i cs hcall
  obtain ⟨hself, hother⟩ := call_ok hcall
  have hheld : Unheld q (World.note {(w.tick d.wait) with containers := cs}
      (.held q.leaseId c.id)) := ⟨hu.file, hu.mem, hu.auto, hu.unheld⟩
  refine Draw.meets_effect ⟨hheld, fun id hid => ?_⟩ (fun _ => hheld) (fun _ => hu) hheld hu
  by_cases hx : id = c.id
  · subst hx
    exact .inl (hm ▸ hself)
  rcases h.2 id hid with hq | ⟨x, hx', rfl, hr⟩
  · left
    show quiet q.mode (cs.state id) = true
    rw [hother id hx]
    exact hq
  rcases mem_cons.1 hx' with rfl | hx'
  · exact absurd rfl hx
  · exact .inr ⟨x, hx', rfl, hr⟩

theorem rollbackQuiesce_unheld {l : Lease} (hl : l.leaseId = q.leaseId) (e : Err) {Q : QuiesceResult → World → Prop} :
    Triple (Unheld q) (rollbackQuiesce l e) Q (fun _ => Unheld q) (Unheld q) := by
  refine .bind (Stable.restore (hl ▸ unheld_stable q)) fun p => ?_
  rcases p with ⟨ids, es⟩
  simp only
  split
  · refine .bind (.modify fun w h => ?_) fun _ => .throw fun _ h => h
    exact ⟨h.file, h.mem, h.auto, h.unheld⟩
  refine .bind (Q := fun _ => Unheld q) (.modify fun w h => ?_) fun _ => ?_
  · exact ⟨h.file, fun x hx => h.mem x (mem_eraseLease hx), h.auto, h.unheld⟩
  · exact .bind (unheld_stable q).toSaving.logSaveLeases fun _ => .throw fun _ h => h

theorem takeLease_quiet {l : Lease} (hl : l.leaseId = q.leaseId) (hm : q.mode = some l.mode) :
    Triple (fun w => Calm q w ∧ QuietBut q l.preState w) (takeLease l)
      (fun _ w => Calm q w ∧ AllQuiet q w) (fun _ => Calm q) (Calm q) := by
  refine .bind (Q := fun _ w => Calm q w ∧ QuietBut q l.preState w) (.modify fun w h => ?_) fun _ => ?_
  · refine ⟨⟨h.1.file, fun x hx => ?_, h.1.auto, h.1.held⟩, h.2⟩
    exact (mem_putLease hx).elim (fun hx => hx ▸ hl) (h.1.mem x)
  have hsave : Saving (fun w => Calm q w ∧ QuietBut q l.preState w) :=
    ⟨fun w d h => ⟨(calm_stable q).tick w d h.1, h.2⟩, fun w h => ⟨(calm_stable q).save w h.1, h.2⟩⟩
  refine hsave.saveLeases.attempt.conseq (fun _ h => h) (fun _ _ h => h) (fun _ _ h => h.1)
    (fun _ h => h.1) |>.bind fun r => ?_
  cases r with
  | error e =>
    refine .bind (Q := fun _ => Calm q) (.modify fun w h => ?_) fun _ =>
      Triple.throw fun _ h => h
    exact ⟨h.1.file, fun x hx => h.1.mem x (mem_eraseLease hx), h.1.auto, h.1.held⟩
  | ok _ =>
    refine .bind (Q := fun _ w => Unheld q w ∧ QuietBut q l.preState w)
      (.modify fun w h => ?_) fun _ => ?_
    · exact ⟨⟨h.1.file, h.1.mem, h.1.auto, by simp [World.note, heldSince, hl]⟩, h.2⟩
    rw [hl]
    have hloop := Triple.each (I := fun rest w => Unheld q w ∧ QuietBut q rest w)
      (fun c rest => hold_quiet hm c rest) l.preState
    refine .bind (.conseq (Triple.attempt (F := fun _ => Calm q) hloop
      (R := fun r w => Unheld q w ∧ (r.isOk = true → QuietBut q [] w))
      (fun _ _ h => ⟨h.1, fun _ => h.2⟩) (fun _ _ h => ⟨h, fun hr => by cases hr⟩))
      (fun _ h => h) (fun _ _ h => h) (fun _ _ h => h) (fun _ h => h.calm)) fun r => ?_
    cases r with
    | error e =>
      exact (rollbackQuiesce_unheld hl e).conseq (fun _ h => h.1) (fun _ _ h => h)
        (fun _ _ h => h.calm) (fun _ h => h.calm)
    | ok _ =>
      refine .bind (Q := fun _ w => Calm q w ∧ AllQuiet q w) (.modify fun w h => ?_)
        fun _ => .pure fun _ h => h
      have hall : AllQuiet q w := fun id hid =>
        (h.2 rfl id hid).resolve_right fun ⟨c, hc, _⟩ => by cases hc
      exact ⟨⟨h.1.file, h.1.mem, h.1.auto, fun _ => hall⟩, hall⟩

theorem quietBut_of_inspected {pre : List ContainerState} {w : World}
    (hsteady : ∀ id ∈ q.containerIds, steady q.mode (w.containers.state id) = true)
    (hids : pre.map (·.id) = q.containerIds)
    (hpre : ∀ c ∈ pre, w.containers.state c.id = some c.state) : QuietBut q pre w := by
  intro id hid
  obtain ⟨c, hc, rfl⟩ := mem_map.1 (hids ▸ hid)
  by_cases hr : c.state = .running
  · exact .inr ⟨c, hc, rfl, hr⟩
  left
  have hs := hsteady c.id hid
  rw [hpre c hc] at hs ⊢
  cases hcs : c.state <;> rw [hcs] at hs hr <;> simp_all [quiet, steady]

/-- What a Quiesce has to find once it holds the lock. A repeat of an active lease
finds it held ever since a Quiesce took it; a first delivery finds no container
restarting, and in mode stop none paused. -/
def Sound (q : QuiesceCommand) (w : World) : Prop :=
  match findLease w.leases q.leaseId with
  | some l => l.active = true → heldSince q.leaseId w.log = true
  | none => ∀ id ∈ q.containerIds, steady q.mode (w.containers.state id) = true

instance (q : QuiesceCommand) (w : World) : Decidable (Sound q w) := by
  unfold Sound
  split <;> infer_instance

theorem quiesceLocked_quiet {mode : Mode} (hm : q.mode = some mode) :
    Triple (fun w => Calm q w ∧ Sound q w) (quiesceLocked q mode)
      (fun _ w => Calm q w ∧ AllQuiet q w) (fun _ => Calm q) (Calm q) := by
  refine .get_bind fun s hs => ?_
  obtain ⟨hc, hsound⟩ := hs
  unfold Sound at hsound
  split
  · rename_i l hl
    rw [hl] at hsound
    unfold repeated
    split
    · exact .throw fun _ h => h ▸ hc
    split
    · exact .throw fun _ h => h ▸ hc
    rename_i ha
    refine .pure fun _ h => h ▸ ⟨hc, ?_⟩
    exact hc.held (hsound (by simpa using ha))
  rename_i hl
  rw [hl] at hsound
  split
  · exact .throw fun _ h => h ▸ hc
  have hsaving : Saving (fun w => Calm q w ∧ w.containers = s.containers) :=
    ⟨fun x d h => ⟨(calm_stable q).tick x d h.1, h.2⟩, fun x h => ⟨(calm_stable q).save x h.1, h.2⟩⟩
  refine .bind (hsaving.control.conseq (fun _ h => by subst h; exact ⟨hc, rfl⟩)
    (fun _ _ h => h) (fun _ _ h => h.1) (fun _ h => h.1)) fun _ => ?_
  refine .bind ((calm_stable q).toSaving.inspectAll s.containers q.containerIds) fun pre => ?_
  refine (takeLease_quiet rfl hm).pre fun w' h => ⟨h.1.1, ?_⟩
  rw [← h.1.2] at hsound h
  exact quietBut_of_inspected hsound h.2.1 h.2.2

theorem calm_leaseInv (q : QuiesceCommand) : LeaseInv (· = q.leaseId) (Calm q) where
  toTimerInv := calm_timerInv q
  known _ l h hl := h.mem l hl
  stable id hid := hid ▸ calm_stable q
  begin _ _ h hl := ⟨h.file, h.mem, fun _ hr => Option.some.inj hr ▸ hl, h.held⟩
  delete _ _ h := ⟨h.file, fun x hx => h.mem x (mem_eraseLease hx), h.auto, h.held⟩
  arm _ _ h := ⟨h.file, h.mem, h.auto, h.held⟩
  asked _ _ h := ⟨h.file, h.mem, h.auto, h.held⟩
  resumed _ _ h := ⟨h.file, h.mem, h.auto, h.held⟩
  opened w h := ⟨h.file, fun l hl => h.file l (mem_filter.1 hl).1, h.auto, fun hh =>
    h.held ((dropped_append _ (fun _ _ => rfl) _ w.log).symm.trans hh)⟩
  down _ h := ⟨h.file, fun _ hl => (by cases hl), fun _ hr => (by cases hr), h.held⟩

end Calm

def DeliveredSoundly (w : World) : LeaseEvent → Prop
  | .quiesce q o => w.up = true → Sound q (atLock o w)
  | _ => True

/-- A Quiesce that returns a result leaves every container it names quiesced. -/
def QuiescesOnSuccess (w : World) : LeaseEvent → Prop
  | .quiesce q o =>
    w.up = true → ∀ r, (quiesce q o w).1 = .ok r → AllQuiet q (leaseStep w (.quiesce q o))
  | _ => True

def LeaseEvent.isFor (q : QuiesceCommand) : LeaseEvent → Prop
  | .quiesce q' _ => q' = q
  | _ => True

theorem quiesce_calm {q : QuiesceCommand} {w : World} (h : Calm q w) (o : List Draw) (hs : Sound q (atLock o w)) :
    (quiesce q o w).1.meets (fun _ w => Calm q w ∧ AllQuiet q w) (fun _ => Calm q) (Calm q) (quiesce q o w).2.2 :=
  (calm_timerInv q).quiesce h o hs fun _ hm => quiesceLocked_quiet hm

/-- Every delivery of the command, and all that others do in between. -/
theorem calm_step {q : QuiesceCommand} {w : World} {e : LeaseEvent} (h : Calm q w)
    (he : e.isFor q ∧ DeliveredSoundly w e) : Calm q (leaseStep w e) := by
  refine (calm_leaseInv q).step h e fun q' o hq hup => ?_
  subst hq
  obtain rfl : q' = q := he.1
  exact (quiesce_calm h o (he.2 hup)).mono (fun _ h => h.1) (fun _ h => h) (fun h => h)

def noLeases (w : World) : Prop := w.leaseFile = [] ∧ w.leases = [] ∧ w.resuming = none ∧ w.log = []

/-- **A successful Quiesce means the application is quiesced**, in every history
of deliveries of one command, crashes, restarts, resumes and timers, whose
deliveries find what `Sound` says. -/
theorem quiesces_of_sound (q : QuiesceCommand) (w : World) (hw : noLeases w) (es : List LeaseEvent)
    (hes : Along leaseStep (fun w e => e.isFor q ∧ DeliveredSoundly w e) w es) :
    Along leaseStep QuiescesOnSuccess w es := by
  obtain ⟨hfile, hmem, hauto, hlog⟩ := hw
  have h0 : Calm q w := by
    constructor
    · simp [hfile]
    · simp [hmem]
    · simp [hauto]
    · simp [hlog, heldSince]
  refine hes.imp h0 (fun _ _ h he => calm_step h he) fun w e h he => ?_
  cases e with
  | quiesce q' o =>
    intro hup r hr
    obtain rfl : q' = q := he.1
    have hend := quiesce_calm h o (he.2 hup)
    rw [hr] at hend
    simp only [leaseStep, hup, if_true, settle, hr]
    exact hend.2
  | _ => trivial

def World.idle (cs : Containers) : World where
  fs := default
  containers := cs
  volumes := fun _ => none
  networks := []
  journal := none
  leaseFile := []
  now := 0
  lstats := []
  up := true
  leases := []
  timers := []
  resuming := none
  mem := ⟨"", .active, 0, [], [], [], []⟩
  swaps := []
  result := .new ""
  log := []
  restored := []

def Containers.two (a b : DockerState) : Containers
  | "a" => some ⟨"a", a⟩
  | "b" => some ⟨"b", b⟩
  | _ => none

def QuiesceCommand.two : QuiesceCommand := ⟨"lease", "app", some .pause, ["a", "b"], 60⟩

theorem quiesces_of_sound_running :
    Along leaseStep QuiescesOnSuccess (.idle (.two .running .exited)) [.quiesce .two []] :=
  quiesces_of_sound .two _ ⟨rfl, rfl, rfl, rfl⟩ _ ⟨⟨rfl, fun _ => by decide⟩, trivial⟩

/-- A restarting container is left as it is; and an agent that dies in the pause
loop, after its first container, answers the command it is given again from the
lease it journaled. -/
theorem quiesces_fails : ¬ Along leaseStep QuiescesOnSuccess (.idle (.two .running .restarting)) [.quiesce .two []] ∧
      ¬ Along leaseStep QuiescesOnSuccess (.idle (.two .running .running))
        [.quiesce .two [default, default, default, default, default, {(default : Draw) with crash := true}],
          .start [], .quiesce .two []] := by
  constructor
  · intro h
    have hq := h.1 rfl ⟨[⟨"a", "a", .running⟩, ⟨"b", "b", .restarting⟩], 0, 60⟩ (by rfl) "b" (by decide)
    exact absurd hq (by decide)
  · intro h
    have hq := h.2.2.1 (by rfl) ⟨[⟨"a", "a", .running⟩, ⟨"b", "b", .running⟩], 0, 60⟩ (by rfl) "b" (by decide)
    exact absurd hq (by decide)

end Dbr2.Agent
