import Dbr2.Agent.CommandJournal

/-! How the agent executes a command (`handleCommand` in `internal/agent/agent.go`).

Each delivery of a command is a call of `handleCommand`, and the calls run side by side. The lookup
in the journal and the check of the map of running commands are two critical sections. The map is
exact all the time (`running_exact`). -/
namespace Dbr2.Agent.Commands
open Lib List

structure Command where
  (commandId kind : String)
  deriving DecidableEq

/-- How far a call has come: after the lookup that found nothing, the check, the
Accept, the start of the execution, its return, and its end, journaled or not. -/
inductive Stage
  | lookedUp
  | marked
  | accepted
  | executing
  | returned (u : CommandUpdate)
  | journaled
  | unjournaled
  deriving DecidableEq

structure Call where
  command : Command
  stage : Stage
  deriving DecidableEq

def Call.id (c : Call) : String := c.command.commandId

def Call.holds (c : Call) : Bool := c.stage != .lookedUp

/-- One lifetime of the agent. `finished` are the commands with an execution that was
journaled as finished. -/
structure Lifetime where
  records : Records
  running : List String
  calls : Nat → Option Call
  now : Nat
  finished : List String

inductive CallEvent
  | deliver (n : Nat) (c : Command)
  | check (n : Nat)
  | accept (n : Nat)
  | start (n : Nat)
  | ret (n : Nat) (u : CommandUpdate)
  /-- Finish; it is skipped when the agent shuts down, and does nothing when the
  update cannot be marshalled. -/
  | finish (n : Nat) (journals : Bool)
  | leave (n : Nat)
  | ack (id : String)
  | tick (d : Nat)

namespace Lifetime

def setStage (s : Lifetime) (n : Nat) (c : Call) (stage : Stage) : Lifetime :=
  {s with calls := Function.update s.calls n (some {c with stage})}

def endCall (s : Lifetime) (n : Nat) : Lifetime := {s with calls := Function.update s.calls n none}

def deliver (s : Lifetime) (n : Nat) (c : Command) : Lifetime :=
  match s.calls n with
  | some _ => s
  | none =>
    -- a stored result is sent again, and nothing else is done
    if (s.records.result c.commandId).isSome then s
    else {s with calls := Function.update s.calls n (some ⟨c, .lookedUp⟩)}

def check (s : Lifetime) (n : Nat) (c : Call) : Lifetime :=
  if c.id ∈ s.running then s.endCall n
  else {s with running := c.id :: s.running}.setStage n c .marked

def accept (s : Lifetime) (n : Nat) (c : Call) : Lifetime :=
  {s with records := s.records.put (acceptedRecord s.now c.id c.command.kind)}.setStage n c .accepted

def finish (s : Lifetime) (n : Nat) (c : Call) (u : CommandUpdate) (journals : Bool) : Lifetime :=
  if journals then
    {s with
      -- execute answers with the id of its command
      records := s.records.put (finishedRecord s.now {u with commandId := c.id} c.command.kind)
      finished := c.id :: s.finished}.setStage n c .journaled
  else s.setStage n c .unjournaled

def leave (s : Lifetime) (n : Nat) (c : Call) : Lifetime :=
  {s with running := s.running.filter (· != c.id)}.endCall n

def ack (s : Lifetime) (id : String) : Lifetime :=
  match ackedRecord s.now s.records id with
  | some r => {s with records := s.records.put r}
  | none => s

def onCall (s : Lifetime) (n : Nat) (stage : Stage) (f : Call → Lifetime) : Lifetime :=
  match s.calls n with
  | some c => if c.stage = stage then f c else s
  | none => s

def step (s : Lifetime) : CallEvent → Lifetime
  | .deliver n c => s.deliver n c
  | .check n => s.onCall n .lookedUp (s.check n)
  | .accept n => s.onCall n .marked (s.accept n)
  | .start n => s.onCall n .accepted (s.setStage n · .executing)
  | .ret n u => s.onCall n .executing (s.setStage n · (.returned u))
  | .finish n journals =>
    match s.calls n with
    | some ⟨c, .returned u⟩ => s.finish n ⟨c, .returned u⟩ u journals
    | _ => s
  | .leave n =>
    match s.calls n with
    | some c => if c.stage = .journaled ∨ c.stage = .unjournaled then s.leave n c else s
    | none => s
  | .ack id => s.ack id
  | .tick d => {s with now := s.now + d}

def started (records : Records) (now : Nat) : Lifetime := ⟨records, [], fun _ => none, now, []⟩

def starts (s : Lifetime) (e : CallEvent) (n : Nat) (c : Call) : Prop :=
  e = .start n ∧ s.calls n = some c ∧ c.stage = .accepted

/-- An execution that starts is the only one of its command, and none was journaled as
finished before. -/
def Once (s : Lifetime) (e : CallEvent) : Prop :=
  ∀ n c, s.starts e n c → (∀ m d, s.calls m = some d → d.id = c.id → d.holds = true → m = n) ∧ c.id ∉ s.finished

/-- A journaled execution that leaves the running map finds no delivery of its command
between the lookup and the check. -/
def Undisturbed (s : Lifetime) (e : CallEvent) : Prop :=
  ∀ n c, e = .leave n → s.calls n = some c → c.stage = .journaled →
    ∀ m d, s.calls m = some d → d.id = c.id → d.stage ≠ .lookedUp

/-- At most one call holds a command, and it is in the running map then. -/
structure Owned (calls : Nat → Option Call) (running : List String) : Prop where
  own : ∀ n m c d, calls n = some c → calls m = some d → c.holds = true → d.holds = true → c.id = d.id → n = m
  held : ∀ n c, calls n = some c → c.holds = true → c.id ∈ running

namespace Owned
variable {calls : Nat → Option Call} {running : List String} {n : Nat} {c : Call}

theorem unheld (h : Owned calls running) {o : Option Call} (ho : ∀ d, o = some d → d.holds = false) :
    Owned (Function.update calls n o) running := by
  have hold {m : Nat} {d : Call} (hd : Function.update calls n o m = some d) (hh : d.holds = true) :
      calls m = some d := by
    rcases update_some hd with ⟨-, hd⟩ | ⟨-, hd⟩
    · rw [ho d hd] at hh
      cases hh
    · exact hd
  exact ⟨fun m m' d d' hd hd' hh hh' => h.own m m' d d' (hold hd hh) (hold hd' hh') hh hh',
    fun m d hd hh => h.held m d (hold hd hh) hh⟩

theorem advance (h : Owned calls running) (hc : calls n = some c) (hh : c.holds = true)
    (stage : Stage) : Owned (Function.update calls n (some {c with stage})) running := by
  have hold {m : Nat} {d : Call} (hd : Function.update calls n (some {c with stage}) m = some d)
      (hdh : d.holds = true) : ∃ d', calls m = some d' ∧ d'.holds = true ∧ d'.id = d.id := by
    rcases update_some hd with ⟨rfl, hnew⟩ | ⟨-, hd⟩
    · cases hnew
      exact ⟨c, hc, hh, rfl⟩
    · exact ⟨d, hd, hdh, rfl⟩
  constructor
  · intro m m' d d' hd hd' hdh hdh' hid
    obtain ⟨x, hx, hxh, hxid⟩ := hold hd hdh
    obtain ⟨x', hx', hxh', hxid'⟩ := hold hd' hdh'
    exact h.own m m' x x' hx hx' hxh hxh' (hxid.trans (hid.trans hxid'.symm))
  · intro m d hd hdh
    obtain ⟨x, hx, hxh, hxid⟩ := hold hd hdh
    exact hxid ▸ h.held m x hx hxh

theorem mark (h : Owned calls running) (hfree : c.id ∉ running) :
    Owned (Function.update calls n (some {c with stage := .marked})) (c.id :: running) := by
  constructor
  · intro m m' d d' hd hd' hdh hdh' hid
    rcases update_some hd with ⟨hm, hnew⟩ | ⟨-, hd⟩ <;> rcases update_some hd' with ⟨hm', hnew'⟩ | ⟨-, hd'⟩
    · exact hm.trans hm'.symm
    · cases hnew
      exact absurd (show c.id ∈ running from hid ▸ h.held m' d' hd' hdh') hfree
    · obtain rfl := Option.some.inj hnew'
      exact absurd (show c.id ∈ running from hid ▸ h.held m d hd hdh) hfree
    · exact h.own m m' d d' hd hd' hdh hdh' hid
  · intro m d hd hdh
    rcases update_some hd with ⟨-, hd⟩ | ⟨-, hd⟩
    · cases hd
      exact mem_cons_self
    · exact mem_cons_of_mem _ (h.held m d hd hdh)

theorem leave (h : Owned calls running) (hc : calls n = some c) (hh : c.holds = true) :
    Owned (Function.update calls n none) (running.filter (· != c.id)) := by
  constructor
  · exact fun m m' d d' hd hd' => h.own m m' d d' (update_none_some hd).2 (update_none_some hd').2
  · intro m d hd hdh
    obtain ⟨hm, hd⟩ := update_none_some hd
    have hne : d.id ≠ c.id := fun hid => hm (h.own m n d c hd hc hdh hh hid)
    exact mem_filter.2 ⟨h.held m d hd hdh, by simpa using hne⟩

end Owned

/-- Its result is stored; calls of it have either only looked it up, and will find it
running, or are the one that was journaled. -/
structure Orderly (s : Lifetime) : Prop where
  owned : Owned s.calls s.running
  stored : ∀ id ∈ s.finished, (s.records.result id).isSome = true
  settled : ∀ id ∈ s.finished, ∀ n c, s.calls n = some c → c.id = id →
    (c.stage = .lookedUp ∧ id ∈ s.running) ∨ c.stage = .journaled

namespace Orderly
variable {s : Lifetime} {n : Nat} {c : Call}

section

variable (h : Orderly s)
include h

theorem not_finished (hc : s.calls n = some c) (hl : c.stage ≠ .lookedUp)
    (hj : c.stage ≠ .journaled) : c.id ∉ s.finished := fun hf =>
  (h.settled c.id hf n c hc rfl).elim (fun hs => hl hs.1) hj

theorem advance (hc : s.calls n = some c) (hh : c.holds = true)
    (hf : c.id ∉ s.finished) (stage : Stage) : Orderly (s.setStage n c stage) where
  owned := h.owned.advance hc hh stage
  stored := h.stored
  settled id hid m d hd hdid := by
    rcases update_some hd with ⟨-, hd⟩ | ⟨-, hd⟩
    · cases hd
      exact absurd (show c.id ∈ s.finished from hdid ▸ hid) hf
    · exact h.settled id hid m d hd hdid

theorem put {r : Record} (hr : r.commandId ∈ s.finished → r.update.isSome = true) :
    Orderly {s with records := s.records.put r} where
  owned := h.owned
  settled := h.settled
  stored id hid := by
    rw [Records.result_put]
    split
    · rename_i he
      exact hr (he ▸ hid)
    · exact h.stored id hid

theorem deliver (n : Nat) (c : Command) : Orderly (s.deliver n c) := by
  unfold Lifetime.deliver
  split
  · exact h
  split
  · exact h
  rename_i hres
  refine ⟨h.owned.unheld fun d hd => Option.some.inj hd ▸ rfl, h.stored, fun id hid m d hd hdid => ?_⟩
  rcases update_some hd with ⟨-, hd⟩ | ⟨-, hd⟩
  · obtain rfl := Option.some.inj hd
    obtain rfl : c.commandId = id := hdid
    exact absurd (h.stored _ hid) hres
  · exact h.settled id hid m d hd hdid

theorem check (hc : s.calls n = some c) (hl : c.stage = .lookedUp) : Orderly (s.check n c) := by
  unfold Lifetime.check
  split
  · refine ⟨h.owned.unheld fun d hd => (by cases hd), h.stored, fun id hid m d hd hdid => ?_⟩
    exact h.settled id hid m d (update_none_some hd).2 hdid
  rename_i hfree
  refine ⟨h.owned.mark hfree, h.stored, fun id hid m d hd hdid => ?_⟩
  rcases update_some hd with ⟨-, hd⟩ | ⟨-, hd⟩
  · obtain rfl := Option.some.inj hd
    rcases h.settled id hid n c hc hdid with hs | hs
    · exact absurd (show c.id ∈ s.running from (show c.id = id from hdid) ▸ hs.2) hfree
    · rw [hl] at hs
      cases hs
  · exact (h.settled id hid m d hd hdid).imp_left (.imp_right (mem_cons_of_mem _))

theorem finish {u : CommandUpdate} (hc : s.calls n = some c)
    (hs : c.stage = .returned u) (journals : Bool) : Orderly (s.finish n c u journals) := by
  have hh : c.holds = true := by simp [Call.holds, hs]
  have hf := h.not_finished hc (by simp [hs]) (by simp [hs])
  unfold Lifetime.finish
  split
  · refine ⟨h.owned.advance hc hh _, fun id hid => ?_, fun id hid m d hd hdid => ?_⟩
    · show ((s.records.put _).result id).isSome = true
      rw [Records.result_put]
      split
      · rfl
      · rename_i hne
        exact h.stored id ((mem_cons.1 hid).resolve_left (Ne.symm hne))
    · rcases update_some hd with ⟨-, hd⟩ | ⟨hm, hd⟩
      · obtain rfl := Option.some.inj hd
        exact .inr rfl
      rcases mem_cons.1 hid with rfl | hid
      · refine .inl ⟨?_, h.owned.held n c hc hh⟩
        by_contra hl
        exact hm (h.owned.own m n d c hd hc (by simpa [Call.holds] using hl) hh hdid)
      · exact h.settled id hid m d hd hdid
  · exact h.advance hc hh hf .unjournaled

theorem leave (hc : s.calls n = some c) (hs : c.stage = .journaled ∨ c.stage = .unjournaled)
    (hund : c.stage = .journaled → ∀ m d, s.calls m = some d → d.id = c.id → d.stage ≠ .lookedUp) :
    Orderly (s.leave n c) := by
  have hh : c.holds = true := by rcases hs with hs | hs <;> simp [Call.holds, hs]
  refine ⟨h.owned.leave hc hh, h.stored, fun id hid m d hd hdid => ?_⟩
  obtain ⟨-, hd⟩ := update_none_some hd
  refine (h.settled id hid m d hd hdid).imp_left fun ⟨hl, hrun⟩ => ⟨hl, ?_⟩
  refine mem_filter.2 ⟨hrun, ?_⟩
  -- another delivery waits for its check: the execution that leaves is of another command
  have hne : id ≠ c.id := by
    rintro rfl
    rcases hs with hs | hs
    · exact hund hs m d hd hdid hl
    · exact h.not_finished hc (by simp [hs]) (by simp [hs]) hid
  simpa using hne

theorem ack (id : String) : Orderly (s.ack id) := by
  unfold Lifetime.ack
  cases hr : ackedRecord s.now s.records id with
  | none => exact h
  | some r =>
    refine h.put fun hf => ?_
    obtain ⟨r₀, hr₀, hr⟩ := Option.bind_eq_some_iff.1 hr
    split at hr
    · obtain rfl := Option.some.inj hr
      have hst := h.stored id hf
      rwa [Records.result, hr₀] at hst
    · cases hr

theorem onCall (stage : Stage) {f : Call → Lifetime}
    (hf : ∀ c, s.calls n = some c → c.stage = stage → Orderly (f c)) :
    Orderly (s.onCall n stage f) := by
  unfold Lifetime.onCall
  cases hc : s.calls n with
  | none => exact h
  | some c =>
    show Orderly (if _ then _ else _)
    split
    · rename_i hs
      exact hf c hc hs
    · exact h

theorem step {e : CallEvent} (he : s.Undisturbed e) : Orderly (s.step e) := by
  have hgo {n : Nat} {stage stage' : Stage} (hl : stage ≠ .lookedUp) (hj : stage ≠ .journaled)
      {c : Call} (hc : s.calls n = some c) (hs : c.stage = stage) : Orderly (s.setStage n c stage') :=
    h.advance hc (by simpa [Call.holds, hs] using hl) (h.not_finished hc (hs ▸ hl) (hs ▸ hj)) _
  cases e with
  | deliver n c => exact h.deliver n c
  | check n => exact h.onCall _ fun c hc hs => h.check hc hs
  | accept n =>
    refine h.onCall _ fun c hc hs => ?_
    have hf := h.not_finished hc (by simp [hs]) (by simp [hs])
    exact (h.put fun hfin => absurd hfin hf).advance hc (by simp [Call.holds, hs]) hf _
  | start n => exact h.onCall _ fun c hc hs => hgo (by simp) (by simp) hc hs
  | ret n u => exact h.onCall _ fun c hc hs => hgo (by simp) (by simp) hc hs
  | finish n journals =>
    simp only [Lifetime.step]
    split
    · rename_i c u hc
      exact h.finish hc rfl journals
    · exact h
  | leave n =>
    simp only [Lifetime.step]
    split
    · rename_i c hc
      split
      · rename_i hs
        exact h.leave hc hs (he n c rfl hc)
      · exact h
    · exact h
  | ack id => exact h.ack id
  | tick d => exact ⟨h.owned, h.stored, h.settled⟩

theorem once (e : CallEvent) : s.Once e := by
  rintro n c ⟨-, hc, hs⟩
  refine ⟨fun m d hd hid hh => ?_, h.not_finished hc (by simp [hs]) (by simp [hs])⟩
  exact h.owned.own m n d c hd hc hh (by simp [Call.holds, hs]) hid

end

end Orderly

/-- **A command is executed at most once** in one lifetime of the agent, in every
interleaving of deliveries and executions in which no journaled execution leaves the
running map between the lookup and the check of another delivery. -/
theorem once_of_undisturbed (records : Records) (now : Nat) (es : List CallEvent)
    (hes : Along step Undisturbed (started records now) es) :
    Along step Once (started records now) es := by
  have h0 : Orderly (started records now) :=
    ⟨⟨fun n m c d hc => (by cases hc), fun n c hc => (by cases hc)⟩, fun id hid => (by cases hid),
      fun id hid => (by cases hid)⟩
  exact hes.imp h0 (fun _ _ h he => h.step he) fun s e h _ => h.once e

/-- The first delivery runs to its end; the second has looked the command up before. -/
def executedAgain : List CallEvent :=
  let c : Command := ⟨"cmd", "resume"⟩
  [.deliver 0 c, .check 0, .accept 0, .deliver 1 c, .start 0, .ret 0 ⟨"cmd", .succeeded, "", false, ""⟩,
    .finish 0 true, .leave 0, .check 1, .accept 1, .start 1]

/-- It executes the command again. -/
theorem executed_twice : ¬ Along step Once (started [] 0) executedAgain := by
  intro h
  obtain ⟨-, -, -, -, -, -, -, -, -, -, h, -⟩ := h
  exact (h 1 ⟨⟨"cmd", "resume"⟩, .accepted⟩ ⟨rfl, rfl, rfl⟩).2 (by decide)

/-- A second delivery whose check comes before the first leaves is turned away. -/
theorem once_of_undisturbed_early : let c : Command := ⟨"cmd", "resume"⟩
    let es := [.deliver 0 c, .check 0, .accept 0, .deliver 1 c, .start 0, .check 1]
    Along step Once (started [] 0) es ∧ (run step (started [] 0) es).calls 1 = none := by
  refine ⟨once_of_undisturbed [] 0 _ ?_, rfl⟩
  simp only [along_cons, Undisturbed]
  simp

end Lifetime

@[simp] def Call.held (c : Call) : Option String := if c.stage = .lookedUp then none else some c.command.commandId

namespace Lifetime

/-- The command that a call holds in the running map. -/
def held (s : Lifetime) (n : Nat) : Option String := (s.calls n).bind Call.held

/-- A command is in the running map exactly while a call holds it, and no two calls hold one. -/
structure Exact (s : Lifetime) : Prop where
  running : ∀ id, id ∈ s.running ↔ ∃ n, s.held n = some id
  one : ∀ n m id, s.held n = some id → s.held m = some id → n = m

namespace Exact
variable {s s' : Lifetime} {n : Nat} {o : Option Call} (h : Exact s) (hcalls : s'.calls = Function.update s.calls n o)

include hcalls in
theorem held_update : s'.held = Function.update s.held n (o.bind Call.held) := by
  funext m
  by_cases hm : m = n
  · subst hm
    simp [held, hcalls]
  · simp [held, hcalls, hm]

include h

theorem same (hheld : s'.held = s.held) (hrun : s'.running = s.running) : Exact s' :=
  ⟨hheld ▸ hrun ▸ h.running, hheld ▸ h.one⟩

include hcalls

theorem quiet (ho : o.bind Call.held = s.held n) (hrun : s'.running = s.running) : Exact s' :=
  h.same (by rw [held_update hcalls, ho, Function.update_eq_self]) hrun

theorem moved (hfree : ∀ id ∈ o.bind Call.held, id ∉ s.running)
    (hrun : ∀ id, id ∈ s'.running ↔ o.bind Call.held = some id ∨ id ∈ s.running ∧ s.held n ≠ some id) : Exact s' := by
  have hin := h.running
  have hone := h.one
  refine ⟨fun x => ?_, fun m m' x => ?_⟩ <;> rw [held_update hcalls]
  · rw [hrun, exists_update_some]
    grind
  · grind [Function.update_apply]

omit hcalls

theorem onCall {stage : Stage} {f : Call → Lifetime} (hf : ∀ c, s.calls n = some c → c.stage = stage → Exact (f c)) :
    Exact (s.onCall n stage f) := by
  unfold Lifetime.onCall
  split
  · rename_i c hc
    split
    · rename_i hs
      exact hf c hc hs
    · exact h
  · exact h

theorem step (e : CallEvent) : Exact (s.step e) := by
  cases e with
  | deliver n c =>
    simp only [Lifetime.step, deliver]
    split
    · exact h
    · rename_i hn
      split
      · exact h
      · exact h.quiet rfl (by simp [held, hn]) rfl
  | check n =>
    refine h.onCall fun c hc hs => ?_
    have hn : s.held n = none := by simp [held, hc, hs]
    unfold check
    split
    · exact h.quiet rfl hn.symm rfl
    · rename_i hfree
      refine h.moved rfl (by simpa [Call.id] using hfree) fun id => ?_
      simp [setStage, hn, Call.id, eq_comm]
  | accept n => exact h.onCall fun c hc hs => h.quiet rfl (by simp [held, hc, hs]) rfl
  | start n => exact h.onCall fun c hc hs => h.quiet rfl (by simp [held, hc, hs]) rfl
  | ret n u => exact h.onCall fun c hc hs => h.quiet rfl (by simp [held, hc, hs]) rfl
  | finish n journals =>
    simp only [Lifetime.step]
    split
    · rename_i c u hc
      cases journals <;> exact h.quiet rfl (by simp [held, hc]) rfl
    · exact h
  | leave n =>
    simp only [Lifetime.step]
    split
    · rename_i c hc
      split
      · rename_i hs
        have hn : s.held n = some c.id := by rcases hs with hs | hs <;> simp [held, hc, hs, Call.id]
        refine h.moved rfl (by simp) fun id => ?_
        simp [Lifetime.leave, endCall, hn, @eq_comm _ c.id]
      · exact h
    · exact h
  | ack id =>
    simp only [Lifetime.step, ack]
    split <;> exact h.same rfl rfl
  | tick d => exact h.same rfl rfl

end Exact

/-- **The running map is exact** in every interleaving of deliveries and executions: no entry is left
behind, and no command is executed by two calls at once. -/
theorem running_exact (records : Records) (now : Nat) (es : List CallEvent) :
    Exact (run step (started records now) es) :=
  run_invariant ⟨fun id => by simp [started, held], fun n m id hn => (by cases hn)⟩ (fun _ e h => h.step e) es

end Lifetime

end Dbr2.Agent.Commands
