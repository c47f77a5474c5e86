import Dbr2.Lib.Run
import Dbr2.Lib.Table

/-! Commands and their updates at the gateway (`Dispatch`, `deliver` and `route` in
`internal/gateway/gateway.go`, with `UpsertAgentCommand`).

Any number of calls and sessions interleave. `route` looks at who sends, so a session reaches no
call of another agent (`calls_handle`). `deliver` records a result under the command alone. -/
namespace Dbr2.Gateway
open Lib List

inductive CommandState
  | unspecified
  | accepted
  | running
  | succeeded
  | failed
  deriving DecidableEq

def stateName : CommandState → String
  | .unspecified => "unspecified"
  | .accepted => "accepted"
  | .running => "running"
  | .succeeded => "succeeded"
  | .failed => "failed"

def terminal (s : CommandState) : Bool := s == .succeeded || s == .failed

/-- A CommandUpdate of an agent. -/
structure Update where
  commandID : String
  state : CommandState
  result : Option String
  error : String
  retryable : Bool
  deriving DecidableEq

structure AgentCommand where
  (commandID agentID kind state : String)
  error : Option String
  deriving DecidableEq

def strPtr (s : String) : Option String := if s = "" then none else some s

/-- INSERT, or on conflict the new state and error; the agent of the row stays. -/
def upsertAgentCommand (r : AgentCommand) (t : Table AgentCommand.commandID) : Table AgentCommand.commandID :=
  (t.insert r).update (·.commandID == r.commandID) (fun old => {old with state := r.state, error := r.error}) fun _ => rfl

def waiterCapacity : Nat := 64

/-- A call of Dispatch with its waiter: the updates in its channel, those it has taken, and how it
has returned, with the terminal update or an error. -/
structure Call where
  (agentID commandID kind : String)
  recorded : Bool
  (updates progress : List Update)
  result : Option (Option Update)
  deriving DecidableEq

/-- Where a session is with the update it handles. -/
inductive Phase
  | ingesting (kind : String)
  | recording (kind : String)
  | routing
  | sending (k : Nat)
  deriving DecidableEq

/-- The stream of one agent. -/
structure Session where
  agentID : String
  busy : Option (Update × Phase)
  acks : List String
  deriving DecidableEq

/-- The calls that wait, the map of waiters, the table and the sessions. -/
structure State where
  calls : List Call
  waiters : String → Option Nat
  rows : Table AgentCommand.commandID
  sessions : List Session

def State.new (rows : Table AgentCommand.commandID) : State := ⟨[], fun _ => none, rows, []⟩

inductive Act
  | receive (u : Update)
  | ingest (err : Option String)
  | record (answer : Answer)
  | route
  | send
  | giveUp
  deriving DecidableEq

inductive Event
  | dispatch (agentID commandID kind : String) (status : Option String)
  | recordDispatched (k : Nat) (answer : Answer)
  | take (k : Nat)
  | cancel (k : Nat)
  | connect (agentID : String)
  | session (n : Nat) (a : Act)
  deriving DecidableEq

def State.setSession (s : State) (n : Nat) (p : Session) : State := {s with sessions := s.sessions.set n p}

def waiterKind (s : State) (commandID : String) : String :=
  match (s.waiters commandID).bind fun k => s.calls[k]? with
  | some c => c.kind
  | none => "unknown"

/-- The kind under which an update is recorded, whoever waits for its command. -/
def kindOf (s : State) (u : Update) : String :=
  if waiterKind s u.commandID = "unknown" then u.result.getD "unknown" else waiterKind s u.commandID

/-- What comes first for an update. -/
def deliver (s : State) (u : Update) : Phase :=
  if terminal u.state then
    if u.result = some "discover" ∧ u.state = .succeeded then .ingesting (kindOf s u) else .recording (kindOf s u)
  else .routing

/-- An inventory that cannot be stored is a failure, routed but not recorded. -/
def afterIngest (u : Update) (kind : String) : Option String → Update × Phase
  | none => (u, .recording kind)
  | some err => (⟨u.commandID, .failed, none, "gateway could not store the inventory: " ++ err, true⟩, .routing)

def resultRow (agentID kind : String) (u : Update) : AgentCommand :=
  ⟨u.commandID, agentID, kind, stateName u.state, strPtr u.error⟩

/-- The waiter of the command, if it waits for this agent. -/
def target (s : State) (agentID commandID : String) : Option Nat :=
  (s.waiters commandID).filter fun k => (s.calls[k]?).any (·.agentID == agentID)

def room (s : State) (k : Nat) : Bool := (s.calls[k]?).any (·.updates.length < waiterCapacity)

/-- Into the caller's channel, if it has room; only a terminal update waits for that. -/
def push (s : State) (k : Nat) (u : Update) : State :=
  match s.calls[k]? with
  | some c => if room s k then {s with calls := s.calls.set k {c with updates := c.updates ++ [u]}} else s
  | none => s

def effect (s : State) (p : Session) (a : Act) : State :=
  match p.busy, a with
  | some (u, .recording kind), .record answer =>
    {s with rows := if answer.applied then upsertAgentCommand (resultRow p.agentID kind u) s.rows else s.rows}
  | some (u, .sending k), .send => push s k u
  | _, _ => s

/-- Where the session is then. A terminal update waits for room in the channel. -/
def advance (s : State) (p : Session) (a : Act) : Session :=
  match p.busy, a with
  | none, .receive u => {p with busy := some (u, deliver s u)}
  | some (u, .ingesting kind), .ingest err => {p with busy := some (afterIngest u kind err)}
  | some (u, .recording _), .record _ => {p with busy := some (u, .routing), acks := p.acks ++ [u.commandID]}
  | some (u, .routing), .route =>
    {p with busy := (target s p.agentID u.commandID).map fun k => (u, .sending k)}
  | some (u, .sending k), .send => if room s k || !terminal u.state then {p with busy := none} else p
  | some (u, .sending _), .giveUp => if terminal u.state then {p with busy := none} else p
  | _, _ => p

def handle (s : State) (n : Nat) (p : Session) (a : Act) : State := (effect s p a).setSession n (advance s p a)

def finish (s : State) (k : Nat) (c : Call) (result : Option Update) : State :=
  {s with
    calls := s.calls.set k {c with result := some result}
    waiters := if s.waiters c.commandID = some k then Function.update s.waiters c.commandID none else s.waiters}

def recordDispatched (s : State) (k : Nat) (c : Call) (answer : Answer) : State :=
  if c.recorded ∨ c.result ≠ none then s
  else
    {s with
      calls := s.calls.set k {c with recorded := true}
      rows := if answer.applied then upsertAgentCommand ⟨c.commandID, c.agentID, c.kind, "dispatched", none⟩ s.rows
        else s.rows}

/-- The caller receives an update; a terminal one ends the call. -/
def take (s : State) (k : Nat) (c : Call) : State :=
  match c.recorded, c.result, c.updates with
  | true, none, u :: rest =>
    let c' := {c with updates := rest, progress := c.progress ++ [u]}
    if terminal u.state then finish s k c' (some u) else {s with calls := s.calls.set k c'}
  | _, _, _ => s

def step (s : State) : Event → State
  | .dispatch agentID commandID kind status =>
    if status = some "active" ∧ commandID ≠ "" then
      {s with
        calls := s.calls ++ [⟨agentID, commandID, kind, false, [], [], none⟩]
        waiters := Function.update s.waiters commandID (some s.calls.length)}
    else s
  | .recordDispatched k answer =>
    match s.calls[k]? with
    | some c => recordDispatched s k c answer
    | none => s
  | .take k =>
    match s.calls[k]? with
    | some c => take s k c
    | none => s
  | .cancel k =>
    match s.calls[k]? with
    | some c => if c.result = none then finish s k c none else s
    | none => s
  | .connect agentID => {s with sessions := s.sessions ++ [⟨agentID, none, []⟩]}
  | .session n a =>
    match s.sessions[n]? with
    | some p => handle s n p a
    | none => s

/-- The command was sent to the agent. -/
def Dispatched (es : List Event) (agentID commandID : String) : Prop :=
  commandID ≠ "" ∧ ∃ kind, Event.dispatch agentID commandID kind (some "active") ∈ es

/-- A step of a session changes neither a call that waits on another agent nor the row of a command
that the run dispatches to another agent. -/
def Unharmed (es : List Event) (s : State) (e : Event) : Prop :=
  ∀ (n : Nat) (a : Act) (p : Session), e = .session n a → s.sessions[n]? = some p →
    (∀ (k : Nat) (c : Call), s.calls[k]? = some c → c.agentID ≠ p.agentID → (step s e).calls[k]? = some c) ∧
    ∀ agentID id, Dispatched es agentID id → agentID ≠ p.agentID → (step s e).rows.find id = s.rows.find id

/-- A session that records the result of a command that the run dispatches to another agent repeats
what the row has. -/
def Respects (es : List Event) (s : State) (e : Event) : Prop :=
  ∀ (n : Nat) (answer : Answer) (p : Session) (u : Update) (kind : String), e = .session n (.record answer) → s.sessions[n]? = some p →
    p.busy = some (u, .recording kind) → answer.applied = true →
    ∀ agentID, Dispatched es agentID u.commandID → agentID ≠ p.agentID →
      ∃ r, s.rows.find u.commandID = some r ∧ r.state = stateName u.state ∧ r.error = strPtr u.error

theorem find_upsert (r : AgentCommand) (t : Table AgentCommand.commandID) (id : String) :
    (upsertAgentCommand r t).find id =
      if r.commandID = id then some {(t.find id).getD r with state := r.state, error := r.error} else t.find id := by
  unfold upsertAgentCommand
  rw [Table.find_update, Table.find_insert]
  by_cases hid : r.commandID = id
  · rw [if_pos hid, if_pos hid, Option.map_some]
    have hkey : ((t.find id).getD r).commandID = r.commandID := by
      cases hfind : t.find id with
      | none => rfl
      | some old => exact (Table.key_of_find hfind).trans hid.symm
    rw [if_pos (by rw [hkey]; exact beq_self_eq_true _)]
  rw [if_neg hid, if_neg hid]
  cases hfind : t.find id with
  | none => rfl
  | some old =>
    have hne : (old.commandID == r.commandID) = false := by
      rw [Table.key_of_find hfind]
      exact beq_false_of_ne (Ne.symm hid)
    rw [Option.map_some, hne]
    rfl

theorem find_upsert_eq_iff (r : AgentCommand) (t : Table AgentCommand.commandID) :
    (upsertAgentCommand r t).find r.commandID = t.find r.commandID ↔
      ∃ old, t.find r.commandID = some old ∧ old.state = r.state ∧ old.error = r.error := by
  rw [find_upsert, if_pos rfl]
  cases hfind : t.find r.commandID with
  | none => simp
  | some old =>
    constructor
    · intro h
      have hold := Option.some.inj h
      exact ⟨old, rfl, by rw [← hold], by rw [← hold]⟩
    · rintro ⟨old', hsome, hstate, herror⟩
      cases hsome
      rw [Option.getD_some, ← hstate, ← herror]

variable {s : State} {n k : Nat} {p : Session} {a : Act} {e : Event} {es : List Event}

/-- Every update on its way to a call is of an agent that the call waits on. -/
def Inv (s : State) : Prop :=
  ∀ (n : Nat) (p : Session) (u : Update) (k : Nat), s.sessions[n]? = some p → p.busy = some (u, .sending k) →
    ∃ c, s.calls[k]? = some c ∧ c.agentID = p.agentID

def Keeps (s s' : State) : Prop := ∀ (k : Nat) (c : Call), s.calls[k]? = some c →
  ∃ c', s'.calls[k]? = some c' ∧ c'.agentID = c.agentID

theorem Keeps.of_calls {s s' : State} (h : s'.calls = s.calls) : Keeps s s' := by
  intro k c hc
  exact ⟨c, by rw [h]; exact hc, rfl⟩

theorem Keeps.of_set {s s' : State} {c c' : Call} (hc : s.calls[k]? = some c) (h : s'.calls = s.calls.set k c')
    (hagent : c'.agentID = c.agentID) : Keeps s s' := by
  intro j d hd
  rw [h]
  by_cases hj : k = j
  · subst hj
    cases hc.symm.trans hd
    exact ⟨c', getElem?_set_self (List.getElem?_eq_some_iff.1 hc).1, hagent⟩
  · exact ⟨d, by rw [getElem?_set_ne hj]; exact hd, rfl⟩

theorem target_spec {agentID commandID : String} (h : target s agentID commandID = some k) :
    ∃ c, s.calls[k]? = some c ∧ c.agentID = agentID := by
  obtain ⟨-, hany⟩ := Option.filter_eq_some_iff.1 h
  cases hc : s.calls[k]? with
  | none =>
    rw [hc] at hany
    cases hany
  | some c =>
    rw [hc] at hany
    exact ⟨c, rfl, by simpa using hany⟩

theorem push_spec (s : State) (k : Nat) (u : Update) : push s k u = s ∨ ∃ c, s.calls[k]? = some c ∧
      push s k u = {s with calls := s.calls.set k {c with updates := c.updates ++ [u]}} := by
  unfold push
  cases hc : s.calls[k]? with
  | none => exact .inl rfl
  | some c =>
    show (if room s k then _ else s) = s ∨ _
    split
    · exact .inr ⟨c, rfl, rfl⟩
    · exact .inl rfl

/-- A session records a result, puts an update into the channel of a call, or changes only itself. -/
theorem effect_cases (s : State) (p : Session) (a : Act) :
    (∃ u kind answer, p.busy = some (u, .recording kind) ∧ a = .record answer ∧ effect s p a =
      {s with rows := if answer.applied then upsertAgentCommand (resultRow p.agentID kind u) s.rows else s.rows}) ∨
    (∃ u k, p.busy = some (u, .sending k) ∧ effect s p a = push s k u) ∨
    effect s p a = s ∧ ∀ u kind answer, p.busy = some (u, .recording kind) → a ≠ .record answer := by
  unfold effect
  split
  · rename_i u kind answer hbusy
    exact .inl ⟨u, kind, answer, hbusy, rfl, rfl⟩
  · rename_i u k hbusy
    exact .inr (.inl ⟨u, k, hbusy, rfl⟩)
  · rename_i hrec _
    exact .inr (.inr ⟨rfl, fun u kind answer hbusy ha => hrec u kind answer hbusy ha⟩)

theorem keeps_effect : Keeps s (effect s p a) := by
  rcases effect_cases s p a with ⟨u, kind, answer, -, -, heff⟩ | ⟨u, k, -, heff⟩ | ⟨heff, -⟩
  · rw [heff]
    exact Keeps.of_calls rfl
  · rw [heff]
    rcases push_spec s k u with h | ⟨c, hc, h⟩
    · rw [h]
      exact Keeps.of_calls rfl
    · rw [h]
      exact Keeps.of_set hc rfl rfl
  · rw [heff]
    exact Keeps.of_calls rfl

theorem calls_handle (hi : Inv s) (hp : s.sessions[n]? = some p) {c : Call} (hc : s.calls[k]? = some c)
    (hagent : c.agentID ≠ p.agentID) : (handle s n p a).calls[k]? = some c := by
  show (effect s p a).calls[k]? = some c
  rcases effect_cases s p a with ⟨u, kind, answer, -, -, heff⟩ | ⟨u, j, hbusy, heff⟩ | ⟨heff, -⟩
  · rw [heff]
    exact hc
  · rw [heff]
    obtain ⟨d, hd, hown⟩ := hi n p u j hp hbusy
    have hne : j ≠ k := by
      rintro rfl
      cases hc.symm.trans hd
      exact hagent hown
    rcases push_spec s j u with h | ⟨c', -, h⟩
    · rw [h]
      exact hc
    rw [h]
    rw [getElem?_set_ne hne]
    exact hc
  · rw [heff]
    exact hc

theorem rows_push (s : State) (k : Nat) (u : Update) : (push s k u).rows = s.rows := by
  rcases push_spec s k u with h | ⟨c, -, h⟩ <;> rw [h]

theorem rows_handle (id : String) : (handle s n p a).rows.find id = s.rows.find id ↔
    ∀ u kind answer, p.busy = some (u, .recording kind) → a = .record answer → answer.applied = true →
      u.commandID = id → ∃ r, s.rows.find id = some r ∧ r.state = stateName u.state ∧ r.error = strPtr u.error := by
  show (effect s p a).rows.find id = s.rows.find id ↔ _
  rcases effect_cases s p a with ⟨u, kind, answer, hbusy, rfl, heff⟩ | ⟨u, j, hbusy, heff⟩ | ⟨heff, hno⟩
  · rw [heff]
    by_cases hrec : answer.applied = true ∧ u.commandID = id
    · obtain ⟨happlied, rfl⟩ := hrec
      rw [if_pos happlied]
      constructor
      · intro h u' kind' answer' hbusy' _ _ _
        cases hbusy.symm.trans hbusy'
        exact (find_upsert_eq_iff (resultRow p.agentID kind u) s.rows).1 h
      · intro h
        exact (find_upsert_eq_iff (resultRow p.agentID kind u) s.rows).2 (h u kind answer hbusy rfl happlied rfl)
    constructor
    · intro _ u' kind' answer' hbusy' ha happlied hid
      cases hbusy.symm.trans hbusy'
      cases ha
      exact absurd ⟨happlied, hid⟩ hrec
    · intro _
      split
      · rename_i happlied
        rw [find_upsert, if_neg]
        intro hid
        exact hrec ⟨happlied, hid⟩
      · rfl
  · rw [heff, rows_push]
    refine ⟨fun _ u' kind' answer' hbusy' => ?_, fun _ => rfl⟩
    cases hbusy.symm.trans hbusy'
  · rw [heff]
    exact ⟨fun _ u kind answer hbusy ha => absurd ha (hno u kind answer hbusy), fun _ => rfl⟩

theorem agentID_advance (s : State) (p : Session) (a : Act) : (advance s p a).agentID = p.agentID := by
  unfold advance
  split
  · rfl
  · rfl
  · rfl
  · rfl
  · split <;> rfl
  · split <;> rfl
  · rfl

theorem sending_advance {u : Update} (h : (advance s p a).busy = some (u, .sending k)) :
    p.busy = some (u, .sending k) ∨ target s p.agentID u.commandID = some k := by
  unfold advance at h
  split at h
  · rename_i u' hbusy
    have hphase := congrArg Prod.snd (Option.some.inj h)
    simp only [deliver] at hphase
    split at hphase
    · split at hphase <;> cases hphase
    · cases hphase
  · rename_i u' kind err hbusy
    have hphase := congrArg Prod.snd (Option.some.inj h)
    cases err <;> cases hphase
  · cases h
  · rename_i u' hbusy
    obtain ⟨j, hj, heq⟩ := Option.map_eq_some_iff.1 h
    cases heq
    exact .inr hj
  · split at h
    · cases h
    · exact .inl h
  · split at h
    · cases h
    · exact .inl h
  · exact .inl h

theorem sessions_handle {m : Nat} {q : Session} (hp : s.sessions[n]? = some p)
    (hq : (handle s n p a).sessions[m]? = some q) : s.sessions[m]? = some q ∨ m = n ∧ q = advance s p a := by
  have hsame : (effect s p a).sessions = s.sessions := by
    rcases effect_cases s p a with ⟨u, kind, answer, -, -, heff⟩ | ⟨u, j, -, heff⟩ | ⟨heff, -⟩
    · rw [heff]
    · rw [heff]
      rcases push_spec s j u with h | ⟨c, -, h⟩ <;> rw [h]
    · rw [heff]
  have hset : ((effect s p a).sessions.set n (advance s p a))[m]? = some q := hq
  rw [hsame] at hset
  by_cases hm : n = m
  · subst hm
    rw [getElem?_set_self (List.getElem?_eq_some_iff.1 hp).1] at hset
    exact .inr ⟨rfl, (Option.some.inj hset).symm⟩
  · rw [getElem?_set_ne hm] at hset
    exact .inl hset

theorem inv_of_keeps {s s' : State} (hi : Inv s) (hkeep : Keeps s s') (hsessions : s'.sessions = s.sessions) :
    Inv s' := by
  intro n p u k hp hbusy
  rw [hsessions] at hp
  obtain ⟨c, hc, hagent⟩ := hi n p u k hp hbusy
  obtain ⟨c', hc', hagent'⟩ := hkeep k c hc
  exact ⟨c', hc', hagent'.trans hagent⟩

theorem inv_handle (hi : Inv s) (hp : s.sessions[n]? = some p) : Inv (handle s n p a) := by
  intro m q u k hq hbusy
  have howned : ∃ c, s.calls[k]? = some c ∧ c.agentID = q.agentID := by
    rcases sessions_handle hp hq with hold | ⟨rfl, rfl⟩
    · exact hi m q u k hold hbusy
    rw [agentID_advance]
    rcases sending_advance hbusy with hsending | htarget
    · exact hi m p u k hp hsending
    · exact target_spec htarget
  obtain ⟨c, hc, hagent⟩ := howned
  obtain ⟨c', hc', hagent'⟩ := keeps_effect (p := p) (a := a) k c hc
  exact ⟨c', hc', hagent'.trans hagent⟩

theorem keeps_finish {c : Call} (hc : s.calls[k]? = some c) (c' : Call) (hagent : c'.agentID = c.agentID) (r : Option Update) :
    Keeps s (finish s k c' r) := Keeps.of_set hc rfl hagent

/-- Every event of the calls and of the sessions. -/
theorem inv_step (s : State) (e : Event) (hi : Inv s) : Inv (step s e) := by
  cases e with
  | dispatch agentID commandID kind status =>
    show Inv (if status = some "active" ∧ commandID ≠ "" then _ else s)
    split
    · apply inv_of_keeps hi
      · intro k c hc
        refine ⟨c, ?_, rfl⟩
        show (s.calls ++ _)[k]? = some c
        rw [getElem?_append_left (List.getElem?_eq_some_iff.1 hc).1]
        exact hc
      · rfl
    · exact hi
  | recordDispatched k answer =>
    cases hc : s.calls[k]? with
    | none => simpa only [step, hc] using hi
    | some c =>
      simp only [step, hc]
      unfold recordDispatched
      split
      · exact hi
      · exact inv_of_keeps hi (Keeps.of_set hc rfl rfl) rfl
  | take k =>
    cases hc : s.calls[k]? with
    | none => simpa only [step, hc] using hi
    | some c =>
      simp only [step, hc]
      unfold take
      split
      · rename_i u rest _ _ _
        split
        · apply inv_of_keeps hi
          · exact keeps_finish hc {c with updates := rest, progress := c.progress ++ [u]} rfl (some u)
          · rfl
        · exact inv_of_keeps hi (Keeps.of_set hc rfl rfl) rfl
      · exact hi
  | cancel k =>
    cases hc : s.calls[k]? with
    | none => simpa only [step, hc] using hi
    | some c =>
      simp only [step, hc]
      split
      · exact inv_of_keeps hi (keeps_finish hc c rfl none) rfl
      · exact hi
  | connect agentID =>
    intro n p u k hp hbusy
    have hp' : (s.sessions ++ [⟨agentID, none, []⟩])[n]? = some p := hp
    by_cases hn : n < s.sessions.length
    · rw [getElem?_append_left hn] at hp'
      exact hi n p u k hp' hbusy
    rw [getElem?_append_right (Nat.le_of_not_lt hn)] at hp'
    rw [mem_singleton.1 (mem_of_getElem? hp')] at hbusy
    cases hbusy
  | session n a =>
    cases hp : s.sessions[n]? with
    | none => simpa only [step, hp] using hi
    | some p =>
      simp only [step, hp]
      exact inv_handle hi hp

theorem unharmed_iff (hi : Inv s) : Unharmed es s e ↔ Respects es s e := by
  constructor
  · intro h n answer p u kind he hp hbusy happlied agentID hdisp hother
    have hrows := (h n (.record answer) p he hp).2 agentID u.commandID hdisp hother
    rw [he] at hrows
    simp only [step, hp] at hrows
    exact (rows_handle u.commandID).1 hrows u kind answer hbusy rfl happlied rfl
  · intro h n a p he hp
    subst he
    simp only [step, hp]
    refine ⟨fun k c hc hother => calls_handle hi hp hc hother, fun agentID id hdisp hother => ?_⟩
    rw [rows_handle]
    intro u kind answer hbusy ha happlied hid
    subst hid ha
    exact h n answer p u kind rfl hp hbusy happlied agentID hdisp hother

/-- In a run from any rows, no session touches another agent's calls or the rows of commands that
the run dispatches to another agent, if and only if no session records for such a command
anything else than the row has. -/
theorem agents_isolated (rows : Table AgentCommand.commandID) (es : List Event) :
    Along step (Unharmed es) (.new rows) es ↔ Along step (Respects es) (.new rows) es := by
  have h0 : Inv (.new rows) := by
    intro n p u k hp
    cases hp
  exact along_congr h0 inv_step fun s e hi => unharmed_iff hi

def forged : List Event :=
  [.dispatch "a" "c" "quiesce" (some "active"), .recordDispatched 0 .ok, .connect "b",
    .session 0 (.receive ⟨"c", .failed, none, "no", false⟩), .session 0 (.record .ok)]

/-- An agent ends a command that was dispatched to another one. -/
theorem row_forged : ¬ Along step (Unharmed forged) (.new Table.empty) forged := by
  intro h
  have hlast := h.2.2.2.2.1 0 (.record .ok) ⟨"b", some (⟨"c", .failed, none, "no", false⟩, .recording "quiesce"), []⟩
    rfl (by decide)
  have hrow := hlast.2 "a" "c" ⟨by decide, "quiesce", by decide⟩ (by decide)
  exact absurd hrow (by decide)

end Dbr2.Gateway
