import Mathlib.Data.List.Sort
import Dbr2.Lib.Run
import Dbr2.Lib.Table
import Dbr2.Lib.Utf8

/-! Deliveries of notifications (`FanOut`, `SendDue`, `deliver` and `record` in
`internal/notify/dispatch.go`, with their statements in `db/queries/notifications.sql`).

Any number of dispatchers claim due deliveries with a lease, send them, and store what came of it.
What one event does to a row is `stateOf_step`: no row becomes pending again, hence none that is
sent or failed is claimed again. MarkDeliveryFailed does not look at the state, though. -/
namespace Dbr2.Notify
open Lib List
open Lib.Utf8 (Bytes)

inductive DeliveryState
  | pending
  | sent
  | failed
  deriving DecidableEq

/-- A row of `notification_deliveries`. -/
structure Delivery where
  (id notificationID channelID : Nat)
  state : DeliveryState
  attempts : Nat
  /-- In seconds. -/
  nextAttemptAt : Nat
  lastError : Option Bytes
  sentAt : Option Nat
  deriving DecidableEq

structure Channel where
  id : Nat
  enabled : Bool
  lastDeliveryAt : Option Nat
  lastError : Option Bytes
  deriving DecidableEq

structure ClaimedRow where
  (id notificationID channelID attempts : Nat)
  deriving DecidableEq

abbrev Deliveries := Serial Delivery.id

def sendBatch : Nat := 20
def sendWorkers : Nat := 4
def sendLease : Nat := 300
def maxAttempts : Nat := 6

def backoffs : List Nat := [60, 300, 1800, 7200, 21600]

/-- The delay after failed attempt `n`, counted from 1. -/
def backoff (attempt : Nat) : Nat :=
  let attempt := if attempt < 1 then 1 else attempt
  if backoffs.length < attempt then backoffs.getLastD 0 else backoffs.getD (attempt - 1) 0

def truncate (s : Bytes) (n : Nat) : Bytes := if s.length ≤ n then s else s.take n

namespace Deliveries
variable (t : Deliveries)

def stateOf (k : Nat) : Option DeliveryState := (t.find k).map (·.state)

/-- InsertNotificationDelivery. A conflict on notification and channel does nothing. -/
def insertDelivery (now notificationID channelID : Nat) : Deliveries :=
  if t.table.rows.any fun r => r.notificationID == notificationID && r.channelID == channelID then t
  else t.insert (fun id => ⟨id, notificationID, channelID, .pending, 0, now, none, none⟩) fun _ => rfl

def deleteChannel (channelID : Nat) : Deliveries := t.delete (·.channelID == channelID)

/-- Pending, and its next attempt is due. -/
def isDue (now : Nat) (r : Delivery) : Bool := r.state == .pending && decide (r.nextAttemptAt ≤ now)

/-- The rows that ClaimDueDeliveries takes: those due, but for the ones that others have locked,
in the order of the next attempt. -/
def due (now : Nat) (locked : List Nat) : List Delivery :=
  ((t.table.rows.filter fun r => isDue now r && !locked.contains r.id).insertionSort fun a b =>
    a.nextAttemptAt < b.nextAttemptAt ∨ a.nextAttemptAt = b.nextAttemptAt ∧ a.id ≤ b.id).take sendBatch

def claimDueDeliveries (now : Nat) (locked : List Nat) : Deliveries :=
  t.update (fun r => ((t.due now locked).map (·.id)).contains r.id)
    (fun r => {r with attempts := r.attempts + 1, nextAttemptAt := now + sendLease}) fun _ => rfl

def claimed (now : Nat) (locked : List Nat) : List ClaimedRow :=
  (t.due now locked).map fun r => ⟨r.id, r.notificationID, r.channelID, r.attempts + 1⟩

/-- The UPDATE that ends an attempt. -/
inductive Statement
  | markDeliverySent (id : Nat)
  | markDeliveryRetry (id : Nat) (lastError : Bytes) (nextAttemptAt : Nat)
  | markDeliveryFailed (id : Nat) (lastError : Bytes)
  deriving DecidableEq

/-- Only the retry asks for the state. -/
def exec (now : Nat) : Statement → Deliveries
  | .markDeliverySent id =>
    t.update (·.id == id) (fun r => {r with state := .sent, sentAt := some now, lastError := none}) fun _ => rfl
  | .markDeliveryRetry id err next =>
    t.update (fun r => r.id == id && r.state == .pending)
      (fun r => {r with lastError := some err, nextAttemptAt := next}) fun _ => rfl
  | .markDeliveryFailed id err =>
    t.update (·.id == id) (fun r => {r with state := .failed, lastError := some err}) fun _ => rfl

end Deliveries

open Deliveries (Statement)

/-- Where a worker is with its row. -/
inductive Phase
  | loadChannel
  | failDisabled
  | loadNotification
  | sending
  | recording (sendErr : Option Bytes)
  | recordingResult (sendErr : Option Bytes)
  deriving DecidableEq

/-- A call of SendDue: the claimed rows that wait for a worker, and the workers. -/
structure Dispatcher where
  waiting : List ClaimedRow
  workers : List (ClaimedRow × Phase)
  deriving DecidableEq

def Dispatcher.idle : Dispatcher := ⟨[], []⟩

structure State where
  now : Nat
  deliveries : Deliveries
  channels : Table Channel.id
  dispatchers : Nat → Dispatcher

inductive Work
  /-- GetNotificationChannelByID or GetOutboxNotification, and whether it fails. -/
  | load (fails : Bool)
  | send (sendErr : Option Bytes) (cancelled : Bool)
  | write (answer : Answer) (clock : Nat)
  deriving DecidableEq

inductive Event
  | tick (seconds : Nat)
  | fanOut (wanted : List (Nat × Nat))
  | putChannel (id : Nat) (enabled : Bool)
  | deleteChannel (id : Nat)
  | claim (d : Nat) (locked : List Nat) (answer : Answer)
  | start (d : Nat)
  | work (d i : Nat) (w : Work)
  | crash (d : Nat)
  deriving DecidableEq

def channelDisabled : Bytes :=
  [0x63, 0x68, 0x61, 0x6e, 0x6e, 0x65, 0x6c, 0x20, 0x64, 0x69, 0x73, 0x61, 0x62, 0x6c, 0x65, 0x64]

def recordStatement (d : ClaimedRow) (clock : Nat) : Option Bytes → Statement
  | none => .markDeliverySent d.id
  | some err =>
    if maxAttempts ≤ d.attempts then .markDeliveryFailed d.id (truncate err 1000)
    else .markDeliveryRetry d.id (truncate err 1000) (clock + backoff d.attempts)

def recordChannelResult (now id : Nat) (sendErr : Option Bytes) (t : Table Channel.id) : Table Channel.id :=
  t.update (·.id == id) (fun c => {c with
      lastDeliveryAt := if sendErr = none then some now else c.lastDeliveryAt
      lastError := sendErr.map (truncate · 1000)}) fun _ => rfl

def write (s : State) (d : ClaimedRow) (clock : Nat) (ph : Phase) : State :=
  match ph with
  | .failDisabled => {s with deliveries := s.deliveries.exec s.now (.markDeliveryFailed d.id channelDisabled)}
  | .recording sendErr => {s with deliveries := s.deliveries.exec s.now (recordStatement d clock sendErr)}
  | .recordingResult sendErr => {s with channels := recordChannelResult s.now d.channelID sendErr s.channels}
  | _ => s

def effect (s : State) (d : ClaimedRow) (ph : Phase) : Work → State
  | .write answer clock => if answer.applied then write s d clock ph else s
  | _ => s

/-- Where `deliver` goes on; it has returned if there is no phase. -/
def continuation (s : State) (d : ClaimedRow) : Phase → Work → Option Phase
  | .loadChannel, .load fails =>
    if fails then none
    else (s.channels.find d.channelID).map fun c => if c.enabled then .loadNotification else .failDisabled
  | .failDisabled, .write _ _ => none
  | .loadNotification, .load fails => if fails then none else some .sending
  | .sending, .send sendErr cancelled => if cancelled then none else some (.recording sendErr)
  | .recording sendErr, .write answer _ => if answer = .ok then some (.recordingResult sendErr) else none
  | .recordingResult _, .write _ _ => none
  | ph, _ => some ph

def fits : Phase → Work → Bool
  | .loadChannel, .load _ | .loadNotification, .load _ | .sending, .send _ _ => true
  | .failDisabled, .write _ _ | .recording _, .write _ _ | .recordingResult _, .write _ _ => true
  | _, _ => false

def Dispatcher.proceed (p : Dispatcher) (i : Nat) (d : ClaimedRow) : Option Phase → Dispatcher
  | some ph => {p with workers := p.workers.set i (d, ph)}
  | none => {p with workers := p.workers.eraseIdx i}

def State.setDispatcher (s : State) (d : Nat) (p : Dispatcher) : State :=
  {s with dispatchers := Function.update s.dispatchers d p}

def fanOut (s : State) (wanted : List (Nat × Nat)) : State :=
  if wanted.all fun w => (s.channels.find w.2).isSome then
    {s with deliveries := wanted.foldl (fun t w => t.insertDelivery s.now w.1 w.2) s.deliveries}
  else s

def putChannel (s : State) (id : Nat) (enabled : Bool) : State :=
  {s with channels :=
    (s.channels.insert ⟨id, enabled, none, none⟩).update (·.id == id) (fun c => {c with enabled := enabled}) fun _ => rfl}

/-- SendDue runs its statement when the dispatcher has nothing left of the batch before. -/
def claim (s : State) (d : Nat) (locked : List Nat) (answer : Answer) : State :=
  if s.dispatchers d = .idle ∧ answer.applied then
    let s' := {s with deliveries := s.deliveries.claimDueDeliveries s.now locked}
    if answer = .ok then s'.setDispatcher d ⟨s.deliveries.claimed s.now locked, []⟩ else s'
  else s

def start (s : State) (d : Nat) : State :=
  match (s.dispatchers d).waiting with
  | [] => s
  | c :: rest =>
    if (s.dispatchers d).workers.length < sendWorkers then
      s.setDispatcher d ⟨rest, (s.dispatchers d).workers ++ [(c, .loadChannel)]⟩
    else s

def work (s : State) (d i : Nat) (w : Work) : State :=
  match (s.dispatchers d).workers[i]? with
  | none => s
  | some (c, ph) =>
    if fits ph w then
      (effect s c ph w).setDispatcher d ((s.dispatchers d).proceed i c (continuation s c ph w))
    else s

/-- One event of the interleaving. -/
def step (s : State) : Event → State
  | .tick seconds => {s with now := s.now + seconds}
  | .fanOut wanted => fanOut s wanted
  | .putChannel id enabled => putChannel s id enabled
  | .deleteChannel id =>
    {s with channels := s.channels.delete (·.id == id), deliveries := s.deliveries.deleteChannel id}
  | .claim d locked answer => claim s d locked answer
  | .start d => start s d
  | .work d i w => work s d i w
  | .crash d => s.setDispatcher d .idle

def State.stateOf (s : State) (k : Nat) : Option DeliveryState := s.deliveries.stateOf k

def claims (s : State) : Event → List Nat
  | .claim d locked answer =>
    if s.dispatchers d = .idle ∧ answer.applied then (s.deliveries.due s.now locked).map (·.id) else []
  | _ => []

def Phase.statement (d : ClaimedRow) (clock : Nat) : Phase → Option Statement
  | .failDisabled => some (.markDeliveryFailed d.id channelDisabled)
  | .recording sendErr => some (recordStatement d clock sendErr)
  | _ => none

def executed (s : State) : Event → Option Statement
  | .work d i (.write answer clock) =>
    match (s.dispatchers d).workers[i]? with
    | some (c, ph) => if answer.applied then ph.statement c clock else none
    | none => none
  | _ => none

def Fails (s : State) (e : Event) (k : Nat) : Prop :=
  ∃ err, executed s e = some (.markDeliveryFailed k err)

/-- Once a delivery is sent it stays so, as long as its channel exists, and is not claimed;
nor is one that has failed. -/
def StaysDelivered (s : State) (es : List Event) : Prop :=
  ∀ es₁ es₂ k, es = es₁ ++ es₂ → ((run step s es₁).stateOf k = some .sent → Along step (fun s e => k ∉ claims s e ∧
        ((step s e).stateOf k = some .sent ∨ (step s e).stateOf k = none)) (run step s es₁) es₂) ∧
    ((run step s es₁).stateOf k = some .failed → Along step (fun s e => k ∉ claims s e) (run step s es₁) es₂)

namespace Deliveries
variable {t : Deliveries} {k : Nat} (now : Nat)

theorem lt_of_stateOf {st : DeliveryState} (h : stateOf t k = some st) : k < t.next := by
  obtain ⟨r, hr, -⟩ := Option.map_eq_some_iff.1 h
  exact Serial.lt_of_find hr

theorem stateOf_update (p : Delivery → Bool) (f : Delivery → Delivery) (hf : ∀ r, (f r).id = r.id)
    (hstate : ∀ r, (f r).state = r.state) : stateOf (t.update p f hf) k = stateOf t k := by
  unfold stateOf
  rw [Serial.find_update, Option.map_map]
  congr 1
  funext r
  show (if p r then f r else r).state = r.state
  split
  · exact hstate r
  · rfl

theorem stateOf_set (id : Nat) (f : Delivery → Delivery) (hf : ∀ r, (f r).id = r.id) {st : DeliveryState}
    (hstate : ∀ r, (f r).state = st) :
    stateOf (t.update (·.id == id) f hf) k = if k = id then (t.stateOf k).map fun _ => st else t.stateOf k := by
  unfold stateOf
  rw [Serial.find_update]
  cases hr : t.find k with
  | none => simp
  | some r =>
    have hid := (Serial.find_eq_some_iff.1 hr).2
    by_cases hk : k = id
    · subst hk
      simp [hid, hstate]
    · simp [hid, hk]

theorem stateOf_exec_sent (id : Nat) : (t.exec now (.markDeliverySent id)).stateOf k =
      if k = id then (t.stateOf k).map fun _ => .sent else t.stateOf k :=
  stateOf_set id _ _ fun _ => rfl

theorem stateOf_exec_failed (id : Nat) (err : Bytes) : (t.exec now (.markDeliveryFailed id err)).stateOf k =
      if k = id then (t.stateOf k).map fun _ => .failed else t.stateOf k :=
  stateOf_set id _ _ fun _ => rfl

theorem stateOf_exec (st : Statement) :
    (t.exec now st).stateOf k = t.stateOf k ∨ (t.exec now st).stateOf k = some .sent ∨
      (∃ err, st = .markDeliveryFailed k err) ∧ (t.exec now st).stateOf k = some .failed := by
  cases hs : t.stateOf k with
  | none =>
    left
    cases st with
    | markDeliverySent id => rw [stateOf_exec_sent, hs, Option.map_none, ite_self]
    | markDeliveryRetry id err next => rw [← hs]; exact stateOf_update _ _ _ fun _ => rfl
    | markDeliveryFailed id err => rw [stateOf_exec_failed, hs, Option.map_none, ite_self]
  | some old =>
    cases st with
    | markDeliverySent id =>
      rw [stateOf_exec_sent, hs]
      by_cases hk : k = id
      · exact .inr (.inl (if_pos hk))
      · exact .inl (if_neg hk)
    | markDeliveryRetry id err next =>
      left
      rw [← hs]
      exact stateOf_update _ _ _ fun _ => rfl
    | markDeliveryFailed id err =>
      rw [stateOf_exec_failed, hs]
      by_cases hk : k = id
      · exact .inr (.inr ⟨⟨err, by rw [hk]⟩, if_pos hk⟩)
      · exact .inl (if_neg hk)

theorem next_exec (st : Statement) : (t.exec now st).next = t.next := by
  cases st <;> rfl

theorem stateOf_deleteChannel (channelID : Nat) :
    (t.deleteChannel channelID).stateOf k = t.stateOf k ∨ (t.deleteChannel channelID).stateOf k = none := by
  unfold stateOf deleteChannel
  rw [Serial.find_delete]
  cases t.find k with
  | none => exact .inl rfl
  | some r =>
    rw [Option.filter_some]
    split
    · exact .inl rfl
    · exact .inr rfl

theorem insert_spec (n c : Nat) : t.next ≤ (t.insertDelivery now n c).next ∧
    ∀ k, k < t.next → (t.insertDelivery now n c).stateOf k = t.stateOf k := by
  unfold insertDelivery
  split
  · exact ⟨Nat.le_refl _, fun _ _ => rfl⟩
  refine ⟨Nat.le_succ _, fun k hk => ?_⟩
  unfold stateOf
  rw [Serial.find_insert, if_neg (Nat.ne_of_lt hk)]

theorem insertAll_spec (wanted : List (Nat × Nat)) :
    t.next ≤ (wanted.foldl (fun t w => t.insertDelivery now w.1 w.2) t).next ∧
    ∀ k, k < t.next → (wanted.foldl (fun t w => t.insertDelivery now w.1 w.2) t).stateOf k = t.stateOf k := by
  induction wanted generalizing t with
  | nil => exact ⟨Nat.le_refl _, fun _ _ => rfl⟩
  | cons w wanted ih =>
    obtain ⟨hnext, hsame⟩ := insert_spec now w.1 w.2
    obtain ⟨hnext', hsame'⟩ := ih (t := t.insertDelivery now w.1 w.2)
    refine ⟨hnext.trans hnext', fun k hk => ?_⟩
    rw [foldl_cons, hsame' k (Nat.lt_of_lt_of_le hk hnext), hsame k hk]

theorem stateOf_due {locked : List Nat} (h : k ∈ (t.due now locked).map (·.id)) : t.stateOf k = some .pending := by
  obtain ⟨r, hr, rfl⟩ := mem_map.1 h
  have hmem := (mem_insertionSort _).1 (mem_of_mem_take hr)
  obtain ⟨hrow, hdue⟩ := mem_filter.1 hmem
  have hpending : r.state = .pending := by
    simp only [isDue, Bool.and_eq_true, beq_iff_eq] at hdue
    exact hdue.1.1
  unfold stateOf
  rw [show t.find r.id = some r from Serial.find_eq_some_iff.2 ⟨hrow, rfl⟩, Option.map_some, hpending]

end Deliveries

variable {s : State} {e : Event} {es : List Event} {k : Nat}

theorem write_deliveries {c : ClaimedRow} {ph : Phase} (answer : Answer) {clock : Nat} {st : Statement}
    (h : ph.statement c clock = some st) :
    fits ph (.write answer clock) = true ∧ (write s c clock ph).deliveries = s.deliveries.exec s.now st := by
  cases ph with
  | failDisabled | recording _ =>
    cases h
    exact ⟨rfl, rfl⟩
  | _ => cases h

theorem write_same {c : ClaimedRow} {ph : Phase} {clock : Nat} (h : ph.statement c clock = none) :
    (write s c clock ph).deliveries = s.deliveries := by
  cases ph with
  | failDisabled | recording _ => cases h
  | _ => rfl

theorem deliveries_of_executed {st : Statement} (h : executed s e = some st) :
    (step s e).deliveries = s.deliveries.exec s.now st := by
  cases e with
  | work d i w =>
    cases w with
    | write answer clock =>
      simp only [executed] at h
      show (work s d i (.write answer clock)).deliveries = _
      unfold work
      cases hw : (s.dispatchers d).workers[i]? with
      | none =>
        rw [hw] at h
        cases h
      | some cw =>
        obtain ⟨c, ph⟩ := cw
        simp only [hw] at h
        split at h
        · rename_i ha
          obtain ⟨hfits, hwrite⟩ := write_deliveries (s := s) answer h
          show (if fits ph (.write answer clock) then _ else s).deliveries = _
          rw [if_pos hfits]
          show (if answer.applied then write s c clock ph else s).deliveries = _
          rw [if_pos ha, hwrite]
        · cases h
    | _ => cases h
  | _ => cases h

theorem deliveries_work (d i : Nat) (w : Work) (h : executed s (.work d i w) = none) :
    (work s d i w).deliveries = s.deliveries := by
  unfold work
  cases hw : (s.dispatchers d).workers[i]? with
  | none => rfl
  | some cw =>
    obtain ⟨c, ph⟩ := cw
    show (if fits ph w then _ else s).deliveries = _
    split
    · show (effect s c ph w).deliveries = s.deliveries
      cases w with
      | write answer clock =>
        show (if answer.applied then write s c clock ph else s).deliveries = s.deliveries
        simp only [executed, hw] at h
        split
        · rename_i ha
          rw [if_pos ha] at h
          exact write_same h
        · rfl
      | _ => rfl
    · rfl

theorem deliveries_claim (d : Nat) (locked : List Nat) (answer : Answer) :
    (claim s d locked answer).deliveries = s.deliveries ∨
      (claim s d locked answer).deliveries = s.deliveries.claimDueDeliveries s.now locked := by
  unfold claim
  split
  · right
    split <;> rfl
  · exact .inl rfl

/-- A row keeps its state, or is deleted, sent or failed. -/
theorem stateOf_step (hk : k < s.deliveries.next) :
    (step s e).stateOf k = s.stateOf k ∨ (step s e).stateOf k = none ∨ (step s e).stateOf k = some .sent ∨
      Fails s e k ∧ (step s e).stateOf k = some .failed := by
  show (step s e).deliveries.stateOf k = s.deliveries.stateOf k ∨ (step s e).deliveries.stateOf k = none ∨
    (step s e).deliveries.stateOf k = some .sent ∨ Fails s e k ∧ (step s e).deliveries.stateOf k = some .failed
  cases hx : executed s e with
  | some st =>
    rw [deliveries_of_executed hx]
    rcases Deliveries.stateOf_exec (t := s.deliveries) (k := k) s.now st with h | h | ⟨⟨err, rfl⟩, h⟩
    · exact .inl h
    · exact .inr (.inr (.inl h))
    · exact .inr (.inr (.inr ⟨⟨err, hx⟩, h⟩))
  | none =>
    cases e with
    | tick seconds | putChannel id enabled | crash d => exact .inl rfl
    | fanOut wanted =>
      left
      show (fanOut s wanted).deliveries.stateOf k = _
      unfold fanOut
      split
      · exact (Deliveries.insertAll_spec s.now wanted).2 k hk
      · rfl
    | deleteChannel id =>
      rcases Deliveries.stateOf_deleteChannel (t := s.deliveries) (k := k) id with h | h
      · exact .inl h
      · exact .inr (.inl h)
    | claim d locked answer =>
      left
      show (claim s d locked answer).deliveries.stateOf k = _
      rcases deliveries_claim (s := s) d locked answer with h | h
      · rw [h]
      · rw [h]
        exact Deliveries.stateOf_update _ _ _ fun _ => rfl
    | start d =>
      left
      show (start s d).deliveries.stateOf k = _
      unfold start
      split
      · rfl
      · split <;> rfl
    | work d i w =>
      left
      show (work s d i w).deliveries.stateOf k = _
      rw [deliveries_work d i w hx]

theorem next_step (s : State) (e : Event) : s.deliveries.next ≤ (step s e).deliveries.next := by
  cases hx : executed s e with
  | some st => rw [deliveries_of_executed hx, Deliveries.next_exec]
  | none =>
    cases e with
    | tick seconds | putChannel id enabled | crash d | deleteChannel id => exact Nat.le_refl _
    | fanOut wanted =>
      show _ ≤ (fanOut s wanted).deliveries.next
      unfold fanOut
      split
      · exact (Deliveries.insertAll_spec s.now wanted).1
      · exact Nat.le_refl _
    | claim d locked answer =>
      show _ ≤ (claim s d locked answer).deliveries.next
      rcases deliveries_claim (s := s) d locked answer with h | h
      · rw [h]
      · rw [h]
        exact Nat.le_refl _
    | start d =>
      show _ ≤ (start s d).deliveries.next
      unfold start
      split
      · exact Nat.le_refl _
      · split <;> exact Nat.le_refl _
    | work d i w =>
      show _ ≤ (work s d i w).deliveries.next
      rw [deliveries_work d i w hx]

/-- The row was there, and is not pending any more. -/
structure Settled (k : Nat) (s : State) : Prop where
  used : k < s.deliveries.next
  decided : s.stateOf k ≠ some .pending

theorem settled_of_stateOf {st : DeliveryState} (h : s.stateOf k = some st) (hst : st ≠ .pending) : Settled k s :=
  ⟨Deliveries.lt_of_stateOf h, fun hp => hst (Option.some.inj (h.symm.trans hp))⟩

/-- No statement makes a row pending again. -/
theorem settled_step (h : Settled k s) : Settled k (step s e) := by
  refine ⟨Nat.lt_of_lt_of_le h.used (next_step s e), ?_⟩
  rcases stateOf_step (e := e) h.used with hs | hs | hs | ⟨-, hs⟩
  · rw [hs]
    exact h.decided
  all_goals
    rw [hs]
    simp

theorem not_claimed (h : Settled k s) : k ∉ claims s e := by
  intro hk
  cases e with
  | claim d locked answer =>
    simp only [claims] at hk
    split at hk
    · exact h.decided (Deliveries.stateOf_due s.now hk)
    · cases hk
  | _ => cases hk

theorem settled_final (h : Settled k s) (es : List Event) : Along step (fun s e => k ∉ claims s e) s es := by
  have hall : Along step (fun _ _ => True) s es := along_of_forall (fun _ _ => trivial) s
  exact hall.imp h (fun s e hs _ => settled_step hs) fun s e hs _ => not_claimed hs

structure Delivered (k : Nat) (s : State) : Prop where
  settled : Settled k s
  sent : s.stateOf k = some .sent ∨ s.stateOf k = none

theorem delivered_step (h : Delivered k s) (he : ∀ k, Fails s e k → s.stateOf k ≠ some .sent) :
    (step s e).stateOf k = some .sent ∨ (step s e).stateOf k = none := by
  rcases stateOf_step (e := e) h.settled.used with hs | hs | hs | ⟨hfails, hs⟩
  · rw [hs]
    exact h.sent
  · exact .inr hs
  · exact .inl hs
  · rcases h.sent with hsent | hgone
    · exact absurd hsent (he k hfails)
    obtain ⟨err, hx⟩ := hfails
    have hdel := deliveries_of_executed hx
    right
    show (step s e).deliveries.stateOf k = none
    rw [hdel, Deliveries.stateOf_exec_failed, if_pos rfl, show s.deliveries.stateOf k = none from hgone]
    rfl

theorem stateOf_of_fails (h : Fails s e k) (hsent : s.stateOf k = some .sent) :
    (step s e).stateOf k = some .failed := by
  obtain ⟨err, hx⟩ := h
  show (step s e).deliveries.stateOf k = some .failed
  rw [deliveries_of_executed hx, Deliveries.stateOf_exec_failed, if_pos rfl,
    show s.deliveries.stateOf k = some .sent from hsent]
  rfl

theorem stays_of_guarded (h : Along step (fun s e => ∀ k, Fails s e k → s.stateOf k ≠ some .sent) s es) :
    StaysDelivered s es := by
  intro es₁ es₂ k hes
  rw [hes, along_append] at h
  refine ⟨fun hsent => ?_, fun hfailed => settled_final (settled_of_stateOf hfailed (by decide)) es₂⟩
  have h0 : Delivered k (run step s es₁) := ⟨settled_of_stateOf hsent (by decide), .inl hsent⟩
  exact h.2.imp h0 (fun s e hs he => ⟨settled_step hs.settled, delivered_step hs he⟩)
    fun s e hs he => ⟨not_claimed hs.settled, delivered_step hs he⟩

theorem guarded_of_stays (h : StaysDelivered s es) :
    Along step (fun s e => ∀ k, Fails s e k → s.stateOf k ≠ some .sent) s es := by
  induction es generalizing s with
  | nil => trivial
  | cons e es ih =>
    refine ⟨fun k hfails hsent => ?_, ih fun es₁ es₂ k hes => ?_⟩
    · have hstay : (step s e).stateOf k = some .sent ∨ (step s e).stateOf k = none :=
        ((h [] (e :: es) k rfl).1 hsent).1.2
      rcases hstay with hs | hs
      all_goals
        rw [stateOf_of_fails hfails hsent] at hs
        cases hs
    · exact h (e :: es₁) es₂ k (by rw [hes, cons_append])

/-- A delivery stays delivered in a run if and only if MarkDeliveryFailed is executed on none
that is sent. -/
theorem sent_final (s : State) (es : List Event) :
    StaysDelivered s es ↔ Along step (fun s e => ∀ k, Fails s e k → s.stateOf k ≠ some .sent) s es :=
  ⟨guarded_of_stays, stays_of_guarded⟩

def lastAttempt : State where
  now := 0
  deliveries :=
    { table := ⟨[⟨0, 7, 1, .pending, 5, 0, none, none⟩], by decide⟩
      next := 1
      below := by decide }
  channels := ⟨[⟨1, true, none, none⟩], by decide⟩
  dispatchers := fun _ => .idle

/-- Two dispatchers claim the delivery, the second when the lease of the first is over. The second
sends it; then the send of the first fails. -/
def overlapping : List Event :=
  [.claim 0 [] .ok, .start 0, .work 0 0 (.load false), .work 0 0 (.load false), .tick 300,
    .claim 1 [] .ok, .start 1, .work 1 0 (.load false), .work 1 0 (.load false), .work 1 0 (.send none false),
    .work 1 0 (.write .ok 300)]

/-- The first sender fails after the lease, when the second has sent. -/
theorem sent_then_failed : ¬ StaysDelivered lastAttempt
    (overlapping ++ [.work 0 0 (.send (some []) false), .work 0 0 (.write .ok 300)]) := by
  intro h
  have hstay := (h overlapping _ 0 rfl).1 (by decide)
  exact absurd hstay (by decide)

end Dbr2.Notify
