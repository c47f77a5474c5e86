import Mathlib.Data.List.Range
import Dbr2.Lib.KeyedRows
import Dbr2.Lib.Run
import Dbr2.Notify.Match

/-! Presence alerts (`CheckAgents` and `raiseOnce` in `internal/notify/dispatch.go`, with their
statements in `db/queries/notifications.sql`).

Any number of checkers, on any number of servers, list the active agents, and look at each listed
row with a clock and a connection state of their own. One that finds an agent gone, or back, raises
an alert in a transaction that first sets or clears `offline_alerted_at`, under the condition that
it is not set, or set. The condition is decided on the committed row, which stays locked until the
alert is committed with it. -/
namespace Dbr2.Notify.Presence
open Lib List
open Lib.GoPath (Text)

/-- Nanoseconds. -/
abbrev Time := Int

def minute : Time := 60000000000

/-- The columns of an agent's row that CheckAgents reads or writes. -/
structure Columns where
  active : Bool
  lastSeenAt : Option Time
  statusChangedAt : Time
  offlineAlertedAt : Option Time
  deriving DecidableEq

structure AgentData where
  orgID : Nat
  hostname : String
  deriving DecidableEq

abbrev Agent := KeyedRow AgentData Columns

/-- A row as CheckAgents has listed it. -/
structure Listed where
  (id orgID : Nat)
  hostname : String
  (lastSeenAt offlineAlertedAt : Option Time)
  lastActivity : Time
  deriving DecidableEq

def listed (a : Agent) : Listed :=
  let c := a.row.committed
  ⟨a.id, a.data.orgID, a.data.hostname, c.lastSeenAt, c.offlineAlertedAt,
    max (c.lastSeenAt.getD c.statusChangedAt) c.statusChangedAt⟩

inductive AlertType
  | agentOffline
  | agentOnline
  deriving DecidableEq

inductive AuditResult
  | success
  | failure
  deriving DecidableEq

structure Alert where
  orgID : Nat
  severity : Text
  type : AlertType
  targetID : Nat
  message : String
  auditResult : AuditResult
  deriving DecidableEq

/-- To whole minutes, half a minute away from zero. -/
def roundMinutes (d : Time) : Int :=
  if 0 ≤ d then (d + minute / 2) / minute else -((-d + minute / 2) / minute)

/-- `time.Duration.String` of whole minutes. -/
def durationText (minutes : Int) : String :=
  let m := minutes.natAbs
  let sign := if minutes < 0 then "-" else ""
  if m = 0 then "0s"
  else if m < 60 then sign ++ toString m ++ "m0s"
  else sign ++ toString (m / 60) ++ "h" ++ toString (m % 60) ++ "m0s"

/-- What CheckAgents decides about one agent. -/
def check (offlineAfter now : Time) (connected : Bool) (r : Listed) : Option Alert :=
  if r.offlineAlertedAt.isNone && !connected && decide (offlineAfter < now - r.lastActivity) then
    some ⟨r.orgID, severityWarning, .agentOffline, r.id, "Agent " ++ r.hostname ++ " is offline (no contact for " ++
        durationText (roundMinutes (now - r.lastActivity)) ++ ")", .failure⟩
  else if r.offlineAlertedAt.any fun since => connected || r.lastSeenAt.any (decide <| since < ·) then
    some ⟨r.orgID, severityInfo, .agentOnline, r.id, "Agent " ++ r.hostname ++ " is back online", .success⟩
  else none

/-- The WHERE clauses of MarkAgentOfflineAlerted and ClearAgentOfflineAlerted. -/
def AlertType.wins (c : Columns) : AlertType → Bool
  | .agentOffline => c.offlineAlertedAt.isNone
  | .agentOnline => c.offlineAlertedAt.isSome

def AlertType.set (now : Time) (c : Columns) : AlertType → Columns
  | .agentOffline => {c with offlineAlertedAt := some now}
  | .agentOnline => {c with offlineAlertedAt := none}

/-- Where a call of CheckAgents is with an alert. -/
inductive Stage
  | looping
  | claiming (a : Alert)
  | claimed (a : Alert)
  | inserted (a : Alert) (id : Nat)
  deriving DecidableEq

def Stage.held : Stage → Option Alert
  | .claimed a | .inserted a _ => some a
  | _ => none

/-- A call of CheckAgents: its clock, the rows still to look at, and its transaction. -/
structure Checker where
  (offlineAfter now : Time)
  rows : List Listed
  stage : Stage
  deriving DecidableEq

structure Notification where
  id : Nat
  alert : Alert
  deriving DecidableEq

structure State where
  agents : KeyedRows AgentData Columns
  /-- The calls of CheckAgents that are under way; their numbers are those of their
  transactions. -/
  checkers : Nat → Option Checker
  outbox : List Notification
  nextID : Nat

namespace State

def init : State := ⟨Table.empty, fun _ => none, [], 1⟩

variable (s : State)

def row (id : Nat) : Option (Row Columns) := s.agents.row id

def setRow (id : Nat) (f : Row Columns → Row Columns) : State := {s with agents := s.agents.setRow id f}

def stage (k : Nat) : Option Stage := (s.checkers k).map (·.stage)

def setStage (k : Nat) (stage : Stage) : State :=
  {s with checkers := Function.update s.checkers k ((s.checkers k).map ({· with stage := stage}))}

def post (n : Notification) : State := {s with outbox := s.outbox ++ [n]}

def alerts (id : Nat) : List Notification := s.outbox.filter (·.alert.targetID == id)

def types (id : Nat) : List AlertType := (s.alerts id).map (·.alert.type)

end State

/-- One statement, of CheckAgents or of anybody else. -/
inductive Event
  | enroll (id orgID : Nat) (hostname : String) (now : Time)
  /-- Any other statement on the row of an agent. -/
  | touch (id : Nat) (active : Bool) (lastSeenAt : Option Time) (statusChangedAt : Time)
  | list (k : Nat) (offlineAfter now : Time)
  /-- It looks at one of them; the order of the list is the database's. -/
  | look (k id : Nat) (connected : Bool)
  | claim (k : Nat) (now : Time)
  | insert (k : Nat)
  | commit (k : Nat)
  | rollback (k : Nat)
  | stop (k : Nat)
  deriving DecidableEq

namespace State
variable (s : State)

def enroll (id orgID : Nat) (hostname : String) (now : Time) : State :=
  {s with agents := s.agents.enter id ⟨orgID, hostname⟩ ⟨false, none, now, none⟩}

/-- It waits while the row is locked. -/
def touch (id : Nat) (active : Bool) (lastSeenAt : Option Time) (statusChangedAt : Time) : State :=
  s.setRow id fun r =>
    if r.writer.isNone then
      Row.ofValue {r.committed with active := active, lastSeenAt := lastSeenAt, statusChangedAt := statusChangedAt}
    else r

def list (k : Nat) (offlineAfter now : Time) : State :=
  match s.checkers k with
  | none =>
    let rows := (s.agents.rows.filter (·.row.committed.active)).map listed
    {s with checkers := Function.update s.checkers k (some ⟨offlineAfter, now, rows, .looping⟩)}
  | some _ => s

def look (k id : Nat) (connected : Bool) : State :=
  match s.checkers k with
  | some ⟨offlineAfter, now, rows, .looping⟩ =>
    match rows.find? (·.id == id) with
    | some r =>
      let stage := ((check offlineAfter now connected r).map Stage.claiming).getD .looping
      {s with checkers := Function.update s.checkers k (some ⟨offlineAfter, now, rows.erase r, stage⟩)}
    | none => s
  | _ => s

/-- The conditional update of raiseOnce. If it changes no row, the transaction ends. -/
def claim (k : Nat) (now : Time) : State :=
  match s.stage k with
  | some (.claiming a) =>
    match s.row a.targetID with
    | some r =>
      if r.free k then
        if a.type.wins (r.seen k) then
          (s.setRow a.targetID fun r => ⟨r.committed, some (k, a.type.set now (r.seen k))⟩).setStage k (.claimed a)
        else s.setStage k .looping
      else s
    | none => s.setStage k .looping
  | _ => s

def insert (k : Nat) : State :=
  match s.stage k with
  | some (.claimed a) => {s with nextID := s.nextID + 1}.setStage k (.inserted a s.nextID)
  | _ => s

/-- The flag and the notification become visible together. -/
def commit (k : Nat) : State :=
  match s.stage k with
  | some (.inserted a id) =>
    ((s.setRow a.targetID (·.commit k)).post ⟨id, a⟩).setStage k .looping
  | _ => s

/-- The row lock of the transaction is given back. -/
def release (k : Nat) : State :=
  match (s.stage k).bind Stage.held with
  | some a => s.setRow a.targetID (·.rollback k)
  | none => s

def rollback (k : Nat) : State := (s.release k).setStage k .looping

def stop (k : Nat) : State := {s.release k with checkers := Function.update s.checkers k none}

def step (s : State) : Event → State
  | .enroll id orgID hostname now => s.enroll id orgID hostname now
  | .touch id active lastSeenAt statusChangedAt => s.touch id active lastSeenAt statusChangedAt
  | .list k offlineAfter now => s.list k offlineAfter now
  | .look k id connected => s.look k id connected
  | .claim k now => s.claim k now
  | .insert k => s.insert k
  | .commit k => s.commit k
  | .rollback k => s.rollback k
  | .stop k => s.stop k

/-- The alert whose transaction has the row. -/
def held (k : Nat) : Option Alert := (s.stage k).bind Stage.held

variable {s}

theorem row_setRow_some {id : Nat} {r : Row Columns} (h : s.row id = some r) (f : Row Columns → Row Columns)
    (j : Nat) : (s.setRow id f).row j = if j = id then some (f r) else s.row j := KeyedRows.row_setRow_some h f j

variable {k : Nat} {st : Stage}

@[simp] theorem row_setStage (k : Nat) (st : Stage) : (s.setStage k st).row = s.row := rfl

theorem stage_setStage_self (h : s.stage k = some st) (st' : Stage) : (s.setStage k st').stage k = some st' := by
  obtain ⟨c, hc, -⟩ := Option.map_eq_some_iff.1 h
  simp [stage, setStage, hc]

theorem stage_setStage_of_ne {j : Nat} (h : j ≠ k) (st : Stage) : (s.setStage k st).stage j = s.stage j := by
  simp [stage, setStage, h]

theorem held_apply (k : Nat) : s.held k = ((s.checkers k).map (·.stage)).bind Stage.held := rfl

theorem held_of_stage (h : s.stage k = some st) : s.held k = st.held := by
  rw [held, h]
  rfl

theorem held_setStage (h : s.stage k = some st) (st' : Stage) (j : Nat) :
    (s.setStage k st').held j = if j = k then st'.held else s.held j := by
  split
  · rename_i hj
    rw [hj, held_of_stage (stage_setStage_self h st')]
  rename_i hj
  rw [held, stage_setStage_of_ne hj]
  rfl

theorem held_setStage_eq {st' : Stage} (h : s.stage k = some st) (hst : st'.held = st.held) :
    (s.setStage k st').held = s.held := by
  funext j
  rw [held_setStage h]
  split
  · rename_i hj
    rw [hj, hst, held_of_stage h]
  · rfl

theorem held_update (k : Nat) (c : Option Checker) (h : (c.map (·.stage)).bind Stage.held = s.held k) :
    State.held {s with checkers := Function.update s.checkers k c} = s.held := by
  funext j
  by_cases hj : j = k
  · subst hj
    rw [← h]
    simp [held, stage]
  · simp [held, stage, hj]

theorem row_enroll (id orgID : Nat) (hostname : String) (now : Time) (j : Nat) :
    (s.enroll id orgID hostname now).row j =
      if id = j then some ((s.row j).getD (Row.ofValue ⟨false, none, now, none⟩)) else s.row j :=
  KeyedRows.row_enter _ _ j

@[simp] theorem release_outbox (k : Nat) : (s.release k).outbox = s.outbox := by
  unfold release
  split <;> rfl

@[simp] theorem release_checkers (k : Nat) : (s.release k).checkers = s.checkers := by
  unfold release
  split <;> rfl

@[simp] theorem release_nextID (k : Nat) : (s.release k).nextID = s.nextID := by
  unfold release
  split <;> rfl

end State

/-- Offline first, then in turns. -/
def turn (i : Nat) : AlertType := if i % 2 = 0 then .agentOffline else .agentOnline

def Columns.alerted (c : Columns) : Bool := c.offlineAlertedAt.isSome

theorem wins_iff {c : Columns} {n : Nat} (hc : c.alerted = decide (n % 2 = 1)) (t : AlertType) :
    t.wins c = true ↔ t = turn n := by
  have hturn : turn n = if c.alerted then .agentOnline else .agentOffline := by
    unfold turn
    by_cases hn : n % 2 = 0 <;> simp [hc, hn]
  rw [hturn]
  cases t <;> cases h : c.offlineAlertedAt <;> simp [Columns.alerted, AlertType.wins, h]

theorem alerted_set (now : Time) (c : Columns) (n : Nat) :
    ((turn n).set now c).alerted = decide ((n + 1) % 2 = 1) := by
  unfold turn Columns.alerted
  split
  · simp only [AlertType.set, Option.isSome_some]
    exact (decide_eq_true (by omega)).symm
  · simp only [AlertType.set, Option.isSome_none]
    exact (decide_eq_false (by omega)).symm

/-- What holds of an agent with `n` committed alerts and this row: the column tells whose turn it
is, and who has changed the row does so for the next alert. -/
structure AgentInv (held : Nat → Option Alert) (id n : Nat) (r : Row Columns) : Prop where
  flag : r.committed.alerted = decide (n % 2 = 1)
  writer : ∀ k v, r.writer = some (k, v) → ∃ a, held k = some a ∧ a.targetID = id ∧
    a.type = turn n ∧ v.alerted = decide ((n + 1) % 2 = 1)

/-- The flag is the parity of the alerts, and a transaction that has claimed holds its row. -/
structure Inv (s : State) : Prop where
  turns : ∀ id, s.types id = (List.range (s.types id).length).map turn
  agent : ∀ id r, s.row id = some r → AgentInv s.held id (s.types id).length r
  absent : ∀ id, s.row id = none → s.types id = []
  holder : ∀ k a, s.held k = some a → ∃ r v, s.row a.targetID = some r ∧ r.writer = some (k, v)

theorem inv_init : Inv State.init where
  turns := fun _ => rfl
  agent := by
    intro id r hr
    cases hr
  absent := fun _ _ => rfl
  holder := by
    intro k a h
    cases h

theorem types_post (s : State) (n : Notification) (id : Nat) :
    (s.post n).types id = if n.alert.targetID = id then s.types id ++ [n.alert.type] else s.types id := by
  by_cases h : n.alert.targetID = id <;> simp [State.types, State.alerts, State.post, h]

theorem turns_append {l : List AlertType} (h : l = (List.range l.length).map turn) :
    l ++ [turn l.length] = (List.range (l ++ [turn l.length]).length).map turn := by
  rw [length_append, length_singleton, range_succ, map_append, ← h, map_singleton]

namespace Inv
variable {s s' : State} (h : Inv s)
include h

theorem congr (hrow : s'.row = s.row) (hout : s'.outbox = s.outbox) (hheld : s'.held = s.held) : Inv s' := by
  have htypes : s'.types = s.types := by
    unfold State.types State.alerts
    rw [hout]
  refine ⟨?_, ?_, ?_, ?_⟩
  · rw [htypes]
    exact h.turns
  · intro id r hr
    rw [hrow] at hr
    rw [htypes]
    obtain ⟨hflag, hwriter⟩ := h.agent id r hr
    exact ⟨hflag, hheld ▸ hwriter⟩
  · rw [hrow, htypes]
    exact h.absent
  · rw [hrow, hheld]
    exact h.holder

variable {a : Alert} {k : Nat}

theorem held_unique {j : Nat} {b : Alert} (ha : s.held k = some a) (hb : s.held j = some b)
    (hab : a.targetID = b.targetID) : k = j := by
  obtain ⟨r, v, hr, hw⟩ := h.holder k a ha
  obtain ⟨r', v', hr', hw'⟩ := h.holder j b hb
  rw [hab, hr'] at hr
  cases hr
  rw [hw] at hw'
  exact (Prod.mk.inj (Option.some.inj hw')).1

theorem settle (hk : s.held k = some a) {v : Columns}
    (hrow : ∀ j, s'.row j = if j = a.targetID then some (Row.ofValue v) else s.row j)
    (hheld : ∀ j, s'.held j = if j = k then none else s.held j)
    (htypes : ∀ j, j ≠ a.targetID → s'.types j = s.types j)
    (hturns : s'.types a.targetID = (List.range (s'.types a.targetID).length).map turn)
    (hflag : v.alerted = decide ((s'.types a.targetID).length % 2 = 1)) : Inv s' := by
  refine ⟨fun id => ?_, fun id r hr => ?_, fun id hnone => ?_, fun j b hb => ?_⟩
  · by_cases hid : id = a.targetID
    · rw [hid]
      exact hturns
    · rw [htypes id hid]
      exact h.turns id
  · rw [hrow] at hr
    split at hr
    · rename_i hid
      cases hr
      rw [hid]
      refine ⟨hflag, fun _ _ hw => ?_⟩
      cases hw
    rename_i hid
    rw [htypes id hid]
    obtain ⟨hf, hwriter⟩ := h.agent id r hr
    refine ⟨hf, fun j v' hw => ?_⟩
    obtain ⟨b, hb, hbid, hturn, hv'⟩ := hwriter j v' hw
    have hj : j ≠ k := by
      rintro rfl
      rw [hk] at hb
      cases hb
      exact hid hbid.symm
    exact ⟨b, by rw [hheld, if_neg hj, hb], hbid, hturn, hv'⟩
  · rw [hrow] at hnone
    split at hnone
    · cases hnone
    rename_i hid
    rw [htypes id hid]
    exact h.absent id hnone
  · rw [hheld] at hb
    split at hb
    · cases hb
    rename_i hj
    obtain ⟨r, v', hr, hw⟩ := h.holder j b hb
    have hid : b.targetID ≠ a.targetID := fun he => hj (h.held_unique hb hk he)
    exact ⟨r, v', by rw [hrow, if_neg hid, hr], hw⟩

theorem of_held (hk : s.held k = some a) : ∃ r v, s.row a.targetID = some r ∧ r.writer = some (k, v) ∧
      a.type = turn (s.types a.targetID).length ∧
      v.alerted = decide (((s.types a.targetID).length + 1) % 2 = 1) := by
  obtain ⟨r, v, hr, hw⟩ := h.holder k a hk
  obtain ⟨b, hb, -, hturn, hv⟩ := (h.agent _ r hr).writer k v hw
  rw [hk] at hb
  cases hb
  exact ⟨r, v, hr, hw, hturn, hv⟩

theorem enroll (id orgID : Nat) (hostname : String) (now : Time) : Inv (s.enroll id orgID hostname now) := by
  refine ⟨h.turns, fun j r hr => ?_, fun j hnone => ?_, fun k a ha => ?_⟩
  · rw [State.row_enroll] at hr
    split at hr
    · cases hj : s.row j with
      | none =>
        rw [hj] at hr
        cases hr
        have hnil : (s.enroll id orgID hostname now).types j = [] := h.absent j hj
        rw [hnil]
        refine ⟨rfl, fun _ _ hw => ?_⟩
        cases hw
      | some r' =>
        rw [hj] at hr
        cases hr
        exact h.agent j _ hj
    · exact h.agent j r hr
  · rw [State.row_enroll] at hnone
    split at hnone
    · cases hnone
    · exact h.absent j hnone
  · obtain ⟨r, v, hr, hw⟩ := h.holder k a ha
    refine ⟨r, v, ?_, hw⟩
    rw [State.row_enroll, hr]
    split <;> rfl

theorem touch (id : Nat) (active : Bool) (lastSeenAt : Option Time) (statusChangedAt : Time) :
    Inv (s.touch id active lastSeenAt statusChangedAt) := by
  refine ⟨h.turns, fun j r hr => ?_, fun j hnone => ?_, fun k a ha => ?_⟩
  · rw [State.touch, State.row, State.setRow, KeyedRows.row_setRow, Option.map_eq_some_iff] at hr
    obtain ⟨r', hr', rfl⟩ := hr
    have hj := h.agent j r' hr'
    split
    · split
      · refine ⟨hj.flag, fun _ _ hw => ?_⟩
        cases hw
      · exact hj
    · exact hj
  · rw [State.touch, State.row, State.setRow, KeyedRows.row_setRow, Option.map_eq_none_iff] at hnone
    exact h.absent j hnone
  · obtain ⟨r, v, hr, hw⟩ := h.holder k a ha
    refine ⟨r, v, ?_, hw⟩
    have hsame : (s.touch id active lastSeenAt statusChangedAt).row a.targetID = (some r).map _ :=
      (KeyedRows.row_setRow _ _).trans (congrArg _ hr)
    rw [hsame, Option.map_some, hw]
    simp

theorem list (k : Nat) (offlineAfter now : Time) : Inv (s.list k offlineAfter now) := by
  unfold State.list
  split
  · rename_i hnone
    refine h.congr rfl rfl (State.held_update _ _ ?_)
    simp [State.held, State.stage, hnone, Stage.held]
  · exact h

theorem look (k id : Nat) (connected : Bool) : Inv (s.look k id connected) := by
  unfold State.look
  split
  · rename_i offlineAfter now rows hk
    split
    · rename_i r _
      refine h.congr rfl rfl (State.held_update _ _ ?_)
      cases check offlineAfter now connected r <;> simp [State.held, State.stage, hk, Stage.held]
    · exact h
  · exact h

theorem writer_none {id : Nat} {r : Row Columns} (hk : s.held k = none) (hr : s.row id = some r)
    (hfree : r.free k = true) : r.writer = none := by
  cases hw : r.writer with
  | none => rfl
  | some w =>
    obtain ⟨b, hb, -⟩ := (h.agent id r hr).writer w.1 w.2 hw
    rw [Row.eq_of_free hfree hw, hk] at hb
    cases hb

theorem take {r : Row Columns} {v : Columns} (hnone : s.held k = none)
    (hr : s.row a.targetID = some r) (hw : r.writer = none) (hturn : a.type = turn (s.types a.targetID).length)
    (hv : v.alerted = decide (((s.types a.targetID).length + 1) % 2 = 1))
    (hrow : ∀ j, s'.row j = if j = a.targetID then some ⟨r.committed, some (k, v)⟩ else s.row j)
    (hheld : ∀ j, s'.held j = if j = k then some a else s.held j) (htypes : s'.types = s.types) : Inv s' := by
  refine ⟨fun id => htypes ▸ h.turns id, fun id r' hr' => ?_, fun id hid => ?_, fun j b hb => ?_⟩
  · rw [htypes]
    rw [hrow] at hr'
    split at hr'
    · rename_i hid
      subst hid
      cases hr'
      refine ⟨(h.agent _ r hr).flag, fun j v' hjv => ?_⟩
      cases hjv
      exact ⟨a, by rw [hheld, if_pos rfl], rfl, hturn, hv⟩
    obtain ⟨hf, hwriter⟩ := h.agent id r' hr'
    refine ⟨hf, fun j v' hjv => ?_⟩
    obtain ⟨b, hb, hrest⟩ := hwriter j v' hjv
    have hj : j ≠ k := by
      rintro rfl
      rw [hnone] at hb
      cases hb
    exact ⟨b, by rw [hheld, if_neg hj, hb], hrest⟩
  · rw [htypes]
    rw [hrow] at hid
    split at hid
    · cases hid
    · exact h.absent id hid
  · rw [hheld] at hb
    split at hb
    · rename_i hj
      cases hb
      exact ⟨_, v, by rw [hrow, if_pos rfl], by rw [hj]⟩
    obtain ⟨r', v', hr', hw'⟩ := h.holder j b hb
    have hid : b.targetID ≠ a.targetID := by
      intro he
      rw [he, hr] at hr'
      cases hr'
      rw [hw] at hw'
      cases hw'
    exact ⟨r', v', by rw [hrow, if_neg hid, hr'], hw'⟩

theorem claim (k : Nat) (now : Time) : Inv (s.claim k now) := by
  unfold State.claim
  split
  case h_2 => exact h
  rename_i a hk
  have hnone : s.held k = none := State.held_of_stage hk
  have hloop : Inv (s.setStage k .looping) := h.congr rfl rfl (State.held_setStage_eq hk rfl)
  split
  case h_2 => exact hloop
  rename_i r hr
  split
  case isFalse => exact h
  rename_i hfree
  split
  case isFalse => exact hloop
  rename_i hwins
  have hw : r.writer = none := h.writer_none hnone hr hfree
  have hseen : r.seen k = r.committed := Row.seen_of_ne fun v => by simp [hw]
  -- the row is as committed, so the condition is about what is committed
  have hturn :=
    (wins_iff (h.agent _ r hr).flag a.type).1 (hseen ▸ hwins)
  refine h.take (v := a.type.set now (r.seen k)) hnone hr hw hturn (hturn ▸ alerted_set now (r.seen k) _)
    (fun j => ?_) (State.held_setStage hk (.claimed a)) rfl
  rw [State.row_setStage, State.row_setRow_some hr]

theorem insert (k : Nat) : Inv (s.insert k) := by
  unfold State.insert
  split
  · rename_i a hk
    exact h.congr rfl rfl (State.held_setStage_eq (s := {s with nextID := s.nextID + 1}) hk rfl)
  · exact h

theorem commit (k : Nat) : Inv (s.commit k) := by
  unfold State.commit
  split
  case h_2 => exact h
  rename_i a id hk
  have hheld := State.held_of_stage hk
  obtain ⟨r, v, hr, hw, hturn, hv⟩ := h.of_held hheld
  have htypes (j : Nat) : (s.post ⟨id, a⟩).types j =
      if a.targetID = j then s.types j ++ [a.type] else s.types j := types_post s ⟨id, a⟩ j
  have hself := (htypes a.targetID).trans (if_pos rfl)
  refine h.settle hheld (v := v) (fun j => ?_) (State.held_setStage hk .looping)
    (fun j hj => (htypes j).trans (if_neg (Ne.symm hj))) (hself ▸ hturn ▸ turns_append (h.turns _))
    (hself ▸ by rw [hv, length_append, length_singleton])
  rw [← Row.commit_of_writer hw]
  exact State.row_setRow_some hr (·.commit k) j

theorem drop (k : Nat) (hrow : s'.row = (s.release k).row) (hout : s'.outbox = s.outbox)
    (hheld : ∀ j, s'.held j = if j = k then none else s.held j) : Inv s' := by
  unfold State.release at hrow
  have htypes : s'.types = s.types := by
    unfold State.types State.alerts
    rw [hout]
  split at hrow
  · rename_i a hk
    obtain ⟨r, v, hr, hw, -, -⟩ := h.of_held hk
    refine h.settle hk (v := r.committed) (fun j => ?_) hheld (fun j _ => by rw [htypes])
      (htypes ▸ h.turns _) (htypes ▸ (h.agent _ r hr).flag)
    rw [hrow, ← Row.rollback_of_writer hw]
    exact State.row_setRow_some hr (·.rollback k) j
  rename_i hk
  refine h.congr hrow hout (funext fun j => ?_)
  rw [hheld]
  split
  · rename_i hj
    rw [hj]
    exact hk.symm
  · rfl

theorem step (e : Event) : Inv (s.step e) := by
  cases e with
  | enroll id orgID hostname now => exact h.enroll id orgID hostname now
  | touch id active lastSeenAt statusChangedAt => exact h.touch id active lastSeenAt statusChangedAt
  | list k offlineAfter now => exact h.list k offlineAfter now
  | look k id connected => exact h.look k id connected
  | claim k now => exact h.claim k now
  | insert k => exact h.insert k
  | commit k => exact h.commit k
  | rollback k =>
    refine h.drop k rfl (State.release_outbox k) fun j => ?_
    simp only [State.step, State.rollback, State.held_apply, State.setStage, Function.update_apply,
      State.release_checkers]
    split
    · cases s.checkers k <;> rfl
    · rfl
  | stop k =>
    refine h.drop k rfl (State.release_outbox k) fun j => ?_
    simp only [State.step, State.stop, State.held_apply, Function.update_apply]
    split <;> rfl

end Inv

structure Ids (s : State) : Prop where
  below : ∀ n ∈ s.outbox, n.id < s.nextID
  drawn : ∀ k a id, s.stage k = some (.inserted a id) →
    id < s.nextID ∧ ∀ n ∈ s.outbox, n.alert.targetID = a.targetID → n.id < id
  ordered : ∀ id, ((s.alerts id).map (·.id)).Pairwise (· < ·)

namespace Ids
variable {s s' : State} (h : Ids s)
include h

theorem congr (hout : s'.outbox = s.outbox) (hnext : s'.nextID = s.nextID)
    (hstage : ∀ k a id, s'.stage k = some (.inserted a id) → s.stage k = some (.inserted a id)) : Ids s' := by
  refine ⟨?_, ?_, fun id => ?_⟩
  · rw [hout, hnext]
    exact h.below
  · intro k a id hk
    rw [hout, hnext]
    exact h.drawn k a id (hstage k a id hk)
  · have := h.ordered id
    rwa [State.alerts, ← hout] at this

theorem setStage (k : Nat) {st : Stage} (hst : ∀ a id, st ≠ .inserted a id) : Ids (s.setStage k st) := by
  refine h.congr rfl rfl fun j a id hj => ?_
  by_cases hjk : j = k
  · subst hjk
    cases hc : s.checkers j with
    | none => simp [State.stage, State.setStage, hc] at hj
    | some c =>
      simp only [State.stage, State.setStage, hc, Function.update_self, Option.map_some, Option.some.injEq] at hj
      exact absurd hj (hst a id)
  · rwa [State.stage_setStage_of_ne hjk] at hj

theorem setChecker (k : Nat) {c : Option Checker} (hc : ∀ a id, c.map (·.stage) ≠ some (.inserted a id)) :
    Ids {s with checkers := Function.update s.checkers k c} := by
  refine h.congr rfl rfl fun j a id hj => ?_
  by_cases hjk : j = k
  · subst hjk
    simp only [State.stage, Function.update_self] at hj
    exact absurd hj (hc a id)
  · simpa [State.stage, hjk] using hj

theorem insert (k : Nat) : Ids (s.insert k) := by
  unfold State.insert
  split
  case h_2 => exact h
  rename_i a hk
  refine ⟨fun n hn => Nat.lt_succ_of_lt (h.below n hn), fun j b id hj => ?_, h.ordered⟩
  by_cases hjk : j = k
  · subst hjk
    rw [State.stage_setStage_self (s := {s with nextID := s.nextID + 1}) hk] at hj
    cases hj
    exact ⟨Nat.lt_succ_self _, fun n hn _ => h.below n hn⟩
  rw [State.stage_setStage_of_ne hjk] at hj
  obtain ⟨hlt, hall⟩ := h.drawn j b id hj
  exact ⟨Nat.lt_succ_of_lt hlt, hall⟩

theorem commit (hi : Inv s) (k : Nat) : Ids (s.commit k) := by
  unfold State.commit
  split
  case h_2 => exact h
  rename_i a id hk
  obtain ⟨hlt, hall⟩ := h.drawn k a id hk
  have hmem (n : Notification) (hn : n ∈ s.outbox ++ [⟨id, a⟩]) : n ∈ s.outbox ∨ n = ⟨id, a⟩ := by
    simpa using hn
  refine ⟨fun n hn => ?_, fun j b id' hj => ?_, fun j => ?_⟩
  · rcases hmem n hn with hn | rfl
    · exact h.below n hn
    · exact hlt
  · by_cases hjk : j = k
    · subst hjk
      have hkj := hj.symm.trans (State.stage_setStage_self (s := (s.setRow a.targetID (·.commit j)).post ⟨id, a⟩) hk .looping)
      cases hkj
    rw [State.stage_setStage_of_ne hjk] at hj
    obtain ⟨hlt', hall'⟩ := h.drawn j b id' hj
    refine ⟨hlt', fun n hn hb => ?_⟩
    rcases hmem n hn with hn | rfl
    · exact hall' n hn hb
    · -- no other call holds an alert for this agent
      exact absurd (hi.held_unique (State.held_of_stage hj) (State.held_of_stage hk) hb.symm) hjk
  · show (((s.post ⟨id, a⟩).alerts j).map (·.id)).Pairwise (· < ·)
    rw [State.alerts, State.post, filter_append, map_append]
    refine pairwise_append.2 ⟨h.ordered j, ?_, fun x hx y hy => ?_⟩
    · exact (pairwise_singleton (· < ·) id).sublist (filter_sublist.map _)
    · obtain ⟨n, hn, rfl⟩ := mem_map.1 hx
      obtain ⟨m, hm, rfl⟩ := mem_map.1 hy
      obtain ⟨hn, hnj⟩ := mem_filter.1 hn
      obtain ⟨hm, hmj⟩ := mem_filter.1 hm
      rw [mem_singleton.1 hm] at hmj ⊢
      exact hall n hn ((beq_iff_eq.1 hnj).trans (beq_iff_eq.1 hmj).symm)

theorem step (hi : Inv s) (e : Event) : Ids (s.step e) := by
  cases e with
  | enroll id orgID hostname now => exact h.congr rfl rfl fun _ _ _ hk => hk
  | touch id active lastSeenAt statusChangedAt => exact h.congr rfl rfl fun _ _ _ hk => hk
  | list k offlineAfter now =>
    simp only [State.step, State.list]
    split
    · exact h.setChecker k (by simp)
    · exact h
  | look k id connected =>
    simp only [State.step, State.look]
    split
    · split
      · refine h.setChecker k fun a id => ?_
        cases check _ _ connected _ <;> simp
      · exact h
    · exact h
  | claim k now =>
    simp only [State.step, State.claim]
    split
    · split
      · split
        · split
          · apply setStage
            · exact h.congr rfl rfl fun _ _ _ hk => hk
            · simp
          · exact h.setStage k (by simp)
        · exact h
      · exact h.setStage k (by simp)
    · exact h
  | insert k => exact h.insert k
  | commit k => exact h.commit hi k
  | rollback k =>
    have hrel := h.congr (State.release_outbox k) (State.release_nextID k) fun j a id hj => by
      rwa [State.stage, State.release_checkers] at hj
    exact hrel.setStage k (by simp)
  | stop k =>
    have hrel := h.congr (State.release_outbox k) (State.release_nextID k) fun j a id hj => by
      rwa [State.stage, State.release_checkers] at hj
    have := hrel.setChecker k (c := none) (by simp)
    rwa [State.release_checkers] at this

end Ids

def reached (es : List Event) : State := run State.step State.init es

/-- The invariants hold in every reachable state. -/
theorem reached_inv (es : List Event) : Inv (reached es) ∧ Ids (reached es) := by
  refine run_invariant (I := fun s => Inv s ∧ Ids s) ⟨inv_init, ?_⟩ (fun s e h => ⟨h.1.step e, h.2.step h.1 e⟩) es
  exact ⟨by simp [State.init], by simp [State.init, State.stage], fun _ => List.Pairwise.nil⟩

/-- **Presence alerts alternate.** After any run, the committed presence alerts of an agent, in the
order of their commits, which is that of their ids, are offline and online in turn, offline first;
and `offline_alerted_at` is set exactly if the last one is offline. -/
theorem presence_alerts_alternate (es : List Event) (id : Nat) :
    (reached es).types id = (List.range ((reached es).types id).length).map turn ∧
    (((reached es).alerts id).map (·.id)).Pairwise (· < ·) ∧
    ∀ r, (reached es).row id = some r →
      r.committed.offlineAlertedAt.isSome = decide (((reached es).types id).getLast? = some .agentOffline) := by
  obtain ⟨hinv, hids⟩ := reached_inv es
  refine ⟨hinv.turns id, hids.ordered id, fun r hr => ?_⟩
  have hflag : r.committed.offlineAlertedAt.isSome = _ := (hinv.agent id r hr).flag
  rw [hflag, hinv.turns id, length_map, length_range]
  generalize ((reached es).types id).length = n
  cases n with
  | zero => rfl
  | succ n =>
    rw [range_succ, map_append, map_singleton, getLast?_append, getLast?_singleton]
    have hturn : turn n = .agentOffline ↔ (n + 1) % 2 = 1 := by
      unfold turn
      split
      · exact iff_of_true rfl (by omega)
      · exact iff_of_false (by simp) (by omega)
    simp [hturn]

/-- An outage, with a second server that has the same list and comes late, and the end of it. -/
def outage : List Event :=
  [.enroll 7 1 "db01" 0, .touch 7 true (some 0) 0,
   .list 0 600000000000 900000000000, .list 1 600000000000 900000000000,
   .look 0 7 false, .look 1 7 false, .claim 0 900000000001, .claim 1 900000000002,
   .insert 0, .commit 0, .claim 1 900000000003, .stop 0, .stop 1,
   .list 0 600000000000 960000000000, .look 0 7 true, .claim 0 960000000001, .insert 0, .rollback 0, .stop 0,
   .list 1 600000000000 990000000000, .look 1 7 true, .claim 1 990000000001, .insert 1, .commit 1]

theorem presence_alerts_alternate_outage : (reached outage).types 7 = [.agentOffline, .agentOnline] ∧
    ((reached outage).alerts 7).map (·.id) = [1, 3] ∧
    (((reached outage).alerts 7).map (·.id)).Pairwise (· < ·) :=
  ⟨by decide, by decide, (presence_alerts_alternate outage 7).2.1⟩

end Dbr2.Notify.Presence
