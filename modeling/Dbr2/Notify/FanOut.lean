import Dbr2.Lib.KeyedRows
import Dbr2.Notify.Deliveries
import Dbr2.Notify.Match

/-! Fanning notifications out to channels (`FanOut` in `internal/notify/dispatch.go`, with its
statements in `db/queries/notifications.sql`).

Any number of transactions run at once. Each claims rows of the outbox that are not marked, passing
over those that another one has locked; reads the channels; inserts a delivery for each channel that
wants a row; marks the rows; and commits, or is rolled back anywhere. What holds then is `Locks`. -/
namespace Dbr2.Notify.FanOut
open Lib List
open Lib.GoPath (Text)

/-- The LIMIT of ClaimUndeliveredNotifications. -/
def fanOutBatch : Nat := 200

/-- The columns of `notification_outbox` that FanOut reads; `delivered_at`, which marks a row, is
apart. -/
structure Note where
  orgID : Nat
  (eventType severity : Text)
  createdAt : Int
  deriving DecidableEq

structure Channel where
  (id orgID : Nat)
  enabled : Bool
  events : List Text
  minSeverity : Text
  deriving DecidableEq

def listEnabledNotificationChannels (channels : List Channel) : List Channel :=
  (channels.filter (·.enabled)).insertionSort fun a b => a.orgID < b.orgID ∨ a.orgID = b.orgID ∧ a.id ≤ b.id

/-- What a transaction has read: the rows it has claimed, the channels, and the time before which
a row is too old. -/
structure Plan where
  rows : List (Nat × Note)
  channels : List Channel
  cutoff : Int
  /-- The number of the event by which it has read the channels. -/
  listedAt : Nat
  deriving DecidableEq

/-- The deliveries of a plan, in the order of the loops. -/
def Plan.inserts (p : Plan) : List (Nat × Nat) :=
  p.rows.flatMap fun r =>
    if r.2.createdAt < p.cutoff then []
    else
      ((listEnabledNotificationChannels p.channels).filter fun c =>
        !(c.orgID != r.2.orgID || !matchesFilters c.events c.minSeverity r.2.eventType r.2.severity)).map
        fun c => (r.1, c.id)

/-- Where a transaction of FanOut is. -/
inductive Phase
  /-- ClaimUndeliveredNotifications goes through the rows that it has found unmarked. -/
  | claiming (todo : List Nat) (rows : List (Nat × Note))
  | inserting (p : Plan) (todo : List (Nat × Nat))
  | marked (p : Plan)
  deriving DecidableEq

def Phase.rows : Phase → List (Nat × Note)
  | .claiming _ rows => rows
  | .inserting p _ | .marked p => p.rows

def Phase.ahead : Phase → List Nat
  | .claiming todo _ => todo
  | _ => []

def Phase.plan : Phase → Option Plan
  | .claiming _ _ => none
  | .inserting p _ | .marked p => some p

def Phase.todo : Phase → List (Nat × Nat)
  | .inserting _ todo => todo
  | _ => []

def Phase.isMarked : Phase → Bool
  | .marked _ => true
  | _ => false

def pairs (t : Deliveries) : List (Nat × Nat) := t.table.rows.map fun r => (r.notificationID, r.channelID)

/-- The tables, and the transactions under way with their uncommitted inserts. -/
structure State where
  outbox : KeyedRows Note (Option Int)
  channels : Table Channel.id
  txs : Nat → Option Phase
  pending : List (Nat × (Nat × Nat))
  deliveries : Deliveries
  fanned : List Plan
  clock : Nat

/-- One statement, of FanOut or of anybody else. -/
inductive Event
  | enqueue (id : Nat) (n : Note)
  | create (c : Channel)
  | edit (id : Nat) (enabled : Bool) (events : List Text) (minSeverity : Text)
  | start (k : Nat)
  | lock (k : Nat)
  | pass (k : Nat)
  | list (k : Nat) (now maxAge : Int)
  | insert (k : Nat)
  | mark (k : Nat) (now : Int)
  | commit (k : Nat) (now : Nat)
  | rollback (k : Nat)
  | claimDue (now : Nat) (locked : List Nat)
  | exec (now : Nat) (st : Deliveries.Statement)
  deriving DecidableEq

namespace State

def init : State := ⟨Table.empty, Table.empty, fun _ => none, [], ⟨Table.empty, 1, by simp [Table.empty]⟩, [], 0⟩

variable (s : State)

def setTx (k : Nat) (ph : Option Phase) : State := {s with txs := Function.update s.txs k ph}

def setOutbox (outbox : KeyedRows Note (Option Int)) : State := {s with outbox := outbox}

/-- What the claim finds in its snapshot, by id. -/
def unmarked : List Nat :=
  ((s.outbox.rows.filter (·.row.committed.isNone)).map (·.id)).insertionSort (· ≤ ·)

def start (k : Nat) : State :=
  match s.txs k with
  | none => s.setTx k (some (.claiming s.unmarked []))
  | some _ => s

def lock (k : Nat) : State :=
  match s.txs k with
  | some (.claiming (id :: todo) rows) =>
    if rows.length < fanOutBatch then
      match s.outbox.find id with
      | some e =>
        if e.row.free k && (e.row.seen k).isNone then
          (s.setOutbox (s.outbox.setRow id fun r => ⟨r.committed, some (k, r.seen k)⟩)).setTx k
            (some (.claiming todo (rows ++ [(id, e.data)])))
        else s.setTx k (some (.claiming todo rows))
      | none => s.setTx k (some (.claiming todo rows))
    else s
  | _ => s

/-- SKIP LOCKED, or a row that was marked meanwhile. -/
def pass (k : Nat) : State :=
  match s.txs k with
  | some (.claiming (_ :: todo) rows) => s.setTx k (some (.claiming todo rows))
  | _ => s

/-- The channels are listed once the claim is through. -/
def list (k : Nat) (now maxAge : Int) : State :=
  match s.txs k with
  | some (.claiming todo rows) =>
    if todo = [] ∨ fanOutBatch ≤ rows.length then
      if rows = [] then s.setTx k none
      else
        let p : Plan := ⟨rows, s.channels.rows, now - maxAge, s.clock⟩
        s.setTx k (some (.inserting p p.inserts))
    else s
  | _ => s

/-- InsertNotificationDelivery: it waits for another transaction that has inserted the same pair, and
does nothing if the pair is there. -/
def insert (k : Nat) : State :=
  match s.txs k with
  | some (.inserting p (w :: todo)) =>
    if s.pending.any fun q => q.1 != k && q.2 == w then s
    else if (pairs s.deliveries).contains w || s.pending.contains (k, w) then s.setTx k (some (.inserting p todo))
    else {s with pending := s.pending ++ [(k, w)]}.setTx k (some (.inserting p todo))
  | _ => s

/-- The marking UPDATE waits for every lock it needs. -/
def mark (k : Nat) (now : Int) : State :=
  match s.txs k with
  | some (.inserting p []) =>
    let ids := p.rows.map (·.1)
    if s.outbox.rows.all fun e => !ids.contains e.id || e.row.free k then
      (s.setOutbox (s.outbox.updateRows (fun e => ids.contains e.id && (e.row.seen k).isNone)
        fun r => ⟨r.committed, some (k, some now)⟩)).setTx k (some (.marked p))
    else s
  | _ => s

/-- The marks and the deliveries become visible together. -/
def commit (k now : Nat) : State :=
  match s.txs k with
  | some (.marked p) =>
    {s with
      outbox := s.outbox.commit k
      txs := Function.update s.txs k none
      pending := s.pending.filter (·.1 != k)
      deliveries := ((s.pending.filter (·.1 == k)).map (·.2)).foldl
        (fun t w => t.insertDelivery now w.1 w.2) s.deliveries
      fanned := s.fanned ++ [p]}
  | _ => s

def rollback (k : Nat) : State :=
  {s with
    outbox := s.outbox.rollback k
    txs := Function.update s.txs k none
    pending := s.pending.filter (·.1 != k)}

def act : Event → State
  | .enqueue id n => s.setOutbox (s.outbox.enter id n none)
  | .create c => {s with channels := s.channels.insert c}
  | .edit id enabled events minSeverity =>
    {s with
      channels := s.channels.update (·.id == id)
        (fun c => {c with enabled := enabled, events := events, minSeverity := minSeverity}) fun _ => rfl}
  | .start k => s.start k
  | .lock k => s.lock k
  | .pass k => s.pass k
  | .list k now maxAge => s.list k now maxAge
  | .insert k => s.insert k
  | .mark k now => s.mark k now
  | .commit k now => s.commit k now
  | .rollback k => s.rollback k
  | .claimDue now locked => {s with deliveries := s.deliveries.claimDueDeliveries now locked}
  | .exec now st => {s with deliveries := s.deliveries.exec now st}

/-- The clock numbers the events. -/
def step (s : State) (e : Event) : State := {s.act e with clock := s.clock + 1}

def rowsOf (k : Nat) : List (Nat × Note) := ((s.txs k).map Phase.rows).getD []

def ahead (k : Nat) : List Nat := ((s.txs k).map Phase.ahead).getD []

def isMarked (k : Nat) : Bool := ((s.txs k).map Phase.isMarked).getD false

def plan (k : Nat) : Option Plan := (s.txs k).bind Phase.plan

def todo (k : Nat) : List (Nat × Nat) := ((s.txs k).map Phase.todo).getD []

variable {s}

theorem txs_setTx (k : Nat) (ph : Option Phase) (j : Nat) :
    (s.setTx k ph).txs j = if j = k then ph else s.txs j := Function.update_apply ..

theorem rowsOf_setTx (k : Nat) (ph : Option Phase) (j : Nat) :
    (s.setTx k ph).rowsOf j = if j = k then (ph.map Phase.rows).getD [] else s.rowsOf j := by
  rw [rowsOf, txs_setTx]
  split <;> rfl

theorem rowsOf_setTx_same {k : Nat} {ph : Option Phase} (h : (ph.map Phase.rows).getD [] = s.rowsOf k) :
    (s.setTx k ph).rowsOf = s.rowsOf := by
  funext j
  rw [rowsOf_setTx]
  split
  · rename_i hj
    rw [h, hj]
  · rfl

theorem rowsOf_plan {k : Nat} {p : Plan} (h : s.plan k = some p) : s.rowsOf k = p.rows := by
  obtain ⟨ph, hph, hp⟩ := Option.bind_eq_some_iff.1 h
  rw [rowsOf, hph]
  cases ph with
  | claiming todo rows => cases hp
  | inserting p' todo =>
    cases hp
    rfl
  | marked p' =>
    cases hp
    rfl

end State

/-- A claimed row is locked and was not marked when it was; a locked row is claimed; a row is
marked if and only if a committed transaction has claimed it, and then no other one has. -/
structure Locks (s : State) : Prop where
  locked : ∀ k r, r ∈ s.rowsOf k → ∃ row v, s.outbox.row r.1 = some row ∧ s.outbox.data r.1 = some r.2 ∧
    row.committed = none ∧ row.writer = some (k, v) ∧ (s.isMarked k = true → v.isSome = true)
  writer : ∀ id row k v, s.outbox.row id = some row → row.writer = some (k, v) → id ∈ (s.rowsOf k).map (·.1)
  nodup : ∀ k, ((s.rowsOf k).map (·.1) ++ s.ahead k).Nodup
  marked : ∀ id row, s.outbox.row id = some row →
    (row.committed.isSome = true ↔ id ∈ s.fanned.flatMap fun p => p.rows.map (·.1))
  data : ∀ p ∈ s.fanned, ∀ r ∈ p.rows, s.outbox.data r.1 = some r.2
  once : (s.fanned.flatMap fun p => p.rows.map (·.1)).Nodup

theorem locks_init : Locks State.init where
  locked := by
    intro k r hr
    cases hr
  writer := by
    intro id row k v hrow
    cases hrow
  nodup := fun _ => nodup_nil
  marked := by
    intro id row hrow
    cases hrow
  data := by
    intro p hp
    cases hp
  once := nodup_nil

namespace Locks
variable {s s' : State} (h : Locks s)
include h

theorem congr (hout : s'.outbox = s.outbox) (hfan : s'.fanned = s.fanned) (hrows : s'.rowsOf = s.rowsOf)
    (hmark : ∀ k, s'.isMarked k = true → s.isMarked k = true)
    (hahead : ∀ k, ((s.rowsOf k).map (·.1) ++ s'.ahead k).Nodup) : Locks s' := by
  refine ⟨fun k r hr => ?_, ?_, ?_, ?_, ?_, ?_⟩
  · rw [hrows] at hr
    obtain ⟨row, v, hrow, hdata, hnone, hw, hv⟩ := h.locked k r hr
    rw [hout]
    exact ⟨row, v, hrow, hdata, hnone, hw, fun hm => hv (hmark k hm)⟩
  · rw [hout, hrows]
    exact h.writer
  · rw [hrows]
    exact hahead
  · rw [hout, hfan]
    exact h.marked
  · rw [hout, hfan]
    exact h.data
  · rw [hfan]
    exact h.once

variable {k id : Nat} {row : Row (Option Int)}

theorem setTx {ph : Option Phase} (hrows : (ph.map Phase.rows).getD [] = s.rowsOf k)
    (hmark : (ph.map Phase.isMarked).getD false = false)
    (hahead : ((s.rowsOf k).map (·.1) ++ (ph.map Phase.ahead).getD []).Nodup) : Locks (s.setTx k ph) := by
  refine h.congr rfl rfl (State.rowsOf_setTx_same hrows) (fun j hj => ?_) fun j => ?_
  · rw [State.isMarked, State.txs_setTx] at hj
    split at hj
    · rw [hmark] at hj
      cases hj
    · exact hj
  · rw [State.ahead, State.txs_setTx]
    split
    · rename_i hj
      rw [hj]
      exact hahead
    · exact h.nodup j

theorem setTx_sublist {ph : Option Phase} (hrows : (ph.map Phase.rows).getD [] = s.rowsOf k)
    (hmark : (ph.map Phase.isMarked).getD false = false)
    (hahead : ((ph.map Phase.ahead).getD []).Sublist (s.ahead k)) : Locks (s.setTx k ph) :=
  h.setTx hrows hmark ((h.nodup k).sublist ((List.Sublist.refl _).append hahead))

theorem enqueue (id : Nat) (n : Note) : Locks (s.setOutbox (s.outbox.enter id n none)) := by
  have hrow {j : Nat} {row : Row (Option Int)} (hj : s.outbox.row j = some row) :
      (s.outbox.enter id n none).row j = some row := by
    rw [KeyedRows.row_enter, hj]
    split <;> rfl
  have hdata {j : Nat} {d : Note} (hj : s.outbox.data j = some d) : (s.outbox.enter id n none).data j = some d := by
    rw [KeyedRows.data_enter, hj]
    split <;> rfl
  -- a row is an old one, or new, without a writer and without a mark
  have hcases {j : Nat} {row : Row (Option Int)} (hj : (s.outbox.enter id n none).row j = some row) :
      s.outbox.row j = some row ∨ s.outbox.row j = none ∧ row = Row.ofValue none := by
    rw [KeyedRows.row_enter] at hj
    split at hj
    · cases hold : s.outbox.row j with
      | none =>
        rw [hold] at hj
        cases hj
        exact .inr ⟨rfl, rfl⟩
      | some r =>
        rw [hold] at hj
        cases hj
        exact .inl rfl
    · exact .inl hj
  refine ⟨fun k r hr => ?_, fun j row k v hj hw => ?_, h.nodup, fun j row hj => ?_, fun p hp r hr => ?_, h.once⟩
  · obtain ⟨row, v, h1, h2, h3⟩ := h.locked k r hr
    exact ⟨row, v, hrow h1, hdata h2, h3⟩
  · rcases hcases hj with hold | ⟨-, rfl⟩
    · exact h.writer j row k v hold hw
    · cases hw
  · rcases hcases hj with hold | ⟨hnone, rfl⟩
    · exact h.marked j row hold
    refine iff_of_false Bool.false_ne_true fun hmem => ?_
    obtain ⟨p, hp, hids⟩ := mem_flatMap.1 hmem
    obtain ⟨r, hr, rfl⟩ := mem_map.1 hids
    exact KeyedRows.row_ne_none (h.data p hp r hr) hnone
  · exact hdata (h.data p hp r hr)

theorem start (k : Nat) : Locks (s.start k) := by
  unfold State.start
  split
  · rename_i hk
    have hrows : s.rowsOf k = [] := by rw [State.rowsOf, hk]; rfl
    refine h.setTx hrows.symm rfl ?_
    rw [hrows]
    exact (perm_insertionSort _ _).nodup_iff.2 (s.outbox.keys.sublist (filter_sublist.map _))
  · exact h

theorem pass (k : Nat) : Locks (s.pass k) := by
  unfold State.pass
  split
  · rename_i id todo rows hk
    refine h.setTx_sublist ?_ rfl ?_
    · rw [State.rowsOf, hk]
      rfl
    · rw [State.ahead, hk]
      exact sublist_cons_self id todo
  · exact h

theorem list (k : Nat) (now maxAge : Int) : Locks (s.list k now maxAge) := by
  unfold State.list
  split
  case h_2 => exact h
  rename_i todo rows hk
  have hrows : s.rowsOf k = rows := by rw [State.rowsOf, hk]; rfl
  split
  · split
    · rename_i hnil
      exact h.setTx_sublist (hrows.trans hnil).symm rfl (nil_sublist _)
    · exact h.setTx_sublist hrows.symm rfl (nil_sublist _)
  · exact h

theorem insert (k : Nat) : Locks (s.insert k) := by
  unfold State.insert
  split
  case h_2 => exact h
  rename_i p w todo hk
  have hrows : s.rowsOf k = p.rows := by rw [State.rowsOf, hk]; rfl
  split
  · exact h
  split
  · exact h.setTx_sublist hrows.symm rfl (nil_sublist _)
  · have hp : Locks {s with pending := s.pending ++ [(k, w)]} := h.congr rfl rfl rfl (fun _ hm => hm) h.nodup
    exact hp.setTx_sublist hrows.symm rfl (nil_sublist _)

theorem writer_none (hrow : s.outbox.row id = some row)
    (hfree : row.free k = true) (hid : id ∉ (s.rowsOf k).map (·.1)) : row.writer = none := by
  cases hw : row.writer with
  | none => rfl
  | some w =>
    obtain ⟨j, v⟩ := w
    have hj := Row.eq_of_free hfree hw
    subst hj
    exact absurd (h.writer id row j v hrow hw) hid

theorem take {n : Note} {v : Option Int} (hrow : s.outbox.row id = some row) (hdata : s.outbox.data id = some n)
    (hw : row.writer = none) (hc : row.committed = none)
    (hrow' : ∀ j, s'.outbox.row j = if j = id then some ⟨row.committed, some (k, v)⟩ else s.outbox.row j)
    (hdata' : s'.outbox.data = s.outbox.data) (hfan : s'.fanned = s.fanned)
    (hrows' : ∀ j, s'.rowsOf j = if j = k then s.rowsOf k ++ [(id, n)] else s.rowsOf j)
    (hmark : ∀ j, s'.isMarked j = true → j ≠ k ∧ s.isMarked j = true)
    (hnodup : ∀ j, ((s'.rowsOf j).map (·.1) ++ s'.ahead j).Nodup) : Locks s' := by
  have hold {j : Nat} {r : Nat × Note} (hr : r ∈ s.rowsOf j) : ∃ row v, s'.outbox.row r.1 = some row ∧
      s'.outbox.data r.1 = some r.2 ∧ row.committed = none ∧ row.writer = some (j, v) ∧
      (s'.isMarked j = true → v.isSome = true) := by
    obtain ⟨row', v', hr1, hr2, hr3, hr4, hr5⟩ := h.locked j r hr
    have hne : r.1 ≠ id := by
      intro he
      rw [he, hrow] at hr1
      cases hr1
      rw [hw] at hr4
      cases hr4
    exact ⟨row', v', by rw [hrow', if_neg hne, hr1], by rw [hdata', hr2], hr3, hr4, fun hm => hr5 (hmark j hm).2⟩
  refine ⟨fun j r hr => ?_, fun j row' l v' hj hwj => ?_, hnodup, fun j row' hj => ?_, ?_, ?_⟩
  · rw [hrows'] at hr
    split at hr
    · rename_i hjk
      rcases mem_append.1 hr with hr | hr
      · exact hold (hjk ▸ hr)
      rw [mem_singleton.1 hr]
      exact ⟨⟨row.committed, some (k, v)⟩, v, by rw [hrow', if_pos rfl], by rw [hdata', hdata], hc, by rw [hjk],
        fun hm => absurd hjk (hmark j hm).1⟩
    · exact hold hr
  · have hsub : (s.rowsOf l).map (·.1) ⊆ (s'.rowsOf l).map (·.1) := by
      rw [hrows']
      split
      · rename_i hl
        rw [hl, map_append]
        exact subset_append_left _ _
      · exact List.Subset.refl _
    rw [hrow'] at hj
    split at hj
    · rename_i hid
      cases hj
      cases hwj
      rw [hrows', if_pos rfl, hid, map_append]
      exact mem_append_right _ mem_cons_self
    · exact hsub (h.writer j row' l v' hj hwj)
  · rw [hfan]
    rw [hrow'] at hj
    split at hj
    · rename_i hid
      cases hj
      rw [hid]
      exact h.marked id row hrow
    · exact h.marked j row' hj
  · rw [hfan, hdata']
    exact h.data
  · rw [hfan]
    exact h.once

theorem lock (k : Nat) : Locks (s.lock k) := by
  unfold State.lock
  split
  case h_2 => exact h
  rename_i id todo rows hk
  have hrows : s.rowsOf k = rows := by rw [State.rowsOf, hk]; rfl
  have hahead : s.ahead k = id :: todo := by rw [State.ahead, hk]; rfl
  have hskip : Locks (s.setTx k (some (.claiming todo rows))) :=
    h.setTx_sublist hrows.symm rfl (hahead ▸ sublist_cons_self id todo)
  split
  case isFalse => exact h
  split
  case h_2 => exact hskip
  rename_i e he
  split
  case isFalse => exact hskip
  rename_i hcond
  obtain ⟨hfree, hseen⟩ := Bool.and_eq_true_iff.1 hcond
  have hnodup := hrows ▸ hahead ▸ h.nodup k
  have hid : id ∉ rows.map (·.1) := fun hm => (nodup_append.1 hnodup).2.2 id hm id mem_cons_self rfl
  have hrow := KeyedRows.row_of_find he
  have hw := h.writer_none hrow hfree (hrows ▸ hid)
  have hc : e.row.committed = none := by
    rw [Row.seen_of_ne (by simp [hw])] at hseen
    exact Option.isNone_iff_eq_none.1 hseen
  refine h.take (v := e.row.seen k) hrow (KeyedRows.data_of_find he) hw hc
    (KeyedRows.row_setRow_some hrow fun r => ⟨r.committed, some (k, r.seen k)⟩) (KeyedRows.data_updateRows _ _) rfl
    (fun j => ?_) (fun j hm => ?_) fun j => ?_
  · rw [hrows, State.rowsOf_setTx]
    rfl
  · rw [State.isMarked, State.txs_setTx] at hm
    split at hm
    · cases hm
    · rename_i hj
      exact ⟨hj, hm⟩
  · rw [State.rowsOf, State.ahead, State.txs_setTx]
    split
    · show ((rows ++ [(id, e.data)]).map (·.1) ++ todo).Nodup
      rw [map_append, append_assoc]
      exact hnodup
    · exact h.nodup j

theorem mark (k : Nat) (now : Int) : Locks (s.mark k now) := by
  unfold State.mark
  split
  case h_2 => exact h
  rename_i p hk
  have hrows : s.rowsOf k = p.rows := by rw [State.rowsOf, hk]; rfl
  simp only
  split
  case isFalse => exact h
  have hrow' (j : Nat) := KeyedRows.row_updateRows_where (t := s.outbox)
    (fun j r => (p.rows.map (·.1)).contains j && (r.seen k).isNone)
    (fun r => ⟨r.committed, some (k, some now)⟩) j
  have hids {j : Nat} {row : Row (Option Int)} (hrow : s.outbox.row j = some row)
      (hj : (p.rows.map (·.1)).contains j = true) : ∃ v, row.writer = some (k, v) := by
    obtain ⟨r, hr, rfl⟩ := mem_map.1 (contains_iff_mem.1 hj)
    obtain ⟨row', v, hr1, -, -, hr4, -⟩ := h.locked k r (hrows ▸ hr)
    rw [hrow] at hr1
    cases hr1
    exact ⟨v, hr4⟩
  have hrowsOf : ((s.setOutbox (s.outbox.updateRows (fun e => (p.rows.map (·.1)).contains e.id && (e.row.seen k).isNone)
      fun r => ⟨r.committed, some (k, some now)⟩)).setTx k (some (.marked p))).rowsOf = s.rowsOf :=
    State.rowsOf_setTx_same hrows.symm
  refine ⟨fun j r hr => ?_, fun j row l v hj hw => ?_, fun j => ?_, fun j row hj => ?_, fun q hq r hr => ?_, h.once⟩
  · rw [hrowsOf] at hr
    obtain ⟨row, v, hr1, hr2, hr3, hr4, hr5⟩ := h.locked j r hr
    have hnew := (hrow' r.1).trans (congrArg _ hr1)
    rw [Option.map_some] at hnew
    split at hnew
    · -- it gets its mark
      rename_i hcond
      obtain ⟨v', hv'⟩ := hids hr1 (Bool.and_eq_true_iff.1 hcond).1
      rw [hr4] at hv'
      cases hv'
      exact ⟨_, some now, hnew, (congrFun (KeyedRows.data_updateRows _ _) _).trans hr2, hr3, rfl, fun _ => rfl⟩
    rename_i hcond
    refine ⟨row, v, hnew, (congrFun (KeyedRows.data_updateRows _ _) _).trans hr2, hr3, hr4, fun hm => ?_⟩
    rw [State.isMarked, State.txs_setTx] at hm
    split at hm
    · rename_i hjk
      subst hjk
      -- it had one
      have hmem : (p.rows.map (·.1)).contains r.1 = true :=
        contains_iff_mem.2 (mem_map.2 ⟨r, hrows ▸ hr, rfl⟩)
      rw [hmem, Row.seen_of_writer hr4] at hcond
      cases v with
      | none => exact absurd rfl hcond
      | some t => rfl
    · exact hr5 hm
  · rw [hrowsOf]
    obtain ⟨row', hrow1, hrow2⟩ := Option.map_eq_some_iff.1 ((hrow' j).symm.trans hj)
    split at hrow2
    · rename_i hcond
      obtain ⟨v', hv'⟩ := hids hrow1 (Bool.and_eq_true_iff.1 hcond).1
      rw [← hrow2] at hw
      cases hw
      exact h.writer j row' k v' hrow1 hv'
    · rw [← hrow2] at hw
      exact h.writer j row' l v hrow1 hw
  · rw [hrowsOf, State.ahead, State.txs_setTx]
    split
    · exact (h.nodup j).sublist ((List.Sublist.refl _).append (nil_sublist _))
    · exact h.nodup j
  · obtain ⟨row', hrow1, hrow2⟩ := Option.map_eq_some_iff.1 ((hrow' j).symm.trans hj)
    have hsame : row.committed = row'.committed := by
      rw [← hrow2]
      split <;> rfl
    rw [hsame]
    exact h.marked j row' hrow1
  · exact (congrFun (KeyedRows.data_updateRows _ _) _).trans (h.data q hq r hr)

theorem writer_cases (hrow : s.outbox.row id = some row) (k : Nat) :
    (∃ r v, r ∈ s.rowsOf k ∧ r.1 = id ∧ row.writer = some (k, v) ∧ row.committed = none ∧
      (s.isMarked k = true → v.isSome = true)) ∨ (id ∉ (s.rowsOf k).map (·.1) ∧ ∀ v, row.writer ≠ some (k, v)) := by
  by_cases hid : id ∈ (s.rowsOf k).map (·.1)
  · obtain ⟨r, hr, rfl⟩ := mem_map.1 hid
    obtain ⟨row', v, hr1, -, hr3, hr4, hr5⟩ := h.locked k r hr
    rw [hrow] at hr1
    cases hr1
    exact .inl ⟨r, v, hr, rfl, hr4, hr3, hr5⟩
  · exact .inr ⟨hid, fun v hw => hid (h.writer id row k v hrow hw)⟩

theorem finish {g : Row (Option Int) → Row (Option Int)}
    (hg : ∀ r, (∀ v, r.writer ≠ some (k, v)) → g r = r) (hg' : ∀ r v, r.writer = some (k, v) → (g r).writer = none)
    (hrow' : ∀ j, s'.outbox.row j = (s.outbox.row j).map g) (hdata' : s'.outbox.data = s.outbox.data)
    (htxs : s'.txs = Function.update s.txs k none) (hmarked : ∀ id row, s.outbox.row id = some row →
      ((g row).committed.isSome = true ↔ id ∈ s'.fanned.flatMap fun p => p.rows.map (·.1)))
    (hdata : ∀ p ∈ s'.fanned, ∀ r ∈ p.rows, s.outbox.data r.1 = some r.2)
    (honce : (s'.fanned.flatMap fun p => p.rows.map (·.1)).Nodup) : Locks s' := by
  have htx (j : Nat) : s'.txs j = if j = k then none else s.txs j := by rw [htxs, Function.update_apply]
  have hrows' (j : Nat) : s'.rowsOf j = if j = k then [] else s.rowsOf j := by
    rw [State.rowsOf, htx]
    split <;> rfl
  refine ⟨fun j r hr => ?_, fun id row j v hrow hw => ?_, fun j => ?_, fun id row hrow => ?_, hdata' ▸ hdata, honce⟩
  · rw [hrows'] at hr
    split at hr
    · cases hr
    rename_i hj
    obtain ⟨row, v, hr1, hr2, hr3, hr4, hr5⟩ := h.locked j r hr
    have hsame : g row = row := by
      refine hg row fun v' hw => ?_
      rw [hr4] at hw
      cases hw
      exact hj rfl
    refine ⟨row, v, ?_, hdata' ▸ hr2, hr3, hr4, ?_⟩
    · rw [hrow', hr1, Option.map_some, hsame]
    · rw [State.isMarked, htx, if_neg hj]
      exact hr5
  · rw [hrow', Option.map_eq_some_iff] at hrow
    obtain ⟨row', hrow1, rfl⟩ := hrow
    rcases h.writer_cases hrow1 k with ⟨r, v', -, -, hw', -⟩ | ⟨-, hne⟩
    · rw [hg' row' v' hw'] at hw
      cases hw
    rw [hg row' hne] at hw
    have hj : j ≠ k := by
      intro hj
      rw [hj] at hw
      exact hne v hw
    rw [hrows', if_neg hj]
    exact h.writer id row' j v hrow1 hw
  · rw [hrows', State.ahead, htx]
    split
    · exact nodup_nil
    · exact h.nodup j
  · rw [hrow', Option.map_eq_some_iff] at hrow
    obtain ⟨row', hrow1, rfl⟩ := hrow
    exact hmarked id row' hrow1

theorem commit (k now : Nat) : Locks (s.commit k now) := by
  unfold State.commit
  split
  case h_2 => exact h
  rename_i p hk
  have hrows : s.rowsOf k = p.rows := by rw [State.rowsOf, hk]; rfl
  have hmarked : s.isMarked k = true := by rw [State.isMarked, hk]; rfl
  have hids : ((s.fanned ++ [p]).flatMap fun p => p.rows.map (·.1)) =
      (s.fanned.flatMap fun p => p.rows.map (·.1)) ++ p.rows.map (·.1) := by
    rw [flatMap_append, flatMap_singleton]
  refine h.finish (fun r => Row.commit_of_ne) (fun r v hw => by rw [Row.commit_of_writer hw]; rfl)
    (KeyedRows.row_commit k) (KeyedRows.data_updateRows _ _) rfl (fun id row hrow => ?_) (fun q hq r hr => ?_) ?_
  · show _ ↔ id ∈ (s.fanned ++ [p]).flatMap _
    rw [hids, mem_append]
    rcases h.writer_cases hrow k with ⟨r, v, hr, rfl, hw, -, hv⟩ | ⟨hid, hne⟩
    · rw [Row.commit_of_writer hw]
      exact iff_of_true (hv hmarked) (.inr (mem_map.2 ⟨r, hrows ▸ hr, rfl⟩))
    rw [Row.commit_of_ne hne, h.marked id row hrow]
    rw [hrows] at hid
    exact (or_iff_left hid).symm
  · rcases mem_append.1 hq with hq | hq
    · exact h.data q hq r hr
    rw [mem_singleton.1 hq] at hr
    obtain ⟨-, -, -, hr2, -⟩ := h.locked k r (hrows ▸ hr)
    exact hr2
  · show ((s.fanned ++ [p]).flatMap fun p => p.rows.map (·.1)).Nodup
    rw [hids]
    refine nodup_append.2 ⟨h.once, ?_, fun a ha b hb hab => ?_⟩
    · exact hrows ▸ (nodup_append.1 (h.nodup k)).1
    · -- what is fanned out is marked, and what is claimed was not
      obtain ⟨r, hr, rfl⟩ := mem_map.1 hb
      obtain ⟨row, v, hr1, -, hr3, -, -⟩ := h.locked k r (hrows ▸ hr)
      have := (h.marked r.1 row hr1).2 (hab ▸ ha)
      rw [hr3] at this
      cases this

theorem rollback (k : Nat) : Locks (s.rollback k) := by
  refine h.finish (fun r => Row.rollback_of_ne) (fun r v hw => by rw [Row.rollback_of_writer hw]; rfl)
    (KeyedRows.row_rollback k) (KeyedRows.data_updateRows _ _) rfl (fun id row hrow => ?_) h.data h.once
  have hsame : (row.rollback k).committed = row.committed := by
    rcases h.writer_cases hrow k with ⟨r, v, -, -, hw, -⟩ | ⟨-, hne⟩
    · rw [Row.rollback_of_writer hw]
      rfl
    · rw [Row.rollback_of_ne hne]
  rw [hsame]
  exact h.marked id row hrow

theorem act (e : Event) : Locks (s.act e) := by
  cases e with
  | enqueue id n => exact h.enqueue id n
  | create c => exact h.congr rfl rfl rfl (fun _ hm => hm) h.nodup
  | edit id enabled events minSeverity => exact h.congr rfl rfl rfl (fun _ hm => hm) h.nodup
  | start k => exact h.start k
  | lock k => exact h.lock k
  | pass k => exact h.pass k
  | list k now maxAge => exact h.list k now maxAge
  | insert k => exact h.insert k
  | mark k now => exact h.mark k now
  | commit k now => exact h.commit k now
  | rollback k => exact h.rollback k
  | claimDue now locked => exact h.congr rfl rfl rfl (fun _ hm => hm) h.nodup
  | exec now st => exact h.congr rfl rfl rfl (fun _ hm => hm) h.nodup

theorem step (e : Event) : Locks (s.step e) := (h.act e).congr rfl rfl rfl (fun _ hm => hm) (h.act e).nodup

end Locks
end Dbr2.Notify.FanOut
