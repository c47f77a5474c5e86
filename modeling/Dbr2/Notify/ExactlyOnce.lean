import Dbr2.Lib.Lists
import Dbr2.Notify.FanOut

/-! Fanning out is exactly once.

A transaction that has read its rows and channels wants certain deliveries. What it has inserted is
that, but for what it is still to insert; and no delivery of its rows is there already, because they
are not marked (`Inserted`). So the committed deliveries are those that the committed transactions
wanted. Each transaction has read the channels as they were at an event of its own (`Dated`). -/
namespace Dbr2.Notify.FanOut
open Lib List

theorem pairs_update (t : Deliveries) (q : Delivery → Bool) (f : Delivery → Delivery) (hf : ∀ r, (f r).id = r.id)
    (hpair : ∀ r, ((f r).notificationID, (f r).channelID) = (r.notificationID, r.channelID)) :
    pairs (t.update q f hf) = pairs t := by
  show (t.table.rows.map _).map _ = _
  rw [map_map]
  refine map_congr_left fun r _ => ?_
  simp only [Function.comp]
  split
  · exact hpair r
  · rfl

theorem pairs_exec (t : Deliveries) (now : Nat) (st : Deliveries.Statement) : pairs (t.exec now st) = pairs t := by
  cases st with
  | markDeliverySent id => exact pairs_update _ _ _ _ fun _ => rfl
  | markDeliveryRetry id err next => exact pairs_update _ _ _ _ fun _ => rfl
  | markDeliveryFailed id err => exact pairs_update _ _ _ _ fun _ => rfl

theorem pairs_insertDelivery (t : Deliveries) (now : Nat) (w : Nat × Nat) :
    pairs (t.insertDelivery now w.1 w.2) = if w ∈ pairs t then pairs t else pairs t ++ [w] := by
  have hiff : (t.table.rows.any fun r => r.notificationID == w.1 && r.channelID == w.2) = true ↔ w ∈ pairs t := by
    simp [pairs, any_eq_true, Prod.ext_iff]
  unfold Deliveries.insertDelivery
  by_cases hw : w ∈ pairs t
  · rw [if_pos (hiff.2 hw), if_pos hw]
  · rw [if_neg (fun hc => hw (hiff.1 hc)), if_neg hw, pairs, Serial.rows_insert, map_append]
    rfl

theorem pairs_insertAll (now : Nat) (ws : List (Nat × Nat)) (t : Deliveries) (h : (pairs t).Nodup) :
    (pairs (ws.foldl (fun t w => t.insertDelivery now w.1 w.2) t)).Nodup ∧
    ∀ w, w ∈ pairs (ws.foldl (fun t w => t.insertDelivery now w.1 w.2) t) ↔ w ∈ pairs t ∨ w ∈ ws := by
  induction ws generalizing t with
  | nil => exact ⟨h, fun w => by simp⟩
  | cons a ws ih =>
    have ha := pairs_insertDelivery t now a
    have hnodup : (pairs (t.insertDelivery now a.1 a.2)).Nodup := by
      rw [ha]
      split
      · exact h
      rename_i hmem
      exact nodup_append.2 ⟨h, nodup_singleton _, fun x hx y hy hxy =>
        hmem (mem_singleton.1 hy ▸ hxy ▸ hx)⟩
    have hmem (w : Nat × Nat) : w ∈ pairs (t.insertDelivery now a.1 a.2) ↔ w ∈ pairs t ∨ w = a := by
      rw [ha]
      split
      · rename_i hold
        exact ⟨.inl, fun hw => hw.elim id fun hwa => hwa ▸ hold⟩
      · simp
    obtain ⟨ih1, ih2⟩ := ih (t.insertDelivery now a.1 a.2) hnodup
    refine ⟨ih1, fun w => ?_⟩
    rw [foldl_cons, ih2, hmem, mem_cons, or_assoc]

variable {k j : Nat} {p : Plan}

theorem mem_inserts {w : Nat × Nat} (h : w ∈ p.inserts) : w.1 ∈ p.rows.map (·.1) := by
  obtain ⟨r, hr, hw⟩ := mem_flatMap.1 h
  split at hw
  · cases hw
  · obtain ⟨c, -, rfl⟩ := mem_map.1 hw
    exact mem_map.2 ⟨r, hr, rfl⟩

/-- What a transaction has inserted is what it wants but for what it is still to insert, and the
committed deliveries are what the committed transactions wanted. -/
structure Inserted (s : State) : Prop where
  sound : ∀ k w, (k, w) ∈ s.pending → ∃ p, s.plan k = some p ∧ w ∈ p.inserts
  complete : ∀ k p, s.plan k = some p → ∀ w ∈ p.inserts, w ∈ s.todo k ∨ (k, w) ∈ s.pending
  rest : ∀ k p, s.plan k = some p → ∀ w ∈ s.todo k, w ∈ p.inserts
  pairs : ∀ w, w ∈ pairs s.deliveries ↔ ∃ p ∈ s.fanned, w ∈ p.inserts
  nodup : (FanOut.pairs s.deliveries).Nodup

namespace Inserted
variable {s s' : State} (h : Inserted s)
include h

theorem congr (hpend : s'.pending = s.pending) (hplan : s'.plan = s.plan) (htodo : s'.todo = s.todo)
    (hpairs : FanOut.pairs s'.deliveries = FanOut.pairs s.deliveries) (hfan : s'.fanned = s.fanned) : Inserted s' := by
  refine ⟨?_, ?_, ?_, ?_, ?_⟩
  · rw [hpend, hplan]
    exact h.sound
  · rw [hpend, hplan, htodo]
    exact h.complete
  · rw [hplan, htodo]
    exact h.rest
  · rw [hpairs, hfan]
    exact h.pairs
  · rw [hpairs]
    exact h.nodup

variable {k : Nat}

theorem setTx {ph : Option Phase} (hplan : ph.bind Phase.plan = s.plan k)
    (htodo : (ph.map Phase.todo).getD [] = s.todo k) : Inserted (s.setTx k ph) := by
  refine h.congr rfl (funext fun j => ?_) (funext fun j => ?_) rfl rfl
  · rw [State.plan, State.txs_setTx]
    split
    · rename_i hj
      rw [hj, hplan]
    · rfl
  · rw [State.todo, State.txs_setTx]
    split
    · rename_i hj
      rw [hj, htodo]
    · rfl

theorem start (k : Nat) : Inserted (s.start k) := by
  unfold State.start
  split
  · rename_i hk
    refine h.setTx ?_ ?_
    · rw [State.plan, hk]
      rfl
    · rw [State.todo, hk]
      rfl
  · exact h

theorem claiming {todo todo' : List Nat} {rows rows' : List (Nat × Note)}
    (hk : s.txs k = some (.claiming todo rows)) : Inserted (s.setTx k (some (.claiming todo' rows'))) := by
  refine h.setTx ?_ ?_
  · rw [State.plan, hk]
    rfl
  · rw [State.todo, hk]
    rfl

theorem lock (k : Nat) : Inserted (s.lock k) := by
  unfold State.lock
  split
  case h_2 => exact h
  rename_i id todo rows hk
  split
  case isFalse => exact h
  split
  · split
    · rename_i e _ _
      have ho : Inserted (s.setOutbox (s.outbox.setRow id fun r => ⟨r.committed, some (k, r.seen k)⟩)) :=
        h.congr rfl rfl rfl rfl rfl
      exact ho.claiming hk
    · exact h.claiming hk
  · exact h.claiming hk

theorem pass (k : Nat) : Inserted (s.pass k) := by
  unfold State.pass
  split
  · rename_i hk
    exact h.claiming hk
  · exact h

theorem list (k : Nat) (now maxAge : Int) : Inserted (s.list k now maxAge) := by
  unfold State.list
  split
  case h_2 => exact h
  rename_i todo rows hk
  have hnone : s.plan k = none := by rw [State.plan, hk]; rfl
  split
  case isFalse => exact h
  split
  · refine h.setTx hnone.symm ?_
    rw [State.todo, hk]
    rfl
  -- the plan is new, and all of it is still to be inserted
  refine ⟨fun j w hw => ?_, fun j p hp w hw => ?_, fun j p hp w hw => ?_, h.pairs, h.nodup⟩
  · obtain ⟨p, hp, hmem⟩ := h.sound j w hw
    have hj : j ≠ k := by
      intro hj
      rw [hj, hnone] at hp
      cases hp
    exact ⟨p, by rw [State.plan, State.txs_setTx, if_neg hj]; exact hp, hmem⟩
  · rw [State.plan, State.txs_setTx] at hp
    rw [State.todo, State.txs_setTx]
    split at hp
    · rename_i hj
      cases hp
      rw [if_pos hj]
      exact .inl hw
    rename_i hj
    rw [if_neg hj]
    exact h.complete j p hp w hw
  · rw [State.plan, State.txs_setTx] at hp
    rw [State.todo, State.txs_setTx] at hw
    split at hp
    · rename_i hj
      cases hp
      rw [if_pos hj] at hw
      exact hw
    rename_i hj
    rw [if_neg hj] at hw
    exact h.rest j p hp w hw

theorem not_mem_pairs (hl : Locks s) {p : Plan} (hp : s.plan k = some p) {w : Nat × Nat}
    (hw : w ∈ p.inserts) : w ∉ FanOut.pairs s.deliveries := by
  intro hmem
  obtain ⟨q, hq, hwq⟩ := (h.pairs w).1 hmem
  obtain ⟨r, hr, hr1⟩ := mem_map.1 (mem_inserts hw)
  obtain ⟨row, v, hrow, -, hnone, -⟩ := hl.locked k r (State.rowsOf_plan hp ▸ hr)
  have hmarked := (hl.marked r.1 row hrow).2 (mem_flatMap.2 ⟨q, hq, hr1 ▸ mem_inserts hwq⟩)
  rw [hnone] at hmarked
  cases hmarked

theorem next {p : Plan} {w : Nat × Nat} {todo : List (Nat × Nat)} (hk : s.txs k = some (.inserting p (w :: todo)))
    {pending : List (Nat × (Nat × Nat))} (hpend : ∀ q, q ∈ pending ↔ q ∈ s.pending ∨ q = (k, w)) :
    Inserted ({s with pending := pending}.setTx k (some (.inserting p todo))) := by
  have hplan : s.plan k = some p := by rw [State.plan, hk]; rfl
  have htodo : s.todo k = w :: todo := by rw [State.todo, hk]; rfl
  have hplan' : ({s with pending := pending}.setTx k (some (.inserting p todo))).plan = s.plan := by
    funext j
    rw [State.plan, State.txs_setTx]
    split
    · rename_i hj
      rw [hj, hplan]
      rfl
    · rfl
  have htodo' (j : Nat) : ({s with pending := pending}.setTx k (some (.inserting p todo))).todo j =
      if j = k then todo else s.todo j := by
    rw [State.todo, State.txs_setTx]
    split <;> rfl
  refine ⟨fun j x hx => ?_, fun j q hq x hx => ?_, fun j q hq x hx => ?_, h.pairs, h.nodup⟩
  · rw [hplan']
    rcases (hpend _).1 hx with hx | hx
    · exact h.sound j x hx
    · cases hx
      exact ⟨p, hplan, h.rest k p hplan w (htodo ▸ mem_cons_self)⟩
  · rw [hplan'] at hq
    rw [htodo']
    rcases h.complete j q hq x hx with hx | hx
    · split
      · rename_i hj
        rw [hj, htodo] at hx
        rcases mem_cons.1 hx with rfl | hx
        · exact .inr ((hpend _).2 (.inr (by rw [hj])))
        · exact .inl hx
      · exact .inl hx
    · exact .inr ((hpend _).2 (.inl hx))
  · rw [hplan'] at hq
    rw [htodo'] at hx
    split at hx
    · rename_i hj
      rw [hj] at hq
      exact h.rest k q hq x (htodo ▸ mem_cons_of_mem w hx)
    · exact h.rest j q hq x hx

theorem insert (hl : Locks s) (k : Nat) : Inserted (s.insert k) := by
  unfold State.insert
  split
  case h_2 => exact h
  rename_i p w todo hk
  have hplan : s.plan k = some p := by rw [State.plan, hk]; rfl
  have htodo : s.todo k = w :: todo := by rw [State.todo, hk]; rfl
  have hw :=
    h.not_mem_pairs hl hplan (h.rest k p hplan w (htodo ▸ mem_cons_self))
  split
  · exact h
  split
  · -- only its own earlier insert can stand in the way
    rename_i hthere
    have hmem : (k, w) ∈ s.pending := by simpa [hw] using hthere
    exact h.next hk fun q => ⟨.inl, fun hq => hq.elim id fun he => he ▸ hmem⟩
  · exact h.next hk fun q => by simp

theorem mark (k : Nat) (now : Int) : Inserted (s.mark k now) := by
  unfold State.mark
  split
  case h_2 => exact h
  rename_i p hk
  simp only
  split
  · have ho (t : KeyedRows Note (Option Int)) : Inserted (s.setOutbox t) := h.congr rfl rfl rfl rfl rfl
    refine (ho _).setTx ?_ ?_
    · exact (congrArg (·.bind Phase.plan) hk).symm
    · exact (congrArg (fun ph => (ph.map Phase.todo).getD []) hk).symm
  · exact h

theorem finish (hpend : s'.pending = s.pending.filter (·.1 != k)) (htxs : s'.txs = Function.update s.txs k none)
    (hpairs : ∀ w, w ∈ FanOut.pairs s'.deliveries ↔ ∃ p ∈ s'.fanned, w ∈ p.inserts)
    (hnodup : (FanOut.pairs s'.deliveries).Nodup) : Inserted s' := by
  have htx (j : Nat) : s'.txs j = if j = k then none else s.txs j := by rw [htxs, Function.update_apply]
  have hmem (j : Nat) (w : Nat × Nat) : (j, w) ∈ s'.pending ↔ (j, w) ∈ s.pending ∧ j ≠ k := by
    rw [hpend, mem_filter, bne_iff_ne]
  refine ⟨fun j w hw => ?_, fun j p hp w hw => ?_, fun j p hp w hw => ?_, hpairs, hnodup⟩
  · obtain ⟨hw, hj⟩ := (hmem j w).1 hw
    rw [State.plan, htx, if_neg hj]
    exact h.sound j w hw
  · rw [State.plan, htx] at hp
    split at hp
    · cases hp
    rename_i hj
    rw [State.todo, htx, if_neg hj, hmem]
    exact (h.complete j p hp w hw).imp id fun hq => ⟨hq, hj⟩
  · rw [State.plan, htx] at hp
    split at hp
    · cases hp
    rename_i hj
    rw [State.todo, htx, if_neg hj] at hw
    exact h.rest j p hp w hw

theorem commit (k now : Nat) : Inserted (s.commit k now) := by
  unfold State.commit
  split
  case h_2 => exact h
  rename_i p hk
  have hplan : s.plan k = some p := by rw [State.plan, hk]; rfl
  have htodo : s.todo k = [] := by rw [State.todo, hk]; rfl
  obtain ⟨hnodup, hmem⟩ := pairs_insertAll now ((s.pending.filter (·.1 == k)).map (·.2)) s.deliveries h.nodup
  refine h.finish rfl rfl (fun w => ?_) hnodup
  -- what it has inserted is what it wants
  have hown : w ∈ (s.pending.filter (·.1 == k)).map (·.2) ↔ w ∈ p.inserts := by
    constructor
    · intro hw
      obtain ⟨⟨j, x⟩, hq, rfl⟩ := mem_map.1 hw
      obtain ⟨hpend, hj⟩ := mem_filter.1 hq
      have hjk := beq_iff_eq.1 hj
      subst hjk
      obtain ⟨p', hp', hin⟩ := h.sound j x hpend
      rw [hplan] at hp'
      cases hp'
      exact hin
    · intro hw
      have := (h.complete k p hplan w hw).resolve_left (by simp [htodo])
      exact mem_map.2 ⟨(k, w), mem_filter.2 ⟨this, beq_self_eq_true k⟩, rfl⟩
  rw [hmem, h.pairs, hown]
  simp [or_and_right, exists_or]

theorem rollback (k : Nat) : Inserted (s.rollback k) := h.finish rfl rfl h.pairs h.nodup

theorem act (hl : Locks s) (e : Event) : Inserted (s.act e) := by
  cases e with
  | enqueue id n => exact h.congr rfl rfl rfl rfl rfl
  | create c => exact h.congr rfl rfl rfl rfl rfl
  | edit id enabled events minSeverity => exact h.congr rfl rfl rfl rfl rfl
  | start k => exact h.start k
  | lock k => exact h.lock k
  | pass k => exact h.pass k
  | list k now maxAge => exact h.list k now maxAge
  | insert k => exact h.insert hl k
  | mark k now => exact h.mark k now
  | commit k now => exact h.commit k now
  | rollback k => exact h.rollback k
  | claimDue now locked => exact h.congr rfl rfl rfl (pairs_update _ _ _ _ fun _ => rfl) rfl
  | exec now st => exact h.congr rfl rfl rfl (pairs_exec _ now st) rfl

theorem step (hl : Locks s) (e : Event) : Inserted (s.step e) := (h.act hl e).congr rfl rfl rfl rfl rfl

end Inserted
def reached (es : List Event) : State := run State.step State.init es

theorem reached_append (es : List Event) (e : Event) : reached (es ++ [e]) = (reached es).step e := run_append ..

/-- The invariants hold in every reachable state. -/
theorem reached_inv (es : List Event) : Locks (reached es) ∧ Inserted (reached es) := by
  refine run_invariant (I := fun s => Locks s ∧ Inserted s) ⟨locks_init, ?_⟩
    (fun s e h => ⟨h.1.step e, h.2.step h.1 e⟩) es
  refine ⟨?_, ?_, ?_, ?_, nodup_nil⟩
  · intro k w hw
    cases hw
  · intro k p hp
    cases hp
  · intro k p hp
    cases hp
  · intro w
    simp [State.init, pairs, Table.empty]

def Fresh (s : State) (p : Plan) : Prop := p.listedAt = s.clock ∧ p.channels = s.channels.rows

variable {s : State}

/-- What a transaction's phase becomes: it keeps its plan, or loses it, or has one that is made out
of the channels. -/
def Continues (s : State) (k : Nat) (ph : Option Phase) : Prop :=
  ∀ p, ph.bind Phase.plan = some p → s.plan k = some p ∨ Fresh s p

theorem act_cases (s : State) (e : Event) : ((s.act e).txs = s.txs ∧ (s.act e).fanned = s.fanned) ∨
      ∃ k ph, (s.act e).txs = Function.update s.txs k ph ∧ Continues s k ph ∧
        ∀ p ∈ (s.act e).fanned, p ∈ s.fanned ∨ s.plan k = some p := by
  have hold {k : Nat} {p : Plan} (hp : p ∈ s.fanned) : p ∈ s.fanned ∨ s.plan k = some p := .inl hp
  cases e with
  | enqueue id n => exact .inl ⟨rfl, rfl⟩
  | create c => exact .inl ⟨rfl, rfl⟩
  | edit id enabled events minSeverity => exact .inl ⟨rfl, rfl⟩
  | claimDue now locked => exact .inl ⟨rfl, rfl⟩
  | exec now st => exact .inl ⟨rfl, rfl⟩
  | rollback k => exact .inr ⟨k, none, rfl, nofun, fun _ => hold⟩
  | start k =>
    simp only [State.act, State.start]
    split
    · exact .inr ⟨k, _, rfl, nofun, fun _ => hold⟩
    · exact .inl ⟨rfl, rfl⟩
  | pass k =>
    simp only [State.act, State.pass]
    split
    · exact .inr ⟨k, _, rfl, nofun, fun _ => hold⟩
    · exact .inl ⟨rfl, rfl⟩
  | lock k =>
    simp only [State.act, State.lock]
    split
    · split
      · split
        · split <;> exact .inr ⟨k, _, rfl, nofun, fun _ => hold⟩
        · exact .inr ⟨k, _, rfl, nofun, fun _ => hold⟩
      · exact .inl ⟨rfl, rfl⟩
    · exact .inl ⟨rfl, rfl⟩
  | list k now maxAge =>
    simp only [State.act, State.list]
    split
    · split
      · split
        · exact .inr ⟨k, _, rfl, nofun, fun _ => hold⟩
        refine .inr ⟨k, _, rfl, fun p hp => ?_, fun _ => hold⟩
        cases hp
        exact .inr ⟨rfl, rfl⟩
      · exact .inl ⟨rfl, rfl⟩
    · exact .inl ⟨rfl, rfl⟩
  | insert k =>
    simp only [State.act, State.insert]
    split
    · rename_i p w todo hk
      have hsame : Continues s k (some (.inserting p todo)) := fun q hq => .inl (by rw [State.plan, hk]; exact hq)
      split
      · exact .inl ⟨rfl, rfl⟩
      · split <;> exact .inr ⟨k, _, rfl, hsame, fun _ => hold⟩
    · exact .inl ⟨rfl, rfl⟩
  | mark k now =>
    simp only [State.act, State.mark]
    split
    · rename_i p hk
      split
      · exact .inr ⟨k, _, rfl, fun q hq => .inl (by rw [State.plan, hk]; exact hq), fun _ => hold⟩
      · exact .inl ⟨rfl, rfl⟩
    · exact .inl ⟨rfl, rfl⟩
  | commit k now =>
    simp only [State.act, State.commit]
    split
    · rename_i p hk
      refine .inr ⟨k, none, rfl, nofun, fun q hq => (mem_append.1 hq).imp_right fun hq => ?_⟩
      rw [mem_singleton.1 hq, State.plan, hk]
      rfl
    · exact .inl ⟨rfl, rfl⟩

/-- A plan comes from a listing and does not change. -/
theorem plan_step {e : Event} (hp : (s.step e).plan j = some p) : s.plan j = some p ∨ Fresh s p := by
  change ((s.act e).txs j).bind Phase.plan = some p at hp
  rcases act_cases s e with ⟨hsame, -⟩ | ⟨k, ph, hset, hph, -⟩
  · rw [hsame] at hp
    exact .inl hp
  rw [hset, Function.update_apply] at hp
  split at hp
  · rename_i hj
    rw [hj]
    exact hph p hp
  · exact .inl hp

/-- Only what was planned is fanned out. -/
theorem fanned_step {e : Event} (hp : p ∈ (s.step e).fanned) : p ∈ s.fanned ∨ ∃ k, s.plan k = some p := by
  change p ∈ (s.act e).fanned at hp
  rcases act_cases s e with ⟨-, hsame⟩ | ⟨k, ph, -, -, hfan⟩
  · rw [hsame] at hp
    exact .inl hp
  · exact (hfan p hp).imp_right fun hk => ⟨k, hk⟩

/-- The channels are those of a moment of the run, which `listedAt` names; that this event is
the transaction's own listing is what `act` does there. -/
def Dated (es : List Event) (p : Plan) : Prop :=
  p.listedAt < es.length ∧ p.channels = (reached (es.take p.listedAt)).channels.rows

theorem Dated.append {es : List Event} (h : Dated es p) (e : Event) : Dated (es ++ [e]) p := by
  obtain ⟨hlt, hchan⟩ := h
  refine ⟨?_, ?_⟩
  · rw [length_append]
    omega
  · rw [take_append_of_le_length (by omega)]
    exact hchan

theorem reached_clock (es : List Event) : (reached es).clock = es.length := by
  induction es using List.reverseRecOn with
  | nil => rfl
  | append_singleton es e ih =>
    rw [reached_append, length_append, length_singleton, ← ih]
    rfl

theorem reached_dated (es : List Event) :
    (∀ k p, (reached es).plan k = some p → Dated es p) ∧ ∀ p ∈ (reached es).fanned, Dated es p := by
  induction es using List.reverseRecOn with
  | nil =>
    refine ⟨fun k p hp => ?_, fun p hp => ?_⟩
    · cases hp
    · cases hp
  | append_singleton es e ih =>
    rw [reached_append]
    refine ⟨fun k p hp => ?_, fun p hp => ?_⟩
    · rcases plan_step hp with hold | ⟨hat, hchan⟩
      · exact (ih.1 k p hold).append e
      rw [reached_clock] at hat
      refine ⟨?_, ?_⟩
      · rw [hat, length_append, length_singleton]
        omega
      · rw [hat, take_left', hchan]
        rfl
    · rcases fanned_step hp with hold | ⟨k, hk⟩
      · exact (ih.2 p hold).append e
      · exact (ih.1 k p hk).append e

/-- A notification within the age limit goes to a channel of its organisation that was enabled and
matches it. -/
def Plan.wants (p : Plan) (n : Note) (channelID : Nat) : Bool :=
  decide (p.cutoff ≤ n.createdAt) && p.channels.any fun c => c.id == channelID && c.enabled &&
    c.orgID == n.orgID && matchesFilters c.events c.minSeverity n.eventType n.severity

theorem mem_inserts_iff (hids : (p.rows.map (·.1)).Nodup) {id : Nat} {n : Note} (hr : (id, n) ∈ p.rows)
    (c : Nat) : (id, c) ∈ p.inserts ↔ p.wants n c = true := by
  have hchan (d : Channel) : d ∈ listEnabledNotificationChannels p.channels ↔ d ∈ p.channels ∧ d.enabled = true := by
    rw [listEnabledNotificationChannels, mem_insertionSort, mem_filter]
  have hloop : (id, c) ∈ p.inserts ↔ ¬ n.createdAt < p.cutoff ∧ ∃ d ∈ listEnabledNotificationChannels p.channels,
      (d.orgID = n.orgID ∧ matchesFilters d.events d.minSeverity n.eventType n.severity = true) ∧ d.id = c := by
    constructor
    · intro h
      obtain ⟨r, hr', hw⟩ := mem_flatMap.1 h
      split at hw
      · cases hw
      rename_i hage
      obtain ⟨d, hd, he⟩ := mem_map.1 hw
      obtain ⟨hid, rfl⟩ := Prod.mk.inj he
      have hrn := inj_on_of_nodup_map hids hr' hr hid
      subst hrn
      obtain ⟨hd, hcond⟩ := mem_filter.1 hd
      exact ⟨hage, d, hd, by simpa using hcond, rfl⟩
    · intro ⟨hage, d, hd, hcond, he⟩
      refine mem_flatMap.2 ⟨(id, n), hr, ?_⟩
      rw [if_neg hage]
      exact mem_map.2 ⟨d, mem_filter.2 ⟨hd, by simpa using hcond⟩, by rw [he]⟩
  rw [hloop]
  simp only [hchan, Plan.wants, Bool.and_eq_true, decide_eq_true_eq, any_eq_true, beq_iff_eq, not_lt]
  refine and_congr_right fun _ => exists_congr fun d => ?_
  tauto

/-- **Fan-out is exactly once.** In any run, once every notification is marked: no notification was
fanned out by two committed transactions; each committed transaction has read the channels as they
were at an event of the run; each notification was fanned out by one of them, and for every
channel there is exactly one delivery if that transaction's channels want it, and otherwise none;
and there is no other delivery. -/
theorem fanOut_exactly_once (es : List Event) (hall : ∀ e ∈ (reached es).outbox.rows, e.row.committed.isSome = true) :
    ((reached es).fanned.flatMap fun p => p.rows.map (·.1)).Nodup ∧
    (∀ p ∈ (reached es).fanned, Dated es p) ∧
    (∀ id n, (reached es).outbox.data id = some n → ∃ p ∈ (reached es).fanned, (id, n) ∈ p.rows ∧
      ∀ c, (pairs (reached es).deliveries).count (id, c) = if p.wants n c then 1 else 0) ∧
    (∀ w ∈ pairs (reached es).deliveries, ((reached es).outbox.data w.1).isSome = true) := by
  obtain ⟨hl, hi⟩ := reached_inv es
  refine ⟨hl.once, (reached_dated es).2, fun id n hn => ?_, fun w hw => ?_⟩
  · obtain ⟨e, he, hdata⟩ := Option.map_eq_some_iff.1 hn
    have hmarked := (hl.marked id e.row (KeyedRows.row_of_find he)).1 (hall e (Table.find_eq_some_iff.1 he).1)
    obtain ⟨p, hp, hid⟩ := mem_flatMap.1 hmarked
    obtain ⟨r, hr, rfl⟩ := mem_map.1 hid
    have hrn := Option.some.inj ((hl.data p hp r hr).symm.trans hn)
    subst hrn
    have hids := (nodup_flatMap.1 hl.once).1 p hp
    refine ⟨p, hp, hr, fun c => ?_⟩
    -- a committed transaction that wants the pair has claimed the row, so it is this one
    have hmem : (r.1, c) ∈ pairs (reached es).deliveries ↔ p.wants r.2 c = true := by
      rw [hi.pairs, ← mem_inserts_iff hids hr]
      refine ⟨fun ⟨q, hq, hw⟩ => ?_, fun hw => ⟨p, hp, hw⟩⟩
      have hqp := eq_of_mem_flatMap hl.once hq hp (mem_inserts hw) hid
      exact hqp ▸ hw
    rw [List.Nodup.count hi.nodup]
    simp only [hmem]
  · obtain ⟨p, hp, hin⟩ := (hi.pairs w).1 hw
    obtain ⟨r, hr, hr1⟩ := mem_map.1 (mem_inserts hin)
    rw [← hr1, hl.data p hp r hr]
    rfl

/-- Two servers fan out at once. The first one is rolled back and starts again, the second one passes
over what is locked; a channel is disabled after its transaction has read it. -/
def twoServers : List Event :=
  let warning := severityWarning
  [.create ⟨1, 7, true, [], severityInfo⟩, .create ⟨2, 7, true, ["backup.*".toList], warning⟩,
   .create ⟨3, 8, true, [], warning⟩,
   .enqueue 10 ⟨7, "backup.failed".toList, warning, 100⟩, .enqueue 11 ⟨7, "agent.online".toList, severityInfo, 0⟩,
   .start 0, .start 1, .lock 0, .lock 1, .lock 1, .list 1 150 100, .edit 1 false [] severityInfo,
   .insert 1, .rollback 0, .mark 1 151, .commit 1 151,
   .start 0, .lock 0, .list 0 160 100, .insert 0, .edit 2 false [] warning, .mark 0 161, .commit 0 161]

theorem fanOut_exactly_once_twoServers : pairs (reached twoServers).deliveries = [(10, 2)] ∧
    (reached twoServers).fanned.map (fun p => p.rows.map (·.1)) = [[11], [10]] ∧
    ((reached twoServers).fanned.flatMap fun p => p.rows.map (·.1)).Nodup :=
  ⟨by decide, by decide, (fanOut_exactly_once twoServers (by decide)).1⟩

end Dbr2.Notify.FanOut
