import Dbr2.Protection.Deletion

/-! Deletions against restores and cancellations, in every interleaving.

A retention run reads which recovery points are busy and which are due when it lists its candidates;
Begin, which may come much later, only looks at the row's state. So a restore or a cancellation that
lands in between is not respected (`respects_fails`). -/
namespace Dbr2.Protection.Index
open Lib

def acting (s : Index) : Event → Option RetentionCandidate
  | .begin c => if s.proceeds c then some c else none
  | .deleteSnapshot i => (s.deletions[i]?).map (·.candidate)
  | .finish i => (s.deletions[i]?).map (·.candidate)
  | _ => none

/-- No snapshot of a recovery point in use is deleted, and no deletion with
reason manual is carried on after a cancellation that stands. -/
def Respects (s : Index) (e : Event) : Prop :=
  (∀ x ∈ s.snapshots, x ∉ (s.step e).snapshots → s.db.busy x.rpId = false) ∧
  ∀ c ∈ s.acting e, c.reason = .manual → c.recoveryPointId ∉ s.cancelled

instance (s : Index) (e : Event) : Decidable (s.Respects e) := inferInstanceAs (Decidable (_ ∧ _))

/-- A Begin that proceeds finds no active restore of the recovery point, and a
manual one finds it still scheduled. -/
def Clear (s : Index) (e : Event) : Prop :=
  ∀ c ∈ s.begins e, s.db.busy c.recoveryPointId = false ∧ (c.reason = .manual →
      ((s.db.recoveryPoints.get? c.recoveryPointId).bind (·.deleteAfter)).isSome = true)

instance (s : Index) (e : Event) : Decidable (s.Clear e) := by
  unfold Clear
  infer_instance

structure Shielded (s : Index) : Prop where
  own : ∀ d ∈ s.deletions, ∀ xs, d.todo = some xs → ∀ x ∈ xs, x.rpId = d.rpId
  marked : ∀ d ∈ s.deletions, ∀ rp, s.db.recoveryPoints.get? d.rpId = some rp →
    rp.state = .deleting ∨ rp.state = .deleted
  idle : ∀ d ∈ s.deletions, s.db.busy d.rpId = false
  unscheduled : ∀ id ∈ s.cancelled, ∀ rp, s.db.recoveryPoints.get? id = some rp → rp.deleteAfter = none
  manual : ∀ d ∈ s.deletions, d.candidate.reason = .manual → d.rpId ∉ s.cancelled

theorem shielded_init (db : Db) (snaps : List Snapshot) : Shielded (init db snaps) := by
  constructor <;> simp [init]

variable {s : Index} {e : Event}

theorem own_step (h : Shielded s) : ∀ d ∈ (s.step e).deletions, ∀ xs, d.todo = some xs →
    ∀ x ∈ xs, x.rpId = d.rpId := by
  intro d hd xs hxs x hx
  rcases step_deletion hd with ⟨c, -, -, rfl⟩ | ⟨d₀, hd₀, hc, htodo⟩
  · cases hxs
  rcases htodo xs hxs x hx with hid | ⟨ys, hys, hy⟩
  · exact hid
  · rw [Deletion.rpId, hc]
    exact h.own d₀ hd₀ ys hys x hy

theorem rowStep_marked {rp : RecoveryPoint} (h : rp.state = .deleting ∨ rp.state = .deleted) :
    (s.rowStep e rp).state = .deleting ∨ (s.rowStep e rp).state = .deleted := by
  unfold rowStep
  repeat' split
  all_goals first | exact h | exact .inl rfl | exact .inr rfl

theorem rowStep_begin {c : RetentionCandidate} {rp : RecoveryPoint} (hp : s.proceeds c)
    (hget : s.db.recoveryPoints.get? c.recoveryPointId = some rp) :
    s.rowStep (.begin c) rp = Db.setState .deleting rp := by
  obtain ⟨rp', hget', hs⟩ := Db.begin_proceeds.1 hp.2
  rw [hget] at hget'
  obtain rfl := Option.some.inj hget'
  exact if_pos ⟨(RecoveryPoints.get?_eq_some.1 hget).2.symm, hp.1, hs⟩

theorem marked_step (h : Shielded s) : ∀ d ∈ (s.step e).deletions, ∀ rp,
    (s.step e).db.recoveryPoints.get? d.rpId = some rp →
    rp.state = .deleting ∨ rp.state = .deleted := by
  intro d hd rp hrp
  rw [step_get?, Option.map_eq_some_iff] at hrp
  obtain ⟨rp₀, hget, rfl⟩ := hrp
  rcases step_deletion hd with ⟨c, rfl, hp, rfl⟩ | ⟨d₀, hd₀, hc, -⟩
  · rw [rowStep_begin hp hget]
    exact .inl rfl
  · rw [Deletion.rpId, hc] at hget
    exact rowStep_marked (h.marked d₀ hd₀ rp₀ hget)

theorem not_restorable (h : Shielded s) {d : Deletion} (hd : d ∈ s.deletions) : s.db.restorable d.rpId = false := by
  unfold Db.restorable
  cases hget : s.db.recoveryPoints.get? d.rpId with
  | none => rfl
  | some rp => rcases h.marked d hd rp hget with hs | hs <;> simp [hs]

/-- No deletion of a recovery point that a restore reads. -/
theorem idle_step (h : Shielded s) (he : s.Clear e) :
    ∀ d ∈ (s.step e).deletions, (s.step e).db.busy d.rpId = false := by
  intro d hd
  by_contra hb
  rcases step_deletion hd with ⟨c, rfl, hp, rfl⟩ | ⟨d₀, hd₀, hc, -⟩
  · rcases step_busy (Bool.not_eq_false _ ▸ hb) with hb | ⟨run, h', -⟩
    · rw [Deletion.rpId, (he c (begins_begin hp)).1] at hb
      cases hb
    · cases h'
  rw [Deletion.rpId, hc] at hb
  rcases step_busy (Bool.not_eq_false _ ▸ hb) with hb | ⟨run, -, hr⟩
  · rw [show d₀.candidate.recoveryPointId = d₀.rpId from rfl, h.idle d₀ hd₀] at hb
    cases hb
  · rw [show d₀.candidate.recoveryPointId = d₀.rpId from rfl, not_restorable h hd₀] at hr
    cases hr

theorem unscheduled_step (h : Shielded s) : ∀ id ∈ (s.step e).cancelled, ∀ rp,
    (s.step e).db.recoveryPoints.get? id = some rp → rp.deleteAfter = none := by
  intro id hid rp hrp
  rw [step_get?, Option.map_eq_some_iff] at hrp
  obtain ⟨rp₀, hget, rfl⟩ := hrp
  have hrid := (RecoveryPoints.get?_eq_some.1 hget).2
  rcases step_cancelled hid with ⟨rfl, r, hr, hs⟩ | ⟨hid, hns⟩
  · rw [hget] at hr
    obtain rfl := Option.some.inj hr
    simp [rowStep, hrid, hs]
  have hnone := h.unscheduled id hid rp₀ hget
  cases e with
  | schedule x =>
    have : ¬ (x = rp₀.id ∧ Db.schedulable rp₀ = true) := fun hx => by
      have := hns rp₀ hget (by rw [hx.1, hrid])
      rw [hx.2] at this
      cases this
    rw [rowStep, if_neg this, hnone]
  | _ =>
    simp only [rowStep]
    repeat' split
    all_goals first | exact hnone | rfl

theorem begin_not_cancelled {c : RetentionCandidate} (h : Shielded s) (he : s.Clear (.begin c))
    (hp : s.proceeds c) (hm : c.reason = .manual) : c.recoveryPointId ∉ s.cancelled := by
  intro hcan
  obtain ⟨rp, hget, -⟩ := Db.begin_proceeds.1 hp.2
  have hs := (he c (begins_begin hp)).2 hm
  rw [hget, Option.bind_some, h.unscheduled _ hcan rp hget] at hs
  cases hs

theorem manual_step (h : Shielded s) (he : s.Clear e) : ∀ d ∈ (s.step e).deletions,
    d.candidate.reason = .manual → d.rpId ∉ (s.step e).cancelled := by
  intro d hd hm hcan
  rcases step_deletion hd with ⟨c, rfl, hp, rfl⟩ | ⟨d₀, hd₀, hc, -⟩
  · rcases step_cancelled hcan with ⟨h', -⟩ | ⟨hcan, -⟩
    · cases h'
    · exact begin_not_cancelled h he hp hm hcan
  have hid : d.rpId = d₀.rpId := by rw [Deletion.rpId, hc]; rfl
  rw [hid] at hcan
  rcases step_cancelled hcan with ⟨-, rp, hget, hs⟩ | ⟨hcan, -⟩
  · -- a marked row cannot be cancelled
    rcases h.marked d₀ hd₀ rp hget with hst | hst <;> simp [Db.cancellable, hst] at hs
  · exact h.manual d₀ hd₀ (hc ▸ hm) hcan

/-- One event of a clear run, part by part. -/
theorem shielded_step (h : Shielded s) (he : s.Clear e) : Shielded (s.step e) :=
  ⟨own_step h, marked_step h, idle_step h he, unscheduled_step h, manual_step h he⟩

theorem respects_of_shielded (h : Shielded s) (he : s.Clear e) : s.Respects e := by
  refine ⟨fun x hx hx' => ?_, fun c hc hm hcan => ?_⟩
  · obtain ⟨d, hd, xs, hxs⟩ := step_snapshot hx hx'
    rw [h.own d hd _ hxs x List.mem_cons_self]
    exact h.idle d hd
  · have hflight (i : Nat) (hc : (s.deletions[i]?).map (·.candidate) = some c) : False := by
      obtain ⟨d, hd, rfl⟩ := Option.map_eq_some_iff.1 hc
      exact h.manual d (List.mem_of_getElem? hd) hm hcan
    cases e with
    | begin c' =>
      simp only [acting, Option.mem_def] at hc
      split at hc
      · rename_i hp
        obtain rfl := Option.some.inj hc
        exact begin_not_cancelled h he hp hm hcan
      · cases hc
    | deleteSnapshot i => exact hflight i hc
    | finish i => exact hflight i hc
    | _ => cases hc

/-- **Deletions respect restores and cancellations.** In every run whose Begins
are clear, no event deletes a snapshot of a recovery point that a restore is
using, or carries on a manual deletion after its cancellation. -/
theorem respects_of_clear (db : Db) (snaps : List Snapshot) (es : List Event)
    (hes : Along step Clear (init db snaps) es) : Along step Respects (init db snaps) es :=
  hes.imp (shielded_init db snaps) (fun _ _ h he => shielded_step h he) (fun _ _ h he => respects_of_shielded h he)

/-- A restore that starts after the listing loses its snapshot; a deletion
cancelled after the listing is carried out all the same. -/
theorem respects_fails : ¬ Along step Respects dueIndex
      [.list, .startRestore "run" "rp", .begin dueCandidate, .listSnapshots 0, .deleteSnapshot 0] ∧
    ¬ Along step Respects dueIndex [.list, .cancel "rp", .begin dueCandidate] := by
  decide

/-- The same deletion with a restore that is over before its Begin is clear. -/
theorem respects_of_clear_due :
    let es := [.list, .startRestore "run" "rp", .finishRestore "run" .succeeded,
      .begin dueCandidate, .listSnapshots 0, .deleteSnapshot 0, .finish 0]
    Along step Clear dueIndex es ∧ Along step Respects dueIndex es ∧ (run step dueIndex es).snapshots = [] := by
  refine ⟨by decide, respects_of_clear _ _ _ (by decide), by decide⟩

end Dbr2.Protection.Index
