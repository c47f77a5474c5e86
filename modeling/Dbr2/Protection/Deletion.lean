import Dbr2.Protection.Index

/-! What one event of the recovery-point index can do.

`Moves` says it once. Every later proof about runs of the index cites these lemmas and never unfolds
`Index.step`. -/
namespace Dbr2.Protection
open Lib List

namespace Db

variable {db db' : Db} {id : String}

theorem begin_proceeds : (db.beginRecoveryPointDeletion id).2 = true ↔
      ∃ rp, db.recoveryPoints.get? id = some rp ∧ deletable rp.state := by
  unfold beginRecoveryPointDeletion
  cases db.recoveryPoints.get? id with
  | none => simp
  | some rp => by_cases hs : deletable rp.state <;> simp [hs]

theorem finish_failed (db : Db) (id : String) : db.finishRecoveryPointDeletion id true = db := by
  unfold finishRecoveryPointDeletion
  split <;> simp

theorem busy_updateRun {run : String} {st : RestoreRunState}
    (h : (db.updateRun run st).busy id = true) : db.busy id = true := by
  simp only [busy, activeRestores, updateRun, any_eq_true, mem_filter, mem_map] at h ⊢
  obtain ⟨r, ⟨⟨r₀, hr₀, rfl⟩, ha⟩, hid⟩ := h
  by_cases hc : r₀.id = run ∧ r₀.active = true
  · rw [if_pos hc] at hid
    exact ⟨r₀, ⟨hr₀, hc.2⟩, hid⟩
  · rw [if_neg hc] at hid ha
    exact ⟨r₀, ⟨hr₀, ha⟩, hid⟩

end Db

namespace Index

def proceeds (s : Index) (c : RetentionCandidate) : Prop :=
  c ∈ s.listed ∧ (s.db.beginRecoveryPointDeletion c.recoveryPointId).2 = true

instance (s : Index) (c : RetentionCandidate) : Decidable (s.proceeds c) :=
  inferInstanceAs (Decidable (_ ∧ _))

def begins (s : Index) : Event → Option RetentionCandidate
  | .begin c => if s.proceeds c then some c else none
  | _ => none

variable {e : Event} {s : Index}

theorem begins_begin {c : RetentionCandidate} (hp : s.proceeds c) : c ∈ s.begins (.begin c) := if_pos hp

def rowStep (s : Index) : Event → RecoveryPoint → RecoveryPoint
  | .begin c, rp =>
    if c.recoveryPointId = rp.id ∧ c ∈ s.listed ∧ Db.deletable rp.state then Db.setState .deleting rp
    else rp
  | .finish i, rp =>
    match s.deletions[i]? with
    | some ⟨c, some [], _⟩ => if c.recoveryPointId = rp.id then Db.setState .deleted rp else rp
    | _ => rp
  | .schedule x, rp =>
    if x = rp.id ∧ Db.schedulable rp then {rp with deleteAfter := some (s.db.now + deletionGrace)}
    else rp
  | .cancel x, rp => if x = rp.id ∧ Db.cancellable rp then {rp with deleteAfter := none} else rp
  | _, rp => rp

@[simp] theorem rowStep_id (s : Index) (e : Event) (rp : RecoveryPoint) : (s.rowStep e rp).id = rp.id := by
  unfold rowStep
  repeat' split
  all_goals rfl

theorem modify_rows {t : RecoveryPoints} {f g : RecoveryPoint → RecoveryPoint} {r : RecoveryPoint}
    (hr : r ∈ t.rows) (hself : g r = {f r with id := r.id}) (hne : ∀ rp, rp.id ≠ r.id → g rp = rp) :
    (t.modify r.id f).rows = t.rows.map g := by
  refine map_congr_left fun rp hrp => ?_
  by_cases hid : rp.id = r.id
  · have hget := RecoveryPoints.get?_of_mem hrp
    rw [hid, RecoveryPoints.get?_of_mem hr] at hget
    cases hget
    rw [if_pos rfl, hself]
  · rw [if_neg hid, hne rp hid]

theorem same_rows {rows : List RecoveryPoint} {g : RecoveryPoint → RecoveryPoint}
    (h : ∀ rp ∈ rows, g rp = rp) : rows = rows.map g :=
  ((map_congr_left h).trans (map_id' rows)).symm

theorem checked_rows {t : RecoveryPoints} {x : String} {q : RecoveryPoint → Bool} {f : RecoveryPoint → RecoveryPoint}
    (hf : ∀ rp, {f rp with id := rp.id} = f rp) {r : RecoveryPoint} (hget : t.get? x = some r) (hq : q r = true) :
    (t.modify x f).rows = t.rows.map fun rp => if x = rp.id ∧ q rp = true then f rp else rp := by
  obtain ⟨hmem, rfl⟩ := RecoveryPoints.get?_eq_some.1 hget
  apply modify_rows hmem
  · rw [if_pos ⟨rfl, hq⟩, hf]
  · intro rp hrp
    exact if_neg fun h => hrp h.1.symm

def Quiet (s : Index) (e : Event) : Prop := e ≠ .list ∧ ∀ rp ∈ s.db.recoveryPoints.rows, s.rowStep e rp = rp

/-- What an event does: nothing, if it is refused, or what its kind does. -/
inductive Moves (s : Index) : Event → Index → Prop
  | refused {e : Event} (h : s.Quiet e) : Moves s e s
  | tick (d : Nat) : Moves s (.tick d) {s with db := {s.db with now := s.db.now + d}}
  | list : Moves s .list {s with listed := s.listed ++ s.db.listRetentionCandidates}
  | begin {c : RetentionCandidate} {rp : RecoveryPoint} (hp : s.proceeds c)
      (hget : s.db.recoveryPoints.get? c.recoveryPointId = some rp) (hs : Db.deletable rp.state = true) :
      Moves s (.begin c) {s with
        db := s.db.markRecoveryPointDeleting c.recoveryPointId, deletions := s.deletions ++ [⟨c, none, 0⟩]}
  | found {i n : Nat} {c : RetentionCandidate} (hd : s.deletions[i]? = some ⟨c, none, n⟩) :
      Moves s (.listSnapshots i) {s with
        deletions := s.deletions.set i ⟨c, some (deletionOrder s.snapshots c.recoveryPointId), n⟩}
  | delete {i n : Nat} {c : RetentionCandidate} {x : Snapshot} {xs : List Snapshot}
      (hd : s.deletions[i]? = some ⟨c, some (x :: xs), n⟩) :
      Moves s (.deleteSnapshot i) {s with
        deletions := s.deletions.set i ⟨c, some xs, n + 1⟩, snapshots := s.snapshots.erase x}
  | finish {i n : Nat} {c : RetentionCandidate} {rp : RecoveryPoint}
      (hd : s.deletions[i]? = some ⟨c, some [], n⟩) (hget : s.db.recoveryPoints.get? c.recoveryPointId = some rp) :
      Moves s (.finish i) {s with
        db := s.db.markRecoveryPointDeleted c.recoveryPointId, deletions := s.deletions.eraseIdx i}
  | drop {e : Event} {i : Nat} (h : s.Quiet e) : Moves s e {s with deletions := s.deletions.eraseIdx i}
  | startRestore {run x : String} (hr : s.db.restorable x = true) :
      Moves s (.startRestore run x) {s with
        db := {s.db with restoreRuns := ⟨run, x, .requested⟩ :: s.db.restoreRuns}}
  | update {e : Event} {run : String} {st : RestoreRunState}
      (he : e = .prepareRestore run ∨ e = .finishRestore run st) : Moves s e {s with db := s.db.updateRun run st}
  | schedule {x : String} {rp : RecoveryPoint} (hget : s.db.recoveryPoints.get? x = some rp)
      (hs : Db.schedulable rp = true) :
      Moves s (.schedule x) {s with
        db := {s.db with
          recoveryPoints := s.db.recoveryPoints.modify x
            (fun rp => {rp with deleteAfter := some (s.db.now + deletionGrace)})}
        cancelled := s.cancelled.filter (fun y => decide (y ≠ x))}
  | cancel {x : String} {rp : RecoveryPoint} (hget : s.db.recoveryPoints.get? x = some rp)
      (hs : Db.cancellable rp = true) :
      Moves s (.cancel x) {s with
        db := {s.db with recoveryPoints := s.db.recoveryPoints.modify x (fun rp => {rp with deleteAfter := none})}
        cancelled := x :: s.cancelled}

theorem refused_same {t : RecoveryPoints} {x : String} {q : RecoveryPoint → Bool} {f : RecoveryPoint → RecoveryPoint}
    (h : ∀ r, t.get? x = some r → q r = false) :
    ∀ rp ∈ t.rows, (if x = rp.id ∧ q rp = true then f rp else rp) = rp := by
  intro rp hrp
  apply if_neg
  rintro ⟨rfl, hq⟩
  rw [h rp (RecoveryPoints.get?_of_mem hrp)] at hq
  cases hq

theorem begin_moves (s : Index) (c : RetentionCandidate) : s.Moves (.begin c) (s.begin c) := by
  by_cases hp : s.proceeds c
  · obtain ⟨rp, hget, hs⟩ := Db.begin_proceeds.1 hp.2
    have hmoves := Moves.begin hp hget hs
    simpa [begin, hp.1, Db.beginRecoveryPointDeletion, hget, hs] using hmoves
  have hrows : ∀ rp ∈ s.db.recoveryPoints.rows, s.rowStep (.begin c) rp = rp := by
    intro rp hrp
    refine if_neg fun h => hp ⟨h.2.1, Db.begin_proceeds.2 ⟨rp, ?_, h.2.2⟩⟩
    exact h.1 ▸ RecoveryPoints.get?_of_mem hrp
  have hsame : s.begin c = s := by
    unfold begin
    split
    · rename_i hc
      have hno : ¬ (s.db.beginRecoveryPointDeletion c.recoveryPointId).2 = true := fun h => hp ⟨hc, h⟩
      unfold Db.beginRecoveryPointDeletion at hno ⊢
      split at hno
      · rfl
      split at hno
      · exact absurd rfl hno
      · simp_all
    · rfl
  rw [hsame]
  exact .refused ⟨nofun, hrows⟩

theorem finish_moves (s : Index) (i : Nat) : s.Moves (.finish i) (s.finish i) := by
  unfold finish
  split
  · rename_i c n hd
    unfold Db.finishRecoveryPointDeletion
    cases hget : s.db.recoveryPoints.get? c.recoveryPointId with
    | some rp => exact .finish hd hget
    | none =>
      refine .drop ⟨nofun, fun rp hrp => ?_⟩
      simp only [rowStep, hd]
      refine if_neg fun hid => ?_
      rw [hid, RecoveryPoints.get?_of_mem hrp] at hget
      cases hget
  · exact .refused ⟨nofun, fun rp _ => by simp only [rowStep]⟩

theorem schedule_moves (s : Index) (x : String) : s.Moves (.schedule x) (s.schedule x) := by
  unfold schedule Db.scheduleRecoveryPointDeletion
  cases hget : s.db.recoveryPoints.get? x with
  | none => exact .refused ⟨nofun, refused_same fun r hr => by cases hget.symm.trans hr⟩
  | some r =>
    by_cases hs : Db.schedulable r = true
    · simp only [hs, if_true]
      exact .schedule hget hs
    simp only [hs]
    refine .refused ⟨nofun, refused_same fun r' hr' => ?_⟩
    cases (hget.symm.trans hr')
    exact Bool.eq_false_of_not_eq_true hs

theorem cancel_moves (s : Index) (x : String) : s.Moves (.cancel x) (s.cancel x) := by
  unfold cancel Db.cancelRecoveryPointDeletion
  cases hget : s.db.recoveryPoints.get? x with
  | none => exact .refused ⟨nofun, refused_same fun r hr => by cases hget.symm.trans hr⟩
  | some r =>
    by_cases hs : Db.cancellable r = true
    · simp only [hs, if_true]
      exact .cancel hget hs
    simp only [hs]
    refine .refused ⟨nofun, refused_same fun r' hr' => ?_⟩
    cases (hget.symm.trans hr')
    exact Bool.eq_false_of_not_eq_true hs

theorem step_moves (s : Index) (e : Event) : s.Moves e (s.step e) := by
  cases e with
  | tick d => exact .tick d
  | list => exact .list
  | begin c => exact begin_moves s c
  | listSnapshots i =>
    simp only [step, listSnapshots]
    split
    · exact .found ‹_›
    · exact .refused ⟨nofun, fun _ _ => rfl⟩
  | deleteSnapshot i =>
    simp only [step, deleteSnapshot]
    split
    · split
      · exact .delete ‹_›
      · exact .refused ⟨nofun, fun _ _ => rfl⟩
    · exact .refused ⟨nofun, fun _ _ => rfl⟩
  | finish i => exact finish_moves s i
  | fail i =>
    simp only [step, fail, Db.finish_failed]
    split
    · exact .drop ⟨nofun, fun _ _ => rfl⟩
    · exact .refused ⟨nofun, fun _ _ => rfl⟩
  | crash i => exact .drop ⟨nofun, fun _ _ => rfl⟩
  | startRestore run x =>
    simp only [step, Db.startRestore]
    split
    · exact .startRestore ‹_›
    · exact .refused ⟨nofun, fun _ _ => rfl⟩
  | prepareRestore run =>
    simp only [step, Db.prepareRestore]
    split
    · exact .refused ⟨nofun, fun _ _ => rfl⟩
    split
    · exact .update (.inl rfl)
    · exact .refused ⟨nofun, fun _ _ => rfl⟩
  | finishRestore run st => exact .update (.inr rfl)
  | schedule x => exact schedule_moves s x
  | cancel x => exact cancel_moves s x

theorem step_rows (s : Index) (e : Event) :
    (s.step e).db.recoveryPoints.rows = s.db.recoveryPoints.rows.map (s.rowStep e) := by
  have hmoves := step_moves s e
  have hid : s.db.recoveryPoints.rows = s.db.recoveryPoints.rows.map (fun rp => rp) := (map_id' _).symm
  generalize s.step e = s' at hmoves ⊢
  cases hmoves with
  | refused h => exact same_rows h.2
  | drop h => exact same_rows h.2
  | begin hp hget hs =>
    obtain ⟨hmem, hid⟩ := RecoveryPoints.get?_eq_some.1 hget
    dsimp only [Db.markRecoveryPointDeleting]
    rw [← hid]
    refine modify_rows hmem ?_ fun r hr => ?_
    · simp [rowStep, hid, hp.1, hs, Db.setState]
    · simp [rowStep, ← hid, Ne.symm hr]
  | finish hd hget =>
    obtain ⟨hmem, hid⟩ := RecoveryPoints.get?_eq_some.1 hget
    dsimp only [Db.markRecoveryPointDeleted]
    rw [← hid]
    refine modify_rows hmem ?_ fun r hr => ?_
    · simp [rowStep, hd, hid, Db.setState]
    · simp [rowStep, hd, ← hid, Ne.symm hr]
  | schedule hget hs => exact checked_rows (fun _ => rfl) hget hs
  | cancel hget hs => exact checked_rows (fun _ => rfl) hget hs
  | update he => rcases he with rfl | rfl <;> exact hid
  | _ => exact hid

theorem step_get? (s : Index) (e : Event) (id : String) :
    (s.step e).db.recoveryPoints.get? id = (s.db.recoveryPoints.get? id).map (s.rowStep e) := by
  simp only [RecoveryPoints.get?, step_rows, find?_map]
  congr 2
  funext rp
  simp

theorem step_settings (s : Index) (e : Event) :
    (s.step e).db.policies = s.db.policies ∧ (s.step e).db.applications = s.db.applications ∧
      (s.step e).db.zones = s.db.zones ∧ s.db.now ≤ (s.step e).db.now := by
  have hmoves := step_moves s e
  generalize s.step e = s' at hmoves ⊢
  cases hmoves with
  | tick d => exact ⟨rfl, rfl, rfl, Int.le_add_of_nonneg_right (Int.natCast_nonneg d)⟩
  | _ => exact ⟨rfl, rfl, rfl, le_refl _⟩

theorem step_listed (s : Index) (e : Event) :
    (s.step e).listed = s.listed ++ (if e = .list then s.db.listRetentionCandidates else []) := by
  have hmoves := step_moves s e
  generalize s.step e = s' at hmoves ⊢
  cases hmoves with
  | list => rfl
  | refused h => rw [if_neg h.1, append_nil]
  | drop h => rw [if_neg h.1, append_nil]
  | update he => rcases he with rfl | rfl <;> exact (append_nil _).symm
  | _ => exact (append_nil _).symm

/-- A deletion in flight after an event was begun by it, or was in flight before
with the same candidate; the snapshots it has to delete are its own or were on
its list already. -/
theorem step_deletion {d : Deletion} (h : d ∈ (s.step e).deletions) :
    (∃ c, e = .begin c ∧ s.proceeds c ∧ d = ⟨c, none, 0⟩) ∨
    ∃ d₀ ∈ s.deletions, d.candidate = d₀.candidate ∧ ∀ xs, d.todo = some xs → ∀ x ∈ xs,
      x.rpId = d.rpId ∨ ∃ ys, d₀.todo = some ys ∧ x ∈ ys := by
  have hsame (hd : d ∈ s.deletions) : ∃ d₀ ∈ s.deletions, d.candidate = d₀.candidate ∧
      ∀ xs, d.todo = some xs → ∀ x ∈ xs, x.rpId = d.rpId ∨ ∃ ys, d₀.todo = some ys ∧ x ∈ ys :=
    ⟨d, hd, rfl, fun xs hxs x hx => .inr ⟨xs, hxs, hx⟩⟩
  have hmoves := step_moves s e
  generalize s.step e = s' at hmoves h
  cases hmoves with
  | begin hp =>
    rcases mem_append.1 h with h | h
    · exact .inr (hsame h)
    · exact .inl ⟨_, rfl, hp, mem_singleton.1 h⟩
  | found hd =>
    rcases mem_or_eq_of_mem_set h with h | rfl
    · exact .inr (hsame h)
    refine .inr ⟨_, mem_of_getElem? hd, rfl, ?_⟩
    rintro xs hxs x hx
    cases hxs
    left
    simp only [deletionOrder, mem_append, mem_filter, decide_eq_true_eq] at hx
    rcases hx with hx | hx <;> exact hx.1.2
  | delete hd =>
    rcases mem_or_eq_of_mem_set h with h | rfl
    · exact .inr (hsame h)
    refine .inr ⟨_, mem_of_getElem? hd, rfl, ?_⟩
    rintro ys hys y hy
    cases hys
    exact .inr ⟨_, rfl, mem_cons_of_mem _ hy⟩
  | finish => exact .inr (hsame (mem_of_mem_eraseIdx h))
  | drop => exact .inr (hsame (mem_of_mem_eraseIdx h))
  | _ => exact .inr (hsame h)

theorem step_busy {id : String} (h : (s.step e).db.busy id = true) :
    s.db.busy id = true ∨ ∃ run, e = .startRestore run id ∧ s.db.restorable id = true := by
  have hmoves := step_moves s e
  generalize s.step e = s' at hmoves h
  cases hmoves with
  | @startRestore run x hr =>
    by_cases hx : x = id
    · subst hx
      exact .inr ⟨run, rfl, hr⟩
    · left
      simpa [Db.busy, Db.activeRestores, RestoreRun.active, hx] using h
  | update => exact .inl (Db.busy_updateRun h)
  | _ => exact .inl h

theorem step_snapshot {x : Snapshot} (h : x ∈ s.snapshots)
    (h' : x ∉ (s.step e).snapshots) : ∃ d ∈ s.deletions, ∃ xs, d.todo = some (x :: xs) := by
  have hmoves := step_moves s e
  generalize s.step e = s' at hmoves h'
  cases hmoves with
  | @delete i n c y ys hd =>
    by_cases hy : x = y
    · subst hy
      exact ⟨_, mem_of_getElem? hd, ys, rfl⟩
    · exact absurd ((mem_erase_of_ne hy).2 h) h'
  | _ => exact absurd h h'

theorem Quiet.not_schedulable {id : String} (h : s.Quiet e) :
    ∀ rp, s.db.recoveryPoints.get? id = some rp → e = .schedule id → Db.schedulable rp = false := by
  rintro rp hget rfl
  obtain ⟨hmem, hid⟩ := RecoveryPoints.get?_eq_some.1 hget
  have hsame := h.2 rp hmem
  by_contra hs
  rw [rowStep, if_pos ⟨hid.symm, Bool.eq_true_of_not_eq_false hs⟩] at hsame
  have hafter := congrArg RecoveryPoint.deleteAfter hsame
  simp [Db.schedulable, ← hafter] at hs

theorem step_cancelled {id : String} (h : id ∈ (s.step e).cancelled) :
    (e = .cancel id ∧ ∃ rp, s.db.recoveryPoints.get? id = some rp ∧ Db.cancellable rp = true) ∨
    (id ∈ s.cancelled ∧ ∀ rp, s.db.recoveryPoints.get? id = some rp →
      e = .schedule id → Db.schedulable rp = false) := by
  have hmoves := step_moves s e
  generalize s.step e = s' at hmoves h
  cases hmoves with
  | refused hq => exact .inr ⟨h, hq.not_schedulable⟩
  | drop hq => exact .inr ⟨h, hq.not_schedulable⟩
  | update he => exact .inr ⟨h, by rcases he with rfl | rfl <;> simp⟩
  | schedule =>
    simp only [mem_filter, decide_eq_true_eq] at h
    exact .inr ⟨h.1, fun rp _ he => absurd (Event.schedule.inj he).symm h.2⟩
  | cancel hget hs =>
    rcases mem_cons.1 h with rfl | h
    · exact .inl ⟨rfl, _, hget, hs⟩
    · exact .inr ⟨h, by simp⟩
  | _ => exact .inr ⟨h, by simp⟩

end Index
end Dbr2.Protection
