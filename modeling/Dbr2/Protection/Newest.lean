import Mathlib.Data.List.TakeWhile
import Dbr2.Protection.Deletion

/-! Whether retention keeps the newest recovery point nobody asked to delete.

`retentionKeep` counts recovery points that are scheduled for manual deletion like any other: they
are the latest, they fill `keep_last` and they open periods. So a recovery point behind them can be
deleted by retention first, and they are deleted when they become due: nothing is left
(`newest_lost`). A restore that uses it only puts that off, for it ends. -/
namespace Dbr2.Protection
open Lib List

/-- Retention runs, the passage of time and restores, which end by themselves; nobody schedules or cancels a
deletion. -/
def Event.ofRetention : Event → Bool
  | .schedule _ | .cancel _ => false
  | _ => true

namespace Db

def newestUnscheduled (db : Db) (app : String) : Option RecoveryPoint :=
  (db.listCommittedForRetention app).find? (·.deleteAfter.isNone)

def scheduledBefore (db : Db) (app : String) : List RecoveryPoint :=
  (db.listCommittedForRetention app).takeWhile (·.deleteAfter.isSome)

variable {db : Db} {u : RecoveryPoint} {app : String}

theorem newestUnscheduled_eq_some : db.newestUnscheduled app = some u ↔ u.deleteAfter = none ∧ ∃ newer older,
      db.listCommittedForRetention app = newer ++ u :: older ∧
      ∀ rp ∈ newer, rp.deleteAfter.isSome = true := by
  rw [newestUnscheduled, find?_eq_some_iff_append]
  simp

theorem listCommittedForRetention_eq (h : db.newestUnscheduled app = some u) :
    ∃ older, db.listCommittedForRetention app = db.scheduledBefore app ++ u :: older := by
  obtain ⟨hu, newer, older, hl, hn⟩ := newestUnscheduled_eq_some.1 h
  refine ⟨older, ?_⟩
  rw [scheduledBefore, hl, takeWhile_append_of_pos hn]
  simp [hu]

instance : Std.Total newestFirst := ⟨fun a b => le_total b.createdAt a.createdAt⟩

instance : IsTrans RecoveryPoint newestFirst := ⟨fun _ _ _ h h' => le_trans h' h⟩

theorem mem_listCommittedForRetention {rp : RecoveryPoint} : rp ∈ db.listCommittedForRetention app ↔
      rp ∈ db.recoveryPoints.rows ∧ rp.applicationId = app ∧ rp.state = .committed := by
  simp [listCommittedForRetention, mem_filter, committedFor]

theorem listCommittedForRetention_ids (db : Db) (app : String) :
    ((db.listCommittedForRetention app).map (·.id)).Nodup :=
  (((perm_insertionSort _ _).map _).nodup_iff).2 (db.recoveryPoints.ids.sublist (filter_sublist.map _))

theorem scheduled_of_due {c : RetentionCandidate} (h : c ∈ db.dueCandidates) :
    ∃ rp ∈ db.recoveryPoints.rows, rp.id = c.recoveryPointId ∧ rp.deleteAfter.isSome = true := by
  obtain ⟨rp, hrp, hc⟩ := mem_filterMap.1 h
  have hrp := mem_of_mem_take hrp
  rw [mem_insertionSort, mem_filter, isDue, Bool.and_eq_true] at hrp
  split at hc
  · cases hc
  obtain rfl := Option.some.inj hc
  refine ⟨rp, hrp.1, rfl, ?_⟩
  cases hd : rp.deleteAfter <;> simp [hd] at hrp ⊢

theorem unscheduled_listed_iff (hu : u ∈ db.recoveryPoints.rows)
    (hs : u.state = .committed) (hd : u.deleteAfter = none) :
    (∃ c ∈ db.listRetentionCandidates, c.recoveryPointId = u.id) ↔
      db.busy u.id = false ∧ ∃ pol, (u.applicationId, pol) ∈ db.listPolicyAssignments ∧
        u.id ∉ retentionKeep (db.listCommittedForRetention u.applicationId) pol.retention (db.location pol) := by
  have hself {rp : RecoveryPoint} (hrp : rp ∈ db.recoveryPoints.rows) (hid : rp.id = u.id) : rp = u := by
    have h := RecoveryPoints.get?_of_mem hrp
    rw [hid, RecoveryPoints.get?_of_mem hu] at h
    exact (Option.some.inj h).symm
  have hdue : u.id ∉ db.dueCandidates.map (·.recoveryPointId) := by
    intro h
    obtain ⟨c, hc, hid⟩ := mem_map.1 h
    obtain ⟨rp, hrp, hid', hsome⟩ := scheduled_of_due hc
    rw [hself hrp (hid'.trans hid), hd] at hsome
    cases hsome
  constructor
  · rintro ⟨c, hc, hid⟩
    rcases mem_append.1 hc with hc | hc
    · exact absurd (mem_map.2 ⟨c, hc, hid⟩) hdue
    obtain ⟨⟨app, pol⟩, ha, hc⟩ := mem_flatMap.1 hc
    obtain ⟨rp, hrp, hc⟩ := mem_filterMap.1 hc
    obtain ⟨hmem, happ, -⟩ := mem_listCommittedForRetention.1 hrp
    split at hc
    · cases hc
    rename_i hn
    obtain ⟨full, -, rfl⟩ := Option.map_eq_some_iff.1 hc
    obtain rfl := hself hmem hid
    simp only [not_or] at hn
    obtain rfl : rp.applicationId = app := happ
    exact ⟨by simpa using hn.2.1, pol, ha, hn.1⟩
  · rintro ⟨hb, pol, ha, hk⟩
    refine ⟨⟨u.id, u.repositoryId, u.applicationId, .retention⟩, ?_, rfl⟩
    refine mem_append_right _ (mem_flatMap.2 ⟨_, ha, mem_filterMap.2 ⟨u, ?_, ?_⟩⟩)
    · exact mem_listCommittedForRetention.2 ⟨hu, rfl, hs⟩
    · rw [if_neg (by simp [hk, hb, hd, mem_map.not.1 hdue]), RecoveryPoints.get?_of_mem hu]
      rfl

theorem listPolicyAssignments_congr {db' : Db} (hp : db'.policies = db.policies)
    (ha : db'.applications = db.applications) :
    db'.listPolicyAssignments = db.listPolicyAssignments := by
  have hg : db'.getPolicy = db.getPolicy := by
    funext id
    rw [getPolicy, getPolicy, hp]
  rw [listPolicyAssignments, listPolicyAssignments, ha, hg]

end Db

namespace Index

theorem rowStep_ofRetention {s : Index} {e : Event} (he : e.ofRetention = true) (app : String)
    (rp : RecoveryPoint) : s.rowStep e rp = rp ∨ Db.committedFor app (s.rowStep e rp) = false := by
  cases e with
  | begin c =>
    simp only [rowStep]
    split
    · exact .inr (by simp [Db.committedFor, Db.setState])
    · exact .inl rfl
  | finish i =>
    simp only [rowStep]
    split
    · split
      · exact .inr (by simp [Db.committedFor, Db.setState])
      · exact .inl rfl
    · exact .inl rfl
  | schedule x => cases he
  | cancel x => cases he
  | _ => exact .inl rfl

/-- The row of `u` is as it was, only rows around it went, and nobody has `u` as
a candidate. -/
structure Survives (db₀ : Db) (u : RecoveryPoint) (s : Index) : Prop where
  row : u ∈ s.db.recoveryPoints.rows
  rest : (s.db.listCommittedForRetention u.applicationId).Sublist (db₀.listCommittedForRetention u.applicationId)
  listed : ∀ c ∈ s.listed, c.recoveryPointId ≠ u.id
  flight : ∀ d ∈ s.deletions, d.rpId ≠ u.id
  policies : s.db.policies = db₀.policies
  applications : s.db.applications = db₀.applications
  zones : s.db.zones = db₀.zones

section Survives
variable {db₀ : Db} {app : String} {pol : Policy} {u : RecoveryPoint} {s : Index} {e : Event}

section

variable (h : Survives db₀ u s)
include h

theorem Survives.rowStep_eq (he : e.ofRetention = true) : s.rowStep e u = u := by
  cases e with
  | begin c => exact if_neg fun hc => h.listed c hc.2.1 hc.1
  | finish i =>
    simp only [rowStep]
    split
    · rename_i c n hd
      exact if_neg (h.flight _ (mem_of_getElem? hd))
    · rfl
  | schedule x => cases he
  | cancel x => cases he
  | _ => rfl

theorem Survives.rest_step (he : e.ofRetention = true) :
    ((s.step e).db.listCommittedForRetention u.applicationId).Sublist
      (db₀.listCommittedForRetention u.applicationId) := by
  refine List.Sublist.trans (insertionSort_sublist Db.newestFirst ?_) h.rest
  rw [step_rows]
  exact filter_map_sublist fun rp _ => rowStep_ofRetention he u.applicationId rp

theorem Survives.split (hu : db₀.newestUnscheduled app = some u)
    (happ : u.applicationId = app) :
    ∃ newer older, s.db.listCommittedForRetention app = newer ++ u :: older ∧
      newer.Sublist (db₀.scheduledBefore app) := by
  subst happ
  obtain ⟨older, hl⟩ := Db.listCommittedForRetention_eq hu
  have hmem : u ∈ db₀.listCommittedForRetention u.applicationId := by simp [hl]
  refine sublist_split (hl ▸ h.rest) ?_ (Db.mem_listCommittedForRetention.2
    ⟨h.row, rfl, (Db.mem_listCommittedForRetention.1 hmem).2.2⟩)
  exact hl ▸ (db₀.listCommittedForRetention_ids _).of_map _

theorem Survives.newest (hu : db₀.newestUnscheduled app = some u)
    (happ : u.applicationId = app) : s.db.newestUnscheduled app = some u := by
  obtain ⟨newer, older, hl, hsub⟩ := h.split hu happ
  refine Db.newestUnscheduled_eq_some.2 ⟨(Db.newestUnscheduled_eq_some.1 hu).1, newer, older, hl, ?_⟩
  intro rp hrp
  exact mem_takeWhile_imp (p := fun rp : RecoveryPoint => rp.deleteAfter.isSome) (hsub.subset hrp)

theorem Survives.not_listed (hu : db₀.newestUnscheduled app = some u)
    (happ : u.applicationId = app) (hs : u.state = .committed)
    (hpol : ∀ p, (app, p) ∈ db₀.listPolicyAssignments ↔ p = pol)
    (hkeep : Kept pol.retention (db₀.location pol) (db₀.scheduledBefore app) u) :
    ∀ c ∈ s.db.listRetentionCandidates, c.recoveryPointId ≠ u.id := by
  intro c hc hid
  obtain ⟨-, p, hp, hk⟩ := (Db.unscheduled_listed_iff h.row hs (Db.newestUnscheduled_eq_some.1 hu).1).1 ⟨c, hc, hid⟩
  rw [happ, Db.listPolicyAssignments_congr h.policies h.applications, hpol] at hp
  subst hp
  obtain ⟨newer, older, hl, hsub⟩ := h.split hu happ
  have hloc : s.db.location p = db₀.location p := by rw [Db.location, Db.location, h.zones]
  rw [happ, hl, hloc, mem_retentionKeep _ _ (hl ▸ s.db.listCommittedForRetention_ids app)] at hk
  exact hk (hkeep.mono hsub)

/-- An event of the retention while `u` is no candidate. -/
theorem Survives.step (he : e.ofRetention = true)
    (hnot : ∀ c ∈ s.db.listRetentionCandidates, c.recoveryPointId ≠ u.id) :
    Survives db₀ u (s.step e) where
  row := by
    rw [step_rows]
    exact mem_map.2 ⟨u, h.row, h.rowStep_eq he⟩
  rest := h.rest_step he
  listed := by
    intro c hc
    rw [step_listed] at hc
    rcases mem_append.1 hc with hc | hc
    · exact h.listed c hc
    split at hc
    · exact hnot c hc
    · cases hc
  flight := by
    intro d hd
    rcases step_deletion hd with ⟨c, -, hp, rfl⟩ | ⟨d₀, hd₀, hc, -⟩
    · exact h.listed c hp.1
    · rw [Deletion.rpId, hc]
      exact h.flight d₀ hd₀
  policies := (step_settings s e).1.trans h.policies
  applications := (step_settings s e).2.1.trans h.applications
  zones := (step_settings s e).2.2.1.trans h.zones

end

end Survives

theorem survives_init {db : Db} {u : RecoveryPoint} (snaps : List Snapshot)
    (hu : u ∈ db.recoveryPoints.rows) : Survives db u (init db snaps) where
  row := hu
  rest := List.Sublist.refl _
  listed := by simp [init]
  flight := by simp [init]
  policies := rfl
  applications := rfl
  zones := rfl

theorem lost_of_listed {s : Index} {u : RecoveryPoint} (app : String)
    (hu : u ∈ s.db.recoveryPoints.rows) (hs : u.state = .committed) {c : RetentionCandidate}
    (hc : c ∈ s.db.listRetentionCandidates) (hid : c.recoveryPointId = u.id) :
    (run step s [.list, .begin c]).db.newestUnscheduled app ≠ some u := by
  intro h
  obtain ⟨-, newer, older, hl, -⟩ := Db.newestUnscheduled_eq_some.1 h
  have hmem : u ∈ (run step s [.list, .begin c]).db.listCommittedForRetention app := by
    rw [hl]
    simp
  have hget := RecoveryPoints.get?_of_mem (Db.mem_listCommittedForRetention.1 hmem).1
  have hlisted : c ∈ (s.step .list).listed := mem_append_right _ hc
  rw [run_cons, run_cons, run_nil, step_get?, step_get?, RecoveryPoints.get?_of_mem hu] at hget
  simp only [Option.map_some, Option.some.injEq, rowStep, hid, hlisted, hs, Db.deletable] at hget
  rw [← hget] at hs
  simp [Db.setState] at hs

def endRestores (rs : List RestoreRun) : List Event := rs.map fun r => .finishRestore r.id .succeeded

/-- When the restores have ended, none is active and nothing else has changed. -/
theorem run_endRestores (rs : List RestoreRun) (s : Index)
    (h : ∀ r ∈ s.db.restoreRuns, r.active = true → r.id ∈ rs.map (·.id)) :
    ∃ runs, (run step s (endRestores rs)).db = {s.db with restoreRuns := runs} ∧ ∀ r ∈ runs, r.active = false := by
  induction rs generalizing s with
  | nil => exact ⟨_, rfl, fun r hr => by simpa using h r hr⟩
  | cons r rs ih =>
    refine ih (s.step (.finishRestore r.id .succeeded)) fun r' hr' ha => ?_
    obtain ⟨r₀, hr₀, rfl⟩ := mem_map.1 hr'
    split at ha
    · cases ha
    · rename_i hne
      rw [if_neg hne]
      exact (mem_cons.1 (h r₀ hr₀ ha)).resolve_left fun hid => hne ⟨hid, ha⟩

/-- **The newest unscheduled recovery point.** It stays committed, and the newest
unscheduled one, in every sequence of retention runs, restores and passage of time exactly
when the policy keeps it behind the recovery points that are scheduled for manual deletion. -/
theorem newest_kept_iff (db : Db) (snaps : List Snapshot) (app : String) (pol : Policy)
    (u : RecoveryPoint) (hpol : ∀ p, (app, p) ∈ db.listPolicyAssignments ↔ p = pol)
    (hu : db.newestUnscheduled app = some u) :
    (∀ es : List Event, (∀ e ∈ es, e.ofRetention = true) →
      (run step (init db snaps) es).db.newestUnscheduled app = some u) ↔
    Kept pol.retention (db.location pol) (db.scheduledBefore app) u := by
  obtain ⟨older, hl⟩ := Db.listCommittedForRetention_eq hu
  obtain ⟨hrow, happ, hs⟩ : u ∈ db.recoveryPoints.rows ∧ u.applicationId = app ∧
      u.state = .committed := Db.mem_listCommittedForRetention.1 (by simp [hl])
  constructor
  · intro h
    by_contra hk
    have hkeep : u.id ∉ retentionKeep (db.listCommittedForRetention app) pol.retention (db.location pol) := by
      rw [hl, mem_retentionKeep _ _ (hl ▸ db.listCommittedForRetention_ids app)]
      exact hk
    -- once the restores have ended it is a candidate of the next run
    obtain ⟨runs, hdb, hidle⟩ := run_endRestores db.restoreRuns (init db snaps) fun r hr _ => mem_map_of_mem hr
    have hbusy : ({db with restoreRuns := runs} : Db).busy u.id = false := by
      simp only [Db.busy, Db.activeRestores, any_eq_false, mem_filter]
      intro r hr
      rw [hidle r hr.1] at hr
      cases hr.2
    obtain ⟨c, hc, hid⟩ := (@Db.unscheduled_listed_iff {db with restoreRuns := runs} u hrow hs
      (Db.newestUnscheduled_eq_some.1 hu).1).2 ⟨hbusy, pol, happ ▸ (hpol pol).2 rfl, happ ▸ hkeep⟩
    refine lost_of_listed app (hdb ▸ hrow) hs (hdb ▸ hc) hid ?_
    rw [← run_append]
    refine h _ fun e he => ?_
    rcases mem_append.1 he with he | he
    · obtain ⟨r, -, rfl⟩ := mem_map.1 he
      rfl
    · simp only [mem_cons, not_mem_nil, or_false] at he
      rcases he with rfl | rfl <;> rfl
  · intro hkeep es hes
    have hinv :=
      (along_of_forall hes _).invariant (survives_init snaps hrow) fun s e h he =>
        h.step he (h.not_listed hu happ hs hpol hkeep)
    exact hinv.newest hu happ

def scheduledDb : Db :=
  Db.small ⟨[.small "old" 0 none, .small "new" 1 (some 20)], by decide⟩

/-- Retention deletes the older recovery point, which nobody asked to delete, and
when the newer one is due the application has none left. -/
theorem newest_lost : scheduledDb.newestUnscheduled "app" = some (.small "old" 0 none) ∧
    let es := [.list, .begin ⟨"old", "repo", "app", .retention⟩, .listSnapshots 0, .finish 0,
      .tick 10, .list, .begin ⟨"new", "repo", "app", .manual⟩, .listSnapshots 0, .finish 0]
    (∀ e ∈ es, e.ofRetention = true) ∧ (run step (init scheduledDb []) es).db.recoveryPoints.rows.map (·.state) =
        [.deleted, .deleted] := by
  decide

/-- With nothing scheduled in front of it, it is kept for good. -/
theorem newest_kept_alone :
    let db := Db.small ⟨[.small "old" 0 none], by decide⟩
    db.newestUnscheduled "app" = some (.small "old" 0 none) ∧
    ∀ es : List Event, (∀ e ∈ es, e.ofRetention = true) →
      (run step (init db []) es).db.newestUnscheduled "app" = some (.small "old" 0 none) := by
  have hpol : (Db.small ⟨[.small "old" 0 none], by decide⟩).listPolicyAssignments = [("app", .small)] := by decide
  exact ⟨by decide, (newest_kept_iff _ _ _ .small _ (by simp [hpol]) (by decide)).2 (by decide)⟩

end Index

end Dbr2.Protection
