import Dbr2.Backup.Repository

/-! Orphan collection beside commits.

A snapshot is held once a running commit has checked it, or a manifest refers to it.
The collector decides from its listing and from ages, commitWith from identifiers and
tags; what keeps them apart is the grace period. `safe_of_timely`: as long as no
commit checks a seed pass, or a snapshot that a collection under way has condemned,
no manifest loses a snapshot, in any interleaving. -/
namespace Dbr2.Backup
open Lib List

def Referenced (w : World) (id : String) : Prop :=
  ∃ t ∈ w.written, trustedManifest t = true ∧ ∃ m, t.manifest = some m ∧ id ∈ m.refs

def Checked (w : World) (s : Snapshot) : Prop := ∃ k q, w.commits k = some q ∧ s ∈ q.checked

def Held (w : World) (s : Snapshot) : Prop := s ∈ w.written ∧ (Checked w s ∨ Referenced w s.id)

def Safe (w : World) : Prop :=
  ∀ t ∈ w.list, trustedManifest t = true → ∀ m, t.manifest = some m → ∀ x ∈ m.refs, x ∉ w.deleted

structure Committer.Sound (w : World) (q : Committer) : Prop where
  checked : ∀ s ∈ q.checked, s ∈ w.written ∧ s.tags.rp = q.manifest.recoveryPointId ∧ s.tags.kind ≠ "seed"
  rest : ∀ c ∈ q.manifest.components, c.status = .succeeded → c ∈ q.todo ∨ ∃ s ∈ q.checked, s.id = c.snapshotId

structure Collector.Harmless (w : World) (c : Collector) : Prop where
  written : ∀ s ∈ c.todo, s ∈ w.written
  spares : ∀ s ∈ c.todo, Held w s → c.condemns s = false

structure World.Inv (w : World) : Prop where
  ids : (w.written.map (·.id)).Nodup
  gone : ∀ x ∈ w.deleted, x ∈ w.written.map (·.id)
  manifests : ∀ t ∈ w.written, t.tags.kind = "manifest" → t.id ∉ w.deleted
  refs : ∀ t ∈ w.written, trustedManifest t = true → ∀ m, t.manifest = some m → ∀ x ∈ m.refs,
    ∃ s ∈ w.written, s.id = x ∧ s.tags.rp = t.tags.rp ∧ s.tags.kind ≠ "seed"
  commits : ∀ k q, w.commits k = some q → q.Sound w
  held : ∀ s, Held w s → s.id ∉ w.deleted
  collectors : ∀ k c, w.collectors k = some c → c.Harmless w

theorem Collector.Harmless.tail {w : World} {c c' : Collector} {s : Snapshot} {rest : List Snapshot}
    (h : c.Harmless w) (hc : c.todo = s :: rest) (hall : c'.all = c.all) (hnow : c'.now = c.now)
    (hgrace : c'.grace = c.grace) (htodo : c'.todo = rest) : c'.Harmless w := by
  have hsub (t : Snapshot) (ht : t ∈ c'.todo) : t ∈ c.todo := by
    rw [hc]
    exact mem_cons_of_mem _ (htodo ▸ ht)
  refine ⟨fun t ht => h.written t (hsub t ht), fun t ht hh => ?_⟩
  rw [← h.spares t (hsub t ht) hh]
  simp [Collector.condemns, Collector.committed, hall, hnow, hgrace]

namespace World
variable {w : World} {k : Nat}

@[simp] theorem mem_list {s : Snapshot} : s ∈ w.list ↔ s ∈ w.written ∧ s.id ∉ w.deleted := by
  simp [list]

theorem get_eq_some {id : String} {s : Snapshot} (h : w.get id = some s) : s ∈ w.list ∧ s.id = id :=
  ⟨mem_of_find?_eq_some h, by simpa using find?_some h⟩

theorem not_mem_of_fresh {id : String} (h : w.fresh id = true) : id ∉ w.written.map (·.id) := by
  simpa [fresh] using h

theorem Inv.eq_of_id (h : w.Inv) {s t : Snapshot} (hs : s ∈ w.written) (ht : t ∈ w.written)
    (hid : s.id = t.id) : s = t :=
  inj_on_of_nodup_map h.ids hs ht hid

theorem trusted_kind {t : Snapshot} (h : trustedManifest t = true) : t.tags.kind = "manifest" := by
  simp only [trustedManifest, Bool.and_eq_true, beq_iff_eq] at h
  exact h.1.1.1

theorem inv_empty : empty.Inv := by
  refine ⟨nodup_nil, ?_, ?_, ?_, ?_, ?_, ?_⟩
  · exact fun x hx => by cases hx
  · exact fun t ht => by cases ht
  · exact fun t ht => by cases ht
  · exact fun k q hq => by cases hq
  · exact fun s hs => by cases hs.1
  · exact fun k c hc => by cases hc

theorem Inv.safe (h : w.Inv) : Safe w := by
  intro t ht htr m hm x hx
  have htw := (mem_list.1 ht).1
  obtain ⟨s, hs, rfl, -⟩ := h.refs t htw htr m hm x hx
  exact h.held s ⟨hs, .inr ⟨t, htw, htr, m, hm, hx⟩⟩

theorem Inv.setCollector (h : w.Inv) {c : Option Collector} (hc : ∀ c', c = some c' → c'.Harmless w) :
    (w.setCollector k c).Inv := by
  refine ⟨h.ids, h.gone, h.manifests, h.refs, fun k q hq => ?_, h.held, fun k' c' hc' => ?_⟩
  · exact ⟨(h.commits k q hq).checked, (h.commits k q hq).rest⟩
  · by_cases hk : k' = k
    · subst hk
      have hc'' : c = some c' := by simpa [World.setCollector] using hc'
      exact ⟨(hc c' hc'').written, (hc c' hc'').spares⟩
    · have hc'' : w.collectors k' = some c' := by simpa [World.setCollector, hk] using hc'
      exact ⟨(h.collectors k' c' hc'').written, (h.collectors k' c' hc'').spares⟩

theorem Inv.setCommit (h : w.Inv) {q : Option Committer} (hq : ∀ q', q = some q' → q'.Sound w)
    (hnew : ∀ q', q = some q' → ∀ s ∈ q'.checked, s.id ∉ w.deleted ∧
      ∀ k c, w.collectors k = some c → s ∈ c.todo → c.condemns s = false) :
    (w.setCommit k q).Inv := by
  have hheld (s : Snapshot) (hs : Held (w.setCommit k q) s) : Held w s ∨ ∃ q', q = some q' ∧ s ∈ q'.checked := by
    obtain ⟨hw, ⟨k', q', hq', hsq⟩ | hr⟩ := hs
    · by_cases hk : k' = k
      · subst hk
        exact .inr ⟨q', by simpa [World.setCommit] using hq', hsq⟩
      · exact .inl ⟨hw, .inl ⟨k', q', by simpa [World.setCommit, hk] using hq', hsq⟩⟩
    · exact .inl ⟨hw, .inr hr⟩
  refine ⟨h.ids, h.gone, h.manifests, h.refs, fun k' q' hq' => ?_, fun s hs => ?_, fun k' c hc => ?_⟩
  · by_cases hk : k' = k
    · subst hk
      have hq'' : q = some q' := by simpa [World.setCommit] using hq'
      exact ⟨(hq q' hq'').checked, (hq q' hq'').rest⟩
    · have hq'' : w.commits k' = some q' := by simpa [World.setCommit, hk] using hq'
      exact ⟨(h.commits k' q' hq'').checked, (h.commits k' q' hq'').rest⟩
  · rcases hheld s hs with hs | ⟨q', hq', hs⟩
    · exact h.held s hs
    · exact (hnew q' hq' s hs).1
  · refine ⟨(h.collectors k' c hc).written, fun s hs hheld' => ?_⟩
    rcases hheld s hheld' with hs' | ⟨q', hq', hs'⟩
    · exact (h.collectors k' c hc).spares s hs hs'
    · exact (hnew q' hq' s hs').2 k' c hc hs

theorem Inv.endCommit (h : w.Inv) : (w.setCommit k none).Inv :=
  h.setCommit (fun _ hq => by cases hq) fun _ hq => by cases hq

theorem Inv.delete (h : w.Inv) {s : Snapshot} (hs : s ∈ w.written) (hk : s.tags.kind ≠ "manifest")
    (hfree : ¬ Held w s) : {w with deleted := s.id :: w.deleted}.Inv := by
  have hne {t : Snapshot} (ht : t ∈ w.written) (hts : t ≠ s) (hd : t.id ∉ w.deleted) : t.id ∉ s.id :: w.deleted := by
    rw [mem_cons, not_or]
    exact ⟨fun hid => hts (h.eq_of_id ht hs hid), hd⟩
  refine ⟨h.ids, fun x hx => ?_, fun t ht htk => ?_, h.refs, fun k q hq => ?_, fun t ht => ?_, fun k c hc => ?_⟩
  · rcases mem_cons.1 hx with rfl | hx
    · exact mem_map_of_mem hs
    · exact h.gone x hx
  · exact hne ht (by rintro rfl; exact hk htk) (h.manifests t ht htk)
  · exact ⟨(h.commits k q hq).checked, (h.commits k q hq).rest⟩
  · exact hne ht.1 (by rintro rfl; exact hfree ht) (h.held t ht)
  · exact ⟨(h.collectors k c hc).written, (h.collectors k c hc).spares⟩

theorem Inv.addSnapshot (h : w.Inv) {s : Snapshot} (hfresh : w.fresh s.id = true)
    (hrefs : trustedManifest s = true → ∀ m, s.manifest = some m → ∀ x ∈ m.refs,
      ∃ t, Held w t ∧ t.id = x ∧ t.tags.rp = s.tags.rp ∧ t.tags.kind ≠ "seed") :
    (w.addSnapshot s).Inv := by
  have hnew := not_mem_of_fresh hfresh
  have hnot {t : Snapshot} (ht : t ∈ w.written) : t.id ≠ s.id := fun hid =>
    hnew (hid ▸ mem_map_of_mem ht)
  -- nothing becomes held but what was
  have hheld (t : Snapshot) (ht : Held (w.addSnapshot s) t) : Held w t := by
    have hw (hid : ∃ u ∈ w.written, u.id = t.id) : t ∈ w.written := by
      obtain ⟨u, hu, hid⟩ := hid
      rcases mem_cons.1 ht.1 with rfl | ht'
      · exact absurd hid (hnot hu)
      · exact ht'
    rcases ht.2 with ⟨k, q, hq, htq⟩ | ⟨u, hu, htr, m, hm, hx⟩
    · exact ⟨((h.commits k q hq).checked t htq).1, .inl ⟨k, q, hq, htq⟩⟩
    rcases mem_cons.1 hu with rfl | hu
    · obtain ⟨v, hv, hvid, -⟩ := hrefs htr m hm t.id hx
      rw [h.eq_of_id (hw ⟨v, hv.1, hvid⟩) hv.1 hvid.symm]
      exact hv
    · obtain ⟨v, hv, hvid, -⟩ := h.refs u hu htr m hm t.id hx
      exact ⟨hw ⟨v, hv, hvid⟩, .inr ⟨u, hu, htr, m, hm, hx⟩⟩
  refine ⟨nodup_cons.2 ⟨hnew, h.ids⟩, fun x hx => mem_cons_of_mem _ (h.gone x hx), ?_, ?_,
    fun k q hq => ?_, fun t ht => h.held t (hheld t ht), fun k c hc => ?_⟩
  · intro t ht htk
    rcases mem_cons.1 ht with rfl | ht
    · exact fun hd => hnew (h.gone _ hd)
    · exact h.manifests t ht htk
  · intro t ht htr m hm x hx
    rcases mem_cons.1 ht with rfl | ht
    · obtain ⟨v, hv, hvid⟩ := hrefs htr m hm x hx
      exact ⟨v, mem_cons_of_mem _ hv.1, hvid⟩
    · obtain ⟨v, hv, hvid⟩ := h.refs t ht htr m hm x hx
      exact ⟨v, mem_cons_of_mem _ hv, hvid⟩
  · refine ⟨fun t ht => ?_, (h.commits k q hq).rest⟩
    have := (h.commits k q hq).checked t ht
    exact ⟨mem_cons_of_mem _ this.1, this.2⟩
  · exact ⟨fun t ht => mem_cons_of_mem _ ((h.collectors k c hc).written t ht),
      fun t ht hh => (h.collectors k c hc).spares t ht (hheld t hh)⟩

/-- Commits are in time: what they check is no seed pass, and no collection that overlaps the
commit has condemned it. -/
def Timely (w : World) : RepoEvent → Prop
  | .list k => ∀ c, w.collectors k = some c → ∀ s, Checked w s → Collector.condemns {c with all := w.list} s = false
  | .check k => ∀ q c rest s, w.commits k = some q → q.todo = c :: rest → c.status = .succeeded →
      w.get c.snapshotId = some s → q.manifest.owns c s = true →
      s.tags.kind ≠ "seed" ∧ ∀ k' c', w.collectors k' = some c' → s ∈ c'.todo → c'.condemns s = false
  | _ => True

theorem Inv.list_spares (h : w.Inv) (c : Collector) {s : Snapshot} (hs : s ∈ w.written)
    (hr : Referenced w s.id) : Collector.condemns {c with all := w.list} s = false := by
  obtain ⟨t, ht, htr, m, hm, hx⟩ := hr
  obtain ⟨s', hs', hid, hrp, hseed⟩ := h.refs t ht htr m hm s.id hx
  obtain rfl := h.eq_of_id hs' hs hid
  have hlisted := mem_list.2 ⟨ht, h.manifests t ht (trusted_kind htr)⟩
  have hcommitted : Collector.committed {c with all := w.list} s'.tags.rp = true :=
    any_eq_true.2 ⟨t, hlisted, by simp [htr, hrp]⟩
  simp [Collector.condemns, hcommitted, hseed]

theorem Inv.list (h : w.Inv) {c : Collector} (hc : w.collectors k = some c) (ht : Timely w (.list k)) :
    (w.setCollector k (some {c with all := w.list, todo := w.list, listed := true})).Inv := by
  refine h.setCollector fun c' hc' => ?_
  obtain rfl := Option.some.inj hc'
  refine ⟨fun s hs => (mem_list.1 hs).1, fun s hs hheld => ?_⟩
  rcases hheld.2 with hq | hr
  · exact ht c hc s hq
  · exact h.list_spares c hheld.1 hr

theorem Inv.sweep (h : w.Inv) {c : Collector} (hc : w.collectors k = some c) (d : Fate) : (w.sweep k c d).Inv := by
  have hharm := h.collectors k c hc
  unfold World.sweep
  split
  · exact h.setCollector fun _ hn => by cases hn
  next s rest htodo =>
  have hmem : s ∈ c.todo := by rw [htodo]; exact mem_cons_self
  split
  · next hcond =>
    have hkind : s.tags.kind ≠ "manifest" := by
      simp only [Collector.condemns, Collector.managed, Bool.and_eq_true, bne_iff_ne] at hcond
      exact hcond.1.1.2
    have hfree : ¬ Held w s := fun hh => by
      rw [hharm.spares s hmem hh] at hcond
      cases hcond
    -- with or without its effect, an error ends the loop
    have hdel := h.delete (hharm.written s hmem) hkind hfree
    have hend (v : World) (hv : v.Inv) (hharm' : c.Harmless v) : (v.setCollector k
        (if d = .done then some {c with todo := rest, deleted := c.deleted + 1} else none)).Inv := by
      refine hv.setCollector fun c' hc' => ?_
      split at hc'
      · obtain rfl := Option.some.inj hc'
        exact hharm'.tail htodo rfl rfl rfl rfl
      · cases hc'
    cases d.performed with
    | true => exact hend _ hdel (hdel.collectors k c hc)
    | false => exact hend _ h hharm
  · refine h.setCollector fun c' hc' => ?_
    obtain rfl := Option.some.inj hc'
    exact hharm.tail htodo rfl rfl rfl rfl

theorem Inv.check (h : w.Inv) {q : Committer} (hq : w.commits k = some q)
    (ht : Timely w (.check k)) : (w.check k q).Inv := by
  have hsound := h.commits k q hq
  have hold (s : Snapshot) (hs : s ∈ q.checked) : s.id ∉ w.deleted ∧
      ∀ k c, w.collectors k = some c → s ∈ c.todo → c.condemns s = false := by
    have hheld : Held w s := ⟨(hsound.checked s hs).1, .inl ⟨k, q, hq, hs⟩⟩
    exact ⟨h.held s hheld, fun k' c hc hsc => (h.collectors k' c hc).spares s hsc hheld⟩
  unfold World.check
  split
  · exact h
  next c rest htodo =>
  split
  · next hskip =>
    refine h.setCommit (fun q' hq' => ?_) fun q' hq' s hs => ?_
    · obtain rfl := Option.some.inj hq'
      refine ⟨hsound.checked, fun c' hc' hok => (hsound.rest c' hc' hok).imp_left fun hm => ?_⟩
      rw [htodo] at hm
      exact (mem_cons.1 hm).resolve_left (by rintro rfl; exact hskip hok)
    · obtain rfl := Option.some.inj hq'
      exact hold s hs
  next hok =>
  split
  · exact h.endCommit
  next s hget =>
  split
  · next howns =>
    obtain ⟨hseed, hspares⟩ := ht q c rest s hq htodo (by simpa using hok) hget howns
    obtain ⟨hlist, hid⟩ := get_eq_some hget
    rw [mem_list] at hlist
    have hrp : s.tags.rp = q.manifest.recoveryPointId := by
      simp only [Manifest.owns, Bool.and_eq_true, beq_iff_eq] at howns
      exact howns.1.1.2
    refine h.setCommit (fun q' hq' => ?_) fun q' hq' t ht' => ?_
    · obtain rfl := Option.some.inj hq'
      refine ⟨forall_mem_cons.2 ⟨⟨hlist.1, hrp, hseed⟩, hsound.checked⟩, fun c' hc' hok' => ?_⟩
      rcases hsound.rest c' hc' hok' with hm | ⟨t, ht', hid'⟩
      · rw [htodo] at hm
        rcases mem_cons.1 hm with rfl | hm
        · exact .inr ⟨s, mem_cons_self, hid⟩
        · exact .inl hm
      · exact .inr ⟨t, mem_cons_of_mem _ ht', hid'⟩
    · obtain rfl := Option.some.inj hq'
      rcases mem_cons.1 ht' with rfl | ht'
      · exact ⟨hlist.2, hspares⟩
      · exact hold t ht'
  · exact h.endCommit

theorem Inv.write (h : w.Inv) {q : Committer} (hq : w.commits k = some q) (id : String) (d : Fate) :
    (w.write k q id d).Inv := by
  have hsound := h.commits k q hq
  unfold World.write
  split
  · exact h
  next htodo =>
  split
  · exact h.endCommit
  split
  · exact h
  next hfresh =>
  cases d.performed with
  | false => exact h.endCommit
  | true =>
    refine Inv.endCommit (h.addSnapshot (by simpa [Manifest.snapshot] using hfresh) ?_)
    intro _ m hm x hx
    cases hm
    -- every component has been looked at
    obtain ⟨c, hc, rfl⟩ := mem_map.1 hx
    obtain ⟨hc, hok⟩ := mem_filter.1 hc
    rcases hsound.rest c hc (by simpa using hok) with hm | ⟨s, hs, hid⟩
    · rw [show q.todo = [] by simpa using htodo] at hm
      cases hm
    · have := hsound.checked s hs
      exact ⟨s, ⟨this.1, .inl ⟨k, q, hq, hs⟩⟩, hid, this.2⟩

/-- A timely collector spares what a committer has checked. -/
theorem Inv.step (h : w.Inv) (e : RepoEvent) (ht : Timely w e) : (w.step e).Inv := by
  cases e with
  | tick => exact ⟨h.ids, h.gone, h.manifests, h.refs, fun k q hq => ⟨(h.commits k q hq).checked,
      (h.commits k q hq).rest⟩, h.held, fun k c hc => ⟨(h.collectors k c hc).written,
      (h.collectors k c hc).spares⟩⟩
  | agent s =>
    simp only [World.step]
    split
    · next hs =>
      refine h.addSnapshot hs.2 fun htr => ?_
      simp [trustedManifest, hs.1, manifestSourceUser, agentKopiaUser] at htr
    · exact h
  | collect k grace =>
    refine h.setCollector fun c' hc' => ?_
    obtain rfl := Option.some.inj hc'
    exact ⟨fun s hs => (by cases hs), fun s hs => (by cases hs)⟩
  | list k =>
    simp only [World.step]
    split
    · next c hc =>
      split
      · exact h
      · exact h.list hc ht
    · exact h
  | sweep k d =>
    simp only [World.step]
    split
    · next c hc =>
      split
      · exact h.sweep hc d
      · exact h
    · exact h
  | commit k m =>
    refine h.setCommit (fun q' hq' => ?_) fun q' hq' s hs => ?_
    · obtain rfl := Option.some.inj hq'
      exact ⟨fun s hs => (by cases hs), fun c hc _ => .inl hc⟩
    · obtain rfl := Option.some.inj hq'
      cases hs
  | check k =>
    simp only [World.step]
    split
    · next q hq => exact h.check hq ht
    · exact h
  | write k id d =>
    simp only [World.step]
    split
    · next q hq => exact h.write hq id d
    · exact h
  | stop k => exact (h.setCollector fun _ hn => by cases hn).endCommit

end World

/-- **Collection spares the committed**, in every run whose commits are in time. -/
theorem safe_of_timely (es : List RepoEvent) (h : Along World.step World.Timely .empty es) :
    Safe (run World.step .empty es) :=
  (h.invariant World.inv_empty fun _ e hw ht => hw.step e ht).safe

/-! A recovery point of one component. -/

def onlySnapshot (kind : String) : Snapshot where
  id := "x"
  source := ⟨"agent", "a", "/app/config"⟩
  tags := ⟨"rp_01ARZ3NDEKTSV4RRFFQ69G5FAV", "app", "config", kind⟩
  startTime := 0
  incomplete := ""
  manifest := none

def onlyManifest : Manifest where
  schemaVersion := schemaVersion
  recoveryPointId := "rp_01ARZ3NDEKTSV4RRFFQ69G5FAV"
  status := .complete
  createdAt := 1
  consistencyMode := .live
  consistencyPoint := 1
  crashConsistentOnly := true
  applicationId := "app"
  hostId := "a"
  agentId := "a"
  repositoryId := "repo"
  workflowId := "wf"
  runId := "run"
  components := [⟨"config", .config, true, .succeeded, "", "x", "agent@a:/app/config", 0, ""⟩]

def commitOnly : List RepoEvent := [.commit 1 onlyManifest, .check 1, .write 1 "m" .done]

def youngRun : List RepoEvent :=
  [.agent (onlySnapshot "config"), .collect 0 1, .list 0] ++ commitOnly ++ [.sweep 0 .done]

def staleRun : List RepoEvent :=
  [.agent (onlySnapshot "config"), .tick, .collect 0 1, .list 0] ++ commitOnly ++ [.sweep 0 .done]

def seedRun : List RepoEvent :=
  [.agent (onlySnapshot "seed")] ++ commitOnly ++ [.tick, .collect 0 1, .list 0, .sweep 0 .done, .sweep 0 .done]

theorem safe_of_timely_young : Safe (run World.step .empty youngRun) := by
  refine safe_of_timely youngRun (And.intro trivial (And.intro trivial (And.intro ?_ (And.intro trivial (And.intro ?_
      (And.intro trivial (And.intro trivial trivial)))))))
  · rintro c - s ⟨k, q, hq, -⟩
    cases hq
  · intro q c rest s hq htodo _ hget _
    obtain rfl : onlySnapshot "config" = s := by
      cases hq
      obtain ⟨rfl, -⟩ := List.cons.inj htodo
      exact Option.some.inj hget
    refine ⟨by decide, fun k' c' hc' _ => ?_⟩
    by_cases hk : k' = 0
    · subst hk
      obtain rfl := Option.some.inj hc'
      decide
    -- there is no other collector
    change Function.update (Function.update (fun _ => none) 0 _) 0 _ k' = some c' at hc'
    rw [Function.update_of_ne hk, Function.update_of_ne hk] at hc'
    cases hc'

/-- A collector acts on its old listing, and every collector on the tag of a seed pass: each
deletes a snapshot that a manifest in the Repository refers to. -/
theorem collected_committed : ¬ Safe (run World.step .empty staleRun) ∧ ¬ Safe (run World.step .empty seedRun) := by
  refine ⟨fun h => ?_, fun h => ?_⟩
  · exact h (onlyManifest.snapshot "m" 1) (by decide) (by decide) onlyManifest rfl "x" (by decide) (by decide)
  · exact h (onlyManifest.snapshot "m" 0) (by decide) (by decide) onlyManifest rfl "x" (by decide) (by decide)

end Dbr2.Backup
