import Dbr2.Backup.Catalog
import Dbr2.Backup.Orphans

/-! Do the index and the Repository agree?

Reindexing writes rows from what it has read some time ago, and CompleteBackup from
what its workflow knows; deletion moves the same rows in between. `agrees_of_inStep`:
if, at every such write, what it says of a recovery point is still so, then a
committed row has its manifest, a deleted row stays deleted, and nothing that has a
manifest is missing. -/
namespace Dbr2.Backup
open Lib List
open Protection (RecoveryPointState)

namespace Catalog

structure Agrees (w : Catalog) : Prop where
  committed : ∀ rp, w.rows rp = some .committed → w.hasManifest rp = true
  deleted : ∀ rp ∈ w.reached, w.rows rp ≠ some .committed
  missing : ∀ rp, w.hasManifest rp = true → w.rows rp ≠ some .missing

/-- It is still true that the recovery point is there: it has its manifest, its row was not
deleted, and nobody is deleting it. -/
structure Current (w : Catalog) (rp : String) : Prop where
  row : w.rows rp ≠ some .deleted
  manifest : w.hasManifest rp = true
  idle : ∀ k d, w.deletions k = some d → d.rp ≠ rp

def InStep (w : Catalog) : CatalogEvent → Prop
  | .index k => ∀ r, w.reindexers k = some r → (∀ rp ∈ r.ids, w.Current rp) ∧
      ∀ rp, w.rows rp = some .committed → w.hasManifest rp = true → rp ∈ r.ids
  | .complete k => ∀ b, w.backups k = some b → b.written = true → w.Current b.rp
  | _ => True

structure Marked (w : Catalog) (d : Deletion) : Prop where
  row : w.rows d.rp = some .deleting ∨ w.rows d.rp = some .deleted
  todo : ∀ l, d.todo = some l → ∀ s ∈ l, s ∈ w.written ∧ s.tags.rp = d.rp

structure Inv (w : Catalog) : Prop where
  ids : (w.written.map (·.id)).Nodup
  committed : ∀ rp, w.rows rp = some .committed → w.hasManifest rp = true
  missing : ∀ rp, w.hasManifest rp = true → w.rows rp ≠ some .missing
  reached : ∀ rp ∈ w.reached, w.rows rp = some .deleted
  deletions : ∀ k d, w.deletions k = some d → w.Marked d
  backups : ∀ k b, w.backups k = some b → w.rows b.rp ≠ none ∧ w.rows b.rp ≠ some .missing

structure AtRest (w : Catalog) : Prop where
  ids : (w.written.map (·.id)).Nodup
  agrees : w.Agrees
  reached : ∀ rp ∈ w.reached, w.rows rp = some .deleted
  deletions : ∀ k, w.deletions k = none
  backups : ∀ k, w.backups k = none

variable {w : Catalog} {k : Nat}

theorem AtRest.inv (h : w.AtRest) : w.Inv where
  ids := h.ids
  committed := h.agrees.committed
  missing := h.agrees.missing
  reached := h.reached
  deletions k d hd := by rw [h.deletions k] at hd; cases hd
  backups k b hb := by rw [h.backups k] at hb; cases hb

theorem Inv.agrees (h : w.Inv) : w.Agrees where
  committed := h.committed
  deleted rp hr := by rw [h.reached rp hr]; simp
  missing := h.missing

variable {d : Deletion} {s : Snapshot} {rp : String}

@[simp] theorem mem_stored : s ∈ w.stored ↔ s ∈ w.written ∧ s.id ∉ w.deleted := by
  simp [stored]

theorem hasManifest_iff : w.hasManifest rp = true ↔ ∃ s ∈ w.stored, trustedManifest s = true ∧ s.tags.rp = rp := by
  simp [hasManifest]

theorem hasManifest_add (h : (w.addSnapshot s).hasManifest rp = true) :
    w.hasManifest rp = true ∨ trustedManifest s = true ∧ s.tags.rp = rp := by
  obtain ⟨t, ht, htr, hrp⟩ := hasManifest_iff.1 h
  obtain ⟨ht, hd⟩ := mem_stored.1 ht
  rcases mem_cons.1 ht with rfl | ht
  · exact .inr ⟨htr, hrp⟩
  · exact .inl (hasManifest_iff.2 ⟨t, mem_stored.2 ⟨ht, hd⟩, htr, hrp⟩)

theorem hasManifest_addSnapshot (h : w.hasManifest rp = true) : (w.addSnapshot s).hasManifest rp = true := by
  obtain ⟨t, ht, htr, hrp⟩ := hasManifest_iff.1 h
  obtain ⟨ht, hd⟩ := mem_stored.1 ht
  exact hasManifest_iff.2 ⟨t, mem_stored.2 ⟨mem_cons_of_mem _ ht, hd⟩, htr, hrp⟩

theorem hasManifest_of_remove (h : (w.remove s).hasManifest rp = true) : w.hasManifest rp = true := by
  obtain ⟨t, ht, htr, hrp⟩ := hasManifest_iff.1 h
  obtain ⟨ht, hd⟩ := mem_stored.1 ht
  exact hasManifest_iff.2 ⟨t, mem_stored.2 ⟨ht, fun hx => hd (mem_cons_of_mem _ hx)⟩, htr, hrp⟩

theorem hasManifest_remove (hids : (w.written.map (·.id)).Nodup)
    (hs : s ∈ w.written) (hne : s.tags.rp ≠ rp) (h : w.hasManifest rp = true) :
    (w.remove s).hasManifest rp = true := by
  obtain ⟨t, ht, htr, hrp⟩ := hasManifest_iff.1 h
  obtain ⟨ht, hd⟩ := mem_stored.1 ht
  refine hasManifest_iff.2 ⟨t, mem_stored.2 ⟨ht, fun hx => ?_⟩, htr, hrp⟩
  rcases mem_cons.1 hx with hid | hx
  · obtain rfl := inj_on_of_nodup_map hids ht hs hid
    exact hne hrp
  · exact hd hx

section

variable (h : w.Inv)
include h

theorem Inv.setReindexer (r : Option Reindexer) : (w.setReindexer k r).Inv :=
  ⟨h.ids, h.committed, h.missing, h.reached, fun k d hd => ⟨(h.deletions k d hd).row,
    (h.deletions k d hd).todo⟩, h.backups⟩

theorem Inv.setDeletion {d : Option Deletion} (hd : ∀ d', d = some d' → w.Marked d') :
    (w.setDeletion k d).Inv := by
  refine ⟨h.ids, h.committed, h.missing, h.reached, fun k' d' hd' => ?_, h.backups⟩
  by_cases hk : k' = k
  · subst hk
    have := hd d' (by simpa [Catalog.setDeletion] using hd')
    exact ⟨this.row, this.todo⟩
  · have := h.deletions k' d' (by simpa [Catalog.setDeletion, hk] using hd')
    exact ⟨this.row, this.todo⟩

theorem Inv.setBackup {b : Option BackupRun}
    (hb : ∀ b', b = some b' → w.rows b'.rp ≠ none ∧ w.rows b'.rp ≠ some .missing) :
    (w.setBackup k b).Inv := by
  refine ⟨h.ids, h.committed, h.missing, h.reached, fun k' d' hd' => ⟨(h.deletions k' d' hd').row,
    (h.deletions k' d' hd').todo⟩, fun k' b' hb' => ?_⟩
  by_cases hk : k' = k
  · subst hk
    exact hb b' (by simpa [Catalog.setBackup] using hb')
  · exact h.backups k' b' (by simpa [Catalog.setBackup, hk] using hb')

theorem Inv.endBackup : (w.setBackup k none).Inv := h.setBackup fun _ hb => by cases hb

theorem Inv.endDeletion : (w.setDeletion k none).Inv := h.setDeletion fun _ hd => by cases hd

theorem Inv.setRow {st : RecoveryPointState} (hm : st ≠ .missing)
    (hc : st = .committed → w.hasManifest rp = true) (hr : rp ∈ w.reached → st = .deleted)
    (hd : st ≠ .deleting → st ≠ .deleted → ∀ k d, w.deletions k = some d → d.rp ≠ rp) :
    (w.setRow rp st).Inv := by
  have hrow (x : String) : (w.setRow rp st).rows x = if x = rp then some st else w.rows x := by
    simp [Catalog.setRow, Function.update_apply]
  refine ⟨h.ids, fun x hx => ?_, fun x hx => ?_, fun x hx => ?_, fun k d hkd => ⟨?_, ?_⟩, fun k b hb => ?_⟩
  · rw [hrow] at hx
    split at hx
    · next he => rw [he]; exact hc (Option.some.inj hx)
    · exact h.committed x hx
  · rw [hrow]
    split
    · simpa using hm
    · exact h.missing x hx
  · rw [hrow]
    split
    · next he => rw [hr (he ▸ hx)]
    · exact h.reached x hx
  · rw [hrow]
    split
    · next he =>
      by_contra hn
      rw [not_or, Option.some.injEq, Option.some.injEq] at hn
      exact hd hn.1 hn.2 k d hkd he
    · exact (h.deletions k d hkd).row
  · exact (h.deletions k d hkd).todo
  · rw [hrow]
    split
    · exact ⟨by simp, by simpa using hm⟩
    · exact h.backups k b hb

theorem Inv.addSnapshot (hfresh : w.fresh s.id = true)
    (hs : trustedManifest s = true → w.rows s.tags.rp ≠ some .missing) : (w.addSnapshot s).Inv := by
  refine ⟨nodup_cons.2 ⟨by simpa [fresh] using hfresh, h.ids⟩, fun rp hrp => ?_, fun rp hrp => ?_,
    h.reached, fun k d hd => ⟨(h.deletions k d hd).row, fun l hl t ht => ?_⟩, h.backups⟩
  · exact hasManifest_addSnapshot (h.committed rp hrp)
  · rcases hasManifest_add hrp with hrp | ⟨htr, rfl⟩
    · exact h.missing rp hrp
    · exact hs htr
  · obtain ⟨ht, hrp⟩ := (h.deletions k d hd).todo l hl t ht
    exact ⟨mem_cons_of_mem _ ht, hrp⟩

theorem Inv.remove (hd : w.Marked d) (hs : s ∈ w.written ∧ s.tags.rp = d.rp) : (w.remove s).Inv := by
  refine ⟨h.ids, fun rp hrp => ?_, fun rp hrp => h.missing rp (hasManifest_of_remove hrp), h.reached,
    fun k d hd => ⟨(h.deletions k d hd).row, (h.deletions k d hd).todo⟩, h.backups⟩
  refine hasManifest_remove h.ids hs.1 (fun he => ?_) (h.committed rp hrp)
  have hrow := hd.row
  rw [← hs.2, he, show w.rows rp = some .committed from hrp] at hrow
  simp at hrow

theorem Inv.read (r : Reindexer) : (w.read k r).Inv := by
  unfold Catalog.read
  split
  · exact h
  · repeat' split
    all_goals exact h.setReindexer _

theorem Inv.index {r : Reindexer} (hr : w.reindexers k = some r)
    (hs : w.InStep (.index k)) : (w.index k r).Inv := by
  obtain ⟨hids, hall⟩ := hs r hr
  have hrow {rp : String} (hrp : rp ∉ r.ids) : indexed r.ids rp (w.rows rp) = w.rows rp := by
    rw [indexed, if_neg hrp, if_neg fun hc => hrp (hall rp hc (h.committed rp hc))]
  have hrow' {rp : String} (hrp : rp ∈ r.ids) : indexed r.ids rp (w.rows rp) = some .committed :=
    if_pos hrp
  unfold Catalog.index
  split
  · exact h
  suffices hinv : {w with rows := fun rp => indexed r.ids rp (w.rows rp)}.Inv from
    hinv.setReindexer none
  refine ⟨h.ids, fun rp hc => ?_, fun rp hm => ?_, fun rp hd => ?_,
    fun k' d hd => ⟨?_, (h.deletions k' d hd).todo⟩, fun k' b hb => ?_⟩
  · by_cases hrp : rp ∈ r.ids
    · exact (hids rp hrp).manifest
    · exact h.committed rp ((hrow hrp).symm.trans hc)
  · by_cases hrp : rp ∈ r.ids
    · exact fun hn => absurd ((hrow' hrp).symm.trans hn) (by simp)
    · exact fun hn => h.missing rp hm ((hrow hrp).symm.trans hn)
  · by_cases hrp : rp ∈ r.ids
    · exact absurd (h.reached rp hd) (hids rp hrp).row
    · exact (hrow hrp).trans (h.reached rp hd)
  · have hrp : d.rp ∉ r.ids := fun hrp => (hids d.rp hrp).idle k' d hd rfl
    exact (h.deletions k' d hd).row.imp (hrow hrp).trans (hrow hrp).trans
  · by_cases hrp : b.rp ∈ r.ids
    · exact ⟨fun hn => absurd ((hrow' hrp).symm.trans hn) (by simp),
        fun hn => absurd ((hrow' hrp).symm.trans hn) (by simp)⟩
    · exact ⟨fun hn => (h.backups k' b hb).1 ((hrow hrp).symm.trans hn),
        fun hn => (h.backups k' b hb).2 ((hrow hrp).symm.trans hn)⟩

theorem Inv.begin (rp : String) : (w.begin k rp).Inv := by
  unfold Catalog.begin
  split
  · next st hst =>
    split
    · next hdel =>
      refine Inv.setDeletion (h.setRow (by simp) (by simp) (fun hr => ?_) fun hn => absurd rfl hn) ?_
      · rw [h.reached rp hr] at hst
        cases hst
        simp [Protection.Db.deletable] at hdel
      · intro d hd
        obtain rfl := Option.some.inj hd
        exact ⟨.inl (by simp [Catalog.setRow]), fun l hl => (by cases hl)⟩
    · exact h
  · exact h

end

theorem mem_tagged (h : s ∈ w.tagged rp) : s ∈ w.written ∧ s.tags.rp = rp := by
  simp only [tagged, mem_append, mem_filter, mem_stored, Bool.and_eq_true, beq_iff_eq] at h
  rcases h with ⟨⟨hw, -⟩, hrp, -⟩ | ⟨⟨hw, -⟩, hrp, -⟩
  · exact ⟨hw, hrp⟩
  · exact ⟨hw, hrp⟩

theorem Inv.list (h : w.Inv) (hd : w.deletions k = some d) :
    (w.setDeletion k (some {d with todo := some (w.tagged d.rp)})).Inv := by
  refine h.setDeletion fun d' hd' => ?_
  obtain rfl := Option.some.inj hd'
  refine ⟨(h.deletions k d hd).row, fun l hl s hs => ?_⟩
  cases hl
  exact mem_tagged hs

theorem Inv.delete (h : w.Inv) (hd : w.deletions k = some d) (f : Fate) : (w.delete k d f).Inv := by
  have hmark := h.deletions k d hd
  unfold Catalog.delete
  split
  · next s rest htodo =>
    have hs := hmark.todo _ htodo s mem_cons_self
    -- an error ends the deletion, with or without its effect
    have hend (v : Catalog) (hv : v.Inv) (hvd : v.Marked d) :
        (v.setDeletion k (if f = .done then some {d with todo := some rest} else none)).Inv := by
      refine hv.setDeletion fun d' hd' => ?_
      split at hd'
      · obtain rfl := Option.some.inj hd'
        refine ⟨hvd.row, fun l hl t ht => ?_⟩
        obtain rfl := Option.some.inj hl
        exact hvd.todo _ htodo t (mem_cons_of_mem _ ht)
      · cases hd'
    cases f.performed with
    | true => exact hend _ (h.remove hmark hs) ((h.remove hmark hs).deletions k d hd)
    | false => exact hend _ h hmark
  · exact h

theorem Inv.finish (h : w.Inv) (d : Deletion) : (w.finish k d).Inv := by
  unfold Catalog.finish
  split
  · have hrow : (w.setRow d.rp .deleted).Inv :=
      h.setRow (by simp) (by simp) (fun _ => rfl) fun _ hn => absurd rfl hn
    refine Inv.endDeletion ⟨hrow.ids, hrow.committed, hrow.missing, fun rp hrp => ?_,
      fun k d hd => ⟨(hrow.deletions k d hd).row, (hrow.deletions k d hd).todo⟩, hrow.backups⟩
    rcases mem_cons.1 hrp with rfl | hrp
    · simp [Catalog.setRow]
    · exact hrow.reached rp hrp
  · exact h

theorem Inv.backup (h : w.Inv) (hrp : w.rows rp = none) :
    ((w.setRow rp .pending).setBackup k (some ⟨rp, false⟩)).Inv := by
  refine Inv.setBackup (h.setRow (by simp) (by simp) (fun hr => ?_) fun _ _ k d hd he => ?_) ?_
  · rw [h.reached rp hr] at hrp
    cases hrp
  · have := (h.deletions k d hd).row
    rw [he, hrp] at this
    simp at this
  · intro b hb
    cases hb
    simp [Catalog.setRow]

theorem Inv.write (h : w.Inv) {b : BackupRun} (hb : w.backups k = some b) (m : Manifest)
    (id : String) (f : Fate) : (w.write k b m id f).Inv := by
  have hrow := h.backups k b hb
  have hset (v : Catalog) (hv : v.Inv) (hrows : v.rows = w.rows) (c : Bool) :
      (v.setBackup k (some {b with written := c})).Inv := by
    refine hv.setBackup fun b' hb' => ?_
    obtain rfl := Option.some.inj hb'
    rw [hrows]
    exact hrow
  unfold Catalog.write
  split
  · exact h
  next hrp =>
  split
  · exact hset w h rfl true
  split
  · exact h
  next hfresh =>
  cases f.performed with
  | false => exact hset w h rfl _
  | true =>
    refine hset _ (h.addSnapshot (by simpa [Manifest.snapshot] using hfresh) fun _ => ?_) rfl _
    show w.rows m.recoveryPointId ≠ some .missing
    rw [show m.recoveryPointId = b.rp by simpa using hrp]
    exact hrow.2

theorem Inv.complete (h : w.Inv) {b : BackupRun} (hb : w.backups k = some b)
    (hs : w.InStep (.complete k)) : (w.complete k b).Inv := by
  unfold Catalog.complete
  split
  · next hw =>
    have hcur := hs b hb hw
    exact Inv.endBackup (h.setRow (by simp) (fun _ => hcur.manifest)
      (fun hr => absurd (h.reached _ hr) hcur.row) fun _ _ => hcur.idle)
  · exact h

theorem Inv.fail (h : w.Inv) (b : BackupRun) : (w.fail k b).Inv := by
  refine Inv.endBackup ?_
  split
  · next hp =>
    refine h.setRow (by simp) (by simp) (fun hr => ?_) fun _ _ k d hd he => ?_
    · rw [h.reached _ hr] at hp
      cases hp
    · have := (h.deletions k d hd).row
      rw [he, hp] at this
      simp at this
  · exact h

theorem getD_map_inv {α : Type} {o : Option α} {f : α → Catalog} (h : w.Inv)
    (hf : ∀ a, o = some a → (f a).Inv) : ((o.map f).getD w).Inv := by
  cases o with
  | none => exact h
  | some a => exact hf a rfl

/-- Each transaction, in step with the Repository, keeps the agreement. -/
theorem Inv.step (h : w.Inv) (e : CatalogEvent) (hs : w.InStep e) : (w.step e).Inv := by
  cases e with
  | agent s =>
    simp only [Catalog.step]
    split
    · next ha =>
      refine h.addSnapshot ha.2 fun htr => ?_
      simp [trustedManifest, ha.1, manifestSourceUser, agentKopiaUser] at htr
    · exact h
  | reindex k => exact h.setReindexer _
  | read k => exact getD_map_inv h fun r _ => h.read r
  | index k => exact getD_map_inv h fun r hr => h.index hr hs
  | begin k rp => exact h.begin rp
  | list k => exact getD_map_inv h fun d hd => h.list hd
  | delete k f => exact getD_map_inv h fun d hd => h.delete hd f
  | finish k => exact getD_map_inv h fun d _ => h.finish d
  | backup k rp =>
    simp only [Catalog.step]
    split
    · next hrp => exact h.backup hrp
    · exact h
  | write k m id f => exact getD_map_inv h fun b hb => h.write hb m id f
  | complete k => exact getD_map_inv h fun b hb => h.complete hb hs
  | fail k => exact getD_map_inv h fun b _ => h.fail b
  | stop k => exact ((h.setReindexer none).endDeletion).endBackup

end Catalog

/-- **Index and Repository agree**, in every run whose writes to the index are in step. -/
theorem agrees_of_inStep (w : Catalog) (hw : w.AtRest) (es : List CatalogEvent)
    (hes : Along Catalog.step Catalog.InStep w es) : (run Catalog.step w es).Agrees :=
  (hes.invariant hw.inv fun _ e h hs => h.step e hs).agrees

/-! One recovery point. -/

def onlyRP : String := onlyManifest.recoveryPointId

/-- It is written, indexed before its own worker records it, and recorded. -/
def indexedRun : List CatalogEvent :=
  [.backup 0 onlyRP, .write 0 onlyManifest "m" .done, .reindex 1, .read 1, .index 1, .complete 0]

def deleteOnly : List CatalogEvent := [.begin 2 onlyRP, .list 2, .delete 2 .done, .finish 2]

def staleIndexRun : List CatalogEvent :=
  [.backup 0 onlyRP, .write 0 onlyManifest "m" .done, .complete 0, .reindex 1, .read 1] ++ deleteOnly ++ [.index 1]

def lateCompleteRun : List CatalogEvent :=
  [.backup 0 onlyRP, .write 0 onlyManifest "m" .done, .reindex 1, .read 1, .index 1] ++ deleteOnly ++ [.complete 0]

def lateManifestRun : List CatalogEvent :=
  [.reindex 1, .backup 0 onlyRP, .write 0 onlyManifest "m" .done, .complete 0, .index 1]

theorem atRest_empty : Catalog.empty.AtRest where
  ids := nodup_nil
  agrees := ⟨fun _ h => (by cases h), fun _ h => (by cases h), fun _ h => (by cases h)⟩
  reached _ h := (by cases h)
  deletions _ := rfl
  backups _ := rfl

theorem agrees_of_inStep_indexed : (run Catalog.step .empty indexedRun).Agrees := by
  refine agrees_of_inStep .empty atRest_empty indexedRun
    (And.intro trivial (And.intro trivial (And.intro trivial (And.intro trivial (And.intro ?_
      (And.intro ?_ trivial))))))
  · intro r hr
    cases hr
    refine ⟨fun rp hrp => ?_, fun rp hrp => ?_⟩
    · obtain rfl : rp = onlyRP := mem_singleton.1 hrp
      exact ⟨by decide, by decide, fun k d hd => (by cases hd)⟩
    · by_cases he : rp = onlyRP
      · exact fun _ => mem_singleton.2 he
      change Function.update (fun _ => none) onlyRP _ rp = _ at hrp
      rw [Function.update_of_ne he] at hrp
      cases hrp
  · intro b hb _
    cases hb
    exact ⟨by decide, by decide, fun k d hd => (by cases hd)⟩

/-- A stale index transaction and a late CompleteBackup bring a deleted row back without its
manifest, and a stale index transaction marks a committed one as missing. -/
theorem index_disagrees : ¬ (run Catalog.step .empty staleIndexRun).Agrees ∧
    ¬ (run Catalog.step .empty lateCompleteRun).Agrees ∧
    ¬ (run Catalog.step .empty lateManifestRun).Agrees := by
  refine ⟨fun h => ?_, fun h => ?_, fun h => ?_⟩
  · exact absurd (h.committed onlyRP (by decide)) (by decide)
  · exact absurd (h.committed onlyRP (by decide)) (by decide)
  · exact h.missing onlyRP (by decide) (by decide)

end Dbr2.Backup
