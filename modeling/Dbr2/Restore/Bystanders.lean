import Dbr2.Restore.Impact

/-! What an unblocked preview says about the containers of others.

A restore must not overwrite what a container of another application is using. The preview looks for
such containers by the project label of a volume and by the texts of bind paths, and an unblocked
one has found none. -/
namespace Dbr2.Restore.Impact
open Lib.GoPath List

def names (s : String) : List Text := elems (clean s.toList)

def Absolute (s : String) : Prop := s.toList.head? = some '/'

def Overlap (a b : String) : Prop :=
  Absolute a ∧ Absolute b ∧ (names a <+: names b ∨ names b <+: names a)

instance instDecidableAbsolute (s : String) : Decidable (Absolute s) :=
  inferInstanceAs (Decidable (s.toList.head? = some '/'))

instance instDecidableOverlap (a b : String) : Decidable (Overlap a b) :=
  inferInstanceAs (Decidable (Absolute a ∧ Absolute b ∧ (names a <+: names b ∨ names b <+: names a)))

def Container.MountsVolume (c : Container) (name : String) : Prop :=
  ∃ mt ∈ c.mounts, mt.type = .volume ∧ mt.name = name

def Container.MountsPath (c : Container) (src : String) : Prop :=
  ∃ mt ∈ c.mounts, mt.type = .bind ∧ mt.source = src

/-- The container mounts what the restore of the component overwrites. -/
def Shares (c : Container) (pc : PreviewComponent) : Prop :=
  (pc.kind = .volume ∧ pc.action = .overwrite ∧ c.MountsVolume pc.target) ∨
    ((pc.kind = .bindMount ∨ pc.kind = .config) ∧ ∃ src, c.MountsPath src ∧ Overlap src pc.target)

def Safe (i : PreviewInput) (p : Preview) : Prop :=
  ∀ c ∈ i.inventory.containers, c.state = .running → c.isAgent = false →
    (∃ pc ∈ p.components, Shares c pc) → c.id ∈ p.stopIds ∨ i.belongs c = true

structure Bystander (i : PreviewInput) (selected : List Component) (c : Container) : Prop where
  found : c ∈ i.inventory.containers
  running : c.state = .running
  not_agent : c.isAgent = false
  not_stopped : c.id ∉ i.stopIds selected
  not_ours : i.belongs c = false

/-- All that the container shares with the components is what the preview looks for: a volume with
the label of another project, and a bind path whose text is nested with the target's. -/
structure Separate (i : PreviewInput) (selected : List Component) (c : Container) : Prop where
  volumes : ∀ comp ∈ selected, comp.kind = .volume → c.MountsVolume comp.volumeName →
    ∀ v, i.volume comp.volumeName = some v → i.otherProject v.labels = true
  binds : ∀ comp ∈ selected, comp.kind = .bindMount → ∀ src, c.MountsPath src →
    Overlap src (i.remapped comp.path) → nested src (i.remapped comp.path) = true
  config : ∀ comp ∈ selected, comp.kind = .config → ∀ src, c.MountsPath src →
    ¬ Overlap src (i.remapped i.m.workingDir)

section
variable {i : PreviewInput} {selected : List Component} {c : Container} {comp : Component}

theorem shares_previewComponent_iff : Shares c (i.previewComponent comp) ↔
    (comp.kind = .volume ∧ c.MountsVolume comp.volumeName ∧ ∃ v, i.volume comp.volumeName = some v) ∨
    (comp.kind = .bindMount ∧ ∃ src, c.MountsPath src ∧ Overlap src (i.remapped comp.path)) ∨
    (comp.kind = .config ∧ ∃ src, c.MountsPath src ∧ Overlap src (i.remapped i.m.workingDir)) := by
  unfold Shares PreviewInput.previewComponent
  cases hkind : comp.kind <;> simp [Option.isSome_iff_exists, and_comm]

theorem Bystander.mem_bindUsers (hc : Bystander i selected c) {src : String} (h : c.MountsPath src) :
    ∃ who, (src, who) ∈ i.bindUsers := by
  obtain ⟨mt, hmt, hbind, rfl⟩ := h
  have hmem : (mt.source, c.trimmed) ∈ i.bindMounts := by
    apply mem_flatMap.2
    refine ⟨c, mem_filter.2 ⟨hc.found, by simp [hc.not_ours, hc.not_agent]⟩, ?_⟩
    exact mem_map.2 ⟨mt, mem_filter.2 ⟨hmt, by simpa using hbind⟩, rfl⟩
  exact exists_mem_ranged hmem

theorem otherProject_eq_false (h : i.componentCollisions comp = []) (hkind : comp.kind = .volume) {v : Volume}
    (hv : i.volume comp.volumeName = some v) : i.otherProject v.labels = false := by
  unfold PreviewInput.componentCollisions at h
  simp only [hkind, hv] at h
  by_contra hother
  rw [if_pos (by simpa using hother)] at h
  cases h

theorem nested_eq_false (h : i.componentCollisions comp = []) (hkind : comp.kind = .bindMount)
    (hc : Bystander i selected c) {src : String} (hsrc : c.MountsPath src) :
    nested src (i.remapped comp.path) = false := by
  obtain ⟨who, hwho⟩ := hc.mem_bindUsers hsrc
  unfold PreviewInput.componentCollisions at h
  simp only [hkind, map_eq_nil_iff] at h
  simpa using filter_eq_nil_iff.1 h _ hwho

theorem safe_iff_not_shares : Safe i (computePreview i selected) ↔
    ∀ c, Bystander i selected c → ∀ comp ∈ selected, ¬ Shares c (i.previewComponent comp) := by
  constructor
  · intro hsafe c hc comp hcomp hshares
    rcases hsafe c hc.found hc.running hc.not_agent ⟨_, mem_map_of_mem hcomp, hshares⟩ with hstop | hours
    · exact hc.not_stopped hstop
    · rw [hc.not_ours] at hours
      cases hours
  · intro hnone c hfound hrunning hagent hshares
    obtain ⟨pc, hpc, hshares⟩ := hshares
    obtain ⟨comp, hcomp, rfl⟩ := mem_map.1 hpc
    by_contra hneither
    rw [not_or, Bool.not_eq_true] at hneither
    exact hnone c ⟨hfound, hrunning, hagent, hneither.1, hneither.2⟩ comp hcomp hshares

end

/-- Restoring an application, of a Compose project or of none, on a host with one container. -/
def beside (project : String) (c : Container) (volumes : List Volume) : PreviewInput where
  m := ⟨"rp_1", "shop", project, "/srv/shop", "a", none, [], []⟩
  targetAgentId := "a"
  targetHostname := "h"
  inv := some ⟨[c], volumes, [], []⟩
  targetAppId := ""
  targetAppEnv := ""
  manual := []
  remaps := []

def neighbour (mt : Mount) : Container := ⟨"id-wiki", "/wiki", .running, [(labelProject, "wiki")], [mt], []⟩

def volumeData : Component := ⟨"volume:data", .volume, .succeeded, 0, "", "data", none⟩

def configFiles : Component := ⟨"config", .config, .succeeded, 0, "", "", none⟩

def bindConf : Component := ⟨"bind:/srv/shop/conf", .bindMount, .succeeded, 0, "/srv/shop/conf", "", none⟩

theorem bystander_of_beside {project : String} {mt : Mount} {volumes : List Volume} {selected : List Component}
    (h : (beside project (neighbour mt) volumes).belongs (neighbour mt) = false) :
    Bystander (beside project (neighbour mt) volumes) selected (neighbour mt) where
  found := mem_singleton.2 rfl
  running := rfl
  not_agent := rfl
  not_stopped := by
    have hours : (beside project (neighbour mt) volumes).ours = [] :=
      filter_eq_nil_iff.2 fun c hc => by
        obtain rfl := mem_singleton.1 hc
        rw [h]
        exact Bool.false_ne_true
    simp [PreviewInput.stopIds, hours]
  not_ours := h

theorem not_safe_of_shares {project : String} {mt : Mount} {volumes : List Volume} {comp : Component}
    (hours : (beside project (neighbour mt) volumes).belongs (neighbour mt) = false)
    (h : Shares (neighbour mt) ((beside project (neighbour mt) volumes).previewComponent comp)) :
    ¬ Safe (beside project (neighbour mt) volumes)
      (computePreview (beside project (neighbour mt) volumes) [comp]) := by
  intro hsafe
  exact safe_iff_not_shares.1 hsafe _ (bystander_of_beside hours) comp (mem_singleton.2 rfl) h

end Dbr2.Restore.Impact
