import Dbr2.Protection.Planning

/-! Volumes and bind mounts that dumps take the place of.

With the logical strategy a mount that only database containers of the application use is not
captured. It is looked for among the detected databases, before the excluded components are
taken out of the plan, and among the containers of the application. So it is really replaced
exactly if no container that mounts it is without a dump that stays (`loses_nothing_iff`). -/
namespace Dbr2.Protection.Planning
open Lib.GoPath List
open Backup (Kind)

variable {x : Analysis} {inv : Option (List Container)} {set : BackupSettings} {k : String}

def Plan.names (p : Plan) : List String := p.components.map (·.name)

/-- The volumes and bind mounts that are captured if no dump takes their place, by the names of
their components. -/
def captured (x : Analysis) (set : BackupSettings) : List String :=
  ((x.volumes.filter fun v => v.isProtected && v.mountpoint != "").map (fun v => "volume:" ++ v.name) ++
    (bindLoop skipBind [] x.bindSources).map ("bind:" ++ ·)).filter (· ∉ set.excludedComponents)

theorem mem_captured (h : k ∈ captured x set) : k ∉ set.excludedComponents ∧
    ((∃ v ∈ x.volumes, v.isProtected = true ∧ v.mountpoint ≠ "" ∧ k = "volume:" ++ v.name) ∨
      ∃ b ∈ x.bindSources, b ≠ "" ∧ skipBind b = false ∧ k = "bind:" ++ b) := by
  unfold captured at h
  rw [mem_filter, mem_append, mem_map, mem_map] at h
  obtain ⟨⟨v, hv, rfl⟩ | ⟨b, hb, rfl⟩, hk⟩ := h
  · obtain ⟨hv, hok⟩ := mem_filter.1 hv
    exact ⟨by simpa using hk, .inl ⟨v, hv, by simpa using hok⟩⟩
  · obtain ⟨hb, hne, -, hskip⟩ := mem_bindLoop.1 hb
    exact ⟨by simpa using hk, .inr ⟨b, hb, hne, hskip, rfl⟩⟩

theorem dbMounts_of_candidate {c : ComponentSpec} {a : String} (hc : c ∈ candidates x inv set)
    (hname : c.name = "volume:" ++ a ∨ c.name = "bind:" ++ a) : dbMounts x inv set c.name = false := by
  rcases mem_candidates.1 hc with rfl | ⟨-, d, -, rfl⟩ | ⟨v, -, -, -, hd, rfl⟩ | ⟨b, -, -, -, hd, rfl⟩
  · have hconfig : ("config" : String) = "config" ++ "" := by decide
    rcases hname with hname | hname
    · exact absurd (hconfig.symm.trans hname) (append_ne rfl rfl (by decide) "" a)
    · exact absurd (hconfig.symm.trans hname) (append_ne rfl rfl (by decide) "" a)
  · rcases hname with hname | hname
    · exact absurd hname (append_ne rfl rfl (by decide) d.name a)
    · exact absurd hname (append_ne rfl rfl (by decide) d.name a)
  · exact hd
  · exact hd

theorem mem_names_components : k ∈ (components x inv set).map (·.name) ↔
    k ∉ set.excludedComponents ∧ ∃ c ∈ candidates x inv set, c.name = k := by
  rw [names_components, mem_filter, mem_map, decide_eq_true_eq]
  exact and_comm

theorem captured_mem_names_iff (hk : k ∈ captured x set) :
    k ∈ (components x inv set).map (·.name) ↔ dbMounts x inv set k = false := by
  obtain ⟨hex, hmount⟩ := mem_captured hk
  rw [mem_names_components]
  constructor
  · rintro ⟨-, c, hc, rfl⟩
    rcases hmount with ⟨v, -, -, -, hname⟩ | ⟨b, -, -, -, hname⟩
    · exact dbMounts_of_candidate hc (.inl hname)
    · exact dbMounts_of_candidate hc (.inr hname)
  · intro hd
    refine ⟨hex, ?_⟩
    rcases hmount with ⟨v, hv, hp, hm, rfl⟩ | ⟨b, hb, hne, hskip, rfl⟩
    · exact ⟨volumeComponent v, mem_candidates.2 (.inr (.inr (.inl ⟨v, hv, hp, hm, hd, rfl⟩))), rfl⟩
    · exact ⟨bindComponent b, mem_candidates.2 (.inr (.inr (.inr ⟨b, hb, hne, hskip, hd, rfl⟩))), rfl⟩

def Plan.Dumps (p : Plan) (c : Container) : Prop :=
  ∃ s ∈ p.components, s.kind = .database ∧ ∃ d, s.database = some d ∧ d.containerId = trimmed c.name

def Dumped (x : Analysis) (inv : Option (List Container)) (set : BackupSettings) (c : Container) : Prop :=
  ∃ d ∈ databases x inv, d.containerId = trimmed c.name ∧ "database:" ++ d.name ∉ set.excludedComponents

theorem dumps_iff {c : Container} {ids : List String} {pre post : List Hook} (h : set.databaseStrategy ≠ .volume) :
    Plan.Dumps ⟨components x inv set, ids, pre, post⟩ c ↔ Dumped x inv set c := by
  constructor
  · rintro ⟨s, hs, hkind, d, hd, hid⟩
    obtain ⟨s₀, hs₀, hex, heq⟩ := mem_components hs
    rw [heq] at hkind hd
    rcases mem_candidates.1 hs₀ with rfl | ⟨-, d', hd', rfl⟩ | ⟨v, -, -, -, -, rfl⟩ | ⟨b, -, -, -, -, rfl⟩
    · cases hkind
    · cases hd
      exact ⟨d', hd', hid, hex⟩
    · cases hkind
    · cases hkind
  · rintro ⟨d, hd, hid, hex⟩
    obtain ⟨r, hr⟩ := add_eq (c := databaseComponent d) hex
    have hmem : {databaseComponent d with required := r} ∈ components x inv set :=
      mem_filterMap.2 ⟨_, mem_candidates.2 (.inr (.inl ⟨h, d, hd, rfl⟩)), hr⟩
    exact ⟨_, hmem, rfl, _, rfl, hid⟩

/-- A mount that would be captured is left out only if each container of the host that mounts it
has a dump in the plan; with another strategy than logical none is left out. -/
structure LosesNothing (x : Analysis) (inv : Option (List Container)) (set : BackupSettings) (p : Plan) : Prop where
  logical : set.databaseStrategy = .logical → ∀ k ∈ captured x set, k ∉ p.names →
    ∀ c ∈ inv.getD [], c.mountsKey k → p.Dumps c
  other : set.databaseStrategy ≠ .logical → ∀ k ∈ captured x set, k ∈ p.names

/-- Of the mounts that only databases of the application use, each container of the host that
mounts one is a detected database with a component that is not excluded. -/
def Replaceable (x : Analysis) (inv : Option (List Container)) (set : BackupSettings) : Prop :=
  ∀ cs, inv = some cs → ∀ k ∈ captured x set, isExclusive (databases x inv) cs (containerIds x) k = true →
    ∀ c ∈ cs, c.mountsKey k → Dumped x inv set c

theorem dbMounts_logical (h : set.databaseStrategy = .logical) :
    dbMounts x inv set k = inv.any fun cs => isExclusive (databases x inv) cs (containerIds x) k := by
  simp [dbMounts, h]

/-- The plan loses nothing exactly when, with logical dumps, what is left out is in a dump. -/
theorem loses_nothing_iff (app : Application) (set : BackupSettings) (x : Analysis) (p : Plan)
    (hx : app.analysis = some x) (hp : buildPlan app set = .ok p) :
    LosesNothing x app.inventory set p ↔ (set.databaseStrategy = .logical → Replaceable x app.inventory set) := by
  obtain ⟨x', pre, post, hx', -, -, -, rfl⟩ := buildPlan_eq_ok.1 hp
  obtain rfl := Option.some.inj (hx.symm.trans hx')
  constructor
  · intro h hs cs hinv k hk hex c hc hm
    have hout : k ∉ (components x app.inventory set).map (·.name) := by
      rw [captured_mem_names_iff hk, dbMounts_logical hs, hinv]
      rw [hinv] at hex
      simp [hex]
    have hdumps := h.logical hs k hk hout c (by rw [hinv]; exact hc) hm
    exact (dumps_iff (by rw [hs]; decide)).1 hdumps
  · intro h
    refine ⟨fun hs k hk hout c hc hm => ?_, fun hs k hk => ?_⟩
    · have hdb : dbMounts x app.inventory set k ≠ false := fun hd => hout ((captured_mem_names_iff hk).2 hd)
      rw [dbMounts_logical hs] at hdb
      cases hinv : app.inventory with
      | none =>
        rw [hinv] at hc
        cases hc
      | some cs =>
        rw [hinv] at hc hdb
        have hex : isExclusive (databases x (some cs)) cs (containerIds x) k = true := by simpa using hdb
        have hdumped := h hs cs hinv k hk (hinv ▸ hex) c hc hm
        rw [hinv] at hdumped
        exact (dumps_iff (by rw [hs]; decide)).2 hdumped
    · refine (captured_mem_names_iff hk).2 ?_
      simp [dbMounts, hs]

def oneDatabase : Application where
  analysis := some
    { workingDir := "", services := [⟨"db", "postgres", [⟨"1", "/db"⟩]⟩], volumes := [⟨"data", "/v/data", true⟩]
      bindSources := [], configFiles := [], envFiles := [], dependencies := [] }
  inventory := some [⟨"1", "/db", "postgres", [], [⟨.volume, "data", "/v/data"⟩]⟩]

def logicalSettings (excluded : List String) : BackupSettings := ⟨[], [], [], excluded, .logical⟩

/-- With its dump in the plan, the volume is left out and nothing is lost. -/
theorem loses_nothing_iff_dumped : ∃ x p, oneDatabase.analysis = some x ∧
    buildPlan oneDatabase (logicalSettings []) = .ok p ∧ p.names = ["config", "database:db"] ∧
    LosesNothing x oneDatabase.inventory (logicalSettings []) p := by
  refine ⟨_, _, rfl, rfl, by decide, (loses_nothing_iff oneDatabase (logicalSettings []) _ _ rfl rfl).2 fun _ => ?_⟩
  rintro cs ⟨⟩ k hk - c hc -
  obtain rfl := mem_singleton.1 hc
  exact ⟨_, mem_singleton_self _, by decide, by decide⟩

/-- The dump is excluded, and the volume is left out all the same. -/
theorem excluded_dump_loses_volume : ∃ x p, oneDatabase.analysis = some x ∧
    buildPlan oneDatabase (logicalSettings ["database:db"]) = .ok p ∧ p.names = ["config"] ∧
    "volume:data" ∈ captured x (logicalSettings ["database:db"]) ∧
    ¬ LosesNothing x oneDatabase.inventory (logicalSettings ["database:db"]) p := by
  refine ⟨_, _, rfl, rfl, by decide, by decide, fun h => ?_⟩
  obtain ⟨s, hs, hkind, -⟩ := h.logical rfl "volume:data" (by decide) (by decide) _ (mem_singleton_self _)
    ⟨_, mem_singleton_self _, rfl⟩
  revert s
  decide

end Dbr2.Protection.Planning
