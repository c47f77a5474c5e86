import Mathlib.Data.List.Pairwise
import Dbr2.Backup.Capture
import Dbr2.Protection.Planning

/-! The names of a plan's components.

Each kind has a prefix of its own, and the loop over the bind mounts takes each source once.
So two components, companions included, have one name only if two volumes have, or two
databases. The containers of a service with several are numbered; with the hyphen between,
a number ends where the name of the service does, but a service of one container may itself
be called like that (`sameName_iff`). -/
namespace Dbr2.Protection.Planning
open Lib.GoPath List
open Backup (Kind)

variable {x : Analysis} {inv : Option (List Container)} {set : BackupSettings}

def databaseSites (x : Analysis) (inv : Option (List Container)) : List (Service × Nat) :=
  x.services.flatMap fun svc => svc.containers.zipIdx.filterMap fun r =>
    (detect (inv.getD []) svc r.2 r.1).map fun _ => (svc, r.2)

def siteName (a : Service × Nat) : String := "database:" ++ databaseName a.1 a.2

theorem names_databases : (databases x inv).map (fun d => "database:" ++ d.name) = (databaseSites x inv).map siteName := by
  unfold databases detectDatabases databaseSites
  rw [map_flatMap, map_flatMap]
  refine congrArg (fun f => x.services.flatMap f) (funext fun svc => ?_)
  rw [map_filterMap, map_filterMap]
  refine congrArg (fun f => svc.containers.zipIdx.filterMap f) (funext fun r => ?_)
  unfold detect
  rw [Option.map_map, Option.map_map, Option.map_map]
  rfl

/-- A service with one container is called like the numbered container of another. -/
def CalledLike (single several : Service × Nat) : Prop :=
  single.1.name = several.1.name ++ "-" ++ toString (several.2 + 1)

def SameName (a b : Service × Nat) : Prop :=
  if 1 < a.1.containers.length then
    if 1 < b.1.containers.length then a.1.name = b.1.name ∧ a.2 = b.2 else CalledLike b a
  else if 1 < b.1.containers.length then CalledLike a b else a.1.name = b.1.name

theorem hyphen_notMem_digits (n : Nat) : '-' ∉ (toString n).toList := by
  show '-' ∉ n.repr.toList
  rw [Nat.toList_repr]
  intro h
  have hdigit := Nat.isDigit_of_mem_toDigits (by decide) (by decide) h
  exact absurd hdigit (by decide)

theorem append_hyphen_inj {s t : List Char} {u v : List Char} (hu : '-' ∉ u) (hv : '-' ∉ v)
    (h : s ++ '-' :: u = t ++ '-' :: v) : s = t ∧ u = v := by
  have hrev := congrArg (List.takeWhile (· != '-')) (congrArg List.reverse h)
  have hcut : ∀ {w p : List Char}, '-' ∉ w → ((p ++ '-' :: w).reverse).takeWhile (· != '-') = w.reverse := by
    intro w p hw
    rw [reverse_append, reverse_cons, append_assoc, takeWhile_append_of_pos]
    · simp
    · intro c hc
      simp only [bne_iff_ne]
      rintro rfl
      exact hw (mem_reverse.1 hc)
  rw [hcut hu, hcut hv, reverse_inj] at hrev
  subst hrev
  exact ⟨append_cancel_right h, rfl⟩

theorem numbered_inj {s t : String} {i j : Nat} (h : s ++ "-" ++ toString i = t ++ "-" ++ toString j) :
    s = t ∧ i = j := by
  have hlist := congrArg String.toList h
  simp only [String.toList_append, append_assoc] at hlist
  obtain ⟨hs, hd⟩ := append_hyphen_inj (hyphen_notMem_digits i) (hyphen_notMem_digits j) hlist
  have hnum := Nat.toList_repr.symm.trans (hd.trans Nat.toList_repr)
  have hval := congrArg (fun ds => Nat.ofDigitChars 10 ds 0) hnum
  exact ⟨String.toList_injective hs, by simpa using hval⟩

theorem sameName_iff {a b : Service × Nat} : siteName a = siteName b ↔ SameName a b := by
  unfold siteName
  rw [String.append_right_inj]
  unfold databaseName SameName CalledLike
  split
  · split
    · constructor
      · intro h
        obtain ⟨hs, hi⟩ := numbered_inj h
        exact ⟨hs, by omega⟩
      · rintro ⟨hs, hi⟩
        rw [hs, hi]
    · exact eq_comm
  · split
    · exact Iff.rfl
    · exact Iff.rfl

def ComponentSpec.toSpec (c : ComponentSpec) : Backup.ComponentSpec := ⟨c.name, c.kind, c.required, c.path, c.captureFsmeta⟩

def Plan.resultNames (p : Plan) : List String := (p.components.map ComponentSpec.toSpec).flatMap Backup.resultNames

/-- The volumes that are captured have different names, and so have the databases: of the ones
that are not excluded. -/
structure NamedApart (x : Analysis) (inv : Option (List Container)) (set : BackupSettings) : Prop where
  volumes : ((x.volumes.filter fun v => v.isProtected && v.mountpoint != "" &&
    !dbMounts x inv set ("volume:" ++ v.name) && decide ("volume:" ++ v.name ∉ set.excludedComponents)).map (·.name)).Nodup
  databases : set.databaseStrategy ≠ .volume →
    ((databaseSites x inv).filter fun a => decide (siteName a ∉ set.excludedComponents)).Pairwise
      fun a b => ¬ SameName a b

theorem candidate_ne_fsmeta {c : ComponentSpec} (h : c ∈ candidates x inv set) (a : String) :
    c.name ≠ Backup.fsmetaName a := by
  rcases mem_candidates.1 h with rfl | ⟨-, d, -, rfl⟩ | ⟨v, -, -, -, -, rfl⟩ | ⟨b, -, -, -, -, rfl⟩
  · show "config" ++ "" ≠ _
    exact append_ne rfl rfl (by decide) "" a
  · exact append_ne rfl rfl (by decide) d.name a
  · exact append_ne rfl rfl (by decide) v.name a
  · exact append_ne rfl rfl (by decide) b a

theorem nodup_resultNames_iff {cs : List ComponentSpec} (h : ∀ c ∈ cs, ∀ a, c.name ≠ Backup.fsmetaName a) :
    ((cs.map ComponentSpec.toSpec).flatMap Backup.resultNames).Nodup ↔ (cs.map (·.name)).Nodup := by
  have hmem : ∀ {s : String} {c : ComponentSpec}, s ∈ Backup.resultNames c.toSpec →
      s = c.name ∨ s = Backup.fsmetaName c.name := by
    intro s c hs
    rcases mem_cons.1 hs with rfl | hs
    · exact .inl rfl
    split at hs
    · exact .inr (mem_singleton.1 hs)
    · cases hs
  rw [flatMap_map, nodup_flatMap]
  constructor
  · rintro ⟨-, hpair⟩
    refine pairwise_map.2 (hpair.imp fun hdisj hname => ?_)
    have hmem' : ∀ c : ComponentSpec, c.name ∈ Backup.resultNames c.toSpec := fun _ => mem_cons_self
    exact hdisj (hmem' _) (hname ▸ hmem' _)
  · intro hnodup
    refine ⟨fun c hc => ?_, ?_⟩
    · unfold Backup.resultNames
      split
      · exact nodup_cons.2 ⟨fun hs => h c hc c.name (mem_singleton.1 hs), nodup_singleton _⟩
      · exact nodup_singleton _
    · have hpair := pairwise_map.1 hnodup
      refine hpair.imp_of_mem fun {a b} ha hb hne s hsa hsb => ?_
      rcases hmem hsa with rfl | rfl
      · rcases hmem hsb with hs | hs
        · exact hne hs
        · exact h a ha b.name hs
      rcases hmem hsb with hs | hs
      · exact h b hb a.name hs.symm
      · exact hne ((String.append_right_inj "fsmeta:").1 hs)

theorem nodup_filter_append {p : String → Bool} {l₁ l₂ : List String} (h : ∀ a ∈ l₁, ∀ b ∈ l₂, a ≠ b) :
    ((l₁ ++ l₂).filter p).Nodup ↔ (l₁.filter p).Nodup ∧ (l₂.filter p).Nodup := by
  rw [filter_append, nodup_append]
  constructor
  · exact fun hn => ⟨hn.1, hn.2.1⟩
  · exact fun hn => ⟨hn.1, hn.2, fun a ha b hb => h a (mem_of_mem_filter ha) b (mem_of_mem_filter hb)⟩

theorem nodup_filter_prefixed {α : Type} {l : List α} {f : α → String} {p : String → Bool} (pre : String) :
    ((l.map fun a => pre ++ f a).filter p).Nodup ↔ ((l.filter fun a => p (pre ++ f a)).map f).Nodup := by
  rw [filter_map, List.Nodup, pairwise_map, pairwise_map]
  refine iff_of_eq (congrArg (fun R => List.Pairwise R _) ?_)
  funext a b
  exact propext (not_congr (String.append_right_inj pre))

section Names
variable (x : Analysis) (inv : Option (List Container)) (set : BackupSettings)

def databaseNames : List String :=
  if set.databaseStrategy = .volume then [] else (databases x inv).map fun d => "database:" ++ d.name

def volumeNames : List String :=
  (x.volumes.filter fun v => v.isProtected && v.mountpoint != "" && !dbMounts x inv set ("volume:" ++ v.name)).map
    fun v => "volume:" ++ v.name

def bindNames : List String :=
  (bindLoop (fun b => skipBind b || dbMounts x inv set ("bind:" ++ b)) [] x.bindSources).map fun b => "bind:" ++ b

end Names

theorem names_candidates : (candidates x inv set).map (·.name) =
    ["config"] ++ (databaseNames x inv set ++ (volumeNames x inv set ++ bindNames x inv set)) := by
  unfold candidates databaseNames volumeNames bindNames
  rw [map_cons, map_append, map_append, map_map, map_map]
  split
  · rfl
  · rw [map_map]
    rfl

def Prefixed (pre : String) (l : List String) : Prop := ∀ a ∈ l, ∃ n, a = pre ++ n

theorem prefixed_map {α : Type} {l : List α} {f : α → String} (pre : String) : Prefixed pre (l.map fun a => pre ++ f a) := by
  intro a ha
  obtain ⟨b, -, rfl⟩ := mem_map.1 ha
  exact ⟨f b, rfl⟩

theorem Prefixed.ne {p q : String} {c d : Char} {ps qs : List Char} {l₁ l₂ : List String} (h₁ : Prefixed p l₁)
    (h₂ : Prefixed q l₂) (hp : p.toList = c :: ps) (hq : q.toList = d :: qs) (h : c ≠ d) :
    ∀ a ∈ l₁, ∀ b ∈ l₂, a ≠ b := by
  intro a ha b hb
  obtain ⟨n, rfl⟩ := h₁ a ha
  obtain ⟨m, rfl⟩ := h₂ b hb
  exact append_ne hp hq h n m

theorem prefixed_config : Prefixed "config" ["config"] := by
  intro a ha
  exact ⟨"", (mem_singleton.1 ha).trans (by decide)⟩

theorem prefixed_databaseNames : Prefixed "database:" (databaseNames x inv set) := by
  unfold databaseNames
  split
  · exact fun _ h => nomatch h
  · exact prefixed_map "database:"

theorem nodup_databaseNames_iff : ((databaseNames x inv set).filter fun n => decide (n ∉ set.excludedComponents)).Nodup ↔
    (set.databaseStrategy ≠ .volume →
      ((databaseSites x inv).filter fun a => decide (siteName a ∉ set.excludedComponents)).Pairwise
        fun a b => ¬ SameName a b) := by
  unfold databaseNames
  split
  · rename_i h
    simp [h]
  rename_i h
  rw [names_databases, filter_map, List.Nodup, pairwise_map]
  have hpair : (fun a b : Service × Nat => siteName a ≠ siteName b) = fun a b => ¬ SameName a b := by
    funext a b
    exact propext (not_congr sameName_iff)
  rw [hpair]
  exact ⟨fun hn _ => hn, fun hn => hn h⟩

theorem nodup_volumeNames_iff : ((volumeNames x inv set).filter fun n => decide (n ∉ set.excludedComponents)).Nodup ↔
    ((x.volumes.filter fun v => v.isProtected && v.mountpoint != "" && !dbMounts x inv set ("volume:" ++ v.name) &&
      decide ("volume:" ++ v.name ∉ set.excludedComponents)).map (·.name)).Nodup := by
  unfold volumeNames
  rw [nodup_filter_prefixed "volume:", filter_filter]
  simp only [Bool.and_comm]

theorem nodup_bindNames : (bindNames x inv set).Nodup :=
  nodup_bindLoop.map fun _ _ h => (String.append_right_inj "bind:").1 h

theorem nodup_names_iff : ((components x inv set).map (·.name)).Nodup ↔ NamedApart x inv set := by
  have hconfig := prefixed_config
  have hdb : Prefixed "database:" (databaseNames x inv set) := prefixed_databaseNames
  have hvol : Prefixed "volume:" (volumeNames x inv set) := prefixed_map "volume:"
  have hbind : Prefixed "bind:" (bindNames x inv set) := prefixed_map "bind:"
  have hfs := hvol.ne hbind rfl rfl (by decide)
  have hdata : ∀ a ∈ databaseNames x inv set, ∀ b ∈ volumeNames x inv set ++ bindNames x inv set, a ≠ b := fun a ha =>
    forall_mem_append.2 ⟨hdb.ne hvol rfl rfl (by decide) a ha, hdb.ne hbind rfl rfl (by decide) a ha⟩
  have hall : ∀ a ∈ ["config"], ∀ b ∈ databaseNames x inv set ++ (volumeNames x inv set ++ bindNames x inv set), a ≠ b :=
    fun a ha => forall_mem_append.2 ⟨hconfig.ne hdb rfl rfl (by decide) a ha,
      forall_mem_append.2 ⟨hconfig.ne hvol rfl rfl (by decide) a ha, hconfig.ne hbind rfl rfl (by decide) a ha⟩⟩
  rw [names_components, names_candidates, nodup_filter_append hall, nodup_filter_append hdata, nodup_filter_append hfs,
    nodup_databaseNames_iff, nodup_volumeNames_iff]
  constructor
  · exact fun h => ⟨h.2.2.1, h.2.1⟩
  · exact fun h => ⟨(nodup_singleton _).filter _, h.databases, h.volumes, nodup_bindNames.filter _⟩

/-- The components of a plan and their companions have pairwise different names exactly if the
captured volumes and the dumped databases have; and no manifest with the names of a plan
that has not is valid. -/
theorem plan_names_nodup_iff (app : Application) (set : BackupSettings) (x : Analysis) (p : Plan)
    (hx : app.analysis = some x) (hp : buildPlan app set = .ok p) :
    (p.resultNames.Nodup ↔ NamedApart x app.inventory set) ∧
      ∀ m : Backup.Manifest, (m.components.map (·.name)).Perm p.resultNames → m.validate = [] →
        NamedApart x app.inventory set := by
  obtain ⟨x', pre, post, hx', -, -, -, rfl⟩ := buildPlan_eq_ok.1 hp
  cases (hx.symm.trans hx')
  have hne : ∀ c ∈ components x app.inventory set, ∀ a, c.name ≠ Backup.fsmetaName a := by
    intro c hc a
    obtain ⟨c₀, hc₀, -, heq⟩ := mem_components hc
    rw [heq]
    exact candidate_ne_fsmeta hc₀ a
  have hiff := (nodup_resultNames_iff hne).trans nodup_names_iff
  refine ⟨hiff, fun m hm hv => ?_⟩
  exact hiff.1 (hm.nodup_iff.1 (Backup.Manifest.validate_eq_nil_iff.1 hv).names)

def replicated (other : String) : Application where
  analysis := some
    { workingDir := "", services := [⟨"db", "postgres", [⟨"1", "/db-1"⟩, ⟨"2", "/db-2"⟩]⟩, ⟨other, "postgres", [⟨"3", "/other"⟩]⟩]
      volumes := [], bindSources := [], configFiles := [], envFiles := [], dependencies := [] }
  inventory := none

def bothSettings : BackupSettings := ⟨[], [], [], [], .both⟩

theorem plan_names_nodup_iff_replicas : ∃ x p, (replicated "cache").analysis = some x ∧
    buildPlan (replicated "cache") bothSettings = .ok p ∧
    p.resultNames = ["config", "database:db-1", "database:db-2", "database:cache"] ∧
    NamedApart x (replicated "cache").inventory bothSettings :=
  ⟨_, _, rfl, rfl, by decide, (plan_names_nodup_iff (replicated "cache") bothSettings _ _ rfl rfl).1.1 (by decide)⟩

/-- The single one is called like the first of the two. -/
theorem replica_name_taken : ∃ p, buildPlan (replicated "db-1") bothSettings = .ok p ∧
    p.resultNames = ["config", "database:db-1", "database:db-2", "database:db-1"] ∧ ¬ p.resultNames.Nodup :=
  ⟨_, rfl, by decide, by decide⟩

end Dbr2.Protection.Planning
