import Dbr2.Backup.Manifest
import Dbr2.Lib.GoPath

/-! Which components a backup captures (`buildPlan`, `detectDatabases`, `databaseEngine` and
`exclusiveMounts` in `internal/protection/backups.go`).

The plan is made from the analysis of the application, the inventory of its host and its
settings: the configuration, a dump of each database container, the volumes and the bind
mounts. It fails only if the application is missing or has no containers, or if a hook names
a container that is not the application's (`buildPlan_eq_ok`); the components do not depend
on the hooks. -/
namespace Dbr2.Protection.Planning
open Lib.GoPath List
open Backup (Kind)

inductive MountType
  | volume | bind | tmpfs
  | other (s : String)
  deriving DecidableEq

structure Mount where
  type : MountType
  (name source : String)
  deriving DecidableEq

structure EnvVar where
  (key value : String)
  sensitive : Bool
  deriving DecidableEq

structure Container where
  (id name image : String)
  env : List EnvVar
  mounts : List Mount
  deriving DecidableEq

structure ContainerRef where
  (id name : String)
  deriving DecidableEq

structure Service where
  (name image : String)
  containers : List ContainerRef
  deriving DecidableEq

structure VolumeUse where
  (name mountpoint : String)
  isProtected : Bool
  deriving DecidableEq

/-- What the inventory says about one application. -/
structure Analysis where
  workingDir : String
  services : List Service
  volumes : List VolumeUse
  (bindSources configFiles envFiles dependencies : List String)
  deriving DecidableEq

structure Application where
  analysis : Option Analysis
  inventory : Option (List Container)
  deriving DecidableEq

structure HookSpec where
  container : String
  command : List String
  timeoutSeconds : Nat
  isOptional : Bool
  deriving DecidableEq

inductive Strategy
  | logical | volume | both
  /-- Settings that were never stored. -/
  | unset
  deriving DecidableEq

/-- The operator's choices for one application. -/
structure BackupSettings where
  (preHooks postHooks : List HookSpec)
  (optionalComponents excludedComponents : List String)
  databaseStrategy : Strategy
  deriving DecidableEq

def contains (s sub : Text) : Bool := s.tails.any (hasPrefix · sub)

def beforeLast (c : Char) (s : Text) : Text :=
  if c ∈ s then (s.reverse.dropWhile (· != c)).tail.reverse else s

def afterLast (c : Char) (s : Text) : Text := (s.reverse.takeWhile (· != c)).reverse

inductive Engine
  | postgresql | redis
  deriving DecidableEq

/-- The last element of an image's repository, without its tag and digest. An image reference
is ASCII, where `strings.ToLower` is `Char.toLower`. -/
def repositoryName (image : Text) : Text :=
  let ref := beforeLast '@' (image.map Char.toLower)
  -- A colon before the last slash is that of a port.
  let ref := if ':' ∈ afterLast '/' ref then beforeLast ':' ref else ref
  afterLast '/' ref

/-- Tooling around a database, not the database. -/
def databaseTools : List String :=
  ["exporter", "pgadmin", "pgbouncer", "pgpool", "commander", "insight", "backup", "operator", "sentinel-ui", "-ui"]

def databaseEngine (image : String) : Option Engine :=
  let name := repositoryName image.toList
  let has (sub : String) := contains name sub.toList
  if databaseTools.any has then none
  else if has "postgres" || has "postgis" || has "timescaledb" then some .postgresql
  else if hasPrefix name "redis".toList || hasPrefix name "valkey".toList || has "keydb" then some .redis
  else none

def trimmed (name : String) : String := String.ofList (trimPrefix name.toList ['/'])

structure DetectedDB where
  name : String
  engine : Engine
  (format containerId service user : String)
  deriving DecidableEq

def Engine.format : Engine → String
  | .postgresql => "pg_dumpall-sql-zstd"
  | .redis => "rdb"

def byId (inv : List Container) (id : String) : Option Container := inv.reverse.find? (·.id == id)

def postgresUser (env : List EnvVar) : String :=
  ((env.reverse.find? fun e => e.key == "POSTGRES_USER" && !e.sensitive && e.value != "").map (·.value)).getD ""

/-- The name of the database of a service's container; the containers of a service with several
are numbered. -/
def databaseName (svc : Service) (i : Nat) : String :=
  if 1 < svc.containers.length then svc.name ++ "-" ++ toString (i + 1) else svc.name

def detect (inv : List Container) (svc : Service) (i : Nat) (ref : ContainerRef) : Option DetectedDB :=
  let c := byId inv ref.id
  let image := (c.map (·.image)).getD ""
  (databaseEngine (if image = "" then svc.image else image)).map fun engine =>
    { name := databaseName svc i
      engine
      format := engine.format
      containerId := trimmed ref.name
      service := svc.name
      user := if engine = .postgresql then postgresUser ((c.map (·.env)).getD []) else "" }

/-- Every container whose image is a known database. -/
def detectDatabases (x : Analysis) (inv : List Container) : List DetectedDB :=
  x.services.flatMap fun svc => svc.containers.zipIdx.filterMap fun r => detect inv svc r.2 r.1

def Mount.key (m : Mount) : Option String :=
  match m.type with
  | .volume => some ("volume:" ++ m.name)
  | .bind => some ("bind:" ++ m.source)
  | _ => none

def Container.mountsKey (c : Container) (k : String) : Prop := ∃ m ∈ c.mounts, m.key = some k

instance Container.instDecidableMountsKey (c : Container) (k : String) : Decidable (c.mountsKey k) :=
  inferInstanceAs (Decidable (∃ m ∈ c.mounts, m.key = some k))

/-- The mounts of the application's containers, each with whether its container is a database. -/
def owners (dbs : List DetectedDB) (inv : List Container) (appContainers : List String) : List (String × Bool) :=
  (inv.filter (·.id ∈ appContainers)).flatMap fun c =>
    (c.mounts.filterMap Mount.key).map fun k => (k, decide (trimmed c.name ∈ dbs.map (·.containerId)))

/-- `exclusiveMounts`: mounted by database containers of the application only. -/
def isExclusive (dbs : List DetectedDB) (inv : List Container) (appContainers : List String) (k : String) : Bool :=
  (k, true) ∈ owners dbs inv appContainers && (k, false) ∉ owners dbs inv appContainers

structure DatabaseSpec where
  engine : Engine
  (format containerId service user : String)
  includeAof : Bool
  deriving DecidableEq

structure ComponentSpec where
  name : String
  kind : Kind
  path : String
  (files containerIds : List String)
  database : Option DatabaseSpec
  volumeName : String
  (captureFsmeta required : Bool)
  deriving DecidableEq

structure Hook where
  containerId : String
  command : List String
  timeoutSeconds : Nat
  isOptional : Bool
  deriving DecidableEq

structure Plan where
  components : List ComponentSpec
  containerIds : List String
  (pre post : List Hook)
  deriving DecidableEq

/-- Bind sources that are never captured: runtime sockets, kernel and host plumbing. -/
def skipBindPrefixes : List String :=
  ["/proc", "/sys", "/dev", "/run", "/var/run", "/etc/localtime", "/etc/timezone", "/etc/hosts", "/etc/hostname",
    "/etc/resolv.conf", "/etc/machine-id", "/tmp/.X11-unix"]

/-- A socket, the root, or something at or below one of the prefixes. -/
def skipBind (src : String) : Bool :=
  ".sock".toList.isSuffixOf src.toList || src == "/" ||
    skipBindPrefixes.any fun p => src == p || hasPrefix src.toList (p ++ "/").toList

def containerIds (x : Analysis) : List String := x.services.flatMap fun svc => svc.containers.map (·.id)

/-- The containers a hook may name: by ID, by name and, for its first container, by service. -/
def hookIds (x : Analysis) : List (String × String) :=
  (x.services.flatMap fun svc => svc.containers.map fun c => (svc.name, c)).foldl (fun m (s, c) =>
      let m := (trimmed c.name, c.id) :: (c.name, c.id) :: (c.id, c.id) :: m
      if (m.lookup s).isNone then (s, c.id) :: m else m) []

def resolve (x : Analysis) : List HookSpec → Except String (List Hook)
  | [] => .ok []
  | h :: hs =>
    match (hookIds x).lookup h.container with
    | none => .error ("hook container " ++ h.container.quote ++ " is not part of the application")
    | some id => (resolve x hs).map (⟨id, h.command, h.timeoutSeconds, h.isOptional⟩ :: ·)

def configComponent (x : Analysis) : ComponentSpec where
  name := "config"
  kind := .config
  path := x.workingDir
  files := (x.configFiles ++ x.envFiles).filter (· ≠ "")
  containerIds := containerIds x
  database := none
  volumeName := ""
  captureFsmeta := false
  required := true

def databaseComponent (d : DetectedDB) : ComponentSpec where
  name := "database:" ++ d.name
  kind := .database
  path := ""
  files := []
  containerIds := []
  database := some ⟨d.engine, d.format, d.containerId, d.service, d.user, d.engine == .redis⟩
  volumeName := ""
  captureFsmeta := false
  required := true

def volumeComponent (v : VolumeUse) : ComponentSpec where
  name := "volume:" ++ v.name
  kind := .volume
  path := v.mountpoint
  files := []
  containerIds := []
  database := none
  volumeName := v.name
  captureFsmeta := true
  required := true

def bindComponent (source : String) : ComponentSpec where
  name := "bind:" ++ source
  kind := .bindMount
  path := source
  files := []
  containerIds := []
  database := none
  volumeName := ""
  captureFsmeta := true
  required := true

/-- The loop over the bind mounts; `seen` are the sources before. -/
def bindLoop (skip : String → Bool) (seen : List String) : List String → List String
  | [] => []
  | b :: bs =>
    if b = "" || b ∈ seen || skip b then bindLoop skip seen bs else b :: bindLoop skip (b :: seen) bs

section Components
variable (x : Analysis) (inv : Option (List Container)) (set : BackupSettings)

def databases : List DetectedDB := detectDatabases x (inv.getD [])

def dbMounts (k : String) : Bool :=
  set.databaseStrategy == .logical && inv.any fun cs => isExclusive (databases x inv) cs (containerIds x) k

def candidates : List ComponentSpec :=
  configComponent x :: ((if set.databaseStrategy = .volume then [] else (databases x inv).map databaseComponent) ++
      ((x.volumes.filter fun v => v.isProtected && v.mountpoint != "" &&
        !dbMounts x inv set ("volume:" ++ v.name)).map volumeComponent ++
      (bindLoop (fun b => skipBind b || dbMounts x inv set ("bind:" ++ b)) [] x.bindSources).map bindComponent))

def addComponent (c : ComponentSpec) : Option ComponentSpec :=
  if c.name ∈ set.excludedComponents then none
  else some {c with required := c.kind == .config || decide (c.name ∉ set.optionalComponents)}

def components : List ComponentSpec := (candidates x inv set).filterMap (addComponent set)

end Components

/-- `buildPlan`. -/
def buildPlan (app : Application) (set : BackupSettings) : Except String Plan := do
  let some x := app.analysis | throw "the application is missing from its host's latest inventory"
  if containerIds x = [] then throw "the application has no containers"
  let pre ← resolve x set.preHooks
  let post ← resolve x set.postHooks
  return ⟨components x app.inventory set, containerIds x, pre, post⟩

theorem resolve_isOk_iff {x : Analysis} {hs : List HookSpec} :
    (∃ out, resolve x hs = .ok out) ↔ ∀ h ∈ hs, ((hookIds x).lookup h.container).isSome = true := by
  induction hs with
  | nil => simp [resolve]
  | cons h hs ih =>
    rw [forall_mem_cons, ← ih]
    cases hid : (hookIds x).lookup h.container with
    | none => simp [resolve, hid]
    | some id => cases hr : resolve x hs <;> simp [resolve, hid, hr, Except.map]

theorem buildPlan_eq_ok {app : Application} {set : BackupSettings} {p : Plan} :
    buildPlan app set = .ok p ↔ ∃ x pre post, app.analysis = some x ∧ containerIds x ≠ [] ∧
      resolve x set.preHooks = .ok pre ∧ resolve x set.postHooks = .ok post ∧
      p = ⟨components x app.inventory set, containerIds x, pre, post⟩ := by
  unfold buildPlan
  cases hx : app.analysis with
  | none => simp [throw, throwThe, MonadExceptOf.throw]
  | some x =>
    by_cases hc : containerIds x = []
    · simp [hc, throw, throwThe, MonadExceptOf.throw, bind, Except.bind]
    cases hpre : resolve x set.preHooks with
    | error e => simp [hc, hpre, bind, Except.bind]
    | ok pre =>
      cases hpost : resolve x set.postHooks with
      | error e => simp [hc, hpre, hpost, bind, Except.bind]
      | ok post =>
        simp [hc, hpre, hpost, bind, Except.bind, pure, Except.pure]
        exact eq_comm

structure Plannable (app : Application) (set : BackupSettings) (x : Analysis) : Prop where
  analysis : app.analysis = some x
  containers : containerIds x ≠ []
  hooks : ∀ h ∈ set.preHooks ++ set.postHooks, ((hookIds x).lookup h.container).isSome = true

theorem buildPlan_isOk_iff {app : Application} {set : BackupSettings} :
    (∃ p, buildPlan app set = .ok p) ↔ ∃ x, Plannable app set x := by
  simp only [buildPlan_eq_ok]
  constructor
  · rintro ⟨p, x, pre, post, hx, hc, hpre, hpost, -⟩
    refine ⟨x, hx, hc, fun h hh => ?_⟩
    rcases mem_append.1 hh with hh | hh
    · exact resolve_isOk_iff.1 ⟨pre, hpre⟩ h hh
    · exact resolve_isOk_iff.1 ⟨post, hpost⟩ h hh
  · rintro ⟨x, hx, hc, hh⟩
    obtain ⟨pre, hpre⟩ := resolve_isOk_iff.2 fun h hm => hh h (mem_append_left _ hm)
    obtain ⟨post, hpost⟩ := resolve_isOk_iff.2 fun h hm => hh h (mem_append_right _ hm)
    exact ⟨_, x, pre, post, hx, hc, hpre, hpost, rfl⟩

section Components
variable {x : Analysis} {inv : Option (List Container)} {set : BackupSettings}

theorem add_name {c c' : ComponentSpec} (h : addComponent set c = some c') :
    c.name ∉ set.excludedComponents ∧ c' = {c with required := c'.required} := by
  unfold addComponent at h
  split at h
  · cases h
  rename_i hn
  cases h
  exact ⟨hn, rfl⟩

theorem add_eq {c : ComponentSpec} (h : c.name ∉ set.excludedComponents) :
    ∃ r, addComponent set c = some {c with required := r} := ⟨_, if_neg h⟩

theorem names_components : (components x inv set).map (·.name) =
    ((candidates x inv set).map (·.name)).filter (· ∉ set.excludedComponents) := by
  unfold components
  generalize candidates x inv set = cs
  induction cs with
  | nil => rfl
  | cons c cs ih =>
    by_cases h : c.name ∈ set.excludedComponents
    · simp [addComponent, h, ih]
    · simp [addComponent, h, ih]

theorem mem_components {c : ComponentSpec} (h : c ∈ components x inv set) :
    ∃ c₀ ∈ candidates x inv set, c₀.name ∉ set.excludedComponents ∧ c = {c₀ with required := c.required} := by
  obtain ⟨c₀, hc₀, hadd⟩ := mem_filterMap.1 h
  exact ⟨c₀, hc₀, add_name hadd⟩

theorem mem_bindLoop {skip : String → Bool} {b : String} {seen bs : List String} :
    b ∈ bindLoop skip seen bs ↔ b ∈ bs ∧ b ≠ "" ∧ b ∉ seen ∧ skip b = false := by
  induction bs generalizing seen with
  | nil => simp [bindLoop]
  | cons a bs ih =>
    unfold bindLoop
    split
    · rename_i hskip
      rw [ih, mem_cons]
      constructor
      · rintro ⟨hb, hrest⟩
        exact ⟨.inr hb, hrest⟩
      · rintro ⟨rfl | hb, hne, hseen, hs⟩
        · simp [hne, hseen, hs] at hskip
        · exact ⟨hb, hne, hseen, hs⟩
    rename_i hskip
    simp only [Bool.or_eq_true, decide_eq_true_eq, not_or, Bool.not_eq_true] at hskip
    rw [mem_cons, ih, mem_cons, mem_cons, not_or]
    constructor
    · rintro (rfl | ⟨hb, hne, hseen, hs⟩)
      · exact ⟨.inl rfl, hskip.1.1, hskip.1.2, hskip.2⟩
      · exact ⟨.inr hb, hne, hseen.2, hs⟩
    · rintro ⟨hb, hne, hseen, hs⟩
      by_cases hba : b = a
      · exact .inl hba
      · exact .inr ⟨hb.resolve_left hba, hne, ⟨hba, hseen⟩, hs⟩

theorem nodup_bindLoop {skip : String → Bool} {seen bs : List String} : (bindLoop skip seen bs).Nodup := by
  induction bs generalizing seen with
  | nil => exact nodup_nil
  | cons b bs ih =>
    unfold bindLoop
    split
    · exact ih
    · refine nodup_cons.2 ⟨fun hb => ?_, ih⟩
      exact (mem_bindLoop.1 hb).2.2.1 mem_cons_self

theorem mem_candidates {c : ComponentSpec} : c ∈ candidates x inv set ↔
    c = configComponent x ∨ (set.databaseStrategy ≠ .volume ∧ ∃ d ∈ databases x inv, c = databaseComponent d) ∨
      (∃ v ∈ x.volumes, v.isProtected = true ∧ v.mountpoint ≠ "" ∧ dbMounts x inv set ("volume:" ++ v.name) = false ∧
        c = volumeComponent v) ∨
      ∃ b ∈ x.bindSources, b ≠ "" ∧ skipBind b = false ∧ dbMounts x inv set ("bind:" ++ b) = false ∧
        c = bindComponent b := by
  have hdb : c ∈ (if set.databaseStrategy = .volume then [] else (databases x inv).map databaseComponent) ↔
      set.databaseStrategy ≠ .volume ∧ ∃ d ∈ databases x inv, c = databaseComponent d := by
    split
    · rename_i h
      simp [h]
    · rename_i h
      simp [h, eq_comm]
  have hbind : ∀ b, b ∈ bindLoop (fun b => skipBind b || dbMounts x inv set ("bind:" ++ b)) [] x.bindSources ↔
      b ∈ x.bindSources ∧ b ≠ "" ∧ skipBind b = false ∧ dbMounts x inv set ("bind:" ++ b) = false := by
    intro b
    rw [mem_bindLoop, Bool.or_eq_false_iff]
    simp
  unfold candidates
  rw [mem_cons, mem_append, mem_append, hdb, mem_map, mem_map]
  simp only [hbind, mem_filter, Bool.and_eq_true, bne_iff_ne, Bool.not_eq_true', ne_eq]
  constructor
  · rintro (h | h | ⟨v, ⟨hv, ⟨hp, hm⟩, hd⟩, rfl⟩ | ⟨b, ⟨hb, hne, hskip, hd⟩, rfl⟩)
    · exact .inl h
    · exact .inr (.inl h)
    · exact .inr (.inr (.inl ⟨v, hv, hp, hm, hd, rfl⟩))
    · exact .inr (.inr (.inr ⟨b, hb, hne, hskip, hd, rfl⟩))
  · rintro (h | h | ⟨v, hv, hp, hm, hd, rfl⟩ | ⟨b, hb, hne, hskip, hd, rfl⟩)
    · exact .inl h
    · exact .inr (.inl h)
    · exact .inr (.inr (.inl ⟨v, ⟨hv, ⟨hp, hm⟩, hd⟩, rfl⟩))
    · exact .inr (.inr (.inr ⟨b, ⟨hb, hne, hskip, hd⟩, rfl⟩))

theorem append_ne {p q : String} {c d : Char} {ps qs : List Char} (hp : p.toList = c :: ps)
    (hq : q.toList = d :: qs) (h : c ≠ d) (a b : String) : p ++ a ≠ q ++ b := by
  intro heq
  have hlist := congrArg String.toList heq
  rw [String.toList_append, String.toList_append, hp, hq] at hlist
  exact h (List.cons.inj hlist).1

end Components

end Dbr2.Protection.Planning
