import Mathlib.Data.List.Dedup
import Mathlib.Data.String.Basic
import Dbr2.Backup.Manifest
import Dbr2.Restore.Remap

/-! The restore impact preview (`computePreview` in `internal/protection/restore_preview.go`).

The preview compares the recovery manifest with the inventory of the target host. The collisions of
a component are found by its kind: of a volume only the labels are looked at, of a bind mount the
texts of the paths, of the configuration nothing. -/
namespace Dbr2.Restore.Impact
open Lib.GoPath List
open Backup (Kind ComponentStatus)

/-- A map of labels. A label that is not there reads as empty. -/
abbrev Labels := List (String × String)

def Labels.get (ls : Labels) (key : String) : String := (ls.lookup key).getD ""

def labelProject : String := "com.docker.compose.project"

/-- Marks a containerized agent. -/
def agentRoleLabel : String := "dbr2.role"

inductive MountType
  | volume | bind | tmpfs
  | other (s : String)
  deriving DecidableEq

structure Mount where
  type : MountType
  (name source : String)
  deriving DecidableEq

inductive ContainerState
  | running | paused | restarting
  | other (s : String)
  deriving DecidableEq

def ContainerState.live : ContainerState → Bool
  | .other _ => false
  | _ => true

structure Port where
  (protocol hostPort : String)
  deriving DecidableEq

def Port.key (p : Port) : String := p.hostPort ++ "/" ++ p.protocol

structure Container where
  (id name : String)
  state : ContainerState
  labels : Labels
  mounts : List Mount
  ports : List Port
  deriving DecidableEq

def Container.trimmed (c : Container) : String := String.ofList (trimPrefix c.name.toList ['/'])

def Container.isAgent (c : Container) : Bool := c.labels.get agentRoleLabel == "agent"

structure Volume where
  name : String
  labels : Labels
  deriving DecidableEq

structure Network where
  name : String
  labels : Labels
  deriving DecidableEq

structure LocalImage where
  (repoTags repoDigests : List String)
  deriving DecidableEq

structure Inventory where
  containers : List Container
  volumes : List Volume
  networks : List Network
  images : List LocalImage
  deriving DecidableEq

def Inventory.empty : Inventory := ⟨[], [], [], []⟩

structure DatabaseDump where
  (engine service container : String)
  deriving DecidableEq

structure Component where
  name : String
  kind : Kind
  status : ComponentStatus
  sizeBytes : Nat
  (path volumeName : String)
  database : Option DatabaseDump
  deriving DecidableEq

structure TopologyContainer where
  name : String
  ports : List Port
  deriving DecidableEq

structure TopologyNetwork where
  (name driver : String)
  (external internal attachable : Bool)
  labels : Labels
  deriving DecidableEq

structure Topology where
  containers : List TopologyContainer
  networks : List TopologyNetwork
  deriving DecidableEq

structure Image where
  (ref digest : String)
  deriving DecidableEq

structure Manifest where
  (recoveryPointId applicationName composeProject workingDir sourceAgentId : String)
  topology : Option Topology
  images : List Image
  components : List Component
  deriving DecidableEq

inductive Mode
  | inPlace | alternateHost
  deriving DecidableEq

/-- What happens to a component. A kind that is not restored has none. -/
inductive Action
  | overwrite | create | restoreFiles | loadDump | none
  deriving DecidableEq

structure PreviewComponent where
  name : String
  kind : Kind
  action : Action
  target : String
  sizeBytes : Nat
  deriving DecidableEq

structure PreviewContainer where
  (id name : String)
  state : ContainerState
  deriving DecidableEq

inductive NetworkAction
  | exists | create | missingExternal
  deriving DecidableEq

structure PreviewItem where
  name : String
  action : NetworkAction
  deriving DecidableEq

inductive ImageAction
  | present | pull
  deriving DecidableEq

structure PreviewImage where
  (ref digest : String)
  action : ImageAction
  deriving DecidableEq

inductive CollisionKind
  | containerName | port | network | volume | bindPath | dependency
  deriving DecidableEq

structure Collision where
  kind : CollisionKind
  (name detail : String)
  deriving DecidableEq

structure Preview where
  (recoveryPointId applicationName sourceHostId targetHostId targetHostname : String)
  mode : Mode
  targetApplicationId : String
  production : Bool
  productionReasons : List String
  components : List PreviewComponent
  stopContainers : List PreviewContainer
  createContainers : List String
  networks : List PreviewItem
  images : List PreviewImage
  ports : List String
  collisions : List Collision
  warnings : List String
  blocked : Bool
  stopIds : List String
  networkSpecs : List TopologyNetwork

structure PreviewInput where
  m : Manifest
  (targetAgentId targetHostname : String)
  inv : Option Inventory
  /-- Empty if the target has no such application. -/
  (targetAppId targetAppEnv : String)
  manual : List String
  remaps : List PathRemap

/-- What a key has, after the entries were assigned one after the other. -/
def assigned {α : Type} (entries : List (String × α)) (key : String) : Option α := entries.reverse.lookup key

def ranged {α : Type} (entries : List (String × α)) : List (String × α) :=
  (entries.map Prod.fst).dedup.filterMap fun key => (assigned entries key).map (key, ·)

theorem exists_assigned {α : Type} {entries : List (String × α)} {e : String × α} (h : e ∈ entries) :
    ∃ a, assigned entries e.1 = some a := by
  apply Option.isSome_iff_exists.1
  apply List.lookup_isSome_iff.2
  exact ⟨e, mem_reverse.2 h, beq_self_eq_true e.1⟩

theorem exists_mem_ranged {α : Type} {entries : List (String × α)} {e : String × α} (h : e ∈ entries) :
    ∃ a, (e.1, a) ∈ ranged entries := by
  obtain ⟨a, ha⟩ := exists_assigned h
  have hkey : e.1 ∈ (entries.map Prod.fst).dedup := mem_dedup.2 (mem_map_of_mem h)
  exact ⟨a, mem_filterMap.2 ⟨e.1, hkey, by rw [ha, Option.map_some]⟩⟩

def afterAt (d : String) : Option String :=
  match d.toList.dropWhile (· ≠ '@') with
  | [] => none
  | _ :: rest => some (String.ofList rest)

def digestOf (d : String) : String := (afterAt d).getD d

def owner (c : Container) : String :=
  if c.labels.get labelProject ≠ "" then "Compose project " ++ c.labels.get labelProject
  else "another application"

def firstNonEmpty (s t : String) : String := if s ≠ "" then s else t

def hasConfig (m : Manifest) : Bool := m.components.any fun c => c.kind == .config && c.status == .succeeded

def nested (src target : String) : Bool :=
  src == target || hasPrefix src.toList (target.toList ++ ['/']) || hasPrefix target.toList (src.toList ++ ['/'])

namespace PreviewInput
variable (i : PreviewInput)

def project : String := i.m.composeProject

def topology : Topology := i.m.topology.getD ⟨[], []⟩

def inventory : Inventory := i.inv.getD .empty

def belongs (c : Container) : Bool :=
  if i.project ≠ "" then c.labels.get labelProject == i.project
  else i.manual.contains c.trimmed || (i.topology.containers.map (·.name)).contains c.trimmed

def remapped (p : String) : String := String.ofList (remap p.toList i.remaps)

def otherProject (ls : Labels) : Bool :=
  i.project != "" && ls.get labelProject != "" && ls.get labelProject != i.project

def ours : List Container := i.inventory.containers.filter i.belongs

def running : Bool := i.ours.any (·.state.live)

/-- Containers are stopped only if files are swapped. -/
def swapsFiles (selected : List Component) : Bool := selected.any (·.kind != .database)

def stopContainers (selected : List Component) : List PreviewContainer :=
  if swapsFiles selected then i.ours.map fun c => ⟨c.id, c.trimmed, c.state⟩ else []

def stopIds (selected : List Component) : List String :=
  if swapsFiles selected then (i.ours.filter (·.state.live)).map (·.id) else []

def existing (name : String) : Option Container :=
  assigned (i.inventory.containers.map fun c => (c.trimmed, c)) name

def containerCollisions : List Collision :=
  i.topology.containers.flatMap fun c =>
    match i.existing c.name with
    | some e => if i.belongs e then [] else [⟨.containerName, c.name,
        "a container with this name exists on the target and belongs to " ++ owner e⟩]
    | none => []

def createContainers : List String :=
  (i.topology.containers.filter fun c => (i.existing c.name).isNone).map (·.name)

def used : List (String × String) :=
  (i.inventory.containers.filter (!i.belongs ·)).flatMap fun c =>
    (c.ports.filter (·.hostPort ≠ "")).map fun pt => (pt.key, c.trimmed)

def published : List String :=
  i.topology.containers.flatMap fun c => (c.ports.filter (·.hostPort ≠ "")).map (·.key)

def portCollisions : List Collision :=
  i.published.filterMap fun key =>
    (assigned i.used key).map fun other => ⟨.port, key, "already published by container " ++ other⟩

def ownNetworks : List TopologyNetwork :=
  i.topology.networks.filter fun n => n.name ∉ ["bridge", "host", "none"]

def network (name : String) : Option Network := assigned (i.inventory.networks.map fun n => (n.name, n)) name

/-- What becomes of a network: its line, if it has one, and its collision. -/
def networkImpact (n : TopologyNetwork) : Option PreviewItem × List Collision :=
  match i.network n.name with
  | some e =>
    if n.external = false ∧ i.otherProject e.labels then
      (none, [⟨.network, n.name, "exists and belongs to Compose project " ++ e.labels.get labelProject⟩])
    else (some ⟨n.name, .exists⟩, [])
  | none =>
    if n.external then
      (some ⟨n.name, .missingExternal⟩,
        [⟨.dependency, n.name, "external network is missing on the target; create it first"⟩])
    else (some ⟨n.name, .create⟩, [])

def present : List String :=
  i.inventory.images.flatMap fun im => im.repoDigests.filterMap afterAt ++ im.repoTags.map ("tag:" ++ ·)

def imageAction (im : Image) : ImageAction :=
  if im.digest ≠ "" ∧ digestOf im.digest ∈ i.present ∨ im.digest = "" ∧ "tag:" ++ im.ref ∈ i.present
  then .present else .pull

def volume (name : String) : Option Volume := assigned (i.inventory.volumes.map fun v => (v.name, v)) name

/-- The bind mounts of the containers of others. The agent mounts paths to restore them. -/
def bindMounts : List (String × String) :=
  (i.inventory.containers.filter fun c => !(i.belongs c || c.isAgent)).flatMap fun c =>
    (c.mounts.filter (·.type = .bind)).map fun mt => (mt.source, c.trimmed)

def bindUsers : List (String × String) := ranged i.bindMounts

def previewComponent (c : Component) : PreviewComponent :=
  match c.kind with
  | .volume =>
    let action := if (i.volume c.volumeName).isSome then .overwrite else .create
    ⟨c.name, c.kind, action, c.volumeName, c.sizeBytes⟩
  | .bindMount => ⟨c.name, c.kind, .overwrite, i.remapped c.path, c.sizeBytes⟩
  | .config => ⟨c.name, c.kind, .restoreFiles, i.remapped i.m.workingDir, c.sizeBytes⟩
  | .database =>
    let target := match c.database with
      | some d => d.engine ++ " in " ++ firstNonEmpty d.container d.service
      | none => ""
    ⟨c.name, c.kind, .loadDump, target, c.sizeBytes⟩
  | _ => ⟨c.name, c.kind, .none, "", c.sizeBytes⟩

def componentCollisions (c : Component) : List Collision :=
  match c.kind with
  | .volume =>
    match i.volume c.volumeName with
    | some v => if i.otherProject v.labels then
        [⟨.volume, c.volumeName, "exists and belongs to Compose project " ++ v.labels.get labelProject⟩] else []
    | none => []
  | .bindMount => (i.bindUsers.filter fun u => nested u.1 (i.remapped c.path)).map fun u =>
      ⟨.bindPath, i.remapped c.path, "path is mounted by container " ++ u.2 ++ " (another application)"⟩
  | _ => []

def configCollisions : List Collision :=
  if i.createContainers ≠ [] ∧ hasConfig i.m = false then
    [⟨.dependency, "config", "containers must be re-created but the recovery point has no config component"⟩]
  else []

def collisions (selected : List Component) : List Collision :=
  i.containerCollisions ++ i.portCollisions ++ i.ownNetworks.flatMap (fun n => (i.networkImpact n).2) ++
    selected.flatMap i.componentCollisions ++ i.configCollisions

def mode (selected : List Component) : Mode :=
  if i.running ∨ i.stopContainers selected ≠ [] ∨ i.targetAppId ≠ "" ∨ i.targetAgentId = i.m.sourceAgentId
  then .inPlace else .alternateHost

def productionReasons : List String :=
  (if i.targetAppEnv = "production" then
      ["the target application is tagged environment: production"] else []) ++
    (if i.running then ["the restore overwrites a running application in place"] else [])

def warnings : List String :=
  (if i.m.topology.isNone then
      ["this recovery point predates topology capture: collision detection is limited to " ++
        "volumes and bind paths, and container re-creation relies on the config component only"] else []) ++
    (if i.inv.isNone then
      ["no inventory has been collected from the target host yet: collisions cannot be checked"] else [])

end PreviewInput

def computePreview (i : PreviewInput) (selected : List Component) : Preview where
  recoveryPointId := i.m.recoveryPointId
  applicationName := i.m.applicationName
  sourceHostId := i.m.sourceAgentId
  targetHostId := i.targetAgentId
  targetHostname := i.targetHostname
  mode := i.mode selected
  targetApplicationId := i.targetAppId
  production := i.targetAppEnv == "production" || i.running
  productionReasons := i.productionReasons
  components := selected.map i.previewComponent
  stopContainers := i.stopContainers selected
  createContainers := i.createContainers
  networks := i.ownNetworks.filterMap fun n => (i.networkImpact n).1
  images := i.m.images.map fun im => ⟨im.ref, im.digest, i.imageAction im⟩
  ports := i.published.dedup.insertionSort (· ≤ ·)
  collisions := i.collisions selected
  warnings := i.warnings
  blocked := i.inv.isNone || !(i.collisions selected).isEmpty
  stopIds := i.stopIds selected
  networkSpecs := i.ownNetworks

theorem blocked_eq_false_iff {i : PreviewInput} {selected : List Component} :
    (computePreview i selected).blocked = false ↔ i.inv.isSome = true ∧ i.collisions selected = [] := by
  show (i.inv.isNone || !(i.collisions selected).isEmpty) = false ↔ _
  cases i.inv <;> simp

theorem componentCollisions_eq_nil {i : PreviewInput} {selected : List Component}
    (h : (computePreview i selected).blocked = false) {c : Component} (hc : c ∈ selected) :
    i.componentCollisions c = [] := by
  have hnil := (blocked_eq_false_iff.1 h).2
  simp only [PreviewInput.collisions, append_eq_nil_iff, flatMap_eq_nil_iff] at hnil
  exact hnil.1.2 c hc

end Dbr2.Restore.Impact
