import Mathlib.Data.String.Basic
import Dbr2.Agent.Host
import Dbr2.Restore.Remap

/-! Create requests from saved inspect documents (`ContainerSpecFromInspect` in
`internal/runtime/restore.go`).

Host paths are remapped, and what belongs to the old container only is left out. What names
another container is copied; of a link the slash before the target and the path before the
alias are cut off. So a reference of the request is the saved one, up to that slash
(`refAt_create`). Links of endpoints are lost where the request has no endpoints
(`refAt_create_lost`). -/
namespace Dbr2.Agent.Recreate
open Lib.GoPath List

structure Config where
  (image hostname : Text)
  deriving DecidableEq

structure ContainerState where
  (running paused restarting : Bool)
  deriving DecidableEq

structure Mount where
  bind : Bool
  (source target : Text)
  deriving DecidableEq

structure HostConfig where
  containerIDFile : Text
  binds : List Text
  mounts : List Mount
  (links volumesFrom : List Text)
  (networkMode pidMode ipcMode : Text)
  deriving DecidableEq

def HostConfig.empty : HostConfig := ⟨[], [], [], [], [], [], [], []⟩

structure EndpointIPAM where
  (ipv4Address ipv6Address : Option Text)
  linkLocalIPs : List Text
  deriving DecidableEq

def EndpointIPAM.isSet (c : EndpointIPAM) : Bool :=
  c.ipv4Address.isSome || c.ipv6Address.isSome || !c.linkLocalIPs.isEmpty

structure Endpoint where
  links : List Text
  driverOpts : List (Text × Text)
  gwPriority : Int
  ipamConfig : Option EndpointIPAM
  aliases : List Text
  deriving DecidableEq

def Endpoint.empty : Endpoint := ⟨[], [], 0, none, []⟩

structure Inspect where
  (id name : Text)
  config : Option Config
  state : Option ContainerState
  hostConfig : Option HostConfig
  networks : Option (List (Text × Option Endpoint))
  deriving DecidableEq

structure CreateBody where
  config : Config
  hostConfig : HostConfig
  endpointsConfig : Option (List (Text × Endpoint))
  deriving DecidableEq

structure ContainerSpec where
  (name image : Text)
  networks : List Text
  wasRunning : Bool
  create : CreateBody
  deriving DecidableEq

def cut (c : Char) (s : Text) : Option (Text × Text) :=
  if c ∈ s then some (s.takeWhile (· != c), (s.dropWhile (· != c)).drop 1) else none

theorem takeWhile_append_cons {c : Char} {s : Text} (h : c ∉ s) (t : Text) :
    (s ++ c :: t).takeWhile (· != c) = s := by
  rw [takeWhile_append_of_pos]
  · simp
  · intro x hx
    simp only [bne_iff_ne, ne_eq]
    rintro rfl
    exact h hx

theorem not_mem_takeWhile_bne (c : Char) (s : Text) : c ∉ s.takeWhile (· != c) := by
  intro h
  simpa using mem_takeWhile_imp h

def containerMode (mode : Text) : Option Text :=
  match cut ':' mode with
  | some (kind, ref) => if kind = ['c', 'o', 'n', 't', 'a', 'i', 'n', 'e', 'r'] then some ref else none
  | none => none

def hasEndpoints (mode : Text) : Bool :=
  decide (mode ≠ ['h', 'o', 's', 't'] ∧ mode ≠ ['n', 'o', 'n', 'e']) && (containerMode mode).isNone

/-- The engine's default for the hostname, and an alias that it adds. -/
def isShortID (id t : Text) : Bool := decide (12 ≤ id.length ∧ t = id.take 12)

section
variable (remap : Text → Text)

def remapBind (b : Text) : Text :=
  match cut ':' b with
  | some (src, rest) => if hasPrefix src ['/'] then remap src ++ ':' :: rest else b
  | none => b

def remapMount (m : Mount) : Mount :=
  if m.bind && hasPrefix m.source ['/'] then {m with source := remap m.source} else m

/-- A link as it is inspected, "/db:/web/db", as it is created, "db:db". -/
def createLink (l : Text) : Text :=
  match cut ':' l with
  | some (target, path) => trimPrefix target ['/'] ++ ':' :: path.rtakeWhile (· != '/')
  | none => l

def createHostConfig (h : HostConfig) : HostConfig :=
  {h with
    containerIDFile := []
    binds := h.binds.map (remapBind remap)
    mounts := h.mounts.map (remapMount remap)
    links := h.links.map createLink}

def createEndpoint (id : Text) : Option Endpoint → Endpoint
  | none => .empty
  | some ep => {ep with
      ipamConfig := ep.ipamConfig.filter (·.isSet)
      aliases := ep.aliases.filter (!isShortID id ·)}

def createEndpoints (ins : Inspect) (mode : Text) : Option (List (Text × Endpoint)) :=
  match ins.networks with
  | none => none
  | some ns =>
    if hasEndpoints mode && !ns.isEmpty then some (ns.map fun p => (p.1, createEndpoint ins.id p.2)) else none

def Inspect.host (ins : Inspect) : HostConfig := ins.hostConfig.getD .empty

/-- `ContainerSpecFromInspect`; a document that is not JSON is none. -/
def containerSpecFromInspect (raw : Option Inspect) : Except Err ContainerSpec :=
  match raw with
  | none => .error (err "inspect document: invalid JSON")
  | some ins =>
    match ins.config with
    | none => .error (err "inspect document has no Config.Image")
    | some cfg =>
      if cfg.image = [] then .error (err "inspect document has no Config.Image")
      else if trimPrefix ins.name ['/'] = [] then .error (err "inspect document has no Name")
      else
        .ok {
          name := trimPrefix ins.name ['/']
          image := cfg.image
          networks := ((ins.networks.getD []).map (·.1)).insertionSort (· ≤ ·)
          wasRunning := (ins.state.map fun s => s.running || s.paused || s.restarting).getD false
          create := {
            config := if isShortID ins.id cfg.hostname then {cfg with hostname := []} else cfg
            hostConfig := createHostConfig remap ins.host
            endpointsConfig := createEndpoints ins ins.host.networkMode } }

theorem containerSpecFromInspect_ok {raw : Option Inspect} {s : ContainerSpec}
    (h : containerSpecFromInspect remap raw = .ok s) :
    ∃ ins, raw = some ins ∧ s.name = trimPrefix ins.name ['/'] ∧
      s.create.hostConfig = createHostConfig remap ins.host ∧
      s.create.endpointsConfig = createEndpoints ins ins.host.networkMode := by
  cases raw with
  | none => cases h
  | some ins =>
    refine ⟨ins, rfl, ?_⟩
    simp only [containerSpecFromInspect] at h
    split at h
    · cases h
    split at h
    · cases h
    split at h
    · cases h
    · obtain rfl := Except.ok.inj h
      exact ⟨rfl, rfl, rfl⟩

end

inductive Site
  | networkMode
  | pidMode
  | ipcMode
  | volumesFrom (i : Nat)
  | link (i : Nat)
  | endpointLink (network : Text) (i : Nat)
  deriving DecidableEq

def refOf (s : Text) : Text := s.takeWhile (· != ':')

def refAt (hc : HostConfig) (endpoint : Text → Option Endpoint) : Site → Option Text
  | .networkMode => containerMode hc.networkMode
  | .pidMode => containerMode hc.pidMode
  | .ipcMode => containerMode hc.ipcMode
  | .volumesFrom i => hc.volumesFrom[i]?.map refOf
  | .link i => hc.links[i]?.map refOf
  | .endpointLink network i => (endpoint network).bind fun ep => ep.links[i]?.map refOf

def Inspect.refAt (ins : Inspect) : Site → Option Text :=
  Recreate.refAt ins.host fun n => ((ins.networks.getD []).lookup n).join

def CreateBody.refAt (b : CreateBody) : Site → Option Text :=
  Recreate.refAt b.hostConfig fun n => (b.endpointsConfig.getD []).lookup n

def Site.kept (mode : Text) : Site → Bool
  | .endpointLink _ _ => hasEndpoints mode
  | _ => true

theorem refOf_createLink (l : Text) :
    refOf (createLink l) = refOf l ∨ refOf (createLink l) = trimPrefix (refOf l) ['/'] := by
  unfold createLink cut
  by_cases h : ':' ∈ l
  · right
    simp only [h, if_true]
    -- the target ends at the first colon, so the new one does as well
    have hno : ':' ∉ trimPrefix (refOf l) ['/'] := by
      intro hc
      unfold trimPrefix at hc
      split at hc
      · exact not_mem_takeWhile_bne ':' l (mem_of_mem_drop hc)
      · exact not_mem_takeWhile_bne ':' l hc
    exact takeWhile_append_cons hno _
  · left
    simp [h]

theorem lookup_map {α β : Type} (f : α → β) (l : List (Text × α)) (n : Text) :
    (l.map fun p => (p.1, f p.2)).lookup n = (l.lookup n).map f := by
  induction l with
  | nil => rfl
  | cons p l ih =>
    rw [map_cons, lookup_cons, lookup_cons, ih]
    cases n == p.1 <;> rfl

section
variable {remap : Text → Text} {ins : Inspect} {s : ContainerSpec}
  (h : containerSpecFromInspect remap (some ins) = .ok s)
include h

theorem refAt_create {site : Site} {r : Text} (hr : ins.refAt site = some r)
    (hk : site.kept ins.host.networkMode = true) :
    ∃ r', s.create.refAt site = some r' ∧ (r' = r ∨ r' = trimPrefix r ['/']) := by
  obtain ⟨ins', hraw, -, hhost, hends⟩ := containerSpecFromInspect_ok remap h
  cases hraw
  cases site with
  | networkMode | pidMode | ipcMode | volumesFrom i =>
    refine ⟨r, ?_, .inl rfl⟩
    rw [CreateBody.refAt, hhost]
    exact hr
  | link i =>
    obtain ⟨l, hl, rfl⟩ := Option.map_eq_some_iff.1 hr
    refine ⟨refOf (createLink l), ?_, refOf_createLink l⟩
    simp [CreateBody.refAt, refAt, hhost, createHostConfig, hl]
  | endpointLink n i =>
    refine ⟨r, ?_, .inl rfl⟩
    obtain ⟨ep, hep, hl⟩ := Option.bind_eq_some_iff.1 hr
    have ho := Option.join_eq_some_iff.1 hep
    cases hns : ins.networks with
    | none => simp [hns] at ho
    | some ns =>
      have hne : ns.isEmpty = false := by
        cases ns with
        | nil => simp [hns] at ho
        | cons => rfl
      rw [hns, Option.getD_some] at ho
      have hk' : hasEndpoints ins.host.networkMode = true := hk
      simp only [CreateBody.refAt, refAt, hends, createEndpoints, hns, hk', hne, Bool.not_false, Bool.and_self,
        if_true, Option.getD_some, lookup_map, ho, Option.map_some, Option.bind_some]
      exact hl

theorem refAt_create_lost {site : Site} (hk : site.kept ins.host.networkMode = false) :
    s.create.refAt site = none := by
  obtain ⟨ins', hraw, -, hhost, hends⟩ := containerSpecFromInspect_ok remap h
  obtain rfl := Option.some.inj hraw
  cases site with
  | networkMode | pidMode | ipcMode | volumesFrom i | link i => cases hk
  | endpointLink n i =>
    have hk' : hasEndpoints ins.host.networkMode = false := hk
    have hnone : s.create.endpointsConfig = none := by
      rw [hends]
      unfold createEndpoints
      split
      · rfl
      · simp [hk']
    simp [CreateBody.refAt, refAt, hnone]

end
end Dbr2.Agent.Recreate
