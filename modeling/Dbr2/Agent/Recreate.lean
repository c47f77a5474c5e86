import Dbr2.Lib.Lists
import Dbr2.Agent.ContainerSpec

/-! Recreating the containers of an application (`recreateContainers` in
`internal/agent/recreate.go`).

The saved definitions are read, sorted by name, and created where the host has no container of the
name. A reference by name then denotes the container of that name, whichever order they are created
in; a reference by ID denotes the old container, if it denotes anything. -/
namespace Dbr2.Agent.Recreate
open Lib.GoPath List

/-- An ID, as engines make them. -/
def isID (t : Text) : Bool :=
  decide (t.length = 64) && t.all fun c => c.isDigit || (decide ('a' ≤ c) && decide (c ≤ 'f'))

def isName (t : Text) : Bool := decide (t ≠ [] ∧ '/' ∉ t) && !isID t

structure Container where
  (id name : Text)
  create : CreateBody
  deriving DecidableEq

/-- The containers of the target host. -/
structure Host where
  containers : List Container
  /-- Every ID that was ever given to a container. No engine gives one of them again. -/
  used : List Text
  shape : ∀ c ∈ containers, isID c.id = true ∧ isName c.name = true ∧ c.id ∈ used
  ids : (containers.map (·.id)).Nodup
  names : (containers.map (·.name)).Nodup

namespace Host

def has (h : Host) (name : Text) : Bool := (h.containers.map (·.name)).contains name

def fullName (ref : Text) : Text := if hasPrefix ref ['/'] then ref else '/' :: ref

def byID (h : Host) (ref : Text) : Option Container := h.containers.find? (·.id == ref)

def byName (h : Host) (ref : Text) : Option Container := h.containers.find? fun c => '/' :: c.name == fullName ref

/-- By ID or by name. The engine's last resort, the one container whose ID begins with the
text, is left out. -/
def lookup (h : Host) (ref : Text) : Option Container := (h.byID ref).or (h.byName ref)

/-- The engine creates a container under a new ID, unless the name is taken. -/
def create (h : Host) (spec : ContainerSpec) (id : Text) : Option Host :=
  if hf : isID id = true ∧ id ∉ h.used ∧ isName spec.name = true ∧ spec.name ∉ h.containers.map (·.name) then
    some {
      containers := h.containers ++ [⟨id, spec.name, spec.create⟩]
      used := id :: h.used
      shape := by
        intro c hc
        rcases mem_append.1 hc with hc | hc
        · obtain ⟨hid, hname, hused⟩ := h.shape c hc
          exact ⟨hid, hname, mem_cons_of_mem _ hused⟩
        · obtain rfl := mem_singleton.1 hc
          exact ⟨hf.1, hf.2.2.1, mem_cons_self⟩
      ids := by
        rw [map_append, map_singleton, nodup_append_comm, singleton_append, nodup_cons]
        refine ⟨fun hmem => ?_, h.ids⟩
        obtain ⟨c, hc, rfl⟩ := mem_map.1 hmem
        exact hf.2.1 (h.shape c hc).2.2
      names := by
        rw [map_append, map_singleton, nodup_append_comm, singleton_append, nodup_cons]
        exact ⟨hf.2.2.2, h.names⟩ }
  else none

theorem has_eq_true_iff {h : Host} {name : Text} : h.has name = true ↔ ∃ c ∈ h.containers, c.name = name := by
  simp [has]

theorem create_eq_some {h h' : Host} {spec : ContainerSpec} {id : Text} (hc : h.create spec id = some h') :
    id ∉ h.used ∧ h'.containers = h.containers ++ [⟨id, spec.name, spec.create⟩] ∧ h'.used = id :: h.used := by
  unfold create at hc
  split at hc
  · rename_i hf
    cases hc
    exact ⟨hf.2.1, rfl, rfl⟩
  · cases hc

end Host

inductive Status
  | existing
  | created
  | failed
  deriving DecidableEq

structure RecreatedContainer where
  name : Text
  wasRunning : Bool
  status : Option Status
  containerId : Text
  error : String
  deriving DecidableEq

/-- What the journal of the restore has of it; a container that was not created yet has no ID. -/
structure Journal where
  createdNetworks : List Text
  createdContainers : List (Text × Text)
  deriving DecidableEq

/-- The host, the journal in memory and on disk, and the results so far. -/
structure State where
  host : Host
  networks : List Text
  /-- The journal in memory, and on disk. -/
  (journal disk : Journal)
  createdNetworks : List Text
  results : List RecreatedContainer
  failed : List Text

namespace State

def save (s : State) : State := {s with disk := s.journal}

def recordNetwork (s : State) (name : Text) : State :=
  {s with journal := {s.journal with createdNetworks := s.journal.createdNetworks ++ [name]}}

def unrecordNetwork (s : State) : State :=
  {s with journal := {s.journal with createdNetworks := s.journal.createdNetworks.dropLast}}

def recordContainer (s : State) (name id : Text) : State :=
  {s with journal := {s.journal with createdContainers := s.journal.createdContainers ++ [(name, id)]}}

def result (s : State) (spec : ContainerSpec) (status : Option Status) (id : Text) (error : String) : State :=
  {s with results := s.results ++ [⟨spec.name, spec.wasRunning, status, id, error⟩]}

def created (s : State) : List Text := (s.results.filter (·.status = some .created)).map (·.name)

end State

structure NetworkStep where
  name : Text
  external : Bool
  (existsErr saveErr createErr resaveErr : Option Err)

def builtinNetworks : List Text :=
  [['b', 'r', 'i', 'd', 'g', 'e'], ['h', 'o', 's', 't'], ['n', 'o', 'n', 'e'], ['d', 'e', 'f', 'a', 'u', 'l', 't']]

def createNetwork (n : NetworkStep) (s : State) : State × Option Err :=
  match n.saveErr with
  | some er => (s.recordNetwork n.name, some er)
  | none =>
    match n.createErr with
    | some er =>
      let s' := (s.recordNetwork n.name).save.unrecordNetwork
      (if n.resaveErr.isNone then s'.save else s', some (er.wrap ("create network " ++ String.ofList n.name ++ ": ")))
    | none =>
      let s' := (s.recordNetwork n.name).save
      ({s' with networks := n.name :: s'.networks, createdNetworks := s'.createdNetworks ++ [n.name]}, none)

/-- A network that is missing is created, and journaled first. -/
def ensureNetwork (n : NetworkStep) (s : State) : State × Option Err :=
  if n.name = [] ∨ n.name ∈ builtinNetworks then (s, none)
  else
    match n.existsErr with
    | some er => (s, some (er.wrap ("inspect network " ++ String.ofList n.name ++ ": ")))
    | none =>
      if n.name ∈ s.networks then (s, none)
      else if n.external then
        (s, some (permanent ("external network " ++ String.ofList n.name ++
          " does not exist; create it before restoring")))
      else createNetwork n s

/-- A loop that ends at the first error. -/
def upToError {α : Type} (f : α → State → State × Option Err) : List α → State → State × Option Err
  | [], s => (s, none)
  | x :: xs, s =>
    match f x s with
    | (s', some er) => (s', some er)
    | (s', none) => upToError f xs s'

structure Entry where
  name : Text
  isRegular : Bool
  openErr : Option (Err × Bool)
  readErr : Option (Err × Bool)
  raw : Option Inspect

def engineErr (e : Err × Bool) : Err := if e.2 then e.1.makePermanent else e.1

def Entry.isDocument (e : Entry) : Bool :=
  e.isRegular && ['.', 'j', 's', 'o', 'n'].isSuffixOf e.name &&
    decide (e.name ≠ ['e', 'r', 'r', 'o', 'r', 's', '.', 'j', 's', 'o', 'n'])

def readSpec (remap : Text → Text) (e : Entry) : Except Err ContainerSpec :=
  match e.openErr, e.readErr with
  | some er, _ => .error (engineErr er)
  | none, some er => .error (engineErr er)
  | none, none =>
    (containerSpecFromInspect remap e.raw).mapError fun er =>
      (er.wrap ("containers/" ++ String.ofList e.name ++ ": ")).makePermanent

structure Request where
  configSnapshotId : String
  remaps : List Restore.PathRemap
  networks : List NetworkStep
  restoreIDErr : Option Err
  /-- Of the connection, the runtime, the journal and the repository session. -/
  setupErr : Option Err
  /-- Of ListDir, unless the directory does not exist. -/
  listErr : Option (Err × Bool)
  entries : List Entry
  inspectErr : Text → Option Err
  saveErr : Text → Option Err
  createErr : Text → Option Err
  newID : Text → Text
  lastSaveErr : Option Err

def Request.documents (r : Request) : List Inspect := (r.entries.filter Entry.isDocument).filterMap (·.raw)

def readSpecs (r : Request) : Except Err (List ContainerSpec) :=
  if r.configSnapshotId = "" ∧ r.restoreIDErr = none then .error (permanent "config_snapshot_id is required")
  else
    match r.restoreIDErr, r.setupErr, r.listErr with
    | some er, _, _ => .error er
    | none, some er, _ => .error er
    | none, none, some (er, stays) =>
      .error (engineErr (er.wrap ("config snapshot " ++ r.configSnapshotId ++ ": "), stays))
    | none, none, none => (r.entries.filter Entry.isDocument).mapM (readSpec (Restore.remapper r.remaps))

def createContainer (r : Request) (h : Host) (spec : ContainerSpec) : Except Err Host :=
  match r.createErr spec.name, h.create spec (r.newID spec.name) with
  | some er, _ => .error er
  | none, none => .error (err "conflict")
  | none, some h' => .ok h'

/-- The journal on disk has the name before the container is created, its ID only later. -/
def createMissing (r : Request) (spec : ContainerSpec) (s : State) : State × Option Err :=
  match r.saveErr spec.name with
  | some er => ((s.recordContainer spec.name []).result spec none [] "", some er)
  | none =>
    match createContainer r s.host spec with
    | .error er =>
      -- the record is dropped again, though not on disk
      let s' := {s with disk := (s.recordContainer spec.name []).journal, failed := s.failed ++ [spec.name]}
      (s'.result spec (some .failed) [] er.msg, none)
    | .ok h =>
      let id := r.newID spec.name
      let s' := {s.recordContainer spec.name id with host := h, disk := (s.recordContainer spec.name []).journal}
      (s'.result spec (some .created) id "", none)

def recreateOne (r : Request) (spec : ContainerSpec) (s : State) : State × Option Err :=
  match r.inspectErr spec.name, s.host.lookup spec.name with
  | some er, _ => (s.result spec none [] "", some (er.wrap ("inspect " ++ String.ofList spec.name ++ ": ")))
  | none, some c => (s.result spec (some .existing) c.id "", none)
  | none, none => createMissing r spec s

def byName (a b : ContainerSpec) : Prop := a.name ≤ b.name

instance instDecidableByName : DecidableRel byName := fun a b => inferInstanceAs (Decidable (a.name ≤ b.name))

def finish (r : Request) (s : State) : State × Option Err :=
  match r.lastSaveErr with
  | some er => (s, some er)
  | none =>
    (s.save, if s.failed = [] then none
      else some (permanent ("containers not created: " ++ ", ".intercalate (s.failed.map String.ofList))))

/-- `recreateContainers`. -/
def recreateContainers (r : Request) (s : State) : State × Option Err :=
  match readSpecs r with
  | .error er => (s, some er)
  | .ok specs =>
    match upToError ensureNetwork r.networks s with
    | (s', some er) => (s', some er)
    | (s', none) =>
      match upToError (recreateOne r) (specs.insertionSort byName) s' with
      | (s'', some er) => (s'', some er)
      | (s'', none) => finish r s''

section
variable {α : Type} {f : α → State → State × Option Err}

theorem upToError_cons_ok {x : α} {xs : List α} {s s' : State} (h : upToError f (x :: xs) s = (s', none)) :
    ∃ s₁, f x s = (s₁, none) ∧ upToError f xs s₁ = (s', none) := by
  unfold upToError at h
  split at h
  · cases h
  · rename_i s₁ hx
    exact ⟨s₁, hx, h⟩

theorem upToError_rel {R : State → State → Prop} (hrefl : ∀ s, R s s)
    (htrans : ∀ {s₁ s₂ s₃}, R s₁ s₂ → R s₂ s₃ → R s₁ s₃)
    (hstep : ∀ {x s s₁}, f x s = (s₁, none) → R s s₁) {xs : List α} {s s' : State}
    (h : upToError f xs s = (s', none)) : R s s' := by
  induction xs generalizing s with
  | nil =>
    obtain rfl := (Prod.mk.inj h).1
    exact hrefl _
  | cons x xs ih =>
    obtain ⟨s₁, hx, hrest⟩ := upToError_cons_ok h
    exact htrans (hstep hx) (ih hrest)

end

variable {s s' : State} {t : Text}

theorem isName_iff : isName t = true ↔ (t ≠ [] ∧ '/' ∉ t) ∧ isID t = false := by
  simp [isName]

theorem hasPrefix_slash_eq_false (h : '/' ∉ t) : hasPrefix t ['/'] = false := by
  cases t with
  | nil => rfl
  | cons c t =>
    have hc : '/' ≠ c := fun he => h (he ▸ mem_cons_self)
    simp [hasPrefix, List.isPrefixOf, hc]

theorem slash_not_mem_of_isID (h : isID t = true) : '/' ∉ t := by
  intro hmem
  have hall := (Bool.and_eq_true_iff.1 h).2
  have hslash := all_eq_true.1 hall '/' hmem
  exact absurd hslash (by decide)

namespace Host

theorem fullName_of_no_slash {t : Text} (h : '/' ∉ t) : fullName t = '/' :: t := by
  rw [fullName, hasPrefix_slash_eq_false h]
  rfl

variable {n ref : Text}

theorem fullName_eq_iff {r : Text} (hn : '/' ∉ n) : fullName r = '/' :: n ↔ r = n ∨ r = '/' :: n := by
  constructor
  · intro h
    unfold fullName at h
    split at h
    · exact .inr h
    · exact .inl (List.cons.inj h).2
  · rintro (rfl | rfl)
    · exact fullName_of_no_slash hn
    · rfl

variable {h : Host}

theorem byID_eq_none (href : isID ref = false) : h.byID ref = none := by
  refine find?_eq_none.2 fun c hc hid => ?_
  rw [← beq_iff_eq.1 hid, (h.shape c hc).1] at href
  cases href

theorem byName_eq_none (href : isID ref = true) : h.byName ref = none := by
  refine find?_eq_none.2 fun c hc hname => ?_
  rw [beq_iff_eq, fullName_of_no_slash (slash_not_mem_of_isID href)] at hname
  have hshape := (isName_iff.1 (h.shape c hc).2.1).2
  rw [(List.cons.inj hname).2, href] at hshape
  cases hshape

theorem lookup_of_isID (href : isID ref = true) : h.lookup ref = h.byID ref := by
  rw [lookup, byName_eq_none href, Option.or_none]

theorem lookup_of_fullName (hn : isName n = true) (href : fullName ref = '/' :: n) :
    h.lookup ref = h.containers.find? (·.name == n) := by
  obtain ⟨⟨-, hslash⟩, hnid⟩ := isName_iff.1 hn
  have hid : isID ref = false := by
    rcases (fullName_eq_iff hslash).1 href with rfl | rfl
    · exact hnid
    · refine Bool.eq_false_iff.2 fun h => slash_not_mem_of_isID h mem_cons_self
  rw [lookup, byID_eq_none hid, Option.none_or, byName, href]
  rfl

theorem find?_name_isSome (n : Text) : (h.containers.find? (·.name == n)).isSome = h.has n := by
  rw [Bool.eq_iff_iff, find?_isSome, has_eq_true_iff]
  simp

theorem lookup_name_isSome (hn : isName n = true) : (h.lookup n).isSome = h.has n := by
  rw [lookup_of_fullName hn (fullName_of_no_slash (isName_iff.1 hn).1.2), find?_name_isSome]

end Host

theorem ensureNetwork_keeps {n : NetworkStep} (h : ensureNetwork n s = (s', none)) :
    s'.host = s.host ∧ s'.results = s.results ∧ s'.failed = s.failed := by
  unfold ensureNetwork createNetwork at h
  repeat' split at h
  all_goals cases h
  all_goals exact ⟨rfl, rfl, rfl⟩

theorem ensureNetworks_keeps {ns : List NetworkStep} (h : upToError ensureNetwork ns s = (s', none)) :
    s'.host = s.host ∧ s'.results = s.results ∧ s'.failed = s.failed := by
  refine upToError_rel (R := fun s s' => s'.host = s.host ∧ s'.results = s.results ∧ s'.failed = s.failed)
    (fun _ => ⟨rfl, rfl, rfl⟩) ?_ ensureNetwork_keeps h
  rintro s₁ s₂ s₃ ⟨h1, h2, h3⟩ ⟨g1, g2, g3⟩
  exact ⟨g1.trans h1, g2.trans h2, g3.trans h3⟩

section
variable {r : Request} {spec : ContainerSpec} {s s₁ : State}

theorem createContainer_ok {h h' : Host} (hc : createContainer r h spec = .ok h') :
    h.create spec (r.newID spec.name) = some h' := by
  unfold createContainer at hc
  split at hc
  · cases hc
  · cases hc
  · rename_i h₁ _ hcreate
    obtain rfl := Except.ok.inj hc
    exact hcreate

theorem created_result (status : Option Status) (id : Text) (error : String) :
    (s.result spec status id error).created = s.created ++ if status = some .created then [spec.name] else [] := by
  unfold State.created State.result
  rw [filter_append, map_append]
  by_cases hst : status = some .created <;> simp [hst]

theorem createMissing_ok (h : createMissing r spec s = (s₁, none)) (hf : s₁.failed = []) :
    s.failed = [] ∧ s.host.create spec (r.newID spec.name) = some s₁.host ∧
      s₁.created = s.created ++ [spec.name] := by
  unfold createMissing at h
  split at h
  · cases h
  split at h
  · obtain rfl := (Prod.mk.inj h).1
    exact absurd hf (by simp [State.result])
  rename_i h' hc
  obtain rfl := (Prod.mk.inj h).1
  exact ⟨hf, createContainer_ok hc, created_result _ _ _⟩

theorem recreateOne_ok (hn : isName spec.name = true) (h : recreateOne r spec s = (s₁, none)) (hf : s₁.failed = []) :
    s.failed = [] ∧ (s.host.has spec.name = true ∧ s₁.host = s.host ∧ s₁.created = s.created ∨
        s.host.has spec.name = false ∧ s.host.create spec (r.newID spec.name) = some s₁.host ∧
          s₁.created = s.created ++ [spec.name]) := by
  rw [← Host.lookup_name_isSome hn]
  unfold recreateOne at h
  split at h
  · cases h
  · rename_i c _ hc
    obtain rfl := (Prod.mk.inj h).1
    refine ⟨hf, .inl ⟨by rw [hc]; rfl, rfl, ?_⟩⟩
    rw [created_result]
    simp
  · rename_i hc _
    obtain ⟨hf', hcreate, hcreated⟩ := createMissing_ok h hf
    exact ⟨hf', .inr ⟨by simp [*], hcreate, hcreated⟩⟩

theorem recreateAll_failed {specs : List ContainerSpec} {s' : State} (hn : ∀ sp ∈ specs, isName sp.name = true)
    (h : upToError (recreateOne r) specs s = (s', none)) (hf : s'.failed = []) : s.failed = [] := by
  induction specs generalizing s with
  | nil =>
    obtain rfl := (Prod.mk.inj h).1
    exact hf
  | cons spec specs ih =>
    obtain ⟨s₁, hone, hrest⟩ := upToError_cons_ok h
    have hf₁ := ih (fun sp hsp => hn sp (mem_cons_of_mem _ hsp)) hrest
    exact (recreateOne_ok (hn spec mem_cons_self) hone hf₁).1

end

structure Added (specs : List ContainerSpec) (h : Host) (added : List Container) : Prop where
  names : added.map (·.name) = (specs.map (·.name)).filter (!h.has ·)
  spec : ∀ c ∈ added, ∃ sp ∈ specs, sp.name = c.name ∧ sp.create = c.create
  fresh : ∀ c ∈ added, c.id ∉ h.used

variable {spec : ContainerSpec} {specs : List ContainerSpec}

theorem Added.skip {h : Host} {added : List Container}
    (ha : Added specs h added) (hh : h.has spec.name = true) : Added (spec :: specs) h added where
  names := by
    rw [map_cons, filter_cons_of_neg (by simp [hh])]
    exact ha.names
  spec := fun c hc => by
    obtain ⟨sp, hsp, heq⟩ := ha.spec c hc
    exact ⟨sp, mem_cons_of_mem _ hsp, heq⟩
  fresh := ha.fresh

theorem Added.cons {h h' : Host} {id : Text}
    {added : List Container} (ha : Added specs h' added) (hc : h.create spec id = some h')
    (hh : h.has spec.name = false) (hnd : spec.name ∉ specs.map (·.name)) :
    Added (spec :: specs) h (⟨id, spec.name, spec.create⟩ :: added) := by
  obtain ⟨hid, hcs, hused⟩ := Host.create_eq_some hc
  constructor
  · rw [map_cons, map_cons, filter_cons_of_pos (by simp [hh]), ha.names]
    congr 1
    -- the other names are on the new host if they are on the old one
    refine List.filter_congr fun n hmem => ?_
    have hne : n ≠ spec.name := fun he => hnd (he ▸ hmem)
    simp [Host.has, hcs, hne]
  · intro c hc
    rcases mem_cons.1 hc with rfl | hc
    · exact ⟨spec, mem_cons_self, rfl, rfl⟩
    · obtain ⟨sp, hsp, heq⟩ := ha.spec c hc
      exact ⟨sp, mem_cons_of_mem _ hsp, heq⟩
  · intro c hc
    rcases mem_cons.1 hc with rfl | hc
    · exact hid
    · exact fun hu => ha.fresh c hc (hused ▸ mem_cons_of_mem _ hu)

theorem recreateAll_ok {r : Request} (hn : ∀ sp ∈ specs, isName sp.name = true) (hnd : (specs.map (·.name)).Nodup)
    (h : upToError (recreateOne r) specs s = (s', none)) (hf : s'.failed = []) :
    ∃ added, Added specs s.host added ∧ s'.host.containers = s.host.containers ++ added ∧
      s'.created = s.created ++ added.map (·.name) := by
  induction specs generalizing s with
  | nil =>
    obtain rfl := (Prod.mk.inj h).1
    exact ⟨[], ⟨rfl, by simp, by simp⟩, by simp, by simp⟩
  | cons spec specs ih =>
    obtain ⟨s₁, hone, hrest⟩ := upToError_cons_ok h
    have hn' := fun sp hsp => hn sp (mem_cons_of_mem spec hsp)
    obtain ⟨hnot, hnd'⟩ := nodup_cons.1 hnd
    obtain ⟨added, ha, hcs, hcr⟩ := ih hn' hnd' hrest
    have hf₁ := recreateAll_failed hn' hrest hf
    obtain ⟨-, ⟨hh, hhost, hcreated⟩ | ⟨hh, hcreate, hcreated⟩⟩ := recreateOne_ok (hn spec mem_cons_self) hone hf₁
    · rw [hhost] at ha hcs
      rw [hcreated] at hcr
      exact ⟨added, ha.skip hh, hcs, hcr⟩
    · refine ⟨_, ha.cons hcreate hh hnot, ?_, ?_⟩
      · rw [hcs, (Host.create_eq_some hcreate).2.1, append_assoc]
        rfl
      · rw [hcr, hcreated, append_assoc]
        rfl

theorem exists_of_forall₂_right {α β : Type} {R : α → β → Prop} {l : List α} {l' : List β} (h : List.Forall₂ R l l')
    {b : β} (hb : b ∈ l') : ∃ a ∈ l, R a b := by
  induction h with
  | nil => cases hb
  | cons hR _ ih =>
    rcases mem_cons.1 hb with rfl | hb
    · exact ⟨_, mem_cons_self, hR⟩
    · obtain ⟨a, ha, hab⟩ := ih hb
      exact ⟨a, mem_cons_of_mem _ ha, hab⟩

instance instTotalByName : Std.Total byName := ⟨fun a b => le_total a.name b.name⟩

instance instIsTransByName : IsTrans ContainerSpec byName := ⟨fun _ _ _ hab hbc => le_trans hab hbc⟩

theorem readSpec_ok {remap : Text → Text} {e : Entry} (h : readSpec remap e = .ok spec) :
    ∃ d, e.raw = some d ∧ containerSpecFromInspect remap (some d) = .ok spec := by
  unfold readSpec at h
  split at h
  · cases h
  · cases h
  · cases hraw : containerSpecFromInspect remap e.raw with
    | error er => simp [hraw, Except.mapError] at h
    | ok sp =>
      simp only [hraw, Except.mapError] at h
      obtain rfl := Except.ok.inj h
      obtain ⟨d, hd, -⟩ := containerSpecFromInspect_ok remap hraw
      exact ⟨d, hd, hd ▸ hraw⟩

theorem readAll_ok {remap : Text → Text} {es : List Entry} (h : es.mapM (readSpec remap) = .ok specs) :
    List.Forall₂ (fun d sp => containerSpecFromInspect remap (some d) = .ok sp) (es.filterMap (·.raw)) specs := by
  induction es generalizing specs with
  | nil =>
    obtain rfl := Except.ok.inj h
    exact .nil
  | cons e es ih =>
    rw [mapM_cons] at h
    cases hsp : readSpec remap e with
    | error er => simp [hsp, bind, Except.bind] at h
    | ok sp =>
      cases hrest : es.mapM (readSpec remap) with
      | error er => simp [hsp, hrest, bind, Except.bind] at h
      | ok rest =>
        simp only [hsp, hrest, bind, Except.bind, pure, Except.pure] at h
        obtain rfl := Except.ok.inj h
        obtain ⟨d, hraw, hd⟩ := readSpec_ok hsp
        rw [filterMap_cons_some hraw]
        exact .cons hd (ih hrest)

def Inspect.base (d : Inspect) : Text := trimPrefix d.name ['/']

structure Application where
  request : Request
  host : Host
  networks : List Text
  journal : Journal
  shape : ∀ d ∈ request.documents, isID d.id = true ∧ d.id ∈ host.used ∧ d.name = '/' :: d.base ∧ isName d.base = true
  ids : (request.documents.map (·.id)).Nodup
  names : (request.documents.map (·.name)).Nodup

namespace Application

def documents (a : Application) : List Inspect := a.request.documents

def run (a : Application) : State × Option Err :=
  recreateContainers a.request ⟨a.host, a.networks, a.journal, a.journal, [], [], []⟩

def succeeds (a : Application) : Bool := a.run.2.isNone

def after (a : Application) : Host := a.run.1.host

def created (a : Application) : List Text := a.run.1.created

def Denotes (ref : Text) (t : Inspect) : Prop := ref = t.id ∨ Host.fullName ref = t.name

instance instDecidableDenotes (ref : Text) (t : Inspect) : Decidable (Denotes ref t) :=
  inferInstanceAs (Decidable (_ ∨ _))

structure Refers (a : Application) (d : Inspect) (site : Site) (ref : Text) (t : Inspect) : Prop where
  saved : d ∈ a.documents
  at_site : d.refAt site = some ref
  target : t ∈ a.documents
  denotes : Denotes ref t

/-- The references between the containers have no cycle. -/
def Acyclic (a : Application) : Prop :=
  ∃ rank : Text → Nat, ∀ d site ref t, a.Refers d site ref t → rank t.base < rank d.base

/-- The new container refers, at the same place, to the new counterpart of `t`. -/
def Kept (a : Application) (d : Inspect) (site : Site) (t : Inspect) : Prop :=
  ∃ c ∈ a.after.containers, c.name = d.base ∧
    ∃ ref ct, c.create.refAt site = some ref ∧ a.after.lookup ref = some ct ∧ ct.name = t.base

def Before (a : Application) (d t : Inspect) : Prop :=
  a.host.has t.base = true ∨ [t.base, d.base].Sublist a.created

/-- If the command succeeds, then the containers it has created refer to each other as the saved
ones did, and each comes after those it refers to. -/
def Correct (a : Application) : Prop :=
  a.succeeds = true → ∀ d site ref t, a.Refers d site ref t → d.base ∈ a.created → a.Kept d site t ∧ a.Before d t

/-- The references that can be kept. One by ID denotes the old container, so this one must be on the
host still, under its name. -/
structure Portable (a : Application) (d : Inspect) (site : Site) (ref : Text) (t : Inspect) : Prop where
  endpoint : site.kept d.host.networkMode = true
  old : isID ref = true → ∃ c ∈ a.host.containers, c.id = ref ∧ c.name = t.base
  order : a.host.has t.base = true ∨ t.base < d.base

theorem readSpecs_ok {r : Request} {specs : List ContainerSpec} (h : readSpecs r = .ok specs) :
    List.Forall₂ (fun d sp => containerSpecFromInspect (Restore.remapper r.remaps) (some d) = .ok sp)
      r.documents specs := by
  unfold readSpecs at h
  split at h
  · cases h
  split at h
  · cases h
  · cases h
  · cases h
  · exact readAll_ok h

theorem recreateContainers_ok {r : Request} {s s' : State} (h : recreateContainers r s = (s', none)) :
    ∃ specs s₁ s₂, readSpecs r = .ok specs ∧ upToError ensureNetwork r.networks s = (s₁, none) ∧
      upToError (recreateOne r) (specs.insertionSort byName) s₁ = (s₂, none) ∧ s₂.failed = [] ∧ s' = s₂.save := by
  unfold recreateContainers at h
  split at h
  · cases h
  rename_i specs hspecs
  split at h
  · cases h
  rename_i s₁ hnets
  split at h
  · cases h
  rename_i s₂ hall
  unfold finish at h
  split at h
  · cases h
  obtain ⟨hs', herr⟩ := Prod.mk.inj h
  have hf : s₂.failed = [] := by
    by_contra hne
    rw [if_neg hne] at herr
    cases herr
  exact ⟨specs, s₁, s₂, hspecs, hnets, hall, hf, hs'.symm⟩

variable {a : Application}

theorem names_of_specs {remap : Text → Text} {ds : List Inspect} {specs : List ContainerSpec}
    (h : List.Forall₂ (fun d sp => containerSpecFromInspect remap (some d) = .ok sp) ds specs) :
    specs.map (·.name) = ds.map Inspect.base := by
  induction h with
  | nil => rfl
  | cons hd _ ih =>
    obtain ⟨ins, hins, hname, -⟩ := containerSpecFromInspect_ok remap hd
    cases hins
    rw [map_cons, map_cons, hname, ih]
    rfl

variable {d t : Inspect} {site : Site} {ref : Text}

theorem base_injOn {d' : Inspect} (hd : d ∈ a.documents) (hd' : d' ∈ a.documents) (h : d.base = d'.base) :
    d = d' := by
  apply inj_on_of_nodup_map a.names hd hd'
  rw [(a.shape d hd).2.2.1, (a.shape d' hd').2.2.1, h]

theorem bases_nodup : (a.documents.map Inspect.base).Nodup :=
  List.Nodup.map_on (fun _ hd _ hd' h => base_injOn hd hd' h) (List.Nodup.of_map _ a.names)

structure Outcome (a : Application) (added : List Container) : Prop where
  containers : a.after.containers = a.host.containers ++ added
  created : a.created = added.map (·.name)
  ascending : a.created.Pairwise (· < ·)
  mem_created : ∀ d ∈ a.documents, d.base ∈ a.created ↔ a.host.has d.base = false
  spec : ∀ c ∈ added, ∃ d ∈ a.documents, ∃ sp, c.name = d.base ∧ c.create = sp.create ∧
    containerSpecFromInspect (Restore.remapper a.request.remaps) (some d) = .ok sp
  fresh : ∀ c ∈ added, c.id ∉ a.host.used

theorem outcome (h : a.succeeds = true) : ∃ added, a.Outcome added := by
  have hrun : a.run = (a.run.1, none) := Prod.ext rfl (Option.isNone_iff_eq_none.1 h)
  obtain ⟨specs, s₁, s₂, hspecs, hnets, hall, hf, hs'⟩ := recreateContainers_ok hrun
  have hread := readSpecs_ok hspecs
  have hnames : ((specs.insertionSort byName).map (·.name)).Perm (a.documents.map Inspect.base) := by
    rw [show a.documents.map Inspect.base = specs.map (·.name) from (names_of_specs hread).symm]
    exact (perm_insertionSort byName specs).map _
  have hnd := hnames.nodup_iff.2 bases_nodup
  have hisName : ∀ sp ∈ specs.insertionSort byName, isName sp.name = true := by
    intro sp hsp
    obtain ⟨d, hd, hbase⟩ := mem_map.1 (hnames.subset (mem_map_of_mem hsp))
    rw [← hbase]
    exact (a.shape d hd).2.2.2
  obtain ⟨hhost, hresults, -⟩ := ensureNetworks_keeps hnets
  obtain ⟨added, hadded, hcs, hcr⟩ := recreateAll_ok hisName hnd hall hf
  rw [hhost] at hadded hcs
  have hcreated : a.created = added.map (·.name) := by
    have hnone : s₁.created = [] := by rw [State.created, hresults]; rfl
    rw [created, hs']
    exact hcr.trans (by rw [hnone, nil_append])
  refine ⟨added, ?_, hcreated, ?_, ?_, ?_, hadded.fresh⟩
  · rw [after, hs']
    exact hcs
  · rw [hcreated, hadded.names]
    have hle : ((specs.insertionSort byName).map (·.name)).Pairwise (· ≤ ·) :=
      pairwise_map.2 (pairwise_insertionSort byName specs)
    exact ((hle.and hnd).imp fun h => lt_of_le_of_ne h.1 h.2).filter _
  · intro d hd
    have hmem := hnames.symm.subset (mem_map_of_mem hd)
    rw [hcreated, hadded.names, mem_filter]
    simp [hmem]
  · intro c hc
    obtain ⟨sp, hsp, hname, hcreate⟩ := hadded.spec c hc
    obtain ⟨d, hd, hconv⟩ := exists_of_forall₂_right hread ((mem_insertionSort byName).1 hsp)
    obtain ⟨ins, hins, hbase, -⟩ := containerSpecFromInspect_ok _ hconv
    obtain rfl := Option.some.inj hins
    exact ⟨d, hd, sp, hname.symm.trans hbase, hcreate.symm, hconv⟩

theorem fullName_create {n ref' : Text} (hn : '/' ∉ n) (h : Host.fullName ref = '/' :: n)
    (hr : ref' = ref ∨ ref' = trimPrefix ref ['/']) : Host.fullName ref' = '/' :: n := by
  rcases hr with rfl | rfl
  · exact h
  rw [Host.fullName_eq_iff hn] at h ⊢
  rcases h with rfl | rfl
  · left
    rw [trimPrefix, hasPrefix_slash_eq_false hn]
    rfl
  · left
    exact trimPrefix_append ['/'] n

theorem create_of_isID {ref' : Text} (h : isID ref = true) (hr : ref' = ref ∨ ref' = trimPrefix ref ['/']) :
    ref' = ref := by
  rcases hr with rfl | rfl
  · rfl
  · rw [trimPrefix, hasPrefix_slash_eq_false (slash_not_mem_of_isID h)]
    rfl

theorem Refers.fullName (hr : a.Refers d site ref t) (hid : isID ref = false) : Host.fullName ref = '/' :: t.base := by
  rcases hr.denotes with rfl | h
  · rw [(a.shape t hr.target).1] at hid
    cases hid
  · rw [h]
    exact (a.shape t hr.target).2.2.1

theorem Refers.id (hr : a.Refers d site ref t) (hid : isID ref = true) : ref = t.id := by
  rcases hr.denotes with h | h
  · exact h
  rw [Host.fullName_of_no_slash (slash_not_mem_of_isID hid), (a.shape t hr.target).2.2.1] at h
  have hname := (isName_iff.1 (a.shape t hr.target).2.2.2).2
  rw [← (List.cons.inj h).2, hid] at hname
  cases hname

namespace Outcome

variable {added : List Container} (ho : a.Outcome added)
include ho

variable {t d : Inspect}

theorem has_after (ht : t ∈ a.documents) : a.after.has t.base = true := by
  cases hh : a.host.has t.base with
  | true =>
    obtain ⟨c, hc, hname⟩ := Host.has_eq_true_iff.1 hh
    exact Host.has_eq_true_iff.2 ⟨c, ho.containers ▸ mem_append_left _ hc, hname⟩
  | false =>
    have hmem := (ho.mem_created t ht).2 hh
    rw [ho.created] at hmem
    obtain ⟨c, hc, hname⟩ := mem_map.1 hmem
    exact Host.has_eq_true_iff.2 ⟨c, ho.containers ▸ mem_append_right _ hc, hname⟩

theorem container (hd : d ∈ a.documents) (hc : d.base ∈ a.created) :
    ∃ c ∈ a.after.containers, c.name = d.base ∧ ∃ sp, c.create = sp.create ∧
      containerSpecFromInspect (Restore.remapper a.request.remaps) (some d) = .ok sp := by
  rw [ho.created] at hc
  obtain ⟨c, hmem, hname⟩ := mem_map.1 hc
  obtain ⟨d', hd', sp, hbase, hcreate, hconv⟩ := ho.spec c hmem
  obtain rfl := base_injOn hd hd' (hname.symm.trans hbase)
  exact ⟨c, ho.containers ▸ mem_append_right _ hmem, hname, sp, hcreate, hconv⟩

theorem before_iff (hd : d.base ∈ a.created) (ht : t ∈ a.documents) :
    a.Before d t ↔ a.host.has t.base = true ∨ t.base < d.base := by
  cases hh : a.host.has t.base with
  | true => simp [Before, hh]
  | false => simp [Before, hh, Lib.pair_sublist_iff ho.ascending ((ho.mem_created t ht).2 hh) hd]

theorem byID_after (ht : t ∈ a.documents) (ref : Text) (href : ref = t.id) :
    (∃ ct, a.after.byID ref = some ct ∧ ct.name = t.base) ↔
      ∃ c ∈ a.host.containers, c.id = ref ∧ c.name = t.base := by
  subst href
  constructor
  · rintro ⟨ct, hct, hname⟩
    have hid : ct.id = t.id := by simpa using find?_some hct
    refine ⟨ct, ?_, hid, hname⟩
    have hmem := mem_of_find?_eq_some hct
    rw [ho.containers] at hmem
    rcases mem_append.1 hmem with h | h
    · exact h
    · exact absurd (hid ▸ (a.shape t ht).2.1) (ho.fresh ct h)
  · rintro ⟨c, hc, hid, hname⟩
    have hmem := ho.containers ▸ mem_append_left _ hc
    cases hct : a.after.byID t.id with
    | none => exact absurd hid (by simpa using find?_eq_none.1 hct c hmem)
    | some ct =>
      have hid' : ct.id = t.id := by simpa using find?_some hct
      have heq := inj_on_of_nodup_map a.after.ids (mem_of_find?_eq_some hct) hmem (hid'.trans hid.symm)
      exact ⟨ct, rfl, heq ▸ hname⟩

theorem lookup_after (ht : t ∈ a.documents) {ref : Text} (href : Host.fullName ref = '/' :: t.base) :
    ∃ ct, a.after.lookup ref = some ct ∧ ct.name = t.base := by
  rw [Host.lookup_of_fullName (a.shape t ht).2.2.2 href]
  have hsome := Host.find?_name_isSome (h := a.after) t.base
  rw [ho.has_after ht] at hsome
  obtain ⟨ct, hct⟩ := Option.isSome_iff_exists.1 hsome
  exact ⟨ct, hct, by simpa using find?_some hct⟩

theorem kept_iff {site : Site} {ref : Text} (hr : a.Refers d site ref t) (hc : d.base ∈ a.created) :
    a.Kept d site t ↔ site.kept d.host.networkMode = true ∧
      (isID ref = true → ∃ c ∈ a.host.containers, c.id = ref ∧ c.name = t.base) := by
  obtain ⟨c, hmem, hname, sp, hcreate, hconv⟩ := ho.container hr.saved hc
  constructor
  · rintro ⟨c', hmem', hname', ref', ct, href', hct, hctname⟩
    have heq := inj_on_of_nodup_map a.after.names hmem' hmem (hname'.trans hname.symm)
    rw [heq, hcreate] at href'
    have hk : site.kept d.host.networkMode = true := by
      by_contra hk
      rw [refAt_create_lost hconv (Bool.eq_false_iff.2 hk)] at href'
      cases href'
    refine ⟨hk, fun hid => ?_⟩
    obtain ⟨ref'', href'', hor⟩ := refAt_create hconv hr.at_site hk
    cases (href'.symm.trans href'')
    obtain rfl := create_of_isID hid hor
    rw [Host.lookup_of_isID hid] at hct
    exact (ho.byID_after hr.target _ (hr.id hid)).1 ⟨ct, hct, hctname⟩
  · rintro ⟨hk, hold⟩
    obtain ⟨ref', href', hor⟩ := refAt_create hconv hr.at_site hk
    rw [← hcreate] at href'
    cases hid : isID ref with
    | true =>
      obtain rfl := create_of_isID hid hor
      obtain ⟨ct, hct, hctname⟩ := (ho.byID_after hr.target _ (hr.id hid)).2 (hold hid)
      exact ⟨c, hmem, hname, ref', ct, href', (Host.lookup_of_isID hid).trans hct, hctname⟩
    | false =>
      have hno := (isName_iff.1 (a.shape t hr.target).2.2.2).1.2
      obtain ⟨ct, hct, hctname⟩ := ho.lookup_after hr.target (fullName_create hno (hr.fullName hid) hor)
      exact ⟨c, hmem, hname, ref', ct, href', hct, hctname⟩

end Outcome

/-- The recreated containers refer to each other as the saved ones did exactly if every reference of
a container that is not on the host is by name, or to a container that still has its ID, and to one
that is on the host or whose name comes first. -/
theorem references_kept (a : Application) :
    a.Correct ↔ (a.succeeds = true → ∀ d site ref t, a.Refers d site ref t → a.host.has d.base = false →
      a.Portable d site ref t) := by
  refine forall_congr' fun h => ?_
  obtain ⟨added, ho⟩ := outcome h
  refine forall₄_congr fun d site ref t => forall_congr' fun hr => ?_
  rw [ho.mem_created d hr.saved]
  refine forall_congr' fun hd => ?_
  have hc := (ho.mem_created d hr.saved).2 hd
  rw [ho.kept_iff hr hc, ho.before_iff hc hr.target]
  constructor
  · rintro ⟨⟨hk, hold⟩, horder⟩
    exact ⟨hk, hold, horder⟩
  · intro hp
    exact ⟨⟨hp.endpoint, hp.old⟩, hp.order⟩

def document (id : Char) (name mode : Text) : Inspect :=
  ⟨List.replicate 64 id, '/' :: name, some ⟨['i'], []⟩, none, some {HostConfig.empty with networkMode := mode}, none⟩

def entry (name : Text) (d : Inspect) : Entry := ⟨name ++ ['.', 'j', 's', 'o', 'n'], true, none, none, some d⟩

def sidecar : Application where
  request := {
    configSnapshotId := "k1"
    remaps := []
    networks := []
    restoreIDErr := none
    setupErr := none
    listErr := none
    entries := [entry ['d', 'b'] (document 'a' ['d', 'b'] []), entry ['w', 'e', 'b'] (document 'b' ['w', 'e', 'b']
        (['c', 'o', 'n', 't', 'a', 'i', 'n', 'e', 'r', ':'] ++ List.replicate 64 'a'))]
    inspectErr := fun _ => none
    saveErr := fun _ => none
    createErr := fun _ => none
    newID := fun n => List.replicate 64 (if n = ['d', 'b'] then 'c' else 'd')
    lastSaveErr := none }
  host := ⟨[], [List.replicate 64 'a', List.replicate 64 'b'], by simp, by simp, by simp⟩
  networks := []
  journal := ⟨[], []⟩
  shape := by decide
  ids := by decide
  names := by decide

theorem document_refAt (id : Char) (name mode : Text) (site : Site) :
    (document id name mode).refAt site = if site = .networkMode then containerMode mode else none := by
  cases site with
  | networkMode | pidMode | ipcMode => rfl
  | volumesFrom i | link i | endpointLink n i => simp [Inspect.refAt, refAt, document, Inspect.host, HostConfig.empty]

theorem sidecar_refers (hr : sidecar.Refers d site ref t) : d.base = ['w', 'e', 'b'] ∧ t.base = ['d', 'b'] := by
  obtain ⟨hd, hsite, ht, hden⟩ := hr
  have hdocs : sidecar.documents = [document 'a' ['d', 'b'] [], document 'b' ['w', 'e', 'b']
      (['c', 'o', 'n', 't', 'a', 'i', 'n', 'e', 'r', ':'] ++ List.replicate 64 'a')] := rfl
  rw [hdocs] at hd ht
  rcases mem_pair.1 hd with rfl | rfl
  · rw [document_refAt, show containerMode [] = none from rfl, ite_self] at hsite
    cases hsite
  rw [document_refAt] at hsite
  split at hsite
  · have href := Option.some.inj hsite
    subst href
    rcases mem_pair.1 ht with rfl | rfl
    · exact ⟨rfl, rfl⟩
    · exact absurd hden (by decide)
  · cases hsite

/-- After a restore on a new host, web has the network of a container that does not exist. -/
theorem sidecar_dangles : sidecar.succeeds = true ∧ sidecar.created = [['d', 'b'], ['w', 'e', 'b']] ∧
    sidecar.after.lookup (List.replicate 64 'a') = none ∧ sidecar.Acyclic ∧ ¬ sidecar.Correct := by
  have hok : sidecar.succeeds = true := by decide
  have hcreated : sidecar.created = [['d', 'b'], ['w', 'e', 'b']] := by decide
  refine ⟨hok, hcreated, by decide, ?_, fun hcorrect => ?_⟩
  · refine ⟨List.length, fun d site ref t hr => ?_⟩
    obtain ⟨hd, ht⟩ := sidecar_refers hr
    rw [hd, ht]
    decide
  · obtain ⟨added, ho⟩ := outcome hok
    have hr : sidecar.Refers (document 'b' ['w', 'e', 'b']
        (['c', 'o', 'n', 't', 'a', 'i', 'n', 'e', 'r', ':'] ++ List.replicate 64 'a')) .networkMode
        (List.replicate 64 'a') (document 'a' ['d', 'b'] []) :=
      ⟨mem_cons_of_mem _ mem_cons_self, rfl, mem_cons_self, .inl rfl⟩
    have hmem : ['w', 'e', 'b'] ∈ sidecar.created := by simp [hcreated]
    -- no container of the host has the ID of the old db
    obtain ⟨c, hc, -⟩ := ((ho.kept_iff hr hmem).1 (hcorrect hok _ _ _ _ hr hmem).1).2 (by decide)
    exact absurd hc (not_mem_nil)

end Application

end Dbr2.Agent.Recreate
