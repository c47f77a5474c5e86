import Mathlib.Data.String.Basic
import Dbr2.Lib.GoPath

/-! The inventory of a host (`internal/inventory/model.go`): what the analysis reads of the document
that an agent sends. -/
namespace Dbr2.Inventory
open Lib.GoPath

/-- A map of texts. A key that is not there reads as empty. -/
abbrev TextMap := List (Text × Text)

def TextMap.get (m : TextMap) (key : Text) : Text := (m.lookup key).getD []

def labelProject : Text := "com.docker.compose.project".toList
def labelOneOff : Text := "com.docker.compose.oneoff".toList

structure EnvVar where
  key : Text
  sensitive : Bool
  deriving DecidableEq

inductive MountType
  | volume | bind | tmpfs
  | other (s : Text)
  deriving DecidableEq

structure Mount where
  type : MountType
  (name source destination driver : Text)
  rw : Bool
  deriving DecidableEq

inductive ChangeKind
  | added | changed | deleted
  | other (s : Text)
  deriving DecidableEq

structure Change where
  path : Text
  kind : ChangeKind
  deriving DecidableEq

structure Container where
  (id name image imageID state : Text)
  labels : TextMap
  env : List EnvVar
  mounts : List Mount
  networks : List Text
  networkMode : Text
  readOnlyRootfs : Bool
  /-- The destinations of the map `tmpfs`, in the order in which it is iterated. -/
  tmpfs : List Text
  changes : List Change
  deriving DecidableEq

structure Volume where
  (name driver mountpoint : Text)
  (labels options : TextMap)
  deriving DecidableEq

structure Network where
  (name driver : Text)
  labels : TextMap
  deriving DecidableEq

structure Image where
  id : Text
  repoDigests : List Text
  (os architecture variant : Text)
  deriving DecidableEq

structure File where
  path : Text
  truncated : Bool
  error : Text
  masked : Bool
  deriving DecidableEq

structure ComposeProject where
  (name workingDir : Text)
  (configFiles envFiles : List File)
  deriving DecidableEq

structure HostInventory where
  collectedAt : Int
  containers : List Container
  volumes : List Volume
  networks : List Network
  images : List Image
  composeProjects : List ComposeProject
  deriving DecidableEq

def contains (s sub : Text) : Bool := s.tails.any (hasPrefix · sub)

def under (p : Text) (prefixes : List Text) : Bool :=
  prefixes.any fun pre => pre ≠ [] && (p == pre || hasPrefix p (trimRight pre ++ ['/']))

def ancestorOf (p : Text) (paths : List Text) : Bool :=
  paths.any fun x => hasPrefix x (trimRight p ++ ['/'])

end Dbr2.Inventory
