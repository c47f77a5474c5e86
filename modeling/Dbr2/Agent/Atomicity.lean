import Dbr2.Agent.RestoreRules
import Dbr2.Agent.Delivery

/-! RestoreComponents against the file system it started from.

When it fails and its own rollback reports no error, or when the agent dies and the
journal it left is undone, every target holds what it held before: provided that
the paths of the restore's swaps do not get into each other's way, nothing stands where
previous content is to be kept, no volume has to be created, and `os.Lstat` finds the
paths that are there. Swaps that earlier commands left may still stand, or be under way,
at other targets. -/
namespace Dbr2.Agent
open Lib List

def commandSlots (repo : Repository) (vols : String → Option Volume) (c : RestoreCommand) :
    List Slot := c.components.flatMap (componentSlots repo vols c)

def restoreSlots (repo : Repository) (c : RestoreCommand) (w : World) : List Slot :=
  commandSlots repo w.volumes c ++ w.disk.journaled.map (·.slot)

/-- What the command has to find: paths apart from each other, records that lead back and
have nothing to undo at its own targets, every volume, and an `os.Lstat` that works. -/
structure Ready (repo : Repository) (c : RestoreCommand) (w : World) : Prop where
  layout : Layout (restoreSlots repo c w)
  earlier : ∃ before, Undoable before (restoreSlots repo c w) w.restored w.disk.journaled w.fs
  done : ∀ r ∈ w.disk.journaled, r.slot ∈ commandSlots repo w.volumes c → r.state = .rolledBack
  volumes : ∀ s ∈ c.components, s.kind = .volume → (w.volumes s.volumeName).isSome = true
  lstats : ∀ b ∈ w.lstats, b = false

def TargetsKept (repo : Repository) (c : RestoreCommand) (w w' : World) : Prop :=
  ∀ s ∈ commandSlots repo w.volumes c, w'.fs.view s.target = w.fs.view s.target

/-- A pass of `undoSwap` over records of the journal on disk, saved at its end or
not. -/
structure Pass where
  order : List Nat
  save : Bool

def undoPass (p : Pass) : Prog (List Err) := do
  .modify (fun w => {w with mem := w.journal.getD (newJournal "")})
  let (_, es) ← undoAll (fun target => target ++ ": ") p.order
  if p.save then saveAfter es else pure es

def passStep (w : World) (e : Pass × List Draw) : World := settle (undoPass e.1 e.2 w)

section Passes
variable {before : Tree} {slots mine : List Slot}

theorem undoPass_onDisk (hl : Layout slots) (p : Pass) (n : Nat) (ss : List Slot) (hss : ∀ s ∈ ss, s ∈ slots)
    (hall : ss ≠ [] → ∀ i < n, i ∈ p.order) :
    OnDisk (fun d => Recoverable before slots mine d ∧ d.journaled.length = n) (undoPass p)
      (fun es d => Safe before slots mine d ∧ (es = [] → ∀ s ∈ ss, Untouched before s d.fs))
      (Recoverable before slots mine) (Recoverable before slots mine) := by
  refine .bind (Q := fun _ w => Safe before slots mine w.disk ∧ Left before ss p.order w.disk)
    (.modify fun w h => ?_) fun _ => ?_
  · obtain ⟨h, hn⟩ := h
    have hmem : (w.journal.getD (newJournal "")).swaps = w.disk.journaled := w.disk.opened_swaps ""
    refine ⟨h.opened "", fun s hs => (h.undo.pending s (hss s hs)).imp_right ?_⟩
    rintro ⟨-, r, hr, hslot, hm⟩
    obtain ⟨i, hi⟩ := mem_iff_getElem?.1 hr
    obtain ⟨hlt, -⟩ := List.getElem?_eq_some_iff.1 hi
    exact ⟨i, hall (ne_nil_of_mem hs) i (hn ▸ hlt), r, hmem ▸ hi, hslot, hm⟩
  · refine .bind (undoAll_onDisk hl _ _ hss) fun r => ?_
    show Triple _ (if p.save then saveAfter r.2 else pure r.2) _ _ _
    split
    · exact (saveAfter_onDisk r.2 ss).pre fun _ h => ⟨h.1, fun he => (h.2 he).untouched⟩
    · exact .pure fun _ h => ⟨h.1, fun he => (h.2 he).untouched⟩

theorem passStep_recoverable (hl : Layout slots) {w : World} (h : Recoverable before slots mine w.disk)
    (e : Pass × List Draw) : Recoverable before slots mine (passStep w e).disk :=
  settle_of_meets (undoPass_onDisk hl e.1 _ [] (fun _ hs => by cases hs) (fun hs => absurd rfl hs) e.2 w ⟨h, rfl⟩)
    (fun _ _ h => h.1.toRecoverable) (fun _ _ h => h) fun _ h => h.congr rfl rfl rfl rfl

end Passes

def RestoreSpec.ofVolume (name : String) : RestoreSpec where
  name := name
  kind := .volume
  snapshotId := name
  volumeName := name
  volumeDriver := "d"
  targetPath := ⟨false, []⟩
  fileName := ""
  fsmetaSnapshotId := ""
  mode := ""
  selinuxContext := ""

def Repository.newFile : Repository := fun _ =>
  some ⟨1, 1, .ofEntries [([], .dir), (["f"], .file "new")] (by decide)⟩

def RestoreCommand.ofVolumes (names : List String) : RestoreCommand :=
  ⟨"r", "repo", names.map .ofVolume, []⟩

def Tree.apartVolumes : Tree := .ofEntries [([], .dir), (["v"], .dir), (["v", "a"], .dir), (["v", "a", "d"], .dir),
    (["v", "a", "d", "f"], .file "old a"), (["v", "b"], .dir), (["v", "b", "d"], .dir),
    (["v", "b", "d", "f"], .file "old b")] (by decide)

def World.apartVolumes : World :=
  {World.idle (fun _ => none) with
    fs := Tree.apartVolumes
    volumes := fun name =>
      if name = "a" ∨ name = "b" then some ⟨"d", ⟨true, ["v", name, "d"]⟩⟩ else none}

def apartSlots : List Slot := [paths "r" ["v", "a", "d"] "", paths "r" ["v", "b", "d"] ""]

/-- The second volume is restored; the first is not yet. -/
def World.secondRestored : World := (restoreComponents .newFile (.ofVolumes ["b"]) [] .apartVolumes).2.2

def Tree.twoVolumes : Tree := .ofEntries
  [([], .dir), (["v"], .dir), (["v", "a"], .dir), (["v", "a", "f"], .file "old a"),
    (["v", "b"], .dir), (["v", "b", "f"], .file "old b")] (by decide)

def World.twoVolumes : World :=
  {World.idle (fun _ => none) with
    fs := Tree.twoVolumes
    volumes := fun name =>
      if name = "a" then some ⟨"d", ⟨true, ["v", "a"]⟩⟩
      else if name = "b" then some ⟨"d", ⟨true, ["v", "b"]⟩⟩ else none}

def World.nestedVolumes : World :=
  {World.idle (fun _ => none) with
    fs := .ofEntries [([], .dir), (["v"], .dir), (["v", "a"], .dir), (["v", "a", "b"], .dir),
      (["v", "a", "b", "f"], .file "old")] (by decide)
    volumes := fun name =>
      if name = "a" then some ⟨"d", ⟨true, ["v", "a"]⟩⟩
      else if name = "b" then some ⟨"d", ⟨true, ["v", "a", "b"]⟩⟩ else none}

/-- The agent dies while the inner volume is swapped, and a pass is not saved. -/
def World.nestedUndone : World :=
  passStep (restoreComponents .newFile (.ofVolumes ["a", "b"])
    (List.replicate 25 default ++ [{(default : Draw) with crash := true}]) .nestedVolumes).2.2.down (⟨[1, 0], false⟩, [])

end Dbr2.Agent
