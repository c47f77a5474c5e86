import Mathlib.Data.List.Pairwise
import Mathlib.Data.List.Perm.Basic
import Dbr2.Inventory.Model

/-! Ingesting the inventories of an agent (`internal/gateway/ingest.go`,
`db/queries/inventory.sql`), as many as arrive and in the order in which they do.

The snapshot ends as the latest collected one in any order (`foldl_upsertInventorySnapshot`). The
applications are reconciled with each inventory, late or not; one that lists none marks none as missing. Of the
columns, `received_at` and `updated_at` are left out, which only say when a row was written, and of the
snapshot's document its sealing. -/
namespace Dbr2.Gateway.Ingest
open Inventory List
open Lib.GoPath (Text)

inductive Kind
  | compose | container
  deriving DecidableEq

structure Key where
  kind : Kind
  name : Text
  deriving DecidableEq

structure Row where
  kind : Kind
  name : Text
  lastSeenAt : Int
  missingSince : Option Int
  deriving DecidableEq

abbrev Apps := Key → Option Row

structure Db where
  snapshot : Option HostInventory
  apps : Apps
  /-- The keys of the manual applications, and the containers they claim. -/
  manual : List (Text × List Text)

def upsertInventorySnapshot (snapshot : Option HostInventory) (inv : HostInventory) : Option HostInventory :=
  match snapshot with
  | none => some inv
  | some s => if s.collectedAt ≤ inv.collectedAt then some inv else some s

def upsertDiscoveredApplication (at' : Int) (apps : Apps) (k : Key) : Apps :=
  Function.update apps k (some (match apps k with
    | none => ⟨k.kind, k.name, at', none⟩
    | some r => {r with name := k.name, lastSeenAt := at', missingSince := none}))

def Row.markMissing (at' : Int) (r : Row) : Row := {r with missingSince := r.missingSince.or (some at')}

/-- `NOT (key = ANY(NULL))` is not true: without a list nothing is marked. -/
def markApplicationsMissing (at' : Int) (present : Option (List Key)) (apps : Apps) : Apps := fun k =>
  match present with
  | none => apps k
  | some keys => if k ∈ keys then apps k else (apps k).map (·.markMissing at')

def deleteContainerApplications (keys : List Key) (apps : Apps) : Apps := fun k =>
  (apps k).filter fun r => !(decide (r.kind = .container) && decide (k ∈ keys))

variable (manual : List (Text × List Text))

def claimed : List Key := manual.flatMap fun m => m.2.map (⟨.container, ·⟩)

def appKey (c : Container) : Option Key :=
  if c.labels.get labelOneOff = "True".toList then none
  else if manual.any (·.2.contains c.name) then none
  else if c.labels.get labelProject ≠ [] then some ⟨.compose, c.labels.get labelProject⟩
  else some ⟨.container, c.name⟩

def discovered (inv : HostInventory) : List Key := inv.containers.filterMap (appKey manual)

/-- Whether the list of present keys is not nil, which is sent as NULL. Every manual application is among the
analysed ones. -/
def lists (inv : HostInventory) : Bool := !(manual.isEmpty && (discovered manual inv).isEmpty)

def reconcile (db : Db) (inv : HostInventory) : Db :=
  let apps := deleteContainerApplications (claimed db.manual) db.apps
  let keys := discovered db.manual inv
  let apps := keys.foldl (upsertDiscoveredApplication inv.collectedAt) apps
  {db with apps := markApplicationsMissing inv.collectedAt (if lists db.manual inv then some keys else none) apps}

def ingestInventory (db : Db) (inv : HostInventory) : Db :=
  reconcile {db with snapshot := upsertInventorySnapshot db.snapshot inv} inv

variable {manual} {k : Key} {r : Option Row} {inv : HostInventory} {L L' : List HostInventory}

theorem not_claimed_of_discovered (h : k ∈ discovered manual inv) : k ∉ claimed manual := by
  intro hk
  obtain ⟨m, hm, n, hn, rfl⟩ : ∃ m ∈ manual, ∃ n ∈ m.2, (⟨.container, n⟩ : Key) = k := by
    simpa [claimed] using hk
  obtain ⟨c, -, hc⟩ := mem_filterMap.mp h
  unfold appKey at hc
  split at hc
  · cases hc
  split at hc
  · cases hc
  rename_i hfree
  split at hc
  · cases hc
  · cases hc
    exact hfree (any_eq_true.mpr ⟨m, hm, contains_iff_mem.mpr hn⟩)

variable (k) in
def kept (manual : List (Text × List Text)) (r : Option Row) : Option Row :=
  r.filter fun r => !(decide (r.kind = .container) && decide (k ∈ claimed manual))

variable (k) in
def seen (at' : Int) (missing : Option Int) (r : Option Row) : Row := ⟨(r.map (·.kind)).getD k.kind, k.name, at', missing⟩

variable (manual k) in
def rowStep (r : Option Row) (inv : HostInventory) : Option Row :=
  if k ∈ discovered manual inv then some (seen k inv.collectedAt none r)
  else (kept k manual r).map (·.markMissing inv.collectedAt)

theorem kept_of_not_claimed (h : k ∉ claimed manual) (r : Option Row) : kept k manual r = r := by
  cases r <;> simp [kept, h]

theorem upserts_apply (at' : Int) (keys : List Key) (apps : Apps) (k : Key) :
    keys.foldl (upsertDiscoveredApplication at') apps k =
      if k ∈ keys then some (seen k at' none (apps k)) else apps k := by
  induction keys generalizing apps with
  | nil => rfl
  | cons x keys ih =>
    rw [foldl_cons, ih]
    by_cases hx : k = x
    · subst hx
      rw [upsertDiscoveredApplication, Function.update_self]
      cases apps k <;> simp [seen]
    · rw [upsertDiscoveredApplication, Function.update_of_ne hx]
      simp only [mem_cons, hx, false_or]

theorem ingestInventory_apps (db : Db) (inv : HostInventory) (k : Key) :
    (ingestInventory db inv).apps k =
      if lists db.manual inv then rowStep db.manual k (db.apps k) inv else db.apps k := by
  change markApplicationsMissing inv.collectedAt (if lists db.manual inv then some (discovered db.manual inv) else none)
    ((discovered db.manual inv).foldl (upsertDiscoveredApplication inv.collectedAt)
      fun k => kept k db.manual (db.apps k)) k = _
  unfold markApplicationsMissing
  cases hl : lists db.manual inv with
  | true =>
    simp only [if_true, rowStep, upserts_apply]
    by_cases hk : k ∈ discovered db.manual inv
    · rw [if_pos hk, if_pos hk, if_pos hk, kept_of_not_claimed (not_claimed_of_discovered hk)]
    · rw [if_neg hk, if_neg hk, if_neg hk]
  | false =>
    -- there is no manual application, so that no row is deleted either
    obtain ⟨hmanual, hnone⟩ : db.manual = [] ∧ discovered db.manual inv = [] := by simpa [lists] using hl
    rw [hnone]
    exact kept_of_not_claimed (by rw [hmanual]; exact not_mem_nil) _

theorem foldl_ingestInventory (db : Db) (L : List HostInventory) :
    L.foldl ingestInventory db = ⟨L.foldl upsertInventorySnapshot db.snapshot,
      fun k => (L.filter (lists db.manual)).foldl (rowStep db.manual k) (db.apps k), db.manual⟩ := by
  induction L generalizing db with
  | nil => rfl
  | cons inv L ih =>
    rw [foldl_cons, ih]
    congr 1
    funext k
    rw [ingestInventory_apps, filter_cons]
    show (L.filter (lists db.manual)).foldl (rowStep db.manual k) _ = _
    split <;> rfl

/-- The last inventory with `p` and the one right after it; without one, the first inventory. -/
def deciding (p : HostInventory → Bool) : List HostInventory → Option HostInventory × Option HostInventory
  | [] => (none, none)
  | i :: L =>
    if (deciding p L).1.isSome then deciding p L else if p i then (some i, L.head?) else (none, some i)

variable {p : HostInventory → Bool} {i : HostInventory}

theorem deciding_of_none (h : ∀ i ∈ L, p i = false) : deciding p L = (none, L.head?) := by
  induction L with
  | nil => rfl
  | cons i L ih =>
    rw [forall_mem_cons] at h
    rw [deciding, ih h.2, h.1]
    rfl

theorem deciding_cases (p : HostInventory → Bool) (L : List HostInventory) :
    ((∀ i ∈ L, p i = false) ∧ deciding p L = (none, L.head?)) ∨
      ∃ i ∈ L, p i = true ∧ (deciding p L).1 = some i ∧ ∀ j, (deciding p L).2 = some j → j ∈ L := by
  induction L with
  | nil => exact .inl ⟨nofun, rfl⟩
  | cons x L ih =>
    obtain ⟨hnone, hd⟩ | ⟨i, hi, hp, h1, h2⟩ := ih
    · cases hx : p x with
      | false =>
        have hall : ∀ i ∈ x :: L, p i = false := forall_mem_cons.mpr ⟨hx, hnone⟩
        exact .inl ⟨hall, deciding_of_none hall⟩
      | true =>
        have he : deciding p (x :: L) = (some x, L.head?) := by
          rw [deciding, hd, hx]
          rfl
        refine .inr ⟨x, mem_cons_self, hx, by rw [he], fun j hj => ?_⟩
        rw [he] at hj
        exact mem_cons_of_mem _ (mem_of_mem_head? hj)
    · have he : deciding p (x :: L) = deciding p L := by rw [deciding, h1, Option.isSome_some, if_pos rfl]
      rw [he]
      exact .inr ⟨i, mem_cons_of_mem _ hi, hp, h1, fun j hj => mem_cons_of_mem _ (h2 j hj)⟩

variable (manual k) in
def shown (r : Option Row) (d : Option HostInventory × Option HostInventory) : Option Row :=
  match d with
  | (some i, next) => some (seen k i.collectedAt (next.map (·.collectedAt)) r)
  | (none, none) => r
  | (none, some i) => (kept k manual r).map (·.markMissing i.collectedAt)

variable (manual k) in
def has (inv : HostInventory) : Bool := decide (k ∈ discovered manual inv)

theorem rowStep_of_has (h : has manual k inv = true) (r : Option Row) :
    rowStep manual k r inv = some (seen k inv.collectedAt none r) := if_pos (of_decide_eq_true h)

theorem rowStep_of_not_has (h : has manual k inv = false) (r : Option Row) :
    rowStep manual k r inv = (kept k manual r).map (·.markMissing inv.collectedAt) := if_neg (of_decide_eq_false h)

theorem seen_rowStep (hk : k ∉ claimed manual) (at' : Int) (missing : Option Int) (r : Option Row) (inv : HostInventory) :
    seen k at' missing (rowStep manual k r inv) = seen k at' missing r := by
  unfold rowStep
  rw [kept_of_not_claimed hk]
  split
  · rfl
  · cases r <;> rfl

theorem kept_markMissing (at' : Int) (r : Option Row) :
    kept k manual ((kept k manual r).map (·.markMissing at')) = (kept k manual r).map (·.markMissing at') := by
  cases r with
  | none => rfl
  | some r =>
    unfold kept
    rw [Option.filter_some]
    split
    · rename_i h
      exact Option.filter_some_pos h
    · rfl

theorem Row.markMissing_twice (a b : Int) (r : Row) : (r.markMissing a).markMissing b = r.markMissing a := by
  simp [Row.markMissing]

theorem foldl_rowStep (r : Option Row) (L : List HostInventory) :
    L.foldl (rowStep manual k) r = shown manual k r (deciding (has manual k) L) := by
  induction L generalizing r with
  | nil => rfl
  | cons x L ih =>
    rw [foldl_cons, ih, deciding]
    obtain ⟨hnone, hd⟩ | ⟨i, hi, hp, h1, -⟩ := deciding_cases (has manual k) L
    · rw [hd]
      cases hx : has manual k x with
      | true =>
        rw [rowStep_of_has hx]
        cases L.head? with
        | none => rfl
        | some j =>
          have hk := not_claimed_of_discovered (of_decide_eq_true hx)
          simp only [shown, kept_of_not_claimed hk]
          rfl
      | false =>
        rw [rowStep_of_not_has hx]
        cases L.head? with
        | none => rfl
        | some j =>
          simp only [shown, kept_markMissing, Option.map_map, Function.comp_def, Row.markMissing_twice]
          rfl
    · have hk := not_claimed_of_discovered (of_decide_eq_true hp)
      rw [h1, Option.isSome_some, if_pos rfl]
      generalize deciding (has manual k) L = d at h1 ⊢
      obtain ⟨last, next⟩ := d
      cases h1
      exact congrArg some (seen_rowStep hk ..)

theorem rowStep_twice (r : Option Row) (inv : HostInventory) :
    rowStep manual k (rowStep manual k r inv) inv = rowStep manual k r inv := by
  cases h : has manual k inv with
  | true =>
    rw [rowStep_of_has h, rowStep_of_has h]
    rfl
  | false =>
    simp only [rowStep_of_not_has h, kept_markMissing, Option.map_map, Function.comp_def, Row.markMissing_twice]

/-- After any inventories, in the order in which they arrive, an application is as the last one that has it
and the one after that say, of those that list any application. -/
theorem ingest_shown (db : Db) (L : List HostInventory) (k : Key) :
    (L.foldl ingestInventory db).apps k =
      shown db.manual k (db.apps k) (deciding (has db.manual k) (L.filter (lists db.manual))) := by
  rw [foldl_ingestInventory]
  exact foldl_rowStep _ _

/-- An inventory that arrives again at once changes nothing but the times at which rows were written. -/
theorem ingest_twice (db : Db) (inv : HostInventory) :
    ingestInventory (ingestInventory db inv) inv = ingestInventory db inv := by
  change [inv, inv].foldl ingestInventory db = [inv].foldl ingestInventory db
  rw [foldl_ingestInventory, foldl_ingestInventory]
  congr 1
  · cases db.snapshot with
    | none => simp [upsertInventorySnapshot]
    | some s => by_cases h : s.collectedAt ≤ inv.collectedAt <;> simp [upsertInventorySnapshot, h]
  · funext k
    cases hl : lists db.manual inv with
    | true => simpa [hl] using rowStep_twice _ _
    | false => simp [hl]

section Order
variable (hperm : L'.Perm L) (hsorted : L'.Pairwise (·.collectedAt < ·.collectedAt))
include hperm hsorted

theorem eq_of_collectedAt {x y : HostInventory} (hx : x ∈ L) (hy : y ∈ L) (h : x.collectedAt = y.collectedAt) : x = y := by
  by_contra hne
  have hdistinct := hsorted.imp Int.ne_of_lt
  have : Std.Symm fun x y : HostInventory => x.collectedAt ≠ y.collectedAt := ⟨fun _ _ h => h.symm⟩
  exact hdistinct.forall (hperm.mem_iff.mpr hx) (hperm.mem_iff.mpr hy) hne h

theorem option_eq_of_collectedAt {a b : Option HostInventory} (ha : ∀ x, a = some x → x ∈ L) (hb : ∀ x, b = some x → x ∈ L)
    (h : a.map (·.collectedAt) = b.map (·.collectedAt)) : a = b := by
  cases a with
  | none => exact (Option.map_eq_none_iff.mp h.symm).symm
  | some x =>
    obtain ⟨y, rfl, hy⟩ := Option.map_eq_some_iff.mp h.symm
    exact congrArg some (eq_of_collectedAt hperm hsorted (ha x rfl) (hb y rfl) hy.symm)

theorem foldl_upsertInventorySnapshot (s : Option HostInventory) :
    L.foldl upsertInventorySnapshot s = L'.foldl upsertInventorySnapshot s := by
  refine hperm.symm.foldl_eq' (fun x hx y hy s => ?_) s
  have hxy := eq_of_collectedAt hperm hsorted hx hy
  cases s <;> grind [upsertInventorySnapshot]

theorem markMissing_eq_iff {a b : HostInventory} (ha : a ∈ L) (hb : b ∈ L) (r : Option Row) :
    r.map (·.markMissing a.collectedAt) = r.map (·.markMissing b.collectedAt) ↔
      ((∃ x, r = some x ∧ x.missingSince = none) → a = b) := by
  cases r with
  | none => simp
  | some x =>
    cases hx : x.missingSince with
    | some m => simp [Row.markMissing, hx]
    | none =>
      simp only [Option.map_some, Row.markMissing, hx, Option.none_or, Option.some.injEq, Row.mk.injEq, true_and]
      exact ⟨fun h _ => eq_of_collectedAt hperm hsorted ha hb h, fun h => congrArg _ (h ⟨x, rfl, hx⟩)⟩

theorem shown_eq_iff (r : Option Row) :
    shown manual k r (deciding (has manual k) L) = shown manual k r (deciding (has manual k) L') ↔
      ((∃ i ∈ L, has manual k i = true) ∨ (∃ x, kept k manual r = some x ∧ x.missingSince = none) →
        deciding (has manual k) L = deciding (has manual k) L') := by
  have hmem : ∀ {x}, x ∈ L' → x ∈ L := hperm.mem_iff.mp
  obtain ⟨hnone, hd⟩ | ⟨i, hi, hp, h1, h2⟩ := deciding_cases (has manual k) L
  · -- no inventory has the application: the first one marks it as missing
    have hno : ¬ ∃ i ∈ L, has manual k i = true := fun ⟨i, hi, hp⟩ => by
      rw [hnone i hi] at hp
      cases hp
    rw [hd, deciding_of_none fun i hi => hnone i (hmem hi), or_iff_right hno]
    cases L with
    | nil =>
      cases hperm.eq_nil
      simp
    | cons a L =>
      cases L' with
      | nil => cases hperm.nil_eq
      | cons b L' =>
        refine (markMissing_eq_iff hperm hsorted mem_cons_self (hmem mem_cons_self) _).trans ?_
        simp only [head?_cons, Prod.mk.injEq, true_and, Option.some.injEq]
  · obtain ⟨hnone', -⟩ | ⟨i', hi', hp', h1', h2'⟩ := deciding_cases (has manual k) L'
    · rw [hnone' i (hperm.mem_iff.mpr hi)] at hp
      cases hp
    · rw [forall_prop_of_true (.inl ⟨i, hi, hp⟩)]
      generalize deciding (has manual k) L = d, deciding (has manual k) L' = d' at *
      obtain ⟨last, next⟩ := d
      obtain ⟨last', next'⟩ := d'
      cases h1
      cases h1'
      refine ⟨fun h => ?_, congrArg _⟩
      have hrow := Option.some.inj h
      rw [eq_of_collectedAt hperm hsorted hi (hmem hi') (congrArg Row.lastSeenAt hrow)]
      exact congrArg _ (option_eq_of_collectedAt hperm hsorted h2 (fun x hx => hmem (h2' x hx))
        (congrArg Row.missingSince hrow))

end Order

/-- Some inventory has the application, or its row is there and not missing yet. -/
def Live (db : Db) (L : List HostInventory) (k : Key) : Prop :=
  (∃ i ∈ L, has db.manual k i = true) ∨ ∃ r, kept k db.manual (db.apps k) = some r ∧ r.missingSince = none

/-- Each row is decided by the same inventories in the order of ingestion, `L`, as in the order of
collection, `L'`. -/
def Timely (db : Db) (L L' : List HostInventory) : Prop :=
  ∀ k, Live db L k → deciding (has db.manual k) L = deciding (has db.manual k) L'

/-- **Inventories ingested in any order leave what those leave that are ingested in the order of
collection, exactly if every row is decided by the same ones,** of those that list any application. -/
theorem ingest_order_iff (db : Db) (L L' : List HostInventory) (hperm : L'.Perm L)
    (hsorted : L'.Pairwise (·.collectedAt < ·.collectedAt)) :
    L.foldl ingestInventory db = L'.foldl ingestInventory db ↔
      Timely db (L.filter (lists db.manual)) (L'.filter (lists db.manual)) := by
  rw [foldl_ingestInventory, foldl_ingestInventory, foldl_upsertInventorySnapshot hperm hsorted, Db.mk.injEq, funext_iff]
  simp only [true_and, and_true, foldl_rowStep, shown_eq_iff (hperm.filter _) (hsorted.filter _)]
  rfl

def fresh : Db := ⟨none, fun _ => none, []⟩

def container (name : String) : Container := ⟨[], name.toList, [], [], [], [], [], [], [], [], false, [], []⟩

def collected (at' : Int) (names : List String) : HostInventory := ⟨at', names.map container, [], [], [], []⟩

theorem ingest_order_iff_web :
    [collected 1 ["web"], collected 2 ["web"], collected 3 ["web"]].Perm
        [collected 2 ["web"], collected 1 ["web"], collected 3 ["web"]] ∧
      ([collected 2 ["web"], collected 1 ["web"], collected 3 ["web"]].foldl ingestInventory fresh =
          [collected 1 ["web"], collected 2 ["web"], collected 3 ["web"]].foldl ingestInventory fresh ↔
        Timely fresh ([collected 2 ["web"], collected 1 ["web"], collected 3 ["web"]].filter (lists []))
          ([collected 1 ["web"], collected 2 ["web"], collected 3 ["web"]].filter (lists []))) :=
  ⟨by decide, ingest_order_iff fresh _ _ (by decide) (by decide)⟩

/-- An application that is gone by the second inventory is back when the first one arrives after it. -/
theorem late_inventory_revives : [collected 2 ["db"], collected 1 ["db", "web"]].foldl ingestInventory fresh ≠
      [collected 1 ["db", "web"], collected 2 ["db"]].foldl ingestInventory fresh := by
  intro h
  have hrow := congrFun (congrArg Db.apps h) ⟨.container, "web".toList⟩
  revert hrow
  decide

end Dbr2.Gateway.Ingest
