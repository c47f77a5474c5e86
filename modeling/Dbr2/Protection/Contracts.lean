import Mathlib.Data.String.Basic
import Mathlib.Data.List.Sort
import Dbr2.Lib.GoPath
import Dbr2.Lib.Run
import Dbr2.Lib.Table

/-! Recovery contracts and their alerts (`PutContract`, `evaluateContract` and `EvaluateContracts`
in `internal/protection/contracts.go`).

EvaluateContracts lists the contracts, stores each one's state in a statement of its own, and alerts
in a later transaction if the state is not the one it has listed. Any number of runs interleave with
each other and with PutContract, and any statement may fail. -/
namespace Dbr2.Protection.Contracts
open Lib List
open Lib.GoPath (Text)

inductive ContractState
  | unknown
  | satisfied
  | violated
  deriving DecidableEq

/-- What `evaluateContract` says of a violation; durations are in nanoseconds. -/
inductive Reason
  | noRecoveryPoint
  | rpo (age limit : Int)
  | missing (component : Text)
  deriving DecidableEq

/-- A row of the contracts with what it asks for. -/
structure Contract where
  applicationID : Nat
  applicationName : Text
  maxRpoMinutes : Option Int
  requiredComponents : List Text
  state : ContractState
  reasons : List Reason
  violatedSince : Option Int
  deriving DecidableEq

structure ContractSpec where
  maxRpoMinutes : Option Int
  requiredComponents : List Text
  deriving DecidableEq

/-- The latest committed recovery point: its time, and the components that its manifest says have
succeeded, if the manifest can be read. -/
structure RecoveryPoint where
  createdAt : Int
  succeeded : List Text
  deriving DecidableEq

/-- `unicode.IsSpace`. -/
def isSpace (c : Char) : Bool :=
  (9 ≤ c.toNat && c.toNat ≤ 13) || c.toNat == 0x20 || c.toNat == 0x85 || c.toNat == 0xA0 || c.toNat == 0x1680 ||
    (0x2000 ≤ c.toNat && c.toNat ≤ 0x200A) || [0x2028, 0x2029, 0x202F, 0x205F, 0x3000].contains c.toNat

def trimSpace (s : Text) : Text := (s.dropWhile isSpace).rdropWhile isSpace

/-- The names without blanks and duplicates, in order. -/
def uniqueSorted (xs : List Text) : List Text :=
  (xs.foldl (fun out x => if trimSpace x ≠ [] ∧ !out.contains (trimSpace x) then out ++ [trimSpace x] else out)
    []).insertionSort (· ≤ ·)

def minute : Int := 60000000000

/-- The int64 that arithmetic on durations leaves. -/
def int64 (n : Int) : Int := n.bmod 18446744073709551616

/-- `Time.Sub`, which saturates. -/
def sub (t u : Int) : Int := max (-9223372036854775808) (min 9223372036854775807 (t - u))

def rpoReasons (c : Contract) (last : RecoveryPoint) (now : Int) : List Reason :=
  match c.maxRpoMinutes with
  | none => []
  | some m => if int64 (m * minute) < sub now last.createdAt then [.rpo (sub now last.createdAt) (int64 (m * minute))] else []

/-- `evaluateContract`. -/
def evaluateContract (c : Contract) (last : Option RecoveryPoint) (now : Int) : ContractState × List Reason :=
  match last with
  | none => (.violated, [.noRecoveryPoint])
  | some last =>
    let reasons := rpoReasons c last now ++
      (c.requiredComponents.filter fun r => !last.succeeded.contains r).map Reason.missing
    if reasons = [] then (.satisfied, []) else (.violated, reasons)

def Reason.ofRpo : Reason → Bool
  | .noRecoveryPoint | .rpo _ _ => true
  | .missing _ => false

def reportsRpo (c : Contract) (last : Option RecoveryPoint) (now : Int) : Bool :=
  (evaluateContract c last now).2.any Reason.ofRpo

/-- Under a limit of `m` minutes a violation is reported exactly if there is no recovery point or it
is older than that. -/
def RpoExact (m : Int) : Prop :=
  ∀ c last now, c.maxRpoMinutes = some m →
    (reportsRpo c last now = true ↔ ∀ r, last = some r → m * minute < now - r.createdAt)

theorem any_ofRpo_missing (l : List Text) : (l.map Reason.missing).any Reason.ofRpo = false := by
  induction l with
  | nil => rfl
  | cons x l ih => exact ih

theorem reportsRpo_some {c : Contract} {m : Int} (hm : c.maxRpoMinutes = some m) (r : RecoveryPoint) (now : Int) :
    reportsRpo c (some r) now = true ↔ int64 (m * minute) < sub now r.createdAt := by
  have hany : (rpoReasons c r now).any Reason.ofRpo = true ↔ int64 (m * minute) < sub now r.createdAt := by
    unfold rpoReasons
    rw [hm]
    by_cases h : int64 (m * minute) < sub now r.createdAt <;> simp [h, Reason.ofRpo]
  rw [← hany]
  unfold reportsRpo evaluateContract
  dsimp only
  split
  · rename_i hnil
    rw [(append_eq_nil_iff.1 hnil).1]
  · rw [any_append, any_ofRpo_missing, Bool.or_false]

theorem int64_spec (n : Int) :
    -9223372036854775808 ≤ int64 n ∧ int64 n < 9223372036854775808 ∧ ∃ k, n = int64 n + 18446744073709551616 * k := by
  unfold int64 Int.bmod
  dsimp only
  split
  · exact ⟨by omega, by omega, n / 18446744073709551616, by omega⟩
  · exact ⟨by omega, by omega, n / 18446744073709551616 + 1, by omega⟩

/-- The limit is exact as long as a duration can hold it. -/
theorem rpo_exact_iff (m : Int) (hpos : 1 ≤ m) (hmax : m ≤ 2147483647) : RpoExact m ↔ m ≤ 153722867 := by
  obtain ⟨hlow, hhigh, k, hk⟩ := int64_spec (m * minute)
  have hprod : m * minute = m * 60000000000 := rfl
  constructor
  · intro h
    by_contra hlarge
    -- a limit that has wrapped around is exceeded by an age of one nanosecond more
    have hwrap := h ⟨0, [], some m, [], .unknown, [], none⟩ (some ⟨0, []⟩) (int64 (m * minute) + 1) rfl
    rw [reportsRpo_some rfl] at hwrap
    dsimp only at hwrap
    have hage : m * minute < int64 (m * minute) + 1 - 0 := hwrap.1 (by unfold sub; omega) _ rfl
    omega
  · intro hsmall c last now hm
    have hlimit : int64 (m * minute) = m * minute := by omega
    cases last with
    | none => exact ⟨fun _ r hr => (by cases hr), fun _ => rfl⟩
    | some r =>
      rw [reportsRpo_some hm, hlimit]
      have hsub : m * minute < sub now r.createdAt ↔ m * minute < now - r.createdAt := by
        unfold sub
        omega
      rw [hsub]
      exact ⟨fun h r' hr => by cases hr; exact h, fun h => h r rfl⟩

theorem rpo_exact_iff_hourly : RpoExact 60 ↔ (60 : Int) ≤ 153722867 := rpo_exact_iff 60 (by decide) (by decide)

/-- A recovery point of this moment is too old for a limit of 153722868 minutes. -/
theorem rpo_limit_wraps : evaluateContract ⟨0, [], some 153722868, [], .unknown, [], none⟩ (some ⟨0, []⟩) 0 =
      (.violated, [.rpo 0 (-9223371993709551616)]) := by decide

/-- SetContractState; no row is changed if the contract is gone. -/
def setContractState (now : Int) (id : Nat) (state : ContractState) (reasons : List Reason)
    (t : Table Contract.applicationID) : Table Contract.applicationID :=
  t.update (·.applicationID == id) (fun c => {c with
      state := state
      reasons := reasons
      violatedSince := if state = .violated then some (c.violatedSince.getD now) else none}) fun _ => rfl

/-- UpsertContract; a contract that is there keeps its state. -/
def upsertContract (id : Nat) (name : Text) (spec : ContractSpec) (t : Table Contract.applicationID) :
    Table Contract.applicationID :=
  let required := uniqueSorted spec.requiredComponents
  (t.insert ⟨id, name, spec.maxRpoMinutes, required, .unknown, [], none⟩).update (·.applicationID == id)
    (fun c => {c with maxRpoMinutes := spec.maxRpoMinutes, requiredComponents := required}) fun _ => rfl

/-- The transaction of PutContract; without a spec the contract is removed. -/
def putContract (id : Nat) (name : Text) (spec : Option ContractSpec) (t : Table Contract.applicationID) :
    Table Contract.applicationID :=
  match spec with
  | none => t.delete (·.applicationID == id)
  | some spec => if spec.maxRpoMinutes.any (· ≤ 0) then t else upsertContract id name spec t

/-- A SetContractState that took effect: the state it found, if there was a contract, and the one it
left. -/
structure Store where
  applicationID : Nat
  before : Option ContractState
  after : ContractState
  deriving DecidableEq

def Store.crosses (c : Store) : Bool := c.before.any fun b => (b == .violated) != (c.after == .violated)

def Store.changed (c : Store) : Bool := c.before.any (· != c.after)

structure Alert where
  (number applicationID : Nat)
  critical : Bool
  (state previous : ContractState)
  reasons : List Reason
  deriving DecidableEq

/-- Where a run of EvaluateContracts is. -/
inductive Phase
  | reading (rows : List Contract)
  | storing (row : Contract) (state : ContractState) (reasons : List Reason) (rest : List Contract)
  | alerting (row : Contract) (number : Nat) (c : Store) (reasons : List Reason) (rest : List Contract)
  deriving DecidableEq

/-- A run of EvaluateContracts: its clock, and the rows that are left. -/
structure Evaluator where
  now : Int
  phase : Phase
  deriving DecidableEq

def Evaluator.due (v : Evaluator) : Option (Nat × Store) :=
  match v.phase with
  | .alerting _ n c _ _ => some (n, c)
  | _ => none

structure State where
  contracts : Table Contract.applicationID
  evaluators : Nat → Option Evaluator
  stores : List Store
  alerts : List Alert

def State.new (contracts : Table Contract.applicationID) : State := ⟨contracts, fun _ => none, [], []⟩

/-- One statement of a run, an edit or a crash. -/
inductive Event
  | put (id : Nat) (name : Text) (spec : Option ContractSpec)
  | list (k : Nat) (now : Int)
  | read (k : Nat) (last : Option (Option RecoveryPoint))
  | store (k : Nat) (answer : Answer) (now : Int)
  | alert (k : Nat) (answer : Answer)
  | crash (k : Nat)
  deriving DecidableEq

def State.setEvaluator (s : State) (k : Nat) (v : Option Evaluator) : State :=
  {s with evaluators := Function.update s.evaluators k v}

def listContracts (t : Table Contract.applicationID) : List Contract :=
  t.rows.insertionSort fun a b => a.applicationName ≤ b.applicationName

/-- A contract whose recovery point cannot be read is left for the next run. -/
def readNext (v : Evaluator) (last : Option (Option RecoveryPoint)) : Option Evaluator :=
  match v.phase with
  | .reading [] => none
  | .reading (row :: rest) =>
    match last with
    | none => some {v with phase := .reading rest}
    | some last =>
      some {v with phase := .storing row (evaluateContract row last v.now).1 (evaluateContract row last v.now).2 rest}
  | _ => some v

def storeOf (s : State) (row : Contract) (state : ContractState) : Store :=
  ⟨row.applicationID, (s.contracts.find row.applicationID).map (·.state), state⟩

/-- SetContractState, and whether an alert is due. -/
def storeState (s : State) (k : Nat) (v : Evaluator) (answer : Answer) (now : Int) : State :=
  match v.phase with
  | .storing row state reasons rest =>
    let next : Phase := if answer = .ok ∧ state ≠ row.state
      then .alerting row s.stores.length (storeOf s row state) reasons rest else .reading rest
    let s' := if answer.applied then
      {s with
        contracts := setContractState now row.applicationID state reasons s.contracts
        stores := s.stores ++ [storeOf s row state]}
      else s
    s'.setEvaluator k (some {v with phase := next})
  | _ => s

def alertOf (row : Contract) (number : Nat) (c : Store) (reasons : List Reason) : Alert :=
  ⟨number, c.applicationID, c.after != .satisfied, c.after, row.state, reasons⟩

/-- The alert's transaction. -/
def sendAlert (s : State) (k : Nat) (v : Evaluator) (answer : Answer) : State :=
  match v.phase with
  | .alerting row n c reasons rest =>
    let s' := if answer.applied then {s with alerts := s.alerts ++ [alertOf row n c reasons]} else s
    s'.setEvaluator k (some {v with phase := .reading rest})
  | _ => s

def step (s : State) : Event → State
  | .put id name spec => {s with contracts := putContract id name spec s.contracts}
  | .list k now =>
    if s.evaluators k = none then s.setEvaluator k (some ⟨now, .reading (listContracts s.contracts)⟩) else s
  | .read k last =>
    match s.evaluators k with
    | some v => s.setEvaluator k (readNext v last)
    | none => s
  | .store k answer now =>
    match s.evaluators k with
    | some v => storeState s k v answer now
    | none => s
  | .alert k answer =>
    match s.evaluators k with
    | some v => sendAlert s k v answer
    | none => s
  | .crash k => s.setEvaluator k none

/-- What is stored and alerted, and for each run the store that it is still to alert. -/
structure Ledger where
  stores : List Store
  alerts : List Alert
  due : Nat → Option (Nat × Store)

def State.ledger (s : State) : Ledger := ⟨s.stores, s.alerts, fun k => (s.evaluators k).bind Evaluator.due⟩

/-- What an event adds to the history of stores and alerts. -/
inductive Entry
  | nothing
  | store (k : Nat) (c : Store) (asked : Bool)
  | alert (k : Nat) (a : Alert)
  | drop (k : Nat)
  deriving DecidableEq

def storeEntry (s : State) (k : Nat) (v : Evaluator) (answer : Answer) : Entry :=
  match v.phase with
  | .storing row state _ _ =>
    if answer.applied then .store k (storeOf s row state) (decide (answer = .ok ∧ state ≠ row.state)) else .nothing
  | _ => .nothing

def alertEntry (k : Nat) (v : Evaluator) (answer : Answer) : Entry :=
  match v.phase with
  | .alerting row n c reasons _ => if answer.applied then .alert k (alertOf row n c reasons) else .drop k
  | _ => .nothing

def entry (s : State) : Event → Entry
  | .store k answer _ =>
    match s.evaluators k with
    | some v => storeEntry s k v answer
    | none => .nothing
  | .alert k answer =>
    match s.evaluators k with
    | some v => alertEntry k v answer
    | none => .nothing
  | .crash k => .drop k
  | _ => .nothing

namespace Ledger
variable (L : Ledger)

def post : Entry → Ledger
  | .nothing => L
  | .store k c asked =>
    ⟨L.stores ++ [c], L.alerts, Function.update L.due k (if asked then some (L.stores.length, c) else none)⟩
  | .alert k a => ⟨L.stores, L.alerts ++ [a], Function.update L.due k none⟩
  | .drop k => ⟨L.stores, L.alerts, Function.update L.due k none⟩

/-- An alert for this store is due. -/
def Pending (n : Nat) : Prop := ∃ k c, L.due k = some (n, c)

/-- Each crossing has exactly one alert, as soon as the run that has stored it is past it; and each
alert is for a store by which the contract's state became the one it names. -/
structure AlertsMatch : Prop where
  one : ∀ n c, L.stores[n]? = some c → c.crosses = true → (L.alerts.filter (·.number == n)).length = 1 ∨ L.Pending n
  stored : ∀ a ∈ L.alerts, ∃ c, L.stores[a.number]? = some c ∧ c.applicationID = a.applicationID ∧
    c.after = a.state ∧ c.changed = true

/-- No alert is lost and none is too many: a store that crosses is to be alerted, an alert is for a
store that has changed the state, and that of a crossing is not dropped. -/
def Fair : Entry → Prop
  | .nothing => True
  | .store _ c asked => c.crosses = true → asked = true
  | .alert k _ => ∀ n c, L.due k = some (n, c) → c.changed = true
  | .drop k => ∀ n c, L.due k = some (n, c) → c.crosses = false

/-- A run stores when it has nothing to alert, and alerts what it has to. -/
def Allowed : Entry → Prop
  | .store k _ _ => L.due k = none
  | .alert k a => ∃ n c, L.due k = some (n, c) ∧ a.number = n ∧ a.applicationID = c.applicationID ∧ a.state = c.after
  | _ => True

/-- Every alert belongs to a store, and what is due has one owner. -/
structure Inv : Prop where
  numbers : ∀ a ∈ L.alerts, a.number < L.stores.length
  due : ∀ k n c, L.due k = some (n, c) → L.stores[n]? = some c ∧ ∀ a ∈ L.alerts, a.number ≠ n
  own : ∀ k k' n c c', L.due k = some (n, c) → L.due k' = some (n, c') → k = k'

variable {L} {x : Entry}

variable {n k j : Nat} {c : Store}

theorem lt_of_stores (h : L.stores[n]? = some c) : n < L.stores.length :=
  (List.getElem?_eq_some_iff.1 h).1

theorem stores_append {d : Store} (h : (L.stores ++ [d])[n]? = some c) :
    L.stores[n]? = some c ∨ n = L.stores.length ∧ c = d := by
  by_cases hn : n < L.stores.length
  · rw [getElem?_append_left hn] at h
    exact .inl h
  have hlt := (List.getElem?_eq_some_iff.1 h).1
  rw [length_append, length_singleton] at hlt
  have hn : n = L.stores.length := by omega
  subst hn
  rw [getElem?_append_right (Nat.le_refl _), Nat.sub_self] at h
  exact .inr ⟨rfl, (Option.some.inj h).symm⟩

theorem filter_number_eq_nil (h : ∀ a ∈ L.alerts, a.number ≠ n) : L.alerts.filter (·.number == n) = [] := by
  apply filter_eq_nil_iff.2
  intro a ha hn
  exact h a ha (beq_iff_eq.1 hn)

theorem due_post (h : (L.post x).due k = some (n, c)) :
    L.due k = some (n, c) ∨ ∃ asked, x = .store k c asked ∧ asked = true ∧ n = L.stores.length := by
  cases x with
  | nothing => exact .inl h
  | store j d asked =>
    rcases update_some h with ⟨rfl, hset⟩ | ⟨-, hold⟩
    · cases asked with
      | false => cases hset
      | true =>
        cases hset
        exact .inr ⟨true, rfl, rfl, rfl⟩
    · exact .inl hold
  | alert j a => exact .inl (update_none_some h).2
  | drop j => exact .inl (update_none_some h).2

theorem inv_store {d : Store} {asked : Bool} (hi : Inv L) : Inv (L.post (.store j d asked)) := by
  have hfresh : ∀ k n c, L.due k = some (n, c) → n ≠ L.stores.length :=
    fun k n c h => Nat.ne_of_lt (lt_of_stores (hi.due k n c h).1)
  constructor
  · intro a ha
    show a.number < (L.stores ++ [d]).length
    rw [length_append]
    exact Nat.lt_add_right _ (hi.numbers a ha)
  · intro k n c h
    rcases due_post h with h | ⟨_, hx, -, rfl⟩
    · refine ⟨?_, (hi.due k n c h).2⟩
      show (L.stores ++ [d])[n]? = some c
      rw [getElem?_append_left (lt_of_stores (hi.due k n c h).1)]
      exact (hi.due k n c h).1
    cases hx
    refine ⟨?_, fun a ha => Nat.ne_of_lt (hi.numbers a ha)⟩
    show (L.stores ++ [d])[L.stores.length]? = some d
    simp
  · intro k k' n c c' h h'
    rcases due_post h with h | ⟨_, hx, -, rfl⟩
    · rcases due_post h' with h' | ⟨_, -, -, rfl⟩
      · exact hi.own k k' n c c' h h'
      · exact absurd rfl (hfresh k _ c h)
    rcases due_post h' with h' | ⟨_, hx', -, -⟩
    · exact absurd rfl (hfresh k' _ c' h')
    cases hx
    cases hx'
    rfl

theorem inv_alert {a : Alert} (hi : Inv L) (hdue : L.due j = some (a.number, c)) : Inv (L.post (.alert j a)) := by
  constructor
  · intro b hb
    rcases mem_append.1 hb with hb | hb
    · exact hi.numbers b hb
    · rw [mem_singleton.1 hb]
      exact lt_of_stores (hi.due j _ c hdue).1
  · intro k n c' h
    obtain ⟨hk, hold⟩ := update_none_some h
    refine ⟨(hi.due k n c' hold).1, fun b hb => ?_⟩
    rcases mem_append.1 hb with hb | hb
    · exact (hi.due k n c' hold).2 b hb
    rw [mem_singleton.1 hb]
    intro hn
    exact hk (hi.own k j n c' c hold (hn ▸ hdue))
  · intro k k' n c c' h h'
    exact hi.own k k' n c c' (update_none_some h).2 (update_none_some h').2

theorem inv_drop (hi : Inv L) : Inv (L.post (.drop j)) := by
  constructor
  · exact hi.numbers
  · intro k n c h
    exact hi.due k n c (update_none_some h).2
  · intro k k' n c c' h h'
    exact hi.own k k' n c c' (update_none_some h).2 (update_none_some h').2

theorem inv_post (hi : Inv L) (hx : L.Allowed x) : Inv (L.post x) := by
  cases x with
  | nothing => exact hi
  | store j d asked => exact inv_store hi
  | alert j a =>
    obtain ⟨n, c, hdue, rfl, -, -⟩ := hx
    exact inv_alert hi hdue
  | drop j => exact inv_drop hi

theorem pending_update {o : Option (Nat × Store)} {ss : List Store}
    {as : List Alert} (hk : k ≠ j) (h : L.due k = some (n, c)) :
    Ledger.Pending ⟨ss, as, Function.update L.due j o⟩ n := by
  refine ⟨k, c, ?_⟩
  show Function.update L.due j o k = some (n, c)
  rw [Function.update_of_ne hk]
  exact h

theorem match_store {asked : Bool} (hi : Inv L) (hfree : L.due k = none) (hm : L.AlertsMatch) :
    (L.post (.store k c asked)).AlertsMatch ↔ (c.crosses = true → asked = true) := by
  have hnone :=
    filter_number_eq_nil fun a ha => Nat.ne_of_lt (hi.numbers a ha)
  constructor
  · intro h hcross
    rcases h.one L.stores.length c (by simp [post]) hcross with hone | ⟨k', c', hdue⟩
    · rw [show (L.post (.store k c asked)).alerts = L.alerts from rfl, hnone] at hone
      cases hone
    rcases due_post hdue with hdue | ⟨_, hx, htrue, -⟩
    · exact absurd (lt_of_stores (hi.due k' _ c' hdue).1) (Nat.lt_irrefl _)
    · cases hx
      exact htrue
  · intro hasked
    constructor
    · intro n d hd hcross
      rcases stores_append hd with hd | ⟨rfl, rfl⟩
      · rcases hm.one n d hd hcross with hone | ⟨k', c', hdue⟩
        · exact .inl hone
        have hk : k' ≠ k := by
          rintro rfl
          rw [hfree] at hdue
          cases hdue
        exact .inr (pending_update hk hdue)
      right
      refine ⟨k, d, ?_⟩
      show Function.update L.due k (if asked then some (L.stores.length, d) else none) k = _
      rw [Function.update_self, if_pos (hasked hcross)]
    · intro a ha
      obtain ⟨d, hd, hrest⟩ := hm.stored a ha
      refine ⟨d, ?_, hrest⟩
      show (L.stores ++ [c])[a.number]? = some d
      rw [getElem?_append_left (lt_of_stores hd)]
      exact hd

theorem match_alert {a : Alert} (hi : Inv L) (hdue : L.due k = some (a.number, c))
    (happ : a.applicationID = c.applicationID) (hstate : a.state = c.after) (hm : L.AlertsMatch) :
    (L.post (.alert k a)).AlertsMatch ↔ c.changed = true := by
  obtain ⟨hstore, hnone⟩ := hi.due k a.number c hdue
  constructor
  · intro h
    obtain ⟨d, hd, -, -, hchanged⟩ := h.stored a (mem_append_right _ mem_cons_self)
    have hsame := Option.some.inj (hd.symm.trans hstore)
    rw [← hsame]
    exact hchanged
  · intro hchanged
    constructor
    · intro n d hd hcross
      show ((L.alerts ++ [a]).filter (·.number == n)).length = 1 ∨ _
      by_cases hn : a.number = n
      · left
        subst hn
        rw [filter_append, filter_number_eq_nil hnone]
        simp
      rcases hm.one n d hd hcross with hone | ⟨k', c', hdue'⟩
      · left
        rw [filter_append]
        simpa [hn] using hone
      have hk : k' ≠ k := by
        rintro rfl
        exact hn (Prod.mk.inj (Option.some.inj (hdue.symm.trans hdue'))).1
      exact .inr (pending_update hk hdue')
    · intro b hb
      rcases mem_append.1 hb with hb | hb
      · exact hm.stored b hb
      · rw [mem_singleton.1 hb]
        exact ⟨c, hstore, happ.symm, hstate.symm, hchanged⟩

theorem match_drop (hi : Inv L) (hm : L.AlertsMatch) :
    (L.post (.drop k)).AlertsMatch ↔ ∀ n c, L.due k = some (n, c) → c.crosses = false := by
  constructor
  · intro h n c hdue
    obtain ⟨hstore, hnone⟩ := hi.due k n c hdue
    by_contra hcross
    rcases h.one n c hstore (Bool.eq_true_of_not_eq_false hcross) with hone | ⟨k', c', hdue'⟩
    · rw [show (L.post (.drop k)).alerts = L.alerts from rfl, filter_number_eq_nil hnone] at hone
      cases hone
    · obtain ⟨hk, hold⟩ := update_none_some hdue'
      exact hk (hi.own k' k n c' c hold hdue)
  · intro hdrop
    constructor
    · intro n d hd hcross
      rcases hm.one n d hd hcross with hone | ⟨k', c', hdue⟩
      · exact .inl hone
      have hk : k' ≠ k := by
        rintro rfl
        have hsame := Option.some.inj ((hi.due k' n c' hdue).1.symm.trans hd)
        rw [← hsame, hdrop n c' hdue] at hcross
        cases hcross
      exact .inr (pending_update hk hdue)
    · exact hm.stored

theorem match_post (hi : Inv L) (hx : L.Allowed x) (hm : L.AlertsMatch) : (L.post x).AlertsMatch ↔ L.Fair x := by
  cases x with
  | nothing => exact ⟨fun _ => trivial, fun _ => hm⟩
  | store k c asked => exact match_store hi hx hm
  | alert k a =>
    obtain ⟨n, c, hdue, rfl, happ, hstate⟩ := hx
    rw [match_alert hi hdue happ hstate hm]
    constructor
    · intro hchanged n c' hdue'
      cases hdue.symm.trans hdue'
      exact hchanged
    · intro hfair
      exact hfair _ c hdue
  | drop k => exact match_drop hi hm

end Ledger

variable {s : State} {k : Nat} {v : Evaluator}

theorem ledger_setEvaluator (s : State) (k : Nat) (o : Option Evaluator) :
    (s.setEvaluator k o).ledger = ⟨s.stores, s.alerts, Function.update s.ledger.due k (o.bind Evaluator.due)⟩ := by
  unfold State.setEvaluator State.ledger
  congr 1
  funext j
  by_cases hj : j = k
  · subst hj
    simp
  · simp [Function.update_of_ne hj]

theorem ledger_same {o : Option Evaluator} (h : o.bind Evaluator.due = (s.evaluators k).bind Evaluator.due) :
    (s.setEvaluator k o).ledger = s.ledger := by
  rw [ledger_setEvaluator, h]
  show (⟨s.stores, s.alerts, Function.update s.ledger.due k (s.ledger.due k)⟩ : Ledger) = s.ledger
  rw [Function.update_eq_self]
  rfl

theorem due_readNext (v : Evaluator) (last : Option (Option RecoveryPoint)) : (readNext v last).bind Evaluator.due = v.due := by
  unfold readNext Evaluator.due
  cases hv : v.phase with
  | reading rows =>
    cases rows with
    | nil => rfl
    | cons row rest => cases last <;> rfl
  | storing row state reasons rest => simp [hv]
  | alerting row n c reasons rest => simp [hv]

theorem ledger_storeState (hv : s.evaluators k = some v) (answer : Answer) (now : Int) :
    (storeState s k v answer now).ledger = s.ledger.post (storeEntry s k v answer) := by
  unfold storeState storeEntry
  cases hp : v.phase with
  | storing row state reasons rest =>
    have hdue : (s.evaluators k).bind Evaluator.due = none := by simp [hv, Evaluator.due, hp]
    cases answer with
    | ok =>
      rw [ledger_setEvaluator]
      by_cases hne : state = row.state
      · simp only [Answer.applied, hne, ne_eq, not_true_eq_false, and_false, if_true, if_false, decide_false]
        rfl
      · simp only [Answer.applied, hne, ne_eq, not_false_eq_true, and_true, if_true, decide_true]
        rfl
    | refused =>
      show (State.setEvaluator s k _).ledger = s.ledger
      exact ledger_same (by simp [hdue, Evaluator.due])
    | lost =>
      show (State.setEvaluator _ k _).ledger = _
      rw [ledger_setEvaluator]
      simp only [Answer.applied, reduceCtorEq, false_and, if_true, if_false, decide_false]
      rfl
  | _ => rfl

theorem ledger_sendAlert (answer : Answer) :
    (sendAlert s k v answer).ledger = s.ledger.post (alertEntry k v answer) := by
  unfold sendAlert alertEntry
  cases hp : v.phase with
  | alerting row n c reasons rest =>
    rw [ledger_setEvaluator]
    cases answer <;> rfl
  | _ => rfl

/-- Each event adds one entry to the history. -/
theorem ledger_step (s : State) (e : Event) : (step s e).ledger = s.ledger.post (entry s e) := by
  cases e with
  | put id name spec => rfl
  | list k now =>
    show (if s.evaluators k = none then _ else s).ledger = s.ledger
    split
    · rename_i hk
      exact ledger_same (by rw [hk]; rfl)
    · rfl
  | read k last =>
    cases hv : s.evaluators k with
    | none => simp [step, hv, entry, Ledger.post]
    | some v =>
      have hstep : step s (.read k last) = s.setEvaluator k (readNext v last) := by simp [step, hv]
      rw [hstep]
      exact ledger_same (by rw [due_readNext, hv]; rfl)
  | store k answer now =>
    cases hv : s.evaluators k with
    | none => simp [step, hv, entry, Ledger.post]
    | some v =>
      have hstep : step s (.store k answer now) = storeState s k v answer now := by simp [step, hv]
      have hentry : entry s (.store k answer now) = storeEntry s k v answer := by simp [entry, hv]
      rw [hstep, hentry, ledger_storeState hv]
  | alert k answer =>
    cases hv : s.evaluators k with
    | none => simp [step, hv, entry, Ledger.post]
    | some v =>
      have hstep : step s (.alert k answer) = sendAlert s k v answer := by simp [step, hv]
      have hentry : entry s (.alert k answer) = alertEntry k v answer := by simp [entry, hv]
      rw [hstep, hentry, ledger_sendAlert]
  | crash k => exact ledger_setEvaluator s k none

theorem allowed_entry (s : State) (e : Event) : s.ledger.Allowed (entry s e) := by
  cases e with
  | store k answer now =>
    cases hv : s.evaluators k with
    | none => simp [entry, hv, Ledger.Allowed]
    | some v =>
      have hdue : s.ledger.due k = v.due := by simp [State.ledger, hv]
      simp only [entry, hv, storeEntry]
      cases hp : v.phase with
      | storing row state reasons rest =>
        show s.ledger.Allowed (if answer.applied then _ else _)
        split
        · show s.ledger.due k = none
          simp [hdue, Evaluator.due, hp]
        · trivial
      | _ => trivial
  | alert k answer =>
    cases hv : s.evaluators k with
    | none => simp [entry, hv, Ledger.Allowed]
    | some v =>
      have hdue : s.ledger.due k = v.due := by simp [State.ledger, hv]
      simp only [entry, hv, alertEntry]
      cases hp : v.phase with
      | alerting row n c reasons rest =>
        show s.ledger.Allowed (if answer.applied then _ else _)
        split
        · exact ⟨n, c, by simp [hdue, Evaluator.due, hp], rfl, rfl, rfl⟩
        · trivial
      | _ => trivial
  | _ => trivial

def Heeded (s : State) (e : Event) : Prop := s.ledger.Fair (entry s e)

/-- In a run from any contracts, each crossing of the stored state has exactly one alert and each
alert a state that was stored, at every moment, if and only if every step is heeded. -/
theorem one_alert_per_transition (contracts : Table Contract.applicationID) (es : List Event) :
    (∀ es₁ es₂, es = es₁ ++ es₂ → (run step (.new contracts) es₁).ledger.AlertsMatch) ↔
      Along step Heeded (.new contracts) es := by
  have hinv : Ledger.Inv (State.new contracts).ledger := by
    constructor
    · intro a ha
      cases ha
    · intro k n c h
      cases h
    · intro k k' n c c' h
      cases h
  have hmatch : (State.new contracts).ledger.AlertsMatch := by
    constructor
    · intro n c h
      simp [State.new, State.ledger] at h
    · intro a ha
      cases ha
  apply prefixes_iff_along (I := fun s : State => s.ledger.Inv) (J := fun s : State => s.ledger.AlertsMatch) hinv hmatch
  · intro s e hi
    rw [ledger_step]
    exact Ledger.inv_post hi (allowed_entry s e)
  · intro s e hi hm
    rw [ledger_step]
    exact Ledger.match_post hi (allowed_entry s e) hm

def satisfied : Table Contract.applicationID :=
  ⟨[⟨1, ['a'], none, [], .satisfied, [], none⟩], by decide⟩

/-- Two runs list the contract; then its recovery points are gone, and both store and alert that it
is violated. -/
def doubled : List Event :=
  [.list 0 0, .list 1 0, .read 0 (some none), .read 1 (some none), .store 0 .ok 0, .store 1 .ok 0,
    .alert 0 .ok, .alert 1 .ok]

/-- Two evaluations read the old state, and both alert. -/
theorem alert_doubled : ¬ ∀ es₁ es₂, doubled = es₁ ++ es₂ → (run step (.new satisfied) es₁).ledger.AlertsMatch := by
  intro hall
  have h := hall doubled [] (append_nil _).symm
  obtain ⟨c, hc, -, -, hchanged⟩ := h.stored ⟨1, 1, true, .violated, .satisfied, [.noRecoveryPoint]⟩ (by decide)
  have hsame : c = ⟨1, some .violated, .violated⟩ := Option.some.inj (hc.symm.trans (by decide))
  rw [hsame] at hchanged
  exact absurd hchanged (by decide)

end Dbr2.Protection.Contracts
