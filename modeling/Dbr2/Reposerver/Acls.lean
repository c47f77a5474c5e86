import Dbr2.Access.Acl
import Dbr2.Lib.Table

/-! The ACLs that Initialize sets up (`DesiredACLs`, `PlanACLs` and `reconcileACLs` in
`internal/reposerver/service.go`).

The plan takes out what the wildcard and the maintenance user should not have, and adds what is
missing. Every command of a run may fail, having done its work, a part of it or nothing. -/
namespace Dbr2.Reposerver
open Lib List
open Access (Entry Acl)
open Backup (Fate)

abbrev Acls := Table Acl.id

def maintUser : String := "maint@dbr2"

def desiredACLs : List Entry :=
  [⟨"*@*", "APPEND", [("type", "content")]⟩, ⟨"*@*", "READ", [("policyType", "global"), ("type", "policy")]⟩,
    ⟨"*@*", "READ", [("hostname", "OWN_HOST"), ("policyType", "host"), ("type", "policy")]⟩,
    ⟨"*@*", "APPEND", [("hostname", "OWN_HOST"), ("type", "snapshot"), ("username", "OWN_USER")]⟩,
    ⟨"*@*", "READ", [("hostname", "OWN_HOST"), ("type", "policy"), ("username", "OWN_USER")]⟩,
    ⟨maintUser, "FULL", [("type", "snapshot")]⟩, ⟨maintUser, "FULL", [("type", "policy")]⟩]

def managed (e : Entry) : Bool := e.user == "*@*" || e.user == maintUser

def planACLs (current : List Acl) : List String × List Entry :=
  ((current.filter fun a => managed a.entry && !desiredACLs.contains a.entry).map Acl.id,
    desiredACLs.filter fun d => !(current.map Acl.entry).contains d)

/-- Kopia's part: an entry gets a new identifier, and the entries that `server acl enable` installs
are the wildcard's. -/
structure Kopia where
  newID : List String → String
  new : ∀ ids, newID ids ∉ ids
  defaults : List Entry
  wildcard : ∀ e ∈ defaults, e.user = "*@*"

/-- How the commands of a run end: what a failing `acl enable` has installed, what a failing
`acl delete` has deleted, and the `acl add` commands. -/
structure AclReplies where
  list : Bool
  enableFails : Option Nat
  relist : Bool
  deleteFails : Option (List String)
  adds : List Fate

/-- No command fails. -/
def AclReplies.ok : AclReplies := ⟨true, none, true, none, []⟩

section Run
variable (k : Kopia)

def addACL (s : Acls) (e : Entry) : Acls := s.insert ⟨k.newID (s.rows.map Acl.id), e⟩

def deleteACLs (s : Acls) (ids : List String) : Acls := s.delete fun a => ids.contains a.id

def applyPlan (s : Acls) : Acls := (planACLs s.rows).2.foldl (addACL k) (deleteACLs s (planACLs s.rows).1)

def addAll : List Fate → List Entry → Acls → Bool × Acls
  | _, [], s => (true, s)
  | fs, e :: es, s =>
    match fs.headD .done with
    | .done => addAll fs.tail es (addACL k s e)
    | .failed performed => (false, if performed then addACL k s e else s)

/-- The entries after `acl enable`, which is only called when there are none. -/
def enabled (r : AclReplies) (s : Acls) : Acls :=
  if s.rows = [] then (k.defaults.take (r.enableFails.getD k.defaults.length)).foldl (addACL k) s else s

def reconcileACLs (r : AclReplies) (s : Acls) : Bool × Acls :=
  if !r.list then (false, s)
  else if s.rows = [] ∧ (r.enableFails.isSome ∨ !r.relist) then (false, enabled k r s)
  else
    let s := enabled k r s
    let (del, add) := planACLs s.rows
    match del, r.deleteFails with
    | _ :: _, some gone => (false, deleteACLs s (del.filter (gone.contains ·)))
    | _, _ => addAll k r.adds add (deleteACLs s del)

end Run

def others (s : Acls) : List Acl := s.rows.filter fun a => !managed a.entry

/-- The wildcard and the maintenance user have the desired entries; nobody else's have changed. -/
structure Reconciled (s s' : Acls) : Prop where
  managed : ∀ e, managed e = true → (e ∈ s'.rows.map Acl.entry ↔ e ∈ desiredACLs)
  others : others s' = others s
  done : planACLs s'.rows = ([], [])

variable {k : Kopia} {s : Acls} {r : AclReplies} {a : Acl} {e : Entry} {es : List Entry} {ids : List String}

theorem managed_desired : ∀ e ∈ desiredACLs, managed e = true := by decide

theorem managed_plan_add : ∀ e ∈ (planACLs s.rows).2, managed e = true := by
  intro e he
  exact managed_desired e (mem_filter.1 he).1

theorem rows_addACL (s : Acls) (e : Entry) : (addACL k s e).rows = s.rows ++ [⟨k.newID (s.rows.map Acl.id), e⟩] := by
  unfold addACL Table.insert
  rw [dif_neg (k.new _)]

theorem entries_foldl_addACL (es : List Entry) (s : Acls) :
    (es.foldl (addACL k) s).rows.map Acl.entry = s.rows.map Acl.entry ++ es := by
  induction es generalizing s with
  | nil => rw [append_nil]; rfl
  | cons e es ih => rw [foldl_cons, ih, rows_addACL, map_append, append_assoc]; rfl

theorem others_addACL (he : managed e = true) : others (addACL k s e) = others s := by
  unfold others
  rw [rows_addACL, filter_append]
  simp [he]

theorem others_foldl_addACL (hes : ∀ e ∈ es, managed e = true) : others (es.foldl (addACL k) s) = others s := by
  induction es generalizing s with
  | nil => rfl
  | cons e es ih =>
    rw [foldl_cons, ih fun x hx => hes x (mem_cons_of_mem _ hx), others_addACL (hes e mem_cons_self)]

theorem mem_plan_del : a.id ∈ (planACLs s.rows).1 ↔
    ∃ b ∈ s.rows, b.id = a.id ∧ managed b.entry = true ∧ b.entry ∉ desiredACLs := by
  simp only [planACLs, mem_map, mem_filter, Bool.and_eq_true, Bool.not_eq_true', contains_eq_mem,
    decide_eq_false_iff_not]
  constructor
  · rintro ⟨b, ⟨hb, hm, hd⟩, hid⟩
    exact ⟨b, hb, hid, hm, hd⟩
  · rintro ⟨b, hb, hid, hm, hd⟩
    exact ⟨b, ⟨hb, hm, hd⟩, hid⟩

theorem mem_plan_del_of_mem (ha : a ∈ s.rows) :
    a.id ∈ (planACLs s.rows).1 ↔ managed a.entry = true ∧ a.entry ∉ desiredACLs := by
  rw [mem_plan_del]
  constructor
  · rintro ⟨b, hb, hid, hrest⟩
    rwa [inj_on_of_nodup_map s.keys hb ha hid] at hrest
  · exact fun h => ⟨a, ha, rfl, h⟩

theorem others_deleteACLs (hids : ∀ id ∈ ids, id ∈ (planACLs s.rows).1) : others (deleteACLs s ids) = others s := by
  unfold others deleteACLs Table.delete
  rw [filter_filter]
  apply List.filter_congr
  intro a ha
  cases hm : managed a.entry with
  | true => rfl
  | false =>
    have hout : a.id ∉ ids := by
      intro hid
      rw [((mem_plan_del_of_mem ha).1 (hids _ hid)).1] at hm
      cases hm
    simp [hout]

theorem planACLs_of_managed (h : ∀ e, managed e = true → (e ∈ s.rows.map Acl.entry ↔ e ∈ desiredACLs)) :
    planACLs s.rows = ([], []) := by
  refine Prod.ext ?_ ?_
  · rw [eq_nil_iff_forall_not_mem]
    intro id hid
    obtain ⟨a, ha, rfl⟩ := mem_map.1 hid
    obtain ⟨hm, hd⟩ := (mem_plan_del_of_mem (mem_filter.1 ha).1).1 hid
    exact hd ((h _ hm).1 (mem_map_of_mem (mem_filter.1 ha).1))
  · rw [eq_nil_iff_forall_not_mem]
    intro e he
    obtain ⟨hd, hno⟩ := mem_filter.1 he
    have hin := (h e (managed_desired e hd)).2 hd
    simp [contains_eq_mem, hin] at hno

theorem applyPlan_reconciled (k : Kopia) (s : Acls) : Reconciled s (applyPlan k s) := by
  have hmanaged : ∀ e, managed e = true → (e ∈ (applyPlan k s).rows.map Acl.entry ↔ e ∈ desiredACLs) := by
    intro e he
    unfold applyPlan
    rw [entries_foldl_addACL, mem_append]
    constructor
    · rintro (h | h)
      · obtain ⟨a, ha, rfl⟩ := mem_map.1 h
        obtain ⟨ha, hid⟩ := mem_filter.1 ha
        by_contra hno
        have hdel := (mem_plan_del_of_mem ha).2 ⟨he, hno⟩
        simp [hdel] at hid
      · exact (mem_filter.1 h).1
    · intro hd
      by_cases hin : e ∈ s.rows.map Acl.entry
      · obtain ⟨a, ha, rfl⟩ := mem_map.1 hin
        have hid : a.id ∉ (planACLs s.rows).1 := fun h => ((mem_plan_del_of_mem ha).1 h).2 hd
        exact .inl (mem_map_of_mem (mem_filter.2 ⟨ha, by simp [hid]⟩))
      · exact .inr (mem_filter.2 ⟨hd, by simp [contains_eq_mem, hin]⟩)
  refine ⟨hmanaged, ?_, planACLs_of_managed hmanaged⟩
  unfold applyPlan
  rw [others_foldl_addACL managed_plan_add, others_deleteACLs fun _ h => h]

/-- Nobody else is touched; without a failure everything is added. -/
theorem addAll_spec (hes : ∀ e ∈ es, managed e = true) (fs : List Fate) :
    others (addAll k fs es s).2 = others s ∧ ((addAll k fs es s).1 = true → (addAll k fs es s).2 = es.foldl (addACL k) s) := by
  induction es generalizing fs s with
  | nil => exact ⟨rfl, fun _ => rfl⟩
  | cons e es ih =>
    have he := hes e mem_cons_self
    unfold addAll
    cases fs.headD .done with
    | done =>
      obtain ⟨hothers, hall⟩ := ih (s := addACL k s e) (fun x hx => hes x (mem_cons_of_mem _ hx)) fs.tail
      exact ⟨hothers.trans (others_addACL he), hall⟩
    | failed performed =>
      refine ⟨?_, fun h => by cases h⟩
      cases performed with
      | true => exact others_addACL he
      | false => rfl

theorem others_enabled (k : Kopia) (r : AclReplies) (s : Acls) : others (enabled k r s) = others s := by
  unfold enabled
  split
  · apply others_foldl_addACL
    intro e he
    simp [managed, k.wildcard e (mem_of_mem_take he)]
  · rfl

/-- The same for the whole run. -/
theorem reconcileACLs_spec (k : Kopia) (r : AclReplies) (s : Acls) :
    others (reconcileACLs k r s).2 = others s ∧
      ((reconcileACLs k r s).1 = true → (reconcileACLs k r s).2 = applyPlan k (enabled k r s)) := by
  have henabled := others_enabled k r s
  unfold reconcileACLs
  split
  · exact ⟨rfl, fun h => by cases h⟩
  split
  · exact ⟨henabled, fun h => by cases h⟩
  dsimp only
  split
  · refine ⟨?_, fun h => by cases h⟩
    rw [others_deleteACLs fun id hid => (mem_filter.1 hid).1, henabled]
  have hadd := addAll_spec (k := k) (s := deleteACLs (enabled k r s) (planACLs (enabled k r s).rows).1)
    (managed_plan_add (s := enabled k r s)) r.adds
  rw [others_deleteACLs fun _ h => h, henabled] at hadd
  exact hadd

theorem addAll_ok (es : List Entry) (s : Acls) : addAll k [] es s = (true, es.foldl (addACL k) s) := by
  induction es generalizing s with
  | nil => rfl
  | cons e es ih => exact ih _

/-- A run without a failing command succeeds. -/
theorem reconcileACLs_ok (k : Kopia) (s : Acls) : reconcileACLs k .ok s = (true, applyPlan k (enabled k .ok s)) := by
  unfold reconcileACLs
  rw [if_neg (by decide), if_neg (by simp [AclReplies.ok])]
  dsimp only
  split
  next h => cases h
  · exact addAll_ok _ _

/-- The plan leads to the desired set; and so does, after any number of runs that failed wherever they
did, a run that succeeds. -/
theorem reconcileACLs_converges (k : Kopia) (s : Acls) :
    Reconciled s (applyPlan k s) ∧
      ∀ (rs : List AclReplies) (r : AclReplies) (s' : Acls),
        reconcileACLs k r (rs.foldl (fun s r => (reconcileACLs k r s).2) s) = (true, s') → Reconciled s s' := by
  refine ⟨applyPlan_reconciled k s, fun rs r s' h => ?_⟩
  have hrun : others (rs.foldl (fun s r => (reconcileACLs k r s).2) s) = others s := by
    clear h
    induction rs generalizing s with
    | nil => rfl
    | cons r rs ih => rw [foldl_cons, ih, (reconcileACLs_spec k r s).1]
  have hspec := reconcileACLs_spec k r (rs.foldl (fun s r => (reconcileACLs k r s).2) s)
  rw [h] at hspec
  obtain rfl := hspec.2 rfl
  have hplan := applyPlan_reconciled k (enabled k r (rs.foldl (fun s r => (reconcileACLs k r s).2) s))
  exact ⟨hplan.managed, hspec.1.trans hrun, hplan.done⟩

def longerID (ids : List String) : String := String.ofList (List.replicate (ids.foldr (fun s n => max (s.length + 1) n) 0) 'x')

theorem longerID_new (ids : List String) : longerID ids ∉ ids := by
  have hlonger : ∀ s ∈ ids, s.length < ids.foldr (fun s n => max (s.length + 1) n) 0 := by
    induction ids with
    | nil => simp
    | cons x ids ih =>
      intro s hs
      rw [foldr_cons]
      rcases mem_cons.1 hs with rfl | hs
      · omega
      · have := ih s hs
        omega
  intro h
  have := hlonger _ h
  rw [longerID, String.length_ofList, length_replicate] at this
  omega

/-- `server acl enable` gives every user all rights on its own snapshots, policies and user record. -/
def ownDefaults : Kopia where
  newID := longerID
  new := longerID_new
  defaults := [⟨"*@*", "FULL", [("hostname", "OWN_HOST"), ("type", "snapshot"), ("username", "OWN_USER")]⟩,
    ⟨"*@*", "FULL", [("hostname", "OWN_HOST"), ("type", "policy"), ("username", "OWN_USER")]⟩,
    ⟨"*@*", "FULL", [("type", "user"), ("username", "OWN_USER@OWN_HOST")]⟩]
  wildcard := by decide

/-- The first run dies in `acl enable`, the second after two of its `acl add` commands. -/
theorem reconcileACLs_converges_third_run :
    ∃ s', reconcileACLs ownDefaults .ok
        ([{AclReplies.ok with enableFails := some 1}, {AclReplies.ok with adds := [.done, .failed true]}].foldl
          (fun s r => (reconcileACLs ownDefaults r s).2) .empty) = (true, s') ∧ Reconciled .empty s' :=
  ⟨_, reconcileACLs_ok _ _, (reconcileACLs_converges ownDefaults .empty).2 _ _ _ (reconcileACLs_ok _ _)⟩

end Dbr2.Reposerver
