import Dbr2.Lib.Mirror
import Dbr2.Backup.Repository

/-! The ACLs of the repository server (`AddReadGrant`, `DeleteReadGrant` and `refresh` in
`internal/reposerver/service.go`, `GrantRestoreAccess` and `RevokeRestoreAccess` in
`internal/protection/restore_platform.go`).

The entries are stored by one command of Kopia and take effect by another, which makes the running
server load them. A call that finds its work done returns without the second command, although the
call that did the work may have failed before it. And the second command is left out when the
supervisor's probe does not find the server (`internal/reposerver/supervisor.go`), which may be up
all the same: just started, or deaf to the probe for a while. -/
namespace Dbr2.Access
open Lib List
open Backup (Fate agentKopiaUser)

/-- An ACL without its identifier; the target is a map, its keys in order. -/
structure Entry where
  (user access : String)
  target : List (String × String)
  deriving DecidableEq

structure Acl where
  id : String
  entry : Entry
  deriving DecidableEq

def Entry.targetAt (e : Entry) (k : String) : String := (e.target.lookup k).getD ""

def readGrant (user srcUser srcHost : String) : Entry where
  user := user
  access := "READ"
  target := [("hostname", srcHost), ("type", "snapshot"), ("username", srcUser)]

def isReadGrant (e : Entry) : Bool :=
  e.access == "READ" && e.user != "*@*" && !e.user.toList.contains '*' && e.target.length == 3 &&
    e.targetAt "type" == "snapshot" && e.targetAt "username" != "" && e.targetAt "hostname" != "" &&
    e.targetAt "username" != "OWN_USER" && e.targetAt "hostname" != "OWN_HOST"

/-- `alive` says that the process is up, with what it has loaded; `running` is the supervisor's flag. -/
structure Server where
  acls : Mirror Acl String Acl.id
  (alive running : Bool)

namespace Server

def started (l : List Acl) (h : (l.map Acl.id).Nodup) : Server := ⟨.ofStored l h, true, true⟩

def load (s : Server) : Server := {s with acls := s.acls.load}

def refreshLoop (s : Server) : Nat → List Fate → Bool × Server
  | 0, _ => (false, s)
  | _, [] => (false, s)
  | n + 1, f :: fs =>
    let s := if f.performed then s.load else s
    if f = .done then (true, s) else s.refreshLoop n fs

def refresh (s : Server) (fs : List Fate) : Bool × Server :=
  if s.running then s.refreshLoop 3 fs else (true, s)

def addACL (s : Server) (e : Entry) (id : String) : Server :=
  if h : s.acls.Fresh id then {s with acls := s.acls.add ⟨id, e⟩ h} else s

def deleteACL (s : Server) (id : String) : Server := {s with acls := s.acls.delete id}

def find (s : Server) (want : Entry) : String :=
  ((s.acls.stored.find? (·.entry = want)).map Acl.id).getD ""

end Server

inductive GrantError
  | notFound
  | failed
  deriving DecidableEq

/-- How the commands of an AddReadGrant end; `id` is what Kopia calls a new entry. -/
structure AddReplies where
  list : Bool
  add : Fate
  id : String
  relist : Bool
  refresh : List Fate
  deriving DecidableEq

structure DeleteReplies where
  list : Bool
  delete : Fate
  refresh : List Fate
  deriving DecidableEq

namespace Server

def addReadGrant (s : Server) (want : Entry) (r : AddReplies) : Except GrantError String × Server :=
  if r.list = false then (.error .failed, s)
  else if s.find want ≠ "" then (.ok (s.find want), s)
  else
    let s := if r.add.performed then s.addACL want r.id else s
    if r.add ≠ .done ∨ r.relist = false ∨ s.find want = "" then (.error .failed, s)
    else
      let (ok, s') := s.refresh r.refresh
      (if ok then .ok (s.find want) else .error .failed, s')

def deleteReadGrant (s : Server) (id : String) (r : DeleteReplies) : Except GrantError Unit × Server :=
  if r.list = false then (.error .failed, s)
  else if (s.acls.stored.find? (·.id = id)).any (isReadGrant ·.entry) = false then (.error .notFound, s)
  else
    let s := if r.delete.performed then s.deleteACL id else s
    if r.delete ≠ .done then (.error .failed, s)
    else
      let (ok, s) := s.refresh r.refresh
      (if ok then .ok () else .error .failed, s)

def restoreGrant (target source : String) : Entry :=
  readGrant (agentKopiaUser ++ "@" ++ target) agentKopiaUser source

/-- GrantRestoreAccess; `recorded` says whether SetRestoreGrant, and the reply, get through. -/
def grantRestoreAccess (s : Server) (target source : String) (r : AddReplies) (recorded : Bool) :
    Except GrantError String × Server :=
  if source = target then (.error .failed, s)
  else
    match s.addReadGrant (restoreGrant target source) r with
    | (.ok id, s) => (if recorded then .ok id else .error .failed, s)
    | (.error e, s) => (.error e, s)

/-- RevokeRestoreAccess: what is not found is revoked. -/
def revokeRestoreAccess (s : Server) (id : String) (r : DeleteReplies) : Except GrantError Unit × Server :=
  match s.deleteReadGrant id r with
  | (.error .notFound, s) => (.ok (), s)
  | (res, s) => (res, s)

end Server

/-- A retry is one more call. PutUser and DeleteUser refresh too. The process starts and exits, and the probe
sets the flag when it finds it and resets it when it does not, or when the process has exited. -/
inductive AclEvent
  | grant (target source : String) (r : AddReplies) (recorded : Bool)
  | revoke (id : String) (r : DeleteReplies)
  | refresh (fs : List Fate)
  | start
  | exit
  | probe (found : Bool)
  deriving DecidableEq

def Server.step (s : Server) : AclEvent → Server
  | .grant target source r recorded => (s.grantRestoreAccess target source r recorded).2
  | .revoke id r => (s.revokeRestoreAccess id r).2
  | .refresh fs => (s.refresh fs).2
  | .start => {s.load with alive := true}
  | .exit => {s with alive := false}
  | .probe found => {s with running := found}

def Server.Grants (s : Server) (id : String) (e : Entry) : Prop :=
  s.alive = true → ∃ a ∈ s.acls.loaded, a.id = id ∧ a.entry = e

def Server.Denies (s : Server) (id : String) : Prop :=
  s.alive = true → ∀ a ∈ s.acls.loaded, a.id = id → isReadGrant a.entry = false

def Effective (s : Server) : AclEvent → Prop
  | .grant target source r recorded => ∀ id, (s.grantRestoreAccess target source r recorded).1 = .ok id →
      (s.grantRestoreAccess target source r recorded).2.Grants id (Server.restoreGrant target source)
  | .revoke id r => (s.revokeRestoreAccess id r).1 = .ok () → (s.revokeRestoreAccess id r).2.Denies id
  | _ => True

/-- While the process is up, a call that finds nothing to do finds it loaded: the entry was not added since the
process loaded, or it was not deleted since, if it was there. And a call that changes an entry finds the flag
set, unless the entry that it deletes was not loaded. -/
def UpToDate (s : Server) : AclEvent → Prop
  | .grant target source r recorded =>
    source ≠ target ∧ r.list = true ∧ recorded = true ∧ s.alive = true →
      (s.find (Server.restoreGrant target source) ≠ "" →
        s.find (Server.restoreGrant target source) ∉ s.acls.added.map Acl.id) ∧
      (s.find (Server.restoreGrant target source) = "" → r.add = .done → r.relist = true →
        (s.addACL (Server.restoreGrant target source) r.id).find (Server.restoreGrant target source) ≠ "" →
        s.running = true)
  | .revoke id r =>
    r.list = true ∧ s.alive = true →
      (id ∉ s.acls.stored.map Acl.id → id ∈ s.acls.deleted → id ∈ s.acls.added.map Acl.id) ∧
      ((s.acls.stored.find? (·.id = id)).any (isReadGrant ·.entry) = true → r.delete = .done →
        s.running = false → id ∈ s.acls.added.map Acl.id)
  | _ => True

namespace Server
variable {s : Server} {want : Entry} {id : String}

theorem find_ne_empty (h : s.find want ≠ "") : ∃ a ∈ s.acls.stored, a.id = s.find want ∧ a.entry = want := by
  unfold find at h ⊢
  cases hf : s.acls.stored.find? (·.entry = want) with
  | none =>
    rw [hf] at h
    exact absurd rfl h
  | some a => exact ⟨a, mem_of_find?_eq_some hf, rfl, by simpa using find?_some hf⟩

theorem refreshLoop_spec (n : Nat) : ∀ (s : Server) (fs : List Fate), (s.refreshLoop n fs).2.alive = s.alive ∧
      (s.refreshLoop n fs).2.acls.stored = s.acls.stored ∧
      ((s.refreshLoop n fs).1 = true → (s.refreshLoop n fs).2.acls.loaded = s.acls.stored) := by
  induction n with
  | zero =>
    intro s fs
    exact ⟨rfl, rfl, fun h => by cases h⟩
  | succ n ih =>
    intro s fs
    cases fs with
    | nil => exact ⟨rfl, rfl, fun h => by cases h⟩
    | cons f fs =>
      cases f with
      | done => exact ⟨rfl, rfl, fun _ => rfl⟩
      | failed performed =>
        cases performed with
        | true => exact ih s.load fs
        | false => exact ih s fs

theorem refresh_alive (fs : List Fate) : (s.refresh fs).2.alive = s.alive := by
  unfold refresh
  split
  · exact (refreshLoop_spec 3 s fs).1
  · rfl

theorem refresh_loaded {fs : List Fate} (h : (s.refresh fs).1 = true) (hr : s.running = true) :
    (s.refresh fs).2.acls.loaded = s.acls.stored := by
  unfold refresh at h ⊢
  rw [if_pos hr] at h ⊢
  exact (refreshLoop_spec 3 s fs).2.2 h

theorem refresh_skipped (fs : List Fate) (hr : s.running = false) : s.refresh fs = (true, s) := by
  unfold refresh
  rw [if_neg (by rw [hr]; exact Bool.false_ne_true)]

theorem addACL_keeps (e : Entry) (id : String) : (s.addACL e id).running = s.running ∧
    (s.addACL e id).alive = s.alive ∧ (s.addACL e id).acls.loaded = s.acls.loaded := by
  unfold addACL
  split <;> exact ⟨rfl, rfl, rfl⟩

/-- An entry that was not listed before is not loaded. -/
theorem added_not_loaded (hnone : s.find want = "") (h : (s.addACL want id).find want ≠ "") :
    ∀ a ∈ s.acls.loaded, a.id ≠ (s.addACL want id).find want := by
  by_cases hfresh : s.acls.Fresh id
  · have hstored : (s.addACL want id).acls.stored = s.acls.stored ++ [⟨id, want⟩] := by
      unfold addACL
      rw [dif_pos hfresh]
      rfl
    unfold find at hnone h ⊢
    rw [hstored, find?_append] at h ⊢
    cases hf : s.acls.stored.find? (·.entry = want) with
    | some c =>
      rw [hf] at h hnone
      exact absurd hnone h
    | none =>
      rintro a ha haid
      refine hfresh (mem_map.2 ⟨a, mem_append_left _ ha, haid.trans ?_⟩)
      simp
  · unfold addACL at h
    rw [dif_neg hfresh] at h
    exact absurd hnone h

theorem mem_deleteACL {a : Acl} (h : a ∈ (s.deleteACL id).acls.stored) : a.id ≠ id := by
  simpa using (mem_filter.1 h).2

theorem addReadGrant_ok {r : AddReplies} (hid : (s.addReadGrant want r).1 = .ok id) : r.list = true ∧
    (s.find want ≠ "" ∧ s.addReadGrant want r = (.ok (s.find want), s) ∨
      s.find want = "" ∧ r.add = .done ∧ r.relist = true ∧ (s.addACL want r.id).find want ≠ "" ∧
        id = (s.addACL want r.id).find want ∧ ((s.addACL want r.id).refresh r.refresh).1 = true ∧
        (s.addReadGrant want r).2 = ((s.addACL want r.id).refresh r.refresh).2) := by
  unfold addReadGrant at hid ⊢
  by_cases hlist : r.list = false
  · rw [if_pos hlist] at hid
    cases hid
  rw [if_neg hlist] at hid ⊢
  refine ⟨by simpa using hlist, ?_⟩
  by_cases hfind : s.find want ≠ ""
  · rw [if_pos hfind]
    exact .inl ⟨hfind, rfl⟩
  rw [if_neg hfind] at hid ⊢
  refine .inr ⟨not_not.1 hfind, ?_⟩
  by_cases hadd : r.add = .done
  · rw [hadd, Fate.performed, if_pos rfl] at hid ⊢
    by_cases hbad : r.relist = false ∨ (s.addACL want r.id).find want = ""
    · simp only [ne_eq, not_true_eq_false, false_or, if_pos hbad] at hid
      cases hid
    · simp only [ne_eq, not_true_eq_false, false_or, if_neg hbad] at hid ⊢
      rw [not_or] at hbad
      split at hid
      · rename_i hok
        exact ⟨trivial, by simpa using hbad.1, hbad.2, (Except.ok.inj hid).symm, hok, trivial⟩
      · cases hid
  · simp only [if_pos (Or.inl hadd : r.add ≠ .done ∨ _)] at hid
    cases hid

/-- A new entry is loaded if and only if the server was told to refresh. -/
theorem grants_added (fs : List Fate) (hnone : s.find want = "") (hfind : (s.addACL want id).find want ≠ "")
    (hok : ((s.addACL want id).refresh fs).1 = true) :
    ((s.addACL want id).refresh fs).2.Grants ((s.addACL want id).find want) want ↔
      (s.alive = true → s.running = true) := by
  obtain ⟨hrunning, halive, hloaded⟩ := s.addACL_keeps want id
  unfold Grants
  rw [refresh_alive, halive]
  refine imp_congr_right fun _ => ?_
  cases hr : s.running with
  | true =>
    rw [refresh_loaded hok (hrunning.trans hr)]
    exact iff_of_true (find_ne_empty hfind) rfl
  | false =>
    rw [refresh_skipped fs (hrunning.trans hr)]
    refine iff_of_false ?_ Bool.false_ne_true
    rintro ⟨a, ha, haid, -⟩
    exact added_not_loaded hnone hfind a (hloaded ▸ ha) haid

theorem deleteReadGrant_cases (s : Server) (id : String) (r : DeleteReplies) :
    s.deleteReadGrant id r = (.error .notFound, s) ∧ r.list = true ∧
        (s.acls.stored.find? (·.id = id)).any (isReadGrant ·.entry) = false ∨
      (s.deleteReadGrant id r).1 ≠ .error .notFound ∧
        ((r.list = true → (s.acls.stored.find? (·.id = id)).any (isReadGrant ·.entry) = true)) ∧
        ((s.deleteReadGrant id r).1 = .ok () ↔ r.list = true ∧ r.delete = .done ∧
          ((s.deleteACL id).refresh r.refresh).1 = true) ∧
        (r.delete = .done → r.list = true → (s.deleteReadGrant id r).2 = ((s.deleteACL id).refresh r.refresh).2) := by
  unfold deleteReadGrant
  by_cases hlist : r.list = false
  · rw [if_pos hlist]
    simp [hlist]
  rw [if_neg hlist]
  have hlist : r.list = true := by simpa using hlist
  by_cases hnone : (s.acls.stored.find? (·.id = id)).any (isReadGrant ·.entry) = false
  · rw [if_pos hnone]
    exact .inl ⟨rfl, hlist, hnone⟩
  rw [if_neg hnone]
  have hgrant := by simpa only [Bool.not_eq_false] using hnone
  refine .inr ?_
  by_cases hdel : r.delete = .done
  · simp only [hdel, Fate.performed, if_true, ne_eq, not_true_eq_false, if_false]
    cases hok : ((s.deleteACL id).refresh r.refresh).1 <;> simp [hlist, hgrant]
  · rw [if_pos hdel]
    simp [hdel, hgrant]

/-- A deleted grant that was loaded still is, unless the server was told to refresh. -/
theorem denies_deleted {fs : List Fate} (hgrant : (s.acls.stored.find? (·.id = id)).any (isReadGrant ·.entry) = true)
    (hok : ((s.deleteACL id).refresh fs).1 = true) :
    ((s.deleteACL id).refresh fs).2.Denies id ↔
      (s.alive = true → s.running = false → id ∈ s.acls.added.map Acl.id) := by
  unfold Denies
  rw [refresh_alive]
  refine imp_congr_right fun _ => ?_
  cases hr : s.running with
  | true =>
    rw [refresh_loaded (s := s.deleteACL id) hok hr]
    exact iff_of_true (fun a ha hid => absurd hid (mem_deleteACL ha)) fun h => by cases h
  | false =>
    rw [refresh_skipped (s := s.deleteACL id) fs hr, forall_prop_of_true rfl]
    obtain ⟨a, hf, hread⟩ := (Option.any_eq_true _ _).1 hgrant
    have ha := mem_of_find?_eq_some hf
    obtain rfl : a.id = id := by simpa using find?_some hf
    have hloaded := s.acls.mem_loaded_iff ha
    constructor
    · intro h
      by_contra hadd
      have hdenied := h a (hloaded.2 hadd) rfl
      rw [hread] at hdenied
      cases hdenied
    · intro hadd b hb hid
      obtain rfl := s.acls.eq_of_key ha hb hid.symm
      exact absurd hadd (hloaded.1 hb)

theorem grants_found (h : s.find want ≠ "") :
    s.Grants (s.find want) want ↔ (s.alive = true → s.find want ∉ s.acls.added.map Acl.id) := by
  obtain ⟨a, ha, hid, hentry⟩ := find_ne_empty h
  rw [← hid]
  apply imp_congr_right
  intro _
  rw [← s.acls.mem_loaded_iff ha]
  constructor
  · rintro ⟨b, hb, hbid, -⟩
    rw [s.acls.eq_of_key ha hb hbid.symm]
    exact hb
  · intro hl
    exact ⟨a, hl, rfl, hentry⟩

theorem denies_stored (h : (s.acls.stored.find? (·.id = id)).any (isReadGrant ·.entry) = false)
    (hs : id ∈ s.acls.stored.map Acl.id) : s.Denies id := by
  obtain ⟨a, ha, rfl⟩ := mem_map.1 hs
  intro _ b hb hbid
  obtain rfl := s.acls.eq_of_key ha hb hbid.symm
  cases hf : s.acls.stored.find? (·.id = a.id) with
  | none => exact absurd (find?_eq_none.1 hf a ha) (by simp)
  | some c =>
    have hc := mem_of_find?_eq_some hf
    have hcid : c.id = a.id := by simpa using find?_some hf
    obtain rfl := s.acls.eq_of_key hc hb hcid
    simpa [hf] using h

def OnlyGrants (s : Server) : Prop :=
  ∀ a ∈ s.acls.loaded, a.id ∈ s.acls.deleted → isReadGrant a.entry = true

theorem denies_absent (hg : s.OnlyGrants) (h : id ∉ s.acls.stored.map Acl.id) :
    s.Denies id ↔ (s.alive = true → id ∈ s.acls.deleted → id ∈ s.acls.added.map Acl.id) := by
  apply imp_congr_right
  intro _
  have hl := s.acls.mem_loaded_keys_iff h
  constructor
  · intro hdenies hdel
    by_contra hadd
    obtain ⟨a, ha, rfl⟩ := mem_map.1 (hl.2 ⟨hdel, hadd⟩)
    have hgrant := hg a ha hdel
    rw [hdenies a ha rfl] at hgrant
    cases hgrant
  · rintro hadd a ha rfl
    have hout := hl.1 (mem_map_of_mem ha)
    exact absurd (hadd hout.1) hout.2

theorem OnlyGrants.load (s : Server) : s.load.OnlyGrants := fun _ _ h => absurd h not_mem_nil

theorem OnlyGrants.refreshLoop (n : Nat) : ∀ {s : Server} (fs : List Fate), s.OnlyGrants →
    (s.refreshLoop n fs).2.OnlyGrants := by
  induction n with
  | zero =>
    intro s fs h
    exact h
  | succ n ih =>
    intro s fs h
    cases fs with
    | nil => exact h
    | cons f fs =>
      cases f with
      | done => exact OnlyGrants.load s
      | failed performed =>
        cases performed with
        | true => exact ih fs (OnlyGrants.load s)
        | false => exact ih fs h

theorem OnlyGrants.refresh (h : s.OnlyGrants) (fs : List Fate) : (s.refresh fs).2.OnlyGrants := by
  unfold Server.refresh
  split
  · exact h.refreshLoop 3 fs
  · exact h

theorem OnlyGrants.addACL (h : s.OnlyGrants) (e : Entry) (id : String) : (s.addACL e id).OnlyGrants := by
  unfold Server.addACL
  split
  · exact h
  · exact h

theorem OnlyGrants.deleteACL (h : s.OnlyGrants)
    (hid : (s.acls.stored.find? (·.id = id)).any (isReadGrant ·.entry) = true) :
    (s.deleteACL id).OnlyGrants := by
  obtain ⟨a, hf, hgrant⟩ := (Option.any_eq_true _ _).1 hid
  have ha := mem_of_find?_eq_some hf
  have haid : a.id = id := by simpa using find?_some hf
  intro b hb hdel
  change b.id ∈ if id ∈ s.acls.stored.map Acl.id then id :: s.acls.deleted else s.acls.deleted at hdel
  rw [if_pos (mem_map.2 ⟨a, ha, haid⟩)] at hdel
  rcases mem_cons.1 hdel with hbid | hdel
  · obtain rfl := s.acls.eq_of_key ha hb (haid.trans hbid.symm)
    exact hgrant
  · exact h b hb hdel

theorem OnlyGrants.addReadGrant (h : s.OnlyGrants) (want : Entry) (r : AddReplies) :
    (s.addReadGrant want r).2.OnlyGrants := by
  have hadd : (if r.add.performed then s.addACL want r.id else s).OnlyGrants := by
    split
    · exact h.addACL want r.id
    · exact h
  unfold Server.addReadGrant
  split
  · exact h
  split
  · exact h
  generalize (if r.add.performed then s.addACL want r.id else s) = t at hadd ⊢
  dsimp only
  split
  · exact hadd
  · exact hadd.refresh r.refresh

theorem OnlyGrants.deleteReadGrant (h : s.OnlyGrants) (id : String) (r : DeleteReplies) :
    (s.deleteReadGrant id r).2.OnlyGrants := by
  unfold Server.deleteReadGrant
  split
  · exact h
  split
  · exact h
  rename_i hgrant
  have hdel : (if r.delete.performed then s.deleteACL id else s).OnlyGrants := by
    split
    · exact h.deleteACL (by simpa using hgrant)
    · exact h
  generalize (if r.delete.performed then s.deleteACL id else s) = t at hdel ⊢
  split
  · exact hdel
  · exact hdel.refresh r.refresh

theorem grantRestoreAccess_snd (s : Server) (target source : String) (r : AddReplies) (recorded : Bool) :
    (s.grantRestoreAccess target source r recorded).2 =
      if source = target then s else (s.addReadGrant (restoreGrant target source) r).2 := by
  unfold grantRestoreAccess
  split
  · rfl
  · split <;> simp_all

theorem revokeRestoreAccess_snd (s : Server) (id : String) (r : DeleteReplies) :
    (s.revokeRestoreAccess id r).2 = (s.deleteReadGrant id r).2 := by
  unfold revokeRestoreAccess
  split <;> simp_all

theorem OnlyGrants.step (h : s.OnlyGrants) (e : AclEvent) : (s.step e).OnlyGrants := by
  cases e with
  | grant target source r recorded =>
    show (s.grantRestoreAccess target source r recorded).2.OnlyGrants
    rw [grantRestoreAccess_snd]
    split
    · exact h
    · exact h.addReadGrant _ r
  | revoke id r =>
    show (s.revokeRestoreAccess id r).2.OnlyGrants
    rw [revokeRestoreAccess_snd]
    exact h.deleteReadGrant id r
  | refresh fs => exact h.refresh fs
  | start => exact OnlyGrants.load s
  | exit => exact h
  | probe found => exact h

theorem grant_effective_iff (s : Server) (target source : String) (r : AddReplies) (recorded : Bool) :
    Effective s (.grant target source r recorded) ↔ UpToDate s (.grant target source r recorded) := by
  simp only [Effective, UpToDate]
  generalize hw : restoreGrant target source = want
  by_cases hself : source = target
  · simp [grantRestoreAccess, hself]
  have hsnd : (s.grantRestoreAccess target source r recorded).2 = (s.addReadGrant want r).2 := by
    rw [grantRestoreAccess_snd, if_neg hself, hw]
  have hfst : ∀ id, (s.grantRestoreAccess target source r recorded).1 = .ok id ↔
      recorded = true ∧ (s.addReadGrant want r).1 = .ok id := by
    intro id
    unfold grantRestoreAccess
    rw [if_neg hself, hw]
    cases s.addReadGrant want r with
    | mk res t =>
      cases res with
      | ok id' => cases recorded <;> simp
      | error e => simp
  simp only [hsnd, hfst]
  constructor
  · rintro h ⟨-, hlist, hrec, halive⟩
    constructor
    · intro hfind
      have hearly : s.addReadGrant want r = (.ok (s.find want), s) := by
        unfold Server.addReadGrant
        rw [if_neg (by simp [hlist]), if_pos hfind]
      have hgrants := h (s.find want) ⟨hrec, by rw [hearly]⟩
      rw [hearly] at hgrants
      exact (grants_found hfind).1 hgrants halive
    · intro hnone hadd hrelist hfind
      by_contra hr
      have hskip := refresh_skipped r.refresh ((s.addACL_keeps want r.id).1.trans (by simpa using hr))
      have hlate : s.addReadGrant want r = (.ok ((s.addACL want r.id).find want), s.addACL want r.id) := by
        simp [Server.addReadGrant, hlist, hnone, hadd, hrelist, hfind, Fate.performed, hskip]
      have hgrants := h _ ⟨hrec, by rw [hlate]⟩
      rw [hlate] at hgrants
      have hiff := grants_added r.refresh hnone hfind (by rw [hskip])
      rw [hskip] at hiff
      exact hr (hiff.1 hgrants halive)
  · rintro h id ⟨hrec, hok⟩
    obtain ⟨hlist, ⟨hfind, hearly⟩ | ⟨hnone, hadd, hrelist, hfind, rfl, hrefresh, hpost⟩⟩ := addReadGrant_ok hok
    · rw [hearly] at hok ⊢
      obtain rfl := Except.ok.inj hok
      exact (grants_found hfind).2 fun halive => (h ⟨hself, hlist, hrec, halive⟩).1 hfind
    · rw [hpost]
      exact (grants_added _ hnone hfind hrefresh).2 fun halive =>
        (h ⟨hself, hlist, hrec, halive⟩).2 hnone hadd hrelist hfind

theorem revoke_effective_iff (hg : s.OnlyGrants) (id : String) (r : DeleteReplies) :
    Effective s (.revoke id r) ↔ UpToDate s (.revoke id r) := by
  simp only [Effective, UpToDate]
  rw [revokeRestoreAccess_snd]
  rcases s.deleteReadGrant_cases id r with ⟨hearly, hlist, hnone⟩ | ⟨hfound, hgrant, hok, hpost⟩
  · have hok : (s.revokeRestoreAccess id r).1 = .ok () := by
      unfold revokeRestoreAccess
      rw [hearly]
    rw [hearly, hnone]
    by_cases hs : id ∈ s.acls.stored.map Acl.id
    · exact iff_of_true (fun _ => denies_stored hnone hs) fun _ => ⟨fun h => absurd hs h, nofun⟩
    constructor
    · rintro h ⟨-, halive⟩
      exact ⟨fun _ => (denies_absent hg hs).1 (h hok) halive, nofun⟩
    · intro h _
      exact (denies_absent hg hs).2 fun halive => (h ⟨hlist, halive⟩).1 hs
  have hfst : (s.revokeRestoreAccess id r).1 = (s.deleteReadGrant id r).1 := by
    unfold revokeRestoreAccess
    split <;> simp_all
  rw [hfst, hok]
  constructor
  · rintro h ⟨hlist, halive⟩
    have hread := hgrant hlist
    refine ⟨fun hs => ?_, fun _ hdel hr => ?_⟩
    · obtain ⟨a, hf, -⟩ := (Option.any_eq_true _ _).1 hread
      exact absurd (mem_map.2 ⟨a, mem_of_find?_eq_some hf, by simpa using find?_some hf⟩) hs
    · have hskip := refresh_skipped (s := s.deleteACL id) r.refresh hr
      have hdenies := h ⟨hlist, hdel, by rw [hskip]⟩
      rw [hpost hdel hlist] at hdenies
      exact (denies_deleted hread (by rw [hskip])).1 hdenies halive hr
  · rintro h ⟨hlist, hdel, hrefresh⟩
    rw [hpost hdel hlist]
    exact (denies_deleted (hgrant hlist) hrefresh).2 fun halive hr => (h ⟨hlist, halive⟩).2 (hgrant hlist) hdel hr

end Server

def grantOnce (refresh : Fate) : AclEvent :=
  .grant "b" "a" ⟨true, .done, "g", true, [refresh, refresh, refresh]⟩ true

def revokeOnce (refresh : Fate) : AclEvent := .revoke "g" ⟨true, .done, [refresh, refresh, refresh]⟩

end Dbr2.Access
