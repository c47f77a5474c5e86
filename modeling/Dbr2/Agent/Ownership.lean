import Mathlib.Data.List.Pairwise
import Dbr2.Agent.LeaseSide
import Dbr2.Agent.Delivery

/-! Who owns a quiesced application.

A container that the agent has paused or stopped and not brought back is in an active lease of the
journal, whatever failed and wherever the agent died; an application has one active lease at most;
and every active lease has a timer, or is being resumed. `Owned` is what also a dead agent leaves,
`Live` what its memory adds, `Guarded` what holds whenever nobody else has the lock. -/
namespace Dbr2.Agent
open Lib List

/-- The agent has paused or stopped the container, and not brought it back since. -/
def outstanding (c : String) : List Note → Bool
  | [] => false
  | .held _ x :: log => if x = c then true else outstanding c log
  | .back _ x :: log => if x = c then false else outstanding c log
  | _ :: log => outstanding c log

def Covers (ls : List Lease) (c : String) : Prop :=
  ∃ l ∈ ls, l.active = true ∧ ∃ x ∈ l.preState, x.id = c ∧ x.state = .running

/-- Two leases are two: they are not of one application, both active. -/
def Apart (l l' : Lease) : Prop :=
  l.leaseId ≠ l'.leaseId ∧ ¬ (l.active = true ∧ l'.active = true ∧ l.applicationId = l'.applicationId)

def Halted (st : Option DockerState) : Prop := st ≠ some .running ∧ st ≠ some .restarting

def Settled (l : Lease) (log : List Note) : Prop :=
  ∀ x ∈ l.preState, x.state = .running → outstanding x.id log = false

structure Owned (w : World) : Prop where
  file : ∀ c, outstanding c w.log = true → Covers w.leaseFile c
  halted : ∀ c, outstanding c w.log = true → Halted (w.containers.state c)
  fileApart : w.leaseFile.Pairwise Apart

structure Live (w : World) : Prop extends Owned w where
  up : w.up = true
  memory : ∀ c, outstanding c w.log = true → Covers w.leases c
  apart : w.leases.Pairwise Apart

def World.armed (w : World) (id : String) : Prop := ∃ t ∈ w.timers, t.1 = id

def World.resumes (w : World) (id : String) : Prop := ∃ r, w.resuming = some r ∧ r.leaseId = id

/-- Every active lease but those of `X` is armed or being resumed; and an automatic resume
without errors has settled what it has handled. -/
structure Guarded (X : String → Prop) (w : World) : Prop extends Live w where
  guarded : ∀ l ∈ w.leases, l.active = true → X l.leaseId ∨ w.armed l.leaseId ∨ w.resumes l.leaseId
  progress : ∀ r, w.resuming = some r → r.errs = [] → ∀ l ∈ w.leases, l.leaseId = r.leaseId →
    ∀ x ∈ l.preState, x.state = .running → x ∈ r.todo ∨ outstanding x.id w.log = false

instance : Std.Symm Apart :=
  ⟨fun _ _ h => ⟨h.1.symm, fun ⟨ha, ha', happ⟩ => h.2 ⟨ha', ha, happ.symm⟩⟩⟩

section Leases
variable {ls : List Lease} {l l' : Lease} {id c : String}

theorem mem_eraseLease_iff : l ∈ eraseLease ls id ↔ l ∈ ls ∧ l.leaseId ≠ id := by
  simp [eraseLease]

theorem eq_of_apart (h : ls.Pairwise Apart) (hl : l ∈ ls) (hl' : l' ∈ ls)
    (hid : l.leaseId = l'.leaseId) : l = l' := by
  by_contra hne
  exact (h.forall hl hl' hne).1 hid

theorem apart_erase (h : ls.Pairwise Apart) (id : String) : (eraseLease ls id).Pairwise Apart :=
  h.filter _

theorem apart_put (h : ls.Pairwise Apart) (hl : l ∈ ls) (hid : l'.leaseId = l.leaseId)
    (happ : l'.applicationId = l.applicationId) (ha : l'.active = true → l.active = true) :
    (putLease ls l').Pairwise Apart := by
  refine pairwise_cons.2 ⟨fun x hx => ?_, apart_erase h _⟩
  obtain ⟨hx, hne⟩ := mem_eraseLease_iff.1 hx
  have hlx := h.forall hl hx fun he => hne (by rw [hid, he])
  exact ⟨hne.symm, fun ⟨h1, h2, h3⟩ => hlx.2 ⟨ha h1, h2, happ.symm.trans h3⟩⟩

theorem Covers.mono {ls' : List Lease} (h : Covers ls c) (hs : ∀ l ∈ ls, l ∈ ls') : Covers ls' c := by
  obtain ⟨l, hl, hc⟩ := h
  exact ⟨l, hs l hl, hc⟩

theorem Covers.erase {log : List Note} (h : Covers ls c) (hc : outstanding c log = true)
    (hs : ∀ l ∈ ls, l.leaseId = id → l.active = true → Settled l log) : Covers (eraseLease ls id) c := by
  obtain ⟨l, hl, ha, x, hx, rfl, hr⟩ := h
  refine ⟨l, mem_eraseLease_iff.2 ⟨hl, fun hid => ?_⟩, ha, x, hx, rfl, hr⟩
  rw [hs l hl hid ha x hx hr] at hc
  cases hc

theorem Covers.put (h : Covers ls c) (hap : ls.Pairwise Apart) (hl : l ∈ ls)
    (hid : l'.leaseId = l.leaseId) (hpre : l'.preState = l.preState)
    (ha : l.active = true → l'.active = true) : Covers (putLease ls l') c := by
  obtain ⟨x, hx, hxa, hcx⟩ := h
  by_cases he : x.leaseId = l'.leaseId
  · obtain rfl := eq_of_apart hap hx hl (he.trans hid)
    exact ⟨l', mem_cons_self, ha hxa, by rw [hpre]; exact hcx⟩
  · exact ⟨x, mem_cons_of_mem _ (mem_eraseLease_iff.2 ⟨hx, he⟩), hxa, hcx⟩

end Leases

variable {cs : Containers} {id x : String}

theorem unpause_ne {cs' : Containers} (h : cs.unpause id = .ok cs') (hx : x ≠ id) : cs'.state x = cs.state x := by
  simp only [Containers.unpause, bind, Except.bind] at h
  split at h
  · cases h
  split at h
  · obtain rfl := Except.ok.inj h
    exact Containers.state_setState_ne _ _ hx
  · cases h

theorem start_ne {cs' : Containers} (h : cs.start id = .ok cs') (hx : x ≠ id) : cs'.state x = cs.state x := by
  simp only [Containers.start, bind, Except.bind] at h
  split at h
  · cases h
  split at h
  · obtain rfl := Except.ok.inj h
    exact Containers.state_setState_ne _ _ hx
  · obtain rfl := Except.ok.inj h
    exact Containers.state_setState_ne _ _ hx
  · obtain rfl := Except.ok.inj h
    rfl
  · obtain rfl := Except.ok.inj h
    rfl
  · cases h
  · cases h

theorem bringBack_ne {w : World} (h : w.bringBack id = some (.ok cs))
    (hx : x ≠ id) : cs.state x = w.containers.state x := by
  unfold World.bringBack at h
  split at h
  · cases h
  split at h
  · cases h
  · cases h
  · exact unpause_ne (Option.some.inj h) hx
  · exact start_ne (Option.some.inj h) hx
  · exact start_ne (Option.some.inj h) hx
  · cases h

theorem halted_of_quiet {mode : Option Mode} {st : Option DockerState} (h : quiet mode st = true) :
    Halted st := by
  constructor <;> rintro rfl <;> cases h

theorem not_halted_of_bringBack {w : World} (h : w.bringBack id = none) : ¬ Halted (w.containers.state id) := by
  unfold World.bringBack at h
  split at h
  · cases h
  next c hc =>
  split at h
  · next hst => exact fun hh => hh.1 (by simp [Containers.state, hc, hst])
  · next hst => exact fun hh => hh.2 (by simp [Containers.state, hc, hst])
  all_goals cases h

section Changes
variable {w w' : World} {X : String → Prop}

theorem Owned.congr (h : Owned w) (hlog : ∀ c, outstanding c w'.log = outstanding c w.log)
    (hcs : w'.containers = w.containers) (hfile : w'.leaseFile = w.leaseFile) : Owned w' where
  file c hc := by rw [hfile]; exact h.file c ((hlog c).symm.trans hc)
  halted c hc := by rw [hcs]; exact h.halted c ((hlog c).symm.trans hc)
  fileApart := by rw [hfile]; exact h.fileApart

theorem Live.congr (h : Live w) (hlog : ∀ c, outstanding c w'.log = outstanding c w.log)
    (hcs : w'.containers = w.containers) (hfile : w'.leaseFile = w.leaseFile)
    (hls : w'.leases = w.leases) (hup : w'.up = w.up) : Live w' where
  toOwned := h.toOwned.congr hlog hcs hfile
  up := hup.trans h.up
  memory c hc := by rw [hls]; exact h.memory c ((hlog c).symm.trans hc)
  apart := by rw [hls]; exact h.apart

theorem Live.save (h : Live w) : Live w.saveLeases :=
  ⟨⟨h.memory, h.halted, h.apart⟩, h.up, h.memory, h.apart⟩

theorem Live.put (h : Live w) {l l' : Lease} (hl : l ∈ w.leases) (hid : l'.leaseId = l.leaseId)
    (hpre : l'.preState = l.preState) (happ : l'.applicationId = l.applicationId)
    (ha : l'.active = l.active) : Live {w with leases := putLease w.leases l'} :=
  ⟨h.toOwned.congr (fun _ => rfl) rfl rfl, h.up, fun c hc => (h.memory c hc).put h.apart hl hid hpre ha.trans,
    apart_put h.apart hl hid happ ha.symm.trans⟩

theorem Live.mark (h : Live w) {l : Lease} (hl : l ∈ w.leases) (hs : Settled l w.log) (t : Nat) (ids : List String) :
    Live {w with leases := putLease w.leases {l with autoResumedAt := some t, resumed := ids}} := by
  refine ⟨h.toOwned.congr (fun _ => rfl) rfl rfl, h.up, fun c hc => ?_,
    apart_put h.apart hl rfl rfl fun ha => (by cases ha)⟩
  have hcov : Covers (eraseLease w.leases l.leaseId) c := by
    refine (h.memory c hc).erase hc fun x hx hid _ => ?_
    rwa [eq_of_apart h.apart hx hl hid]
  exact hcov.mono fun x hx => mem_cons_of_mem _ hx

theorem Live.erase (h : Live w) {id : String}
    (hs : ∀ l ∈ w.leases, l.leaseId = id → l.active = true → Settled l w.log) :
    Live (w.deleteLease id) :=
  ⟨h.toOwned.congr (fun _ => rfl) rfl rfl, h.up, fun c hc => (h.memory c hc).erase hc hs, apart_erase h.apart id⟩

variable {c : String}

theorem outstanding_back {x lease : String} {log : List Note}
    (h : outstanding x (.back lease c :: log) = true) : x ≠ c ∧ outstanding x log = true := by
  simp only [outstanding] at h
  split at h
  · cases h
  · next hne => exact ⟨Ne.symm hne, h⟩

theorem Live.back (h : Live w) {cs : Containers} (hb : w.bringBack c = some (.ok cs))
    (lease : String) : Live (w.broughtBack lease c cs) := by
  refine ⟨⟨fun x hx => h.file x (outstanding_back hx).2, fun x hx => ?_, h.fileApart⟩, h.up,
    fun x hx => h.memory x (outstanding_back hx).2, h.apart⟩
  obtain ⟨hne, hx⟩ := outstanding_back hx
  show Halted (cs.state x)
  rw [bringBack_ne hb hne]
  exact h.halted x hx

theorem Live.hold (h : Live w) {m : Mode} {lease : String} {cs : Containers}
    (hc : m.call w.containers c = .ok cs) (hmem : Covers w.leases c) (hfile : Covers w.leaseFile c) :
    Live ({w with containers := cs}.note (.held lease c)) := by
  obtain ⟨hquiet, hne⟩ := call_ok hc
  have hcase {x : String} (hx : outstanding x (.held lease c :: w.log) = true) :
      x = c ∨ x ≠ c ∧ outstanding x w.log = true := by
    simp only [outstanding] at hx
    split at hx
    · next he => exact .inl he.symm
    · next he => exact .inr ⟨Ne.symm he, hx⟩
  refine ⟨⟨fun x hx => ?_, fun x hx => ?_, h.fileApart⟩, h.up, fun x hx => ?_, h.apart⟩
  · rcases hcase hx with rfl | ⟨-, hx⟩
    · exact hfile
    · exact h.file x hx
  · show Halted (cs.state x)
    rcases hcase hx with rfl | ⟨hxc, hx⟩
    · exact halted_of_quiet hquiet
    · rw [hne x hxc]
      exact h.halted x hx
  · rcases hcase hx with rfl | ⟨-, hx⟩
    · exact hmem
    · exact h.memory x hx

theorem restoreOne_spec (h : Live w) (lease : String) (c : ContainerState) (b : Bool) (f : Fault) :
    ((w.restoreOne lease c b f).2 = w ∨ ∃ cs, w.bringBack c.id = some (.ok cs) ∧
      (w.restoreOne lease c b f).2 = w.broughtBack lease c.id cs) ∧
    ∀ v, (w.restoreOne lease c b f).1 = .ok v → c.state = .running →
      outstanding c.id (w.restoreOne lease c b f).2.log = false := by
  unfold World.restoreOne
  split
  · next hst => exact ⟨.inl rfl, fun v _ hr => absurd hr hst⟩
  split
  · exact ⟨.inl rfl, fun v hv => by cases hv⟩
  split
  · next hb =>
    refine ⟨.inl rfl, fun v _ _ => ?_⟩
    cases ho : outstanding c.id w.log with
    | false => rfl
    | true => exact absurd (h.halted c.id ho) (not_halted_of_bringBack hb)
  · exact ⟨.inl rfl, fun v hv => by cases hv⟩
  · next cs hb =>
    split
    · exact ⟨.inr ⟨cs, hb, rfl⟩, fun v _ _ => by simp [World.broughtBack, World.note, outstanding]⟩
    · exact ⟨.inr ⟨cs, hb, rfl⟩, fun v hv => by cases hv⟩
    · exact ⟨.inl rfl, fun v hv => by cases hv⟩

theorem restoreOne_keeps (h : Live w) (lease : String) (c : ContainerState) (b : Bool) (f : Fault) :
    Live (w.restoreOne lease c b f).2 ∧
      ∀ x, outstanding x w.log = false → outstanding x (w.restoreOne lease c b f).2.log = false := by
  rcases (restoreOne_spec h lease c b f).1 with he | ⟨cs, hb, he⟩
  · rw [he]
    exact ⟨h, fun _ hx => hx⟩
  rw [he]
  refine ⟨h.back hb lease, fun x hx => ?_⟩
  cases ho : outstanding x (w.broughtBack lease c.id cs).log with
  | false => rfl
  | true => rw [(outstanding_back ho).2] at hx; cases hx

end Changes

section Timers
variable {w : World} {X : String → Prop}

variable {l : Lease} {r : Resuming}

theorem ne_of_findLease_none {ls : List Lease} {id : String} (h : findLease ls id = none)
    (hl : l ∈ ls) : l.leaseId ≠ id := by
  have := find?_eq_none.1 h l hl
  simpa using this

theorem armed_disarm {id x : String} (h : w.armed x) (hne : x ≠ id) : (w.disarm id).armed x := by
  obtain ⟨t, ht, rfl⟩ := h
  exact ⟨t, mem_filter.2 ⟨ht, by simpa using hne⟩, rfl⟩

theorem armed_arm (w : World) (l : Lease) : (w.arm l).armed l.leaseId :=
  ⟨(l.leaseId, l.expiresAt), mem_cons_self, rfl⟩

theorem armed_arm_of {x : String} (h : w.armed x) : (w.arm l).armed x := by
  by_cases hx : x = l.leaseId
  · rw [hx]
    exact armed_arm w l
  · obtain ⟨t, ht, hid⟩ := armed_disarm h hx
    exact ⟨t, mem_cons_of_mem _ ht, hid⟩

section

variable (h : Guarded X w)
include h

theorem Guarded.imp {Y : String → Prop}
    (hXY : ∀ l ∈ w.leases, l.active = true → X l.leaseId → Y l.leaseId) : Guarded Y w :=
  ⟨h.toLive, fun l hl ha => (h.guarded l hl ha).imp_left (hXY l hl ha), h.progress⟩

theorem Guarded.disarm (hr : w.resuming = none) (id : String) :
    Guarded (fun x => X x ∨ x = id) (w.disarm id) := by
  refine ⟨h.toLive.congr (fun _ => rfl) rfl rfl rfl rfl, fun l hl ha => ?_, fun r hr' => ?_⟩
  · by_cases he : l.leaseId = id
    · exact .inl (.inr he)
    · exact (h.guarded l hl ha).imp .inl (Or.imp_left fun harm => armed_disarm harm he)
  · cases hr.symm.trans hr'

theorem Guarded.begin (hr : w.resuming = none)
    (hl : ∀ x ∈ w.leases, x.leaseId = l.leaseId → x.preState = l.preState) :
    Guarded (fun x => X x ∧ x ≠ l.leaseId) (w.beginResume l) := by
  refine ⟨h.toLive.congr (fun _ => rfl) rfl rfl rfl rfl, fun x hx ha => ?_, fun r hr' _ x hx hid y hy _ => ?_⟩
  · by_cases he : x.leaseId = l.leaseId
    · exact .inr (.inr ⟨_, rfl, he.symm⟩)
    rcases h.guarded x hx ha with hX | harm | ⟨r, hr', -⟩
    · exact .inl ⟨hX, he⟩
    · exact .inr (.inl harm)
    · cases hr.symm.trans hr'
  · obtain rfl := Option.some.inj hr'
    rw [hl x hx hid] at hy
    exact .inl hy

theorem Guarded.fire (hr : w.resuming = none) (id : String) :
    Guarded X ((w.disarm id).expire id) := by
  have hdis := h.disarm hr id
  unfold World.expire
  split
  · next l hl =>
    obtain ⟨hmem, rfl⟩ := findLease_mem hl
    split
    · refine (hdis.begin hr fun x hx hid => ?_).imp fun x _ _ hX => hX.1.resolve_right hX.2
      rw [eq_of_apart h.apart hx hmem hid]
    next ha =>
    refine hdis.imp fun x hx hxa hX => hX.resolve_right fun hid => ?_
    rw [eq_of_apart h.apart hx hmem hid] at hxa
    exact ha hxa
  · next hl => exact hdis.imp fun x hx _ hX => hX.resolve_right (ne_of_findLease_none hl hx)

theorem Guarded.trySave (f : Fault) : Guarded X (w.trySaveLeases f) := by
  cases f with
  | none => exact ⟨h.toLive.save, h.guarded, h.progress⟩
  | fail _ => exact h

theorem Guarded.warn (id : String) (f : Fault) : Guarded X (w.warn id f) := by
  unfold World.warn
  split
  · next l hl =>
    split
    · obtain ⟨hmem, rfl⟩ := findLease_mem hl
      suffices hg : Guarded X {w with leases := putLease w.leases {l with warned := true}} from hg.trySave f
      refine ⟨h.toLive.put hmem rfl rfl rfl rfl, fun x hx ha => ?_, fun r hr he x hx hid => ?_⟩
      · rcases mem_putLease hx with rfl | hx
        · exact h.guarded l hmem ha
        · exact h.guarded x hx ha
      · rcases mem_putLease hx with rfl | hx
        · exact h.progress r hr he l hmem hid
        · exact h.progress r hr he x hx hid
    · exact h
  · exact h

end

theorem restoreOne_frame (w : World) (lease : String) (c : ContainerState) (b : Bool) (f : Fault) :
    (w.restoreOne lease c b f).2.leases = w.leases ∧ (w.restoreOne lease c b f).2.timers = w.timers := by
  rcases w.restoreOne_cases lease c b f with he | ⟨cs, he⟩ <;> rw [he] <;> exact ⟨rfl, rfl⟩

section

variable (h : Guarded X w) (hr : w.resuming = some r)
include h hr

theorem Guarded.resumeStep
    {c : ContainerState} {rest : List ContainerState} (hc : r.todo = c :: rest) (b : Bool) (f : Fault) :
    Guarded X (w.resumeStep r c rest b f) := by
  have hlive := (restoreOne_keeps h.toLive r.leaseId c b f).1
  have hmono := (restoreOne_keeps h.toLive r.leaseId c b f).2
  have hspec := (restoreOne_spec h.toLive r.leaseId c b f).2
  obtain ⟨hls, hts⟩ := restoreOne_frame w r.leaseId c b f
  -- whatever the outcome: the same lease is being resumed
  have hnext (w' : World) (r' : Resuming) (hw : w' = (w.restoreOne r.leaseId c b f).2)
      (hid : r'.leaseId = r.leaseId) (htodo : r'.todo = rest)
      (herr : r'.errs = [] → r.errs = [] ∧ ∃ v, (w.restoreOne r.leaseId c b f).1 = .ok v) :
      Guarded X {w' with resuming := some r'} := by
    subst hw
    refine ⟨hlive.congr (fun _ => rfl) rfl rfl rfl rfl, fun l hl ha => ?_, fun r'' hr'' he l hl hid' x hx hrun => ?_⟩
    · refine (h.guarded l (hls ▸ hl) ha).imp_right (Or.imp ?_ ?_)
      · rintro ⟨t, ht, hid''⟩
        exact ⟨t, hts.symm ▸ ht, hid''⟩
      · rintro ⟨x, hx, hid''⟩
        obtain rfl := Option.some.inj (hr.symm.trans hx)
        exact ⟨r', rfl, hid.trans hid''⟩
    · obtain rfl := Option.some.inj hr''
      obtain ⟨he', v, hv⟩ := herr he
      rcases h.progress r hr he' l (hls ▸ hl) (hid'.trans hid) x hx hrun with hm | ho
      · rw [hc] at hm
        rcases mem_cons.1 hm with rfl | hm
        · exact .inr (hspec v hv hrun)
        · exact .inl (htodo.symm ▸ hm)
      · exact .inr (hmono x.id ho)
  unfold World.resumeStep
  split
  · next w' he => exact hnext w' _ (by rw [he]) rfl rfl fun hn => ⟨hn, true, by rw [he]⟩
  · next w' he => exact hnext w' _ (by rw [he]) rfl rfl fun hn => ⟨hn, false, by rw [he]⟩
  · next e w' he => exact hnext w' _ (by rw [he]) rfl rfl fun hn => absurd hn (by simp)

theorem Guarded.release (hl : l ∈ w.leases) (ha : l.active = true) (hne : l.leaseId ≠ r.leaseId) :
    X l.leaseId ∨ (w.release r.leaseId).armed l.leaseId := by
  rcases h.guarded l hl ha with hX | harm | ⟨x, hx, hid⟩
  · exact .inl hX
  · obtain ⟨t, ht, hid⟩ := armed_disarm harm hne
    exact .inr ⟨t, ht, hid⟩
  · cases (hr.symm.trans hx)
    exact absurd hid.symm hne

theorem Guarded.endResume (htodo : r.todo = []) (f : Fault) : Guarded X (w.endResume r f) := by
  unfold World.endResume
  split
  · next l herr hl =>
    obtain ⟨hmem, hid⟩ := findLease_mem hl
    have hset : Settled l w.log := fun x hx hrun => by
      rcases h.progress r hr herr l hmem hid x hx hrun with hm | ho
      · rw [htodo] at hm
        cases hm
      · exact ho
    suffices hg : Guarded X ((w.release r.leaseId).markAutoResumed l r.resumed) from hg.trySave f
    refine ⟨(h.toLive.mark hmem hset w.now r.resumed).congr (fun _ => rfl) rfl rfl rfl rfl,
      fun x hx ha => ?_, fun r' hr' => (by cases hr')⟩
    rcases mem_cons.1 hx with rfl | hx
    · cases ha
    · obtain ⟨hx, hne⟩ := mem_eraseLease_iff.1 hx
      exact (h.release hr hx ha (hid ▸ hne)).imp_right .inl
  · next herr hl =>
    exact ⟨h.toLive.congr (fun _ => rfl) rfl rfl rfl rfl, fun x hx ha =>
      (h.release hr hx ha (ne_of_findLease_none hl hx)).imp_right .inl, fun r' hr' => (by cases hr')⟩
  · refine ⟨h.toLive.congr (fun _ => rfl) rfl rfl rfl rfl, fun x hx ha => ?_, fun r' hr' => (by cases hr')⟩
    by_cases hne : x.leaseId = r.leaseId
    · exact .inr (.inl ⟨_, mem_cons_self, hne.symm⟩)
    · refine (h.release hr hx ha hne).imp_right fun ⟨t, ht, hid⟩ => .inl ⟨t, mem_cons_of_mem _ ht, hid⟩

end

theorem Guarded.timerStep (h : Guarded X w) (e : TimerEvent) : Guarded X (w.timerStep e) := by
  unfold World.timerStep
  split
  · exact h
  split
  · next hr =>
    split
    · exact h.fire hr _
    · exact h
  · exact h.warn _ _
  · next hr =>
    split
    · next hc => exact h.resumeStep hr hc _ _
    · exact h
  · next hr =>
    split
    · next htodo => exact h.endResume hr htodo _
    · exact h
  · exact h

end Timers

section Programs
variable {X : String → Prop} {w w' : World} {E : Err → World → Prop}

/-- The two worlds have the same leases, and the same to say of every container. -/
structure Alike (w w' : World) : Prop where
  log : ∀ c, outstanding c w'.log = outstanding c w.log
  containers : w'.containers = w.containers
  leaseFile : w'.leaseFile = w.leaseFile
  leases : w'.leases = w.leases
  up : w'.up = w.up
  timers : w'.timers = w.timers
  resuming : w'.resuming = w.resuming

theorem Guarded.congr (h : Guarded X w) (e : Alike w w') : Guarded X w' where
  toLive := h.toLive.congr e.log e.containers e.leaseFile e.leases e.up
  guarded l hl ha := by
    refine (h.guarded l (e.leases ▸ hl) ha).imp_right (Or.imp ?_ ?_)
    · rintro ⟨t, hmem, hid⟩
      exact ⟨t, e.timers ▸ hmem, hid⟩
    · rintro ⟨r, hres, hid⟩
      exact ⟨r, e.resuming.trans hres, hid⟩
  progress r hres he l hl hid x hx hrun := by
    rw [e.log]
    exact h.progress r (e.resuming.symm.trans hres) he l (e.leases ▸ hl) hid x hx hrun

theorem Guarded.delete (h : Guarded X w) (hr : w.resuming = none) {id : String}
    (hs : ∀ l ∈ w.leases, l.leaseId = id → l.active = true → Settled l w.log) :
    Guarded (fun x => X x ∧ x ≠ id) (w.deleteLease id) := by
  refine ⟨h.toLive.erase hs, fun l hl ha => ?_, fun r hr' => (by cases hr.symm.trans hr')⟩
  obtain ⟨hl, hne⟩ := mem_eraseLease_iff.1 hl
  exact (h.guarded l hl ha).imp_left fun hX => ⟨hX, hne⟩

theorem Guarded.arm (h : Guarded X w) (hr : w.resuming = none) (l : Lease) :
    Guarded (fun x => X x ∧ x ≠ l.leaseId) (w.arm l) := by
  refine ⟨h.toLive.congr (fun _ => rfl) rfl rfl rfl rfl, fun x hx ha => ?_, fun r hr' => (by cases hr.symm.trans hr')⟩
  by_cases he : x.leaseId = l.leaseId
  · exact .inr (.inl (he ▸ armed_arm w l))
  · exact (h.guarded x hx ha).imp (fun hX => ⟨hX, he⟩) (Or.imp_left armed_arm_of)

structure Locked (X : String → Prop) (w : World) : Prop extends Guarded X w where
  idle : w.resuming = none

theorem Locked.congr (h : Locked X w) (e : Alike w w') : Locked X w' :=
  ⟨h.toGuarded.congr e, e.resuming.trans h.idle⟩

theorem Locked.saving : Saving (Locked X) where
  tick _ _ h := h.congr ⟨fun _ => rfl, rfl, rfl, rfl, rfl, rfl, rfl⟩
  save _ h := ⟨⟨h.toLive.save, h.guarded, h.progress⟩, h.idle⟩

theorem Locked.back (h : Locked X w) {c : String} {cs : Containers}
    (hb : w.bringBack c = some (.ok cs)) (lease : String) : Locked X (w.broughtBack lease c cs) :=
  ⟨⟨h.toLive.back hb lease, h.guarded, fun r hr => (by cases h.idle.symm.trans hr)⟩, h.idle⟩

theorem Guarded.resumeRest (h : Guarded X w) (cs : List ContainerState) : Guarded X (w.resumeRest cs) := by
  induction cs generalizing w with
  | nil => exact h.timerStep _
  | cons c cs ih => exact ih (h.timerStep _)

theorem Guarded.foldl_timerStep (h : Guarded X w) (es : List TimerEvent) :
    Guarded X (es.foldl World.timerStep w) := by
  induction es generalizing w with
  | nil => exact h
  | cons e es ih => exact ih (h.timerStep e)

theorem Guarded.drain (h : Guarded X w) (d : Draw) : Locked X (d.before w).drain := by
  have ht : Guarded X (w.tick d.wait) := h.congr ⟨fun _ => rfl, rfl, rfl, rfl, rfl, rfl, rfl⟩
  have hb := ht.foldl_timerStep d.timers
  refine ⟨?_, World.drain_resuming hb.up⟩
  unfold World.drain
  split
  · exact hb
  · exact hb.resumeRest _

theorem lock_guarded : Triple (Guarded X) lock (fun _ => Locked X) E Owned :=
  Triple.prim fun d _ h =>
    have hd := h.drain d
    Draw.meets_ends hd hd.toOwned

structure Restoring (J : World → Prop) : Prop where
  live : ∀ w, J w → Live w
  tick : ∀ w d, J w → J (w.tick d)
  back : ∀ w lease c cs, J w → w.bringBack c = some (.ok cs) → J (w.broughtBack lease c cs)

variable {J : World → Prop}

theorem Restoring.and (hJ : Restoring J) (c : String) : Restoring fun w => J w ∧ outstanding c w.log = false where
  live w h := hJ.live w h.1
  tick w d h := ⟨hJ.tick w d h.1, h.2⟩
  back w lease x cs h hb := by
    refine ⟨hJ.back w lease x cs h.1 hb, ?_⟩
    cases ho : outstanding c (w.broughtBack lease x cs).log with
    | false => rfl
    | true => rw [(outstanding_back ho).2] at h; cases h.2

theorem restoreStep_settles (hJ : Restoring J) (lease : String) (c : ContainerState) :
    Triple J (restoreStep lease c) (fun r w => J w ∧ ∀ v, r = .ok v → c.state = .running →
      outstanding c.id w.log = false) E Owned := by
  refine .prim fun d w h => ?_
  have h := hJ.tick w d.wait h
  have hspec := restoreOne_spec (hJ.live _ h) lease c d.inspectFails d.fault
  have hj : J ((w.tick d.wait).restoreOne lease c d.inspectFails d.fault).2 := by
    rcases hspec.1 with he | ⟨cs, hb, he⟩
    · rw [he]
      exact h
    · rw [he]
      exact hJ.back _ lease c.id cs h hb
  exact Draw.meets_ends ⟨hj, hspec.2⟩ (hJ.live _ hj).toOwned

theorem restoreLease_settles (hJ : Restoring J) (lease : String) (cs : List ContainerState) :
    Triple J (restoreLease lease cs) (fun p w => J w ∧ (p.2 = [] → ∀ x ∈ cs, x.state = .running →
      outstanding x.id w.log = false)) E Owned := by
  induction cs generalizing J with
  | nil => exact .pure fun _ h => ⟨h, fun _ x hx => by cases hx⟩
  | cons c cs ih =>
    refine (restoreStep_settles hJ lease c).bind fun r => ?_
    cases r with
    | error e =>
      refine ((ih hJ).pre fun _ h => h.1).bind fun p => Triple.pure fun _ h => ⟨h.1, fun hn => ?_⟩
      cases hn
    | ok v =>
      by_cases hrun : c.state = .running
      · refine ((ih (hJ.and c.id)).pre fun _ h => ⟨h.1, h.2 v rfl hrun⟩).bind fun p => ?_
        have hend (w : World) (h : (J w ∧ outstanding c.id w.log = false) ∧ (p.2 = [] → ∀ x ∈ cs,
            x.state = .running → outstanding x.id w.log = false)) : J w ∧ (p.2 = [] → ∀ x ∈ c :: cs,
            x.state = .running → outstanding x.id w.log = false) :=
          ⟨h.1.1, fun hn => forall_mem_cons.2 ⟨fun _ => h.1.2, h.2 hn⟩⟩
        cases v <;> exact .pure hend
      refine ((ih hJ).pre fun _ h => h.1).bind fun p => ?_
      have hend (w : World) (h : J w ∧ (p.2 = [] → ∀ x ∈ cs, x.state = .running →
          outstanding x.id w.log = false)) : J w ∧ (p.2 = [] → ∀ x ∈ c :: cs,
          x.state = .running → outstanding x.id w.log = false) :=
        ⟨h.1, fun hn => forall_mem_cons.2 ⟨fun hr => absurd hr hrun, h.2 hn⟩⟩
      cases v <;> exact .pure hend

theorem restore_settles (hJ : Restoring J) (l : Lease) :
    Triple J (restore l) (fun p w => J w ∧ (p.2 = [] → Settled l w.log)) E Owned := by
  refine .bind (Q := fun _ => J) ?_ fun r => ?_
  · refine .attempt (Q := fun _ => J) (E := fun _ => J) (.prim fun d w h => ?_)
      (fun _ _ h => h) fun _ _ h => h
    have h := hJ.tick w d.wait h
    simp only
    split <;> exact Draw.meets_ends h (hJ.live _ h).toOwned
  · cases r with
    | error e => exact .pure fun _ h => ⟨h, fun hn => by cases hn⟩
    | ok _ => exact restoreLease_settles hJ l.leaseId l.preState

end Programs

end Dbr2.Agent
