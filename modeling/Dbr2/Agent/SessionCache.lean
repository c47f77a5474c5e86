import Dbr2.Lib.Run

/-! The cache of repository sessions (`openRepo`, `release`, `invalidate`, `closeAll` and
`configureRepository` in `internal/agent/repository.go`), for one repository.

A call connects outside the lock: it loads connection.json, writes the server and the identity to kopia.config
and opens the session with what it reads back from there and with its own password (`ConnectServer` in
`internal/engine/kopia/kopia.go`). There is one kopia.config for all calls. -/
namespace Dbr2.Agent.SessionCache
open Lib List

/-- A session, with the versions of the connection that it has its server and its password of. -/
structure Session where
  (server password refs : Nat)
  stale : Bool

/-- The older of the two. -/
@[grind] def Session.version (s : Session) : Nat := min s.server s.password

/-- How far a call of openRepo is. The first stage is that of a configureRepository that has written
connection.json; `reading` has written kopia.config, and `opened` has a session that is not in the cache yet. One
that fails takes no step any more. -/
inductive Stage
  | written
  | looking
  | loading
  | connecting (version : Nat)
  | reading (version : Nat)
  | opened
  | done
  deriving DecidableEq

structure Call where
  since : Nat
  wrote : Nat
  stage : Stage

/-- `file` is the version of connection.json, `config` that of kopia.config, `flushed` the last one for which the cache was emptied,
`confirmed` the last one for which configureRepository has succeeded, and `yields` has for each session
that was handed out the version confirmed before and its own. A session is named by its call. -/
structure Cache where
  (file config : Nat)
  cached : Option Nat
  sessions : Nat → Session
  calls : Nat → Option Call
  handles : List Nat
  closes : List Nat
  flushed : Nat
  confirmed : Nat
  yields : List (Nat × Nat)

/-- A `dedicated` session is opened past the cache (`repoSession`): it writes a version loaded before. -/
inductive Event
  | openRepo (k : Nat)
  | configure (k : Nat)
  | advance (k : Nat)
  | release (s : Nat)
  | invalidate
  | dedicated (version : Nat)

namespace Cache

def empty : Cache := ⟨0, 0, none, fun _ => ⟨0, 0, 0, false⟩, fun _ => none, [], [], 0, 0, []⟩

def setCall (w : Cache) (k : Nat) (c : Call) : Cache := {w with calls := Function.update w.calls k (some c)}

def setSession (w : Cache) (k : Nat) (s : Session) : Cache := {w with sessions := Function.update w.sessions k s}

def invalidate (w : Cache) : Cache :=
  match w.cached with
  | none => w
  | some e =>
    {w.setSession e {w.sessions e with stale := true} with
      cached := none, closes := if (w.sessions e).refs = 0 then e :: w.closes else w.closes}

def take (w : Cache) (c : Call) (e : Nat) : Cache :=
  {w.setSession e {w.sessions e with refs := (w.sessions e).refs + 1} with
    handles := e :: w.handles
    yields := (c.since, (w.sessions e).version) :: w.yields
    confirmed := max w.confirmed c.wrote}

def release (w : Cache) (s : Nat) : Cache :=
  if s ∈ w.handles then
    {w.setSession s {w.sessions s with refs := (w.sessions s).refs - 1} with
      handles := w.handles.erase s
      closes := if (w.sessions s).stale ∧ (w.sessions s).refs = 1 then s :: w.closes else w.closes}
  else w

def advance (w : Cache) (k : Nat) (c : Call) : Cache :=
  match c.stage with
  | .written => {w.invalidate with flushed := max w.flushed c.wrote}.setCall k {c with stage := .looking}
  | .looking =>
    match w.cached with
    | some e => (w.setCall k {c with stage := .done}).take c e
    | none => w.setCall k {c with stage := .loading}
  | .loading => w.setCall k {c with stage := if w.file = 0 then .done else .connecting w.file}
  | .connecting v => {w with config := v}.setCall k {c with stage := .reading v}
  | .reading v => (w.setSession k ⟨w.config, v, 0, false⟩).setCall k {c with stage := .opened}
  | .opened =>
    match w.cached with
    | some e => {w.setCall k {c with stage := .done} with closes := k :: w.closes}.take c e
    | none => {w.setCall k {c with stage := .done} with cached := some k}.take c k
  | .done => w

def step (w : Cache) : Event → Cache
  | .openRepo k => if (w.calls k).isSome then w else w.setCall k ⟨w.confirmed, 0, .looking⟩
  | .configure k =>
    if (w.calls k).isSome then w
    else {w with file := w.file + 1}.setCall k ⟨w.confirmed, w.file + 1, .written⟩
  | .advance k =>
    match w.calls k with
    | some c => w.advance k c
    | none => w
  | .release s => w.release s
  | .invalidate => w.invalidate
  | .dedicated v => if v ≤ w.file then {w with config := v} else w

/-- A session is closed once at most, never while a handle is out, and when it is invalidated and all its
handles are released; and it is never older than what was confirmed before it was asked for. -/
structure Good (w : Cache) : Prop where
  once : w.closes.Nodup
  unused : ∀ s ∈ w.closes, s ∉ w.handles
  closed : ∀ s, (w.sessions s).stale = true → s ∉ w.handles → s ∈ w.closes
  fresh : ∀ y ∈ w.yields, y.1 ≤ y.2

/-- A session is entered only if connection.json is the one that its server and its password are of. -/
def Careful (w : Cache) (ev : Event) : Prop :=
  ∀ k c, ev = .advance k → w.calls k = some c → c.stage = .opened → w.cached = none → (w.sessions k).version = w.file

def Unused (w : Cache) (k : Nat) : Prop :=
  w.cached ≠ some k ∧ (w.sessions k).stale = false ∧ k ∉ w.closes ∧ k ∉ w.handles

def Pending (w : Cache) (k : Nat) : Prop := ∀ c, w.calls k = some c → c.stage ≠ .done

structure Inv (w : Cache) : Prop where
  once : w.closes.Nodup
  unused : ∀ s ∈ w.closes, s ∉ w.handles
  closed : ∀ s, (w.sessions s).stale = true → s ∉ w.handles → s ∈ w.closes
  fresh : ∀ y ∈ w.yields, y.1 ≤ y.2
  refs : ∀ s, (w.sessions s).refs = w.handles.count s
  cached : ∀ e, w.cached = some e →
    (w.sessions e).stale = false ∧ e ∉ w.closes ∧ w.flushed ≤ (w.sessions e).version
  pending : ∀ k, w.Pending k → w.Unused k
  flushed : w.confirmed ≤ w.flushed ∧ w.flushed ≤ w.file
  calls : ∀ k c, w.calls k = some c →
    c.since ≤ w.confirmed ∧ c.wrote ≤ w.file ∧ (c.stage ≠ .written → c.wrote ≤ w.flushed)

variable {w : Cache} {k e : Nat} {c c' : Call}

theorem Inv.setCall (h : Inv w) (hk : w.Pending k) (hsince : c.since ≤ w.confirmed) (hfile : c.wrote ≤ w.file)
    (hwrote : c.stage ≠ .written → c.wrote ≤ w.flushed) : Inv (w.setCall k c) := by
  refine ⟨h.once, h.unused, h.closed, h.fresh, h.refs, h.cached, fun k' hk' => h.pending k' ?_, h.flushed, ?_⟩
  · by_cases hkk : k' = k
    · exact hkk ▸ hk
    · exact fun c hc => hk' c ((Function.update_of_ne hkk _ _).trans hc)
  · intro k' c' hc'
    rcases update_some hc' with ⟨-, hc'⟩ | ⟨-, hc'⟩
    · exact Option.some.inj hc' ▸ ⟨hsince, hfile, hwrote⟩
    · exact h.calls k' c' hc'

theorem pending_setCall_ne {k' : Nat} (hc : c.stage = .done) (h : (w.setCall k c).Pending k') : k' ≠ k := by
  rintro rfl
  exact h c (Function.update_self ..) hc

theorem Inv.invalidate (h : Inv w) : Inv w.invalidate := by
  unfold Cache.invalidate
  split
  · exact h
  rename_i e he
  obtain ⟨hstale, hcl, -⟩ := h.cached e he
  have hrefs : (w.sessions e).refs = 0 ↔ e ∉ w.handles := by rw [h.refs]; exact count_eq_zero
  unfold Cache.setSession
  refine ⟨?_, ?_, ?_, h.fresh, ?_, nofun, fun k hk => ?_, h.flushed, h.calls⟩
  · grind [h.once]
  · grind [h.unused]
  · grind [h.closed]
  · grind [h.refs]
  · obtain ⟨hc, hs, hcl, hh⟩ := h.pending k hk
    have hne : k ≠ e := fun hke => hc (hke ▸ he)
    exact ⟨nofun, by grind, by grind, hh⟩

theorem Inv.take (h : Inv w) (he : w.cached = some e) (hsince : c.since ≤ w.confirmed) (hwrote : c.wrote ≤ w.flushed) :
    Inv (w.take c e) := by
  obtain ⟨hstale, hcl, hver⟩ := h.cached e he
  unfold Cache.take Cache.setSession
  refine ⟨h.once, ?_, ?_, fun y hy => ?_, ?_, ?_, fun k hk => ?_, ⟨Nat.max_le.2 ⟨h.flushed.1, hwrote⟩, h.flushed.2⟩,
    fun k c hk => ⟨Nat.le_trans (h.calls k c hk).1 (Nat.le_max_left _ _), (h.calls k c hk).2⟩⟩
  · grind [h.unused]
  · grind [h.closed]
  · rcases mem_cons.1 hy with rfl | hy
    · exact Nat.le_trans hsince (Nat.le_trans h.flushed.1 hver)
    · exact h.fresh y hy
  · grind [h.refs]
  · grind [h.cached]
  · obtain ⟨hc, hs, hcl, hh⟩ := h.pending k hk
    have hne : k ≠ e := fun hke => hc (hke ▸ he)
    exact ⟨hc, by grind, hcl, by grind⟩

theorem Inv.release (h : Inv w) (s : Nat) : Inv (w.release s) := by
  unfold Cache.release
  split
  · rename_i hs
    have hcl : s ∉ w.closes := fun hc => h.unused s hc hs
    have hcount (x : Nat) : (w.handles.erase s).count x = if x = s then w.handles.count x - 1 else w.handles.count x := by
      grind
    unfold Cache.setSession
    refine ⟨?_, ?_, ?_, h.fresh, ?_, fun e he => ?_, fun k hk => ?_, h.flushed, h.calls⟩
    · grind [h.once]
    · grind [h.unused, h.refs]
    · grind [h.closed, h.refs]
    · grind [h.refs]
    · have hcached := h.cached e he
      grind
    · obtain ⟨hc, hst, hcl, hh⟩ := h.pending k hk
      exact ⟨hc, by grind, by grind, by grind⟩
  · exact h

theorem Inv.config (h : Inv w) (v : Nat) : Inv {w with config := v} :=
  ⟨h.once, h.unused, h.closed, h.fresh, h.refs, h.cached, h.pending, h.flushed, h.calls⟩

theorem Inv.connect (h : Inv w) (hk : w.Pending k) (v v' : Nat) : Inv (w.setSession k ⟨v, v', 0, false⟩) := by
  obtain ⟨hcached, hstale, hcl, hh⟩ := h.pending k hk
  unfold Cache.setSession
  refine ⟨h.once, h.unused, ?_, h.fresh, ?_, fun e he => ?_, fun k' hk' => ?_, h.flushed, h.calls⟩
  · grind [h.closed]
  · grind [h.refs]
  · have := h.cached e he
    grind
  · obtain ⟨hc, hs, hcl, hh⟩ := h.pending k' hk'
    exact ⟨hc, by grind, hcl, hh⟩

theorem Inv.insert (h : Inv w) (hk : w.calls k = some c) (hstage : c.stage = .opened) :
    Inv {w.setCall k {c with stage := .done} with closes := k :: w.closes} ∧
      (w.cached = none → (w.sessions k).version = w.file →
        Inv {w.setCall k {c with stage := .done} with cached := some k}) := by
  have hpending : w.Pending k := by
    intro c' hc'
    rw [← Option.some.inj (hk.symm.trans hc'), hstage]
    nofun
  obtain ⟨hcached, hstale, hcl, hh⟩ := h.pending k hpending
  obtain ⟨hsince, hfile, hfl⟩ := h.calls k c hk
  have hcall : Inv (w.setCall k {c with stage := .done}) :=
    h.setCall hpending hsince hfile fun _ => hfl (by rw [hstage]; nofun)
  constructor
  · refine ⟨nodup_cons.2 ⟨hcl, h.once⟩, ?_, fun s hs hs' => mem_cons_of_mem _ (h.closed s hs hs'), h.fresh, h.refs,
      fun e he => ?_, fun k' hk' => ?_, h.flushed, hcall.calls⟩
    · intro s hs
      rcases mem_cons.1 hs with rfl | hs
      · exact hh
      · exact h.unused s hs
    · obtain ⟨hs, he', hver⟩ := h.cached e he
      have hne : e ≠ k := fun hek => hcached (hek ▸ he)
      exact ⟨hs, not_mem_cons_of_ne_of_not_mem hne he', hver⟩
    · obtain ⟨hc, hs, hcl, hh⟩ := hcall.pending k' hk'
      exact ⟨hc, hs, not_mem_cons_of_ne_of_not_mem (pending_setCall_ne rfl hk') hcl, hh⟩
  · intro hnone hver
    refine ⟨h.once, h.unused, h.closed, h.fresh, h.refs, fun e he => ?_, fun k' hk' => ?_, h.flushed, hcall.calls⟩
    · obtain rfl := Option.some.inj he
      exact ⟨hstale, hcl, hver ▸ h.flushed.2⟩
    · exact ⟨fun he => pending_setCall_ne rfl hk' (Option.some.inj he).symm, (hcall.pending k' hk').2⟩

theorem invalidate_keeps (w : Cache) : w.invalidate.cached = none ∧ w.invalidate.file = w.file ∧
    w.invalidate.flushed = w.flushed ∧ w.invalidate.confirmed = w.confirmed ∧ w.invalidate.calls = w.calls := by
  unfold Cache.invalidate
  split
  · rename_i hnone
    exact ⟨hnone, rfl, rfl, rfl, rfl⟩
  · exact ⟨rfl, rfl, rfl, rfl, rfl⟩

theorem Inv.flush (h : Inv w) {v : Nat} (hv : v ≤ w.file) : Inv {w.invalidate with flushed := max w.flushed v} := by
  have hinv := h.invalidate
  obtain ⟨hcached, hfile, hflushed, hconfirmed, -⟩ := invalidate_keeps w
  refine ⟨hinv.once, hinv.unused, hinv.closed, hinv.fresh, hinv.refs, fun e he => ?_, hinv.pending, ⟨?_, ?_⟩, ?_⟩
  · cases hcached.symm.trans he
  · rw [hconfirmed]
    exact Nat.le_trans h.flushed.1 (Nat.le_max_left _ _)
  · rw [hfile]
    exact Nat.max_le.2 ⟨h.flushed.2, hv⟩
  · intro k c hk
    obtain ⟨hsince, hwrote, hfl⟩ := hinv.calls k c hk
    rw [hflushed] at hfl
    exact ⟨hsince, hwrote, fun hs => Nat.le_trans (hfl hs) (Nat.le_max_left _ _)⟩

theorem Inv.advance (h : Inv w) (hk : w.calls k = some c) (hcareful : w.Careful (.advance k)) : Inv (w.advance k c) := by
  obtain ⟨hsince, hfile, hfl⟩ := h.calls k c hk
  have hpending (hc : c.stage ≠ .done) : w.Pending k := fun c' hc' => Option.some.inj (hk.symm.trans hc') ▸ hc
  unfold Cache.advance
  split
  · rename_i hstage
    obtain ⟨-, hfile', -, hconfirmed, hcalls⟩ := invalidate_keeps w
    refine (h.flush hfile).setCall ?_ (hconfirmed ▸ hsince) (hfile' ▸ hfile) fun _ => Nat.le_max_right _ _
    unfold Pending
    rw [hcalls]
    exact hpending (by rw [hstage]; nofun)
  · rename_i hstage
    rw [hstage] at hpending hfl
    split
    · rename_i e he
      exact (h.setCall (c := {c with stage := .done}) (hpending nofun) hsince hfile fun _ => hfl nofun).take he hsince (hfl nofun)
    · exact h.setCall (hpending nofun) hsince hfile fun _ => hfl nofun
  · rename_i hstage
    rw [hstage] at hpending hfl
    exact h.setCall (hpending nofun) hsince hfile fun _ => hfl nofun
  · rename_i v hstage
    rw [hstage] at hpending hfl
    exact (h.config v).setCall (hpending nofun) hsince hfile fun _ => hfl nofun
  · rename_i v hstage
    rw [hstage] at hpending hfl
    exact (h.connect (hpending nofun) _ v).setCall (hpending nofun) hsince hfile fun _ => hfl nofun
  · rename_i hstage
    obtain ⟨hclose, henter⟩ := h.insert hk hstage
    have hwrote := hfl (by rw [hstage]; nofun)
    split
    · rename_i e he
      exact hclose.take he hsince hwrote
    · rename_i hnone
      exact (henter hnone (hcareful k c rfl hk hstage hnone)).take rfl hsince hwrote
  · exact h

/-- A careful call caches no session of an earlier connection. -/
theorem Inv.step (h : Inv w) (ev : Event) (hcareful : w.Careful ev) : Inv (w.step ev) := by
  have hnew {k : Nat} (hk : ¬ (w.calls k).isSome = true) : w.Pending k := by
    intro c hc
    rw [hc] at hk
    exact absurd rfl hk
  cases ev with
  | openRepo k =>
    dsimp only [Cache.step]
    split
    · exact h
    · exact h.setCall (hnew ‹_›) (Nat.le_refl _) (Nat.zero_le _) fun _ => Nat.zero_le _
  | configure k =>
    dsimp only [Cache.step]
    split
    · exact h
    have hfile : Inv {w with file := w.file + 1} :=
      ⟨h.once, h.unused, h.closed, h.fresh, h.refs, h.cached, h.pending, ⟨h.flushed.1, Nat.le_succ_of_le h.flushed.2⟩,
        fun k c hk => ⟨(h.calls k c hk).1, Nat.le_succ_of_le (h.calls k c hk).2.1, (h.calls k c hk).2.2⟩⟩
    exact hfile.setCall (hnew ‹_›) (Nat.le_refl _) (Nat.le_refl _) fun hs => absurd rfl hs
  | advance k =>
    dsimp only [Cache.step]
    split
    · exact h.advance ‹_› hcareful
    · exact h
  | release s => exact h.release s
  | invalidate => exact h.invalidate
  | dedicated v =>
    dsimp only [Cache.step]
    split
    · exact h.config v
    · exact h

theorem Inv.empty : Inv .empty := by
  constructor <;> simp [Cache.empty, Unused]

/-- **In every run whose steps are careful every state of the cache is good.** -/
theorem sessions_good (es : List Event) (h : Along step Careful .empty es) : Good (run step .empty es) := by
  have hinv := h.invariant Inv.empty fun _ ev hw hev => hw.step ev hev
  exact ⟨hinv.once, hinv.unused, hinv.closed, hinv.fresh⟩

instance (w : Cache) (ev : Event) : Decidable (Careful w ev) :=
  match ev with
  | .advance k =>
    match hk : w.calls k with
    | some c => decidable_of_iff (c.stage = .opened → w.cached = none → (w.sessions k).version = w.file)
      ⟨fun h k' c' he hc => by cases he; cases hk.symm.trans hc; exact h, fun h => h k c rfl hk⟩
    | none => .isTrue fun k' c' he hc => by cases he; cases hk.symm.trans hc
  | .openRepo _ | .configure _ | .release _ | .invalidate | .dedicated _ => .isTrue fun _ _ he => by cases he

/-- A repository is configured, and configured again. -/
theorem sessions_good_reconfigured :
    Good (run step .empty [.configure 0, .advance 0, .advance 0, .advance 0, .advance 0, .advance 0, .advance 0,
      .release 0, .configure 1, .advance 1, .advance 1, .advance 1, .advance 1, .advance 1, .advance 1, .openRepo 2,
      .advance 2]) :=
  sessions_good _ (by decide)

/-- A call loads the first connection, and enters its session when the second has emptied the cache: the next
openRepo is given that one. -/
theorem stale_session_wins :
    ¬ Good (run step .empty [.configure 0, .openRepo 1, .advance 1, .advance 1, .configure 2, .advance 2, .advance 1,
      .advance 1, .advance 1, .advance 2, .release 1, .openRepo 3, .advance 3]) := by
  intro h
  exact absurd (h.fresh (2, 1) (by decide)) (by decide)

end Cache

end Dbr2.Agent.SessionCache
