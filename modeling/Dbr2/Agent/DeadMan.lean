import Dbr2.Lib.History
import Dbr2.Agent.LeaseSide
import Dbr2.Agent.Atomicity

/-! Swaps against the dead-man switch.

`swap` asks once whether the lease was auto-resumed, and then renames. The lease
manager says so as soon as an automatic resume has brought every container back.
So a rename under a restarted container takes either a resume between the question
and the rename, or one that failed part-way before the question. -/
namespace Dbr2.Agent
open Lib List

def Note.isBack (lease : String) : Note → Bool
  | .back l _ => decide (l = lease)
  | _ => false

def backs (lease : String) (log : List Note) : Bool := log.any (Note.isBack lease)

/-- An automatic resume of the lease failed when it, or one before it, had brought a
container back. -/
def partly (lease : String) : List Note → Bool
  | [] => false
  | n :: ns => (decide (n = .failed lease) && backs lease ns) || partly lease ns

/-- No swap of the restore renames after the agent brought a container back. -/
def RenamesUnresumed (lease : String) (log : List Note) : Prop :=
  AtEach (.renamed lease) (fun past => backs lease past = false) log

/-- No container is brought back between the question of a swap and its renames. -/
def CalmSwaps (lease : String) (log : List Note) : Prop :=
  AtEach (.renamed lease) (fun past => since (.checked lease) (Note.isBack lease) past = false) log

def WholeResumes (lease : String) (log : List Note) : Prop :=
  AtEach (.checked lease) (fun past => partly lease past = false) log

instance (lease : String) (log : List Note) : Decidable (RenamesUnresumed lease log) :=
  inferInstanceAs (Decidable (AtEach _ _ _))

instance (lease : String) (log : List Note) : Decidable (CalmSwaps lease log) :=
  inferInstanceAs (Decidable (AtEach _ _ _))

instance (lease : String) (log : List Note) : Decidable (WholeResumes lease log) :=
  inferInstanceAs (Decidable (AtEach _ _ _))

theorem findLease_putLease_self (ls : List Lease) (l : Lease) : findLease (putLease ls l) l.leaseId = some l := by
  simp [findLease, putLease]

theorem findLease_putLease_ne {ls : List Lease} {l : Lease} {id : String} (h : l.leaseId ≠ id) :
    findLease (putLease ls l) id = findLease ls id := by
  rw [findLease, putLease, find?_cons_of_neg (by simpa using h), findLease, eraseLease, find?_filter]
  congr 1
  funext x
  by_cases hx : x.leaseId = id
  · simp [hx, Ne.symm h]
  · simp [hx]

section Watch
variable (lease : String)

def Marked (w : World) : Prop := ∃ l, findLease w.leases lease = some l ∧ l.active = false

def Resuming.isOf (r : Option Resuming) : Prop := ∃ x, r = some x ∧ x.leaseId = lease

/-- What stands for a container that was brought back: a resume that failed
part-way, the mark on the lease, or a resume in progress. -/
structure Accounted (w : World) : Prop where
  checks : AtEach (.checked lease) (fun past => backs lease past = true → partly lease past = true) w.log
  auto : Resuming.isOf lease w.resuming → (findLease w.leases lease).isSome = true
  backs : backs lease w.log = true → partly lease w.log = true ∨ Marked lease w ∨ Resuming.isOf lease w.resuming

variable {lease}

theorem partly_cons {n : Note} {log : List Note} (h : partly lease log = true) : partly lease (n :: log) = true := by
  rw [partly, h, Bool.or_true]

theorem backs_cons {n : Note} (hn : n.isBack lease = false) (log : List Note) :
    backs lease (n :: log) = backs lease log := by
  rw [backs, any_cons, hn]
  rfl

theorem Accounted.note {w : World} (h : Accounted lease w) {n : Note}
    (hb : n.isBack lease = false) (hc : n ≠ .checked lease) : Accounted lease (w.note n) :=
  ⟨⟨fun he => absurd he hc, h.checks⟩, h.auto, fun hh =>
    (h.backs ((backs_cons hb w.log).symm.trans hh)).imp_left partly_cons⟩

theorem Accounted.put {w : World} (h : Accounted lease w) {l l' : Lease}
    (hl : findLease w.leases l.leaseId = some l) (hid : l'.leaseId = l.leaseId)
    (ha : l.active = false → l'.active = false) :
    Accounted lease {w with leases := putLease w.leases l'} := by
  by_cases hne : l'.leaseId = lease
  · subst hne
    have hfind := findLease_putLease_self w.leases l'
    refine ⟨h.checks, fun _ => by rw [hfind]; rfl, fun hh => ?_⟩
    refine (h.backs hh).imp_right (Or.imp_left fun ⟨x, hx, hxa⟩ => ⟨l', hfind, ha ?_⟩)
    rw [hid, hl] at hx
    exact Option.some.inj hx ▸ hxa
  have hfind : findLease (putLease w.leases l') lease = findLease w.leases lease :=
    findLease_putLease_ne hne
  refine ⟨h.checks, fun hr => by rw [hfind]; exact h.auto hr, fun hh => ?_⟩
  exact (h.backs hh).imp_right (Or.imp_left fun ⟨x, hx, hxa⟩ => ⟨x, hfind.trans hx, hxa⟩)

theorem Accounted.release_other {w : World} (h : Accounted lease w) {r : Resuming}
    (hr : w.resuming = some r) (hne : r.leaseId ≠ lease) : Accounted lease (w.release r.leaseId) := by
  refine ⟨h.checks, fun ⟨_, hx, _⟩ => (by cases hx), fun hh => (h.backs hh).imp_right fun hm => .inl ?_⟩
  rcases hm with hm | ⟨x, hx, hid⟩
  · exact hm
  · obtain rfl : r = x := Option.some.inj (hr.symm.trans hx)
    exact absurd hid hne

/-- The timers: an automatic resume accounts for what it brings back. -/
theorem accounted_timerInv : TimerInv (Accounted lease) where
  tick _ _ h := ⟨h.checks, h.auto, h.backs⟩
  disarm _ _ h := ⟨h.checks, h.auto, h.backs⟩
  save _ h := ⟨h.checks, h.auto, h.backs⟩
  expire w l h hr _ hl _ := by
    refine ⟨h.checks, fun ⟨x, hx, hid⟩ => ?_, fun hh => (h.backs hh).imp_right fun hm => .inl ?_⟩
    · obtain rfl := Option.some.inj hx
      obtain rfl : l.leaseId = lease := hid
      show (findLease w.leases l.leaseId).isSome = true
      rw [hl]
      rfl
    · rcases hm with hm | ⟨x, hx, -⟩
      · exact hm
      · cases hr.symm.trans hx
  warn w l h hl ha := h.put hl rfl fun hn => absurd (ha.symm.trans hn) (by simp)
  back w r c cs h hr := by
    have hw : Accounted lease {w with containers := cs} := ⟨h.checks, h.auto, h.backs⟩
    by_cases hid : r.leaseId = lease
    · exact ⟨⟨fun he => (by cases he), h.checks⟩, h.auto, fun _ => .inr (.inr ⟨r, hr, hid⟩)⟩
    · exact hw.note (by simpa [Note.isBack] using hid) (by simp)
  next w r r' h hr hid := by
    have hiff : Resuming.isOf lease (some r') ↔ Resuming.isOf lease w.resuming := by
      simp [Resuming.isOf, hr, hid]
    exact ⟨h.checks, fun hx => h.auto (hiff.1 hx), fun hh => (h.backs hh).imp_right (Or.imp_right hiff.2)⟩
  ended w r l ids h hr hl := by
    have hlid := (findLease_mem hl).2
    by_cases hid : r.leaseId = lease
    · obtain rfl : l.leaseId = lease := hlid.trans hid
      exact ⟨⟨fun he => (by cases he), h.checks⟩, fun ⟨_, hx, _⟩ => (by cases hx),
        fun _ => .inr (.inl ⟨_, findLease_putLease_self _ _, rfl⟩)⟩
    have hrel := h.release_other hr hid
    have hput : Accounted lease {w.release r.leaseId with
        leases := putLease w.leases {l with autoResumedAt := some w.now, resumed := ids}} :=
      hrel.put (l := l) (hlid.symm ▸ hl) rfl fun _ => rfl
    exact hput.note rfl (by simp)
  gone w r h hr hl := by
    by_cases hid : r.leaseId = lease
    · have hsome := h.auto ⟨r, hr, hid⟩
      rw [← hid, hl] at hsome
      cases hsome
    · exact h.release_other hr hid
  failed w r h hr := by
    by_cases hid : r.leaseId = lease
    · refine ⟨⟨fun he => (by cases he), h.checks⟩, fun ⟨_, hx, _⟩ => (by cases hx), fun hh => .inl ?_⟩
      have hb : Agent.backs lease w.log = true := (backs_cons rfl _).symm.trans hh
      show ((decide (Note.failed r.leaseId = .failed lease) && Agent.backs lease w.log) || _) = true
      rw [hb, hid]
      simp
    have hrel := h.release_other hr hid
    exact Accounted.note (n := .failed r.leaseId) (w := {w.release r.leaseId with timers :=
        (r.leaseId, (w.release r.leaseId).now + autoResumeRetry) :: (w.release r.leaseId).timers})
      ⟨hrel.checks, hrel.auto, hrel.backs⟩ rfl (by simp)

theorem accounted_sideInv (id : String) : SideInv id (fun w => Accounted lease w ∧ w.up = true) where
  toTimerInv := accounted_timerInv.and .up
  up _ h := h.2
  disk w d r h := ⟨⟨h.1.checks, h.1.auto, h.1.backs⟩, h.2⟩
  looked _ h := ⟨⟨h.1.checks, h.1.auto, h.1.backs⟩, h.2⟩
  renamed w h := ⟨h.1.note rfl (by simp), h.2⟩
  checked w h hr ha := by
    -- nothing is in progress and the lease is not marked: only a failure is left
    have hpart (hb : Agent.backs lease w.log = true) (hid : id = lease) : partly lease w.log = true := by
      subst hid
      rcases h.1.backs hb with hp | ⟨l, hl, hn⟩ | ⟨x, hx, -⟩
      · exact hp
      · rw [ha l hl] at hn
        cases hn
      · cases hr.symm.trans hx
    refine ⟨⟨⟨fun he hb => hpart hb (by injection he), h.1.checks⟩, h.1.auto, fun hh => ?_⟩, h.2⟩
    exact (h.1.backs ((backs_cons rfl w.log).symm.trans hh)).imp_left partly_cons

end Watch

inductive SwapEvent
  | components (repo : Repository) (c : RestoreCommand) (o : List Draw)
  | timer (e : TimerEvent)
  | wait (d : Nat)

def swapStep (w : World) : SwapEvent → World
  | .components repo c o => if w.up then settle (restoreComponents repo c o w) else w
  | .timer e => w.timerStep e
  | .wait d => w.tick d

structure Watched (lease : String) (w : World) : Prop where
  checks : AtEach (.checked lease) (fun past => backs lease past = true → partly lease past = true) w.log
  alive : w.up = true → Accounted lease w

theorem Accounted.watched {lease : String} {w : World} (h : Accounted lease w) : Watched lease w :=
  ⟨h.checks, fun _ => h⟩

/-- A command, or timer events between commands. -/
theorem Watched.step {lease : String} {w : World} (h : Watched lease w) (e : SwapEvent) :
    Watched lease (swapStep w e) := by
  by_cases hup : w.up = true
  · have h := h.alive hup
    cases e with
    | timer e => exact (accounted_timerInv.timerStep h e).watched
    | wait d => exact (accounted_timerInv.tick w d h).watched
    | components repo c o =>
      rw [swapStep, if_pos hup]
      have hkeeps : Keeps (fun w => Accounted lease w ∧ w.up = true) (restoreComponents repo c) :=
        (accounted_sideInv c.restoreId).restoreComponents rfl
      exact settle_of_meets (hkeeps o w ⟨h, hup⟩) (fun _ _ h => h.1.watched)
        (fun _ _ h => h.1.watched) fun _ h => ⟨h.1.checks, fun hn => (by cases hn)⟩
  cases e with
  | timer e => simpa [swapStep, World.timerStep, hup] using h
  | wait d => exact ⟨h.checks, fun hn => absurd hn hup⟩
  | components repo c o => simpa [swapStep, hup] using h

/-- **No swap renames under a restarted container** in a run where no container comes
back between the question of a swap and its renames, and no swap asks after an
automatic resume failed part-way. -/
theorem renames_unresumed (lease : String) (w : World) (hnew : backs lease w.log = false)
    (hidle : w.resuming = none) (es : List SwapEvent) (hcalm : CalmSwaps lease (run swapStep w es).log)
    (hwhole : WholeResumes lease (run swapStep w es).log) :
    RenamesUnresumed lease (run swapStep w es).log := by
  have h0 : Accounted lease w := by
    refine ⟨.of_tails (R := fun past => backs lease past = false) hnew (fun x xs h => ?_)
      (fun past hn hb => absurd (hn.symm.trans hb) (by simp)), fun ⟨_, hx, _⟩ => ?_,
      fun hb => absurd (hnew.symm.trans hb) (by simp)⟩
    · rw [backs, any_cons, Bool.or_eq_false_iff] at h
      exact h.2
    · cases hidle.symm.trans hx
  have hend :=
    run_invariant h0.watched (fun _ e h => h.step e) es
  -- a swap that was told no had nothing to fear
  have hchecks : AtEach (.checked lease) (fun past => backs lease past = false) (run swapStep w es).log :=
    (hend.checks.and hwhole).imp fun past h => by
      cases hb : backs lease past with
      | false => rfl
      | true => cases (h.1 hb).symm.trans h.2
  exact hcalm.mono hchecks (fun _ _ h => h.2) fun past hpast hs => any_eq_false_of_since rfl hpast hs

def Lease.ofRestore : Lease where
  leaseId := "r"
  applicationId := "app"
  mode := .stop
  preState := [⟨"x", "x", .running⟩, ⟨"y", "y", .running⟩]
  quiescedAt := 0
  expiresAt := 5
  warned := false
  autoResumedAt := none
  resumed := []

def World.leased : World :=
  {World.twoVolumes with
    containers := fun id => if id = "x" ∨ id = "y" then some ⟨id, .exited⟩ else none
    leases := [.ofRestore]
    leaseFile := [.ofRestore]
    timers := [("r", 5)]}

def Draw.expires : Draw :=
  {(default : Draw) with
    wait := 10
    timers := [.fire "r", .resume false .none, .resume false .none, .finish .none]}

/-- The restore of the volume, with the lease expiring before its step `n`. -/
def expiresAtStep (n : Nat) : SwapEvent :=
  .components .newFile (.ofVolumes ["a"]) (List.replicate n default ++ [.expires])

/-- The lease expires, and only `x` comes back. -/
def expiresPartly : List SwapEvent :=
  [.wait 10, .timer (.fire "r"), .timer (.resume false .none), .timer (.resume true .none), .timer (.finish .none)]

/-- Before the question the swap is refused, after the renames it is over. -/
theorem renames_unresumed_early_or_late : RenamesUnresumed "r" (run swapStep .leased [expiresAtStep 12]).log ∧
      RenamesUnresumed "r" (run swapStep .leased [expiresAtStep 16]).log :=
  ⟨renames_unresumed "r" .leased rfl rfl _ (by decide) (by decide),
    renames_unresumed "r" .leased rfl rfl _ (by decide) (by decide)⟩

/-- Between the two it renames under the restarted containers; and so it does, asking
first, when the resume brought only one of them back. -/
theorem renames_resumed : ¬ RenamesUnresumed "r" (run swapStep .leased [expiresAtStep 13]).log ∧
      ¬ RenamesUnresumed "r" (run swapStep .leased
        (expiresPartly ++ [.components .newFile (.ofVolumes ["a"]) []])).log := by
  decide

end Dbr2.Agent
