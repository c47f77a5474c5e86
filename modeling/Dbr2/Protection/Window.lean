import Dbr2.Protection.Retention

/-! The backup window of a host (`WaitForWindow` in `internal/protection/settings.go`, and the wait
that `PrepareBackup` transmits and the backup workflow sleeps).

The wait is taken from the wall clock: the minutes from now to the start of the window, as if every
local day had 24 hours. A wall clock that runs steadily keeps the promise: the window stays closed
for as long as the wait lasts, and is open then. A change of the UTC offset moves the clock while a
workflow sleeps. -/
namespace Dbr2.Protection
open List

/-- From a Unix second on, a UTC offset in seconds. -/
structure Transition where
  (since offset : Int)
  deriving DecidableEq

structure Zone where
  initial : Int
  transitions : List Transition
  ascending : transitions.Pairwise fun a b => a.since < b.since

def Zone.utc : Zone := ⟨0, [], List.Pairwise.nil⟩

def Zone.offset (z : Zone) : Location := fun u =>
  ((z.transitions.filter fun tr => decide (tr.since ≤ u)).getLast?.map (·.offset)).getD z.initial

def Location.clock (loc : Location) (u : Int) : Int := (u + loc u) % 86400

def second : Int := 1000000000

structure HostSettings where
  maxConcurrentJobs : Int
  windowStart : Option (Fin 1440)
  windowEnd : Option (Fin 1440)
  timezone : String
  deriving DecidableEq

def isOpen (start stop minute : Int) : Bool :=
  decide (start ≤ stop ∧ start ≤ minute ∧ minute < stop ∨ stop < start ∧ (start ≤ minute ∨ minute < stop))

section Settings
variable (loadLocation : String → Option Zone) (h : HostSettings)

/-- An unknown time zone is UTC. -/
def HostSettings.zone : Zone := (loadLocation h.timezone).getD Zone.utc

/-- The wait from `now`, both in nanoseconds. -/
def HostSettings.waitForWindow (now : Int) : Int :=
  match h.windowStart, h.windowEnd with
  | some start, some stop =>
    let t := (h.zone loadLocation).offset.clock (now / second)
    let minute := t / 3600 * 60 + t % 3600 / 60
    let start : Int := start
    let stop : Int := stop
    if isOpen start stop minute || start == stop then 0
    else
      let wait := start - minute
      let wait := if wait < 0 then wait + 1440 else wait
      wait * (60 * second) - t % 60 * second
  | _, _ => 0

/-- `WaitForWindowSeconds` of PrepareBackup: a uint32 of whole seconds. -/
def HostSettings.waitForWindowSeconds (trigger : String) (now : Int) : Nat :=
  if trigger = "scheduled" then (h.waitForWindow loadLocation now / second).toNat % 2 ^ 32 else 0

def HostSettings.Inside (now : Int) : Prop :=
  ∃ start stop, h.windowStart = some start ∧ h.windowEnd = some stop ∧
    isOpen start stop ((h.zone loadLocation).offset.clock (now / second) / 60) = true

/-- Nobody waits who may start; who waits starts inside the window, and has missed none of it. -/
structure HostSettings.Respected (now : Int) : Prop where
  zero : h.waitForWindow loadLocation now = 0 ↔
    h.windowStart = none ∨ h.windowEnd = none ∨ h.windowStart = h.windowEnd ∨ h.Inside loadLocation now
  waits : h.waitForWindow loadLocation now ≠ 0 →
    h.Inside loadLocation (now + h.waitForWindowSeconds loadLocation "scheduled" now * second) ∧
    ∀ t, now ≤ t → t ≤ now + h.waitForWindowSeconds loadLocation "scheduled" now * second - second →
      ¬ h.Inside loadLocation t

/-- A change of the offset that does no harm to the window: it is one of whole days, or finds the window
open, or falls on the start of the window and leaves it open. -/
def Transition.Harmless (z : Zone) (start stop : Int) (tr : Transition) : Prop :=
  let before := z.offset (tr.since - 1)
  (tr.offset - before) % 86400 = 0 ∨ isOpen start stop ((tr.since - 1 + before) % 86400 / 60) = true ∨
    (tr.since + before) % 86400 = start * 60 ∧ isOpen start stop ((tr.since + tr.offset) % 86400 / 60) = true

instance (z : Zone) (start stop : Int) (tr : Transition) : Decidable (tr.Harmless z start stop) :=
  inferInstanceAs (Decidable (_ ∨ _ ∨ _))

/-- No window, an empty one, or a zone whose changes do it no harm. -/
def HostSettings.Steady : Prop :=
  match h.windowStart, h.windowEnd with
  | some start, some stop =>
    start = stop ∨ ∀ tr ∈ (h.zone loadLocation).transitions, tr.Harmless (h.zone loadLocation) start stop
  | _, _ => True

end Settings

def dialWait (start r : Int) : Int :=
  (if start - r / 60 < 0 then start - r / 60 + 1440 else start - r / 60) * 60 - r % 60

section Dial
variable {start stop r : Int}

theorem isOpen_start (hne : start ≠ stop) : isOpen start stop (start * 60 / 60) = true := by
  unfold isOpen
  rw [decide_eq_true_eq]
  omega

variable (hs : 0 ≤ start ∧ start < 1440) (hr : 0 ≤ r ∧ r < 86400) (hc : isOpen start stop (r / 60) = false)
include hs hr hc

/-- The wait leads to the start of the window, within a day. -/
theorem dialWait_spec (hne : start ≠ stop) :
    0 < dialWait start r ∧ dialWait start r < 86400 ∧ (r + dialWait start r) % 86400 = start * 60 := by
  unfold isOpen at hc
  rw [decide_eq_false_iff_not] at hc
  unfold dialWait
  split <;> omega

theorem closed_before {d : Int} (hd : 0 ≤ d) (hlt : d < dialWait start r) :
    isOpen start stop ((r + d) % 86400 / 60) = false := by
  unfold isOpen at hc ⊢
  rw [decide_eq_false_iff_not] at hc ⊢
  unfold dialWait at hlt
  split at hlt <;> omega

end Dial

section Clock
variable (loc : Location) (start stop : Int)

/-- At a second at which the window is closed, the wait ends inside the window and not later than
its beginning. -/
def OnTime (u : Int) : Prop :=
  isOpen start stop (loc.clock u / 60) = false →
    isOpen start stop (loc.clock (u + dialWait start (loc.clock u)) / 60) = true ∧
    ∀ v, u ≤ v → v < u + dialWait start (loc.clock u) → isOpen start stop (loc.clock v / 60) = false

def HarmlessAt (u : Int) : Prop :=
  loc.clock u = (loc.clock (u - 1) + 1) % 86400 ∨ isOpen start stop (loc.clock (u - 1) / 60) = true ∨
    (loc.clock (u - 1) + 1) % 86400 = start * 60 ∧ isOpen start stop (loc.clock u / 60) = true

variable {loc start stop} (hs : 0 ≤ start ∧ start < 1440) (hne : start ≠ stop)

theorem clock_range (loc : Location) (u : Int) : 0 ≤ loc.clock u ∧ loc.clock u < 86400 := by
  unfold Location.clock
  omega

include hs hne

theorem clock_add (h : ∀ u, HarmlessAt loc start stop u) {u : Int} (hc : isOpen start stop (loc.clock u / 60) = false)
    (d : Nat) (hd : (d : Int) < dialWait start (loc.clock u)) : loc.clock (u + d) = (loc.clock u + d) % 86400 := by
  have hspec := dialWait_spec hs (clock_range loc u) hc hne
  induction d with
  | zero =>
    have hrange := clock_range loc u
    have hu : u + ((0 : Nat) : Int) = u := by omega
    rw [hu]
    omega
  | succ d ih =>
    have hprev := ih (by omega)
    have hclosed : isOpen start stop (loc.clock (u + d) / 60) = false := by
      rw [hprev]
      exact closed_before hs (clock_range loc u) hc (by omega) (by omega)
    have hu : u + ((d + 1 : Nat) : Int) - 1 = u + d := by omega
    have hnext := h (u + ((d + 1 : Nat) : Int))
    unfold HarmlessAt at hnext
    rw [hu, hprev] at hnext
    rcases hnext with hsteady | hopen | ⟨hstart, -⟩
    · rw [hsteady]
      omega
    · rw [← hprev, hclosed] at hopen
      cases hopen
    · -- the start of the window is only reached at the end of the wait
      omega

theorem onTime_of_harmless (h : ∀ u, HarmlessAt loc start stop u) (u : Int) : OnTime loc start stop u := by
  intro hc
  have hspec := dialWait_spec hs (clock_range loc u) hc hne
  have hclosed (v : Int) (huv : u ≤ v) (hv : v < u + dialWait start (loc.clock u)) :
      isOpen start stop (loc.clock v / 60) = false := by
    obtain ⟨d, hd⟩ := Int.eq_ofNat_of_zero_le (show 0 ≤ v - u by omega)
    have hvd : v = u + d := by omega
    rw [hvd, clock_add hs hne h hc d (by omega)]
    exact closed_before hs (clock_range loc u) hc (by omega) (by omega)
  refine ⟨?_, hclosed⟩
  obtain ⟨d, hd⟩ := Int.eq_ofNat_of_zero_le (show 0 ≤ dialWait start (loc.clock u) - 1 by omega)
  have hlast := clock_add hs hne h hc d (by omega)
  have hu : u + dialWait start (loc.clock u) - 1 = u + d := by omega
  have hnext := h (u + dialWait start (loc.clock u))
  unfold HarmlessAt at hnext
  rw [hu] at hnext
  rcases hnext with hsteady | hopen | ⟨-, hopen⟩
  · have hstart : loc.clock (u + dialWait start (loc.clock u)) = start * 60 := by
      rw [hsteady, hlast]
      omega
    rw [hstart]
    exact isOpen_start hne
  · rw [hclosed (u + d) (by omega) (by omega)] at hopen
    cases hopen
  · exact hopen

theorem harmless_of_onTime (h : ∀ u, OnTime loc start stop u) (u : Int) : HarmlessAt loc start stop u := by
  by_cases hopen : isOpen start stop (loc.clock (u - 1) / 60) = true
  · exact .inr (.inl hopen)
  have hc := Bool.eq_false_iff.2 hopen
  have hspec := dialWait_spec hs (clock_range loc (u - 1)) hc hne
  obtain ⟨hend, hbefore⟩ := h (u - 1) hc
  by_cases hone : dialWait start (loc.clock (u - 1)) = 1
  · rw [hone] at hend hspec
    rw [Int.sub_add_cancel] at hend
    exact .inr (.inr ⟨hspec.2.2, hend⟩)
  left
  have hcu := hbefore u (by omega) (by omega)
  have hspecu := dialWait_spec hs (clock_range loc u) hcu hne
  obtain ⟨hendu, hbeforeu⟩ := h u hcu
  -- both waits end when the window opens
  have hsame : u - 1 + dialWait start (loc.clock (u - 1)) = u + dialWait start (loc.clock u) := by
    rcases lt_trichotomy (u - 1 + dialWait start (loc.clock (u - 1))) (u + dialWait start (loc.clock u)) with hlt | heq | hlt
    · rw [hbeforeu _ (by omega) hlt] at hend
      cases hend
    · exact heq
    · rw [hbefore _ (by omega) hlt] at hendu
      cases hendu
  have hrange := clock_range loc u
  omega

end Clock
namespace Zone
variable (z : Zone)

theorem offset_of_not_since {u : Int} (h : ∀ tr ∈ z.transitions, tr.since ≠ u) : z.offset u = z.offset (u - 1) := by
  have hfilter : (z.transitions.filter fun tr => decide (tr.since ≤ u)) =
      z.transitions.filter fun tr => decide (tr.since ≤ u - 1) := by
    apply List.filter_congr
    intro tr htr
    have hne := h tr htr
    rw [decide_eq_decide]
    omega
  unfold offset
  rw [hfilter]

theorem offset_since {tr : Transition} (h : tr ∈ z.transitions) : z.offset tr.since = tr.offset := by
  obtain ⟨before, after, hsplit⟩ := append_of_mem h
  have hpair := z.ascending
  rw [hsplit, pairwise_append, pairwise_cons] at hpair
  have hafter : after.filter (fun x => decide (x.since ≤ tr.since)) = [] := by
    apply filter_eq_nil_iff.2
    intro x hx
    have hlt := hpair.2.1.1 x hx
    rw [decide_eq_true_eq]
    omega
  unfold offset
  rw [hsplit, filter_append, filter_cons, if_pos (decide_eq_true (le_refl tr.since)), hafter,
    getLast?_append, getLast?_singleton]
  rfl

theorem harmless_iff (start stop : Int) : (∀ u, HarmlessAt z.offset start stop u) ↔
    ∀ tr ∈ z.transitions, tr.Harmless z start stop := by
  have hat (tr : Transition) (htr : tr ∈ z.transitions) :
      HarmlessAt z.offset start stop tr.since ↔ tr.Harmless z start stop := by
    have hold : (z.offset.clock (tr.since - 1) + 1) % 86400 = (tr.since + z.offset (tr.since - 1)) % 86400 := by
      unfold Location.clock
      omega
    have hmove : z.offset.clock tr.since = (tr.since + z.offset (tr.since - 1)) % 86400 ↔
        (tr.offset - z.offset (tr.since - 1)) % 86400 = 0 := by
      unfold Location.clock
      rw [z.offset_since htr]
      omega
    unfold HarmlessAt Transition.Harmless
    rw [hold, hmove]
    unfold Location.clock
    rw [z.offset_since htr]
  constructor
  · intro h tr htr
    exact (hat tr htr).1 (h tr.since)
  · intro h u
    by_cases hu : ∃ tr ∈ z.transitions, tr.since = u
    · obtain ⟨tr, htr, rfl⟩ := hu
      exact (hat tr htr).2 (h tr htr)
    have hsame := z.offset_of_not_since fun tr htr he => hu ⟨tr, htr, he⟩
    left
    unfold Location.clock
    rw [hsame]
    omega

end Zone

section Settings
variable (loadLocation : String → Option Zone) {h : HostSettings} {start stop : Fin 1440}

theorem waitForWindow_eq (hstart : h.windowStart = some start) (hstop : h.windowEnd = some stop) (hne : start ≠ stop)
    (now : Int) : h.waitForWindow loadLocation now =
      if isOpen start stop ((h.zone loadLocation).offset.clock (now / second) / 60) then 0
      else dialWait start ((h.zone loadLocation).offset.clock (now / second)) * second := by
  have hne' : ((start : Int) == (stop : Int)) = false := by
    rw [beq_eq_false_iff_ne]
    omega
  unfold HostSettings.waitForWindow
  rw [hstart, hstop]
  simp only [hne', Bool.or_false]
  generalize (h.zone loadLocation).offset.clock (now / second) = r
  have hminute : r / 3600 * 60 + r % 3600 / 60 = r / 60 := by omega
  rw [hminute]
  split
  · rfl
  · unfold dialWait second
    split <;> omega

theorem inside_iff (hstart : h.windowStart = some start) (hstop : h.windowEnd = some stop) (now : Int) :
    h.Inside loadLocation now ↔ isOpen start stop ((h.zone loadLocation).offset.clock (now / second) / 60) = true := by
  unfold HostSettings.Inside
  rw [hstart, hstop]
  constructor
  · rintro ⟨start', stop', he1, he2, hopen⟩
    cases he1
    cases he2
    exact hopen
  · intro hopen
    exact ⟨start, stop, rfl, rfl, hopen⟩

theorem respected_of_zero {now : Int} (hwait : h.waitForWindow loadLocation now = 0)
    (hset : h.windowStart = none ∨ h.windowEnd = none ∨ h.windowStart = h.windowEnd) : h.Respected loadLocation now where
  zero := iff_of_true hwait (hset.imp_right (·.imp_right .inl))
  waits := fun hne => absurd hwait hne

theorem second_add {w : Int} (hw : 0 < w ∧ w < 86400) (now : Int) : w * second ≠ 0 ∧
    (((w * second / second).toNat % 2 ^ 32 : Nat) : Int) = w ∧ (now + w * second) / second = now / second + w := by
  unfold second
  omega

theorem second_between {w now t : Int} (hle : now ≤ t) (hlt : t ≤ now + w * second - second) :
    now / second ≤ t / second ∧ t / second < now / second + w := by
  unfold second at *
  omega

theorem second_reached {v w now : Int} (hle : now / second ≤ v) (hlt : v < now / second + w) :
    now ≤ now + (v - now / second) * second ∧ now + (v - now / second) * second ≤ now + w * second - second ∧
      (now + (v - now / second) * second) / second = v := by
  unfold second at *
  omega

theorem respected_iff (hstart : h.windowStart = some start) (hstop : h.windowEnd = some stop) (hne : start ≠ stop)
    (now : Int) : h.Respected loadLocation now ↔ OnTime (h.zone loadLocation).offset start stop (now / second) := by
  have hbound : 0 ≤ (start : Int) ∧ (start : Int) < 1440 := by omega
  have hwait := waitForWindow_eq loadLocation hstart hstop hne now
  have hinside := inside_iff loadLocation hstart hstop
  by_cases hopen : isOpen start stop ((h.zone loadLocation).offset.clock (now / second) / 60) = true
  · -- the window is open: the wait is zero, and nothing is left to show
    rw [if_pos hopen] at hwait
    refine iff_of_true ⟨iff_of_true hwait ?_, fun hnz => absurd hwait hnz⟩ fun hc => ?_
    · exact .inr (.inr (.inr ((hinside now).2 hopen)))
    · rw [hopen] at hc
      cases hc
  have hc := Bool.eq_false_iff.2 hopen
  have hspec := dialWait_spec hbound (clock_range _ _) hc (by omega)
  obtain ⟨hnz, hsent, hsum⟩ := second_add ⟨hspec.1, hspec.2.1⟩ now
  rw [if_neg hopen] at hwait
  have htrans : (h.waitForWindowSeconds loadLocation "scheduled" now : Int) =
      dialWait start ((h.zone loadLocation).offset.clock (now / second)) := by
    unfold HostSettings.waitForWindowSeconds
    rw [if_pos rfl, hwait]
    exact hsent
  have hset : ¬ (h.windowStart = none ∨ h.windowEnd = none ∨ h.windowStart = h.windowEnd ∨ h.Inside loadLocation now) := by
    rw [hinside, hstart, hstop]
    simp [hne, hopen]
  constructor
  · intro hr _
    obtain ⟨hend, hbefore⟩ := hr.waits (hwait ▸ hnz)
    rw [htrans] at hbefore
    rw [htrans, hinside, hsum] at hend
    refine ⟨hend, fun v huv hv => Bool.eq_false_iff.2 fun hopenv => ?_⟩
    obtain ⟨h1, h2, h3⟩ := second_reached huv hv
    exact hbefore _ h1 h2 ((hinside _).2 (h3.symm ▸ hopenv))
  · intro hon
    obtain ⟨hend, hbefore⟩ := hon hc
    refine ⟨iff_of_false (hwait ▸ hnz) hset, fun _ => ?_⟩
    rw [htrans]
    refine ⟨(hinside _).2 (hsum ▸ hend), fun t hle hlt hin => ?_⟩
    obtain ⟨h1, h2⟩ := second_between hle hlt
    rw [hinside, hbefore _ h1 h2] at hin
    cases hin

def springForward : Zone := ⟨3600, [⟨1774746000, 7200⟩], pairwise_singleton _ _⟩

example : Transition.Harmless springForward 0 360 ⟨1774746000, 7200⟩ := by decide

end Settings
end Dbr2.Protection
