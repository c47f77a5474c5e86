import Mathlib.Logic.Function.Basic
import Mathlib.Tactic.Linarith

/-! The limiter of login attempts (`RateLimiter` of `internal/auth/lockout.go`).

Times are nanoseconds, and `sub` stops at the bounds of a `time.Duration` as `Time.Sub` does. Whether old
windows are dropped cannot be seen: the limiter answers as one counter for each key does (`Sees`), and a
counter lets through at most twice the limit in any interval of the window's length (`Within`). -/
namespace Dbr2.Auth
open List

structure Window where
  start : Int
  count : Nat

/-- What never changes; the map of the windows is the state. -/
structure RateLimiter where
  limit : Nat
  window : Int64

abbrev Hits (Key : Type) [DecidableEq Key] [Hashable Key] := Std.HashMap Key Window

namespace RateLimiter
variable {Key : Type} [DecidableEq Key] [Hashable Key] (l : RateLimiter)

/-- `Time.Sub` -/
def sub (t u : Int) : Int := max (-9223372036854775808) (min (t - u) 9223372036854775807)

def expired (now : Int) (w : Window) : Bool := decide (sub now w.start ≥ l.window.toInt)

def evict (hits : Hits Key) (now : Int) : Hits Key :=
  if hits.size > 10000 then hits.filter fun _ w => !l.expired now w else hits

def allow (hits : Hits Key) (key : Key) (now : Int) : (Bool × Int) × Hits Key :=
  let hits := l.evict hits now
  match hits[key]? with
  | none => ((true, 0), hits.insert key ⟨now, 1⟩)
  | some w =>
    if l.expired now w then ((true, 0), hits.insert key ⟨now, 1⟩)
    else if w.count ≥ l.limit then ((false, sub (w.start + l.window.toInt) now), hits)
    else ((true, 0), hits.insert key ⟨w.start, w.count + 1⟩)

def decisions (hits : Hits Key) : List (Key × Int) → List Bool
  | [] => []
  | (key, now) :: calls => (l.allow hits key now).1.1 :: decisions (l.allow hits key now).2 calls

def live (now : Int) (w : Window) : Bool := decide (now - w.start < l.window.toInt)

/-- A call opens a new window unless one is open, and passes while the window has room. -/
def tick (now : Int) (c : Option Window) : Bool × Option Window :=
  let w := (c.filter (l.live now)).getD ⟨now, 0⟩
  if w.count < l.limit then (true, some ⟨w.start, w.count + 1⟩) else (false, some w)

def counted (c : Key → Option Window) : List (Key × Int) → List Bool
  | [] => []
  | (key, now) :: calls => (l.tick now (c key)).1 :: counted (Function.update c key (l.tick now (c key)).2) calls

/-- How many calls for the key were let through from `lo` on and before `hi`. -/
def passed (key : Key) (lo hi : Int) (calls : List (Key × Int)) (decisions : List Bool) : Nat :=
  (calls.zip decisions).countP fun c => c.2 && decide (c.1.1 = key ∧ lo ≤ c.1.2 ∧ c.1.2 < hi)

/-- From `t` on the map has the counters' windows, but for some that are over. -/
structure Sees (hits : Hits Key) (c : Key → Option Window) (t : Int) : Prop where
  starts : ∀ (k : Key) w, hits[k]? = some w → w.start ≤ t
  agree : ∀ (k : Key) now, t ≤ now → hits[k]?.filter (l.live now) = (c k).filter (l.live now)

variable {l} {hits : Hits Key} {c : Key → Option Window} {t now : Int} {key : Key}

theorem filter_congr {o : Option Window} {p q : Window → Bool} (h : ∀ w, o = some w → p w = q w) :
    o.filter p = o.filter q := by
  cases o with
  | none => rfl
  | some w => rw [Option.filter_some, Option.filter_some, h w rfl]

theorem expired_eq {w : Window} (h : w.start ≤ now) : l.expired now w = !l.live now w := by
  have hmax : l.window.toInt ≤ 9223372036854775807 := l.window.toInt_le
  unfold expired live sub
  rw [← decide_not]
  exact decide_eq_decide.2 (by omega)

theorem Sees.insert (h : l.Sees hits c t) (key : Key) {w : Window} (hw : w.start ≤ t) :
    l.Sees (hits.insert key w) (Function.update c key (some w)) t := by
  constructor
  · intro k v hv
    rw [Std.HashMap.getElem?_insert] at hv
    split at hv
    · cases hv
      exact hw
    · exact h.starts k v hv
  · intro k now hnow
    rw [Std.HashMap.getElem?_insert, Function.update_apply]
    by_cases hk : k = key
    · rw [if_pos hk, if_pos (beq_iff_eq.2 hk.symm)]
    · rw [if_neg hk, if_neg fun he => hk (beq_iff_eq.1 he).symm]
      exact h.agree k now hnow

theorem Sees.evict (h : l.Sees hits c t) (hnow : t ≤ now) : l.Sees (l.evict hits now) c now := by
  unfold RateLimiter.evict
  split
  · have hfilter (k : Key) : (hits.filter fun _ w => !l.expired now w)[k]? = hits[k]?.filter (l.live now) := by
      rw [Std.HashMap.getElem?_filter']
      refine filter_congr fun w hw => ?_
      rw [expired_eq (Int.le_trans (h.starts k w hw) hnow), Bool.not_not]
    constructor
    · intro k w hw
      rw [hfilter] at hw
      exact Int.le_trans (h.starts k w (Option.filter_eq_some_iff.1 hw).1) hnow
    · intro k later hlater
      rw [hfilter, ← h.agree k later (Int.le_trans hnow hlater), Option.filter_filter]
      refine filter_congr fun w _ => ?_
      unfold live
      rw [← Bool.decide_and]
      exact decide_eq_decide.2 (by omega)
  · exact ⟨fun k w hw => Int.le_trans (h.starts k w hw) hnow,
      fun k later hlater => h.agree k later (Int.le_trans hnow hlater)⟩

theorem Sees.allow (h : l.Sees hits c t) (hlimit : 0 < l.limit) (hnow : t ≤ now) (key : Key) :
    (l.allow hits key now).1.1 = (l.tick now (c key)).1 ∧
    l.Sees (l.allow hits key now).2 (Function.update c key (l.tick now (c key)).2) now := by
  have he := h.evict hnow
  unfold RateLimiter.allow tick
  rw [← he.agree key now (Int.le_refl now)]
  generalize l.evict hits now = hits at he
  dsimp only
  cases hk : hits[key]? with
  | none =>
    simp only [Option.filter_none, Option.getD_none, hlimit, if_true]
    exact ⟨trivial, he.insert key (Int.le_refl now)⟩
  | some w =>
    have hstart := he.starts key w hk
    simp only [Option.filter_some, expired_eq hstart]
    cases hl : l.live now w with
    | false =>
      simp only [Bool.not_false, if_true, Bool.false_eq_true, if_false, Option.getD_none, hlimit]
      exact ⟨trivial, he.insert key (Int.le_refl now)⟩
    | true =>
      simp only [Bool.not_true, Bool.false_eq_true, if_false, if_true, Option.getD_some]
      by_cases hfull : l.limit ≤ w.count
      · rw [if_pos hfull, if_neg (Nat.not_lt.2 hfull)]
        refine ⟨rfl, he.starts, fun k later hlater => ?_⟩
        by_cases hkey : k = key
        · rw [hkey, Function.update_self, hk]
        · rw [Function.update_of_ne hkey]
          exact he.agree k later hlater
      · rw [if_neg hfull, if_pos (Nat.lt_of_not_le hfull)]
        exact ⟨rfl, he.insert key hstart⟩

theorem Sees.decisions (hlimit : 0 < l.limit) {calls : List (Key × Int)} (h : l.Sees hits c t)
    (htimes : calls.Pairwise fun a b => a.2 ≤ b.2) (hfrom : ∀ a ∈ calls, t ≤ a.2) :
    l.decisions hits calls = l.counted c calls := by
  induction calls generalizing hits c t with
  | nil => rfl
  | cons a calls ih =>
    obtain ⟨hle, htimes⟩ := pairwise_cons.1 htimes
    obtain ⟨hdecision, hnext⟩ := h.allow hlimit (hfrom a mem_cons_self) a.1
    rw [RateLimiter.decisions, counted, hdecision, ih hnext htimes hle]

/-- `m` calls for the key passed between `lo` and `hi` up to `t`: all in the open window if that began before
`lo`, else at most those of the window before it and those of the open one. -/
structure Within (l : RateLimiter) (lo hi t : Int) (m : Nat) (c : Option Window) : Prop where
  late : m ≠ 0 → lo ≤ t
  fresh : c = none → m = 0
  opened : ∀ w, c = some w → w.start ≤ t ∧ w.count ≤ l.limit ∧ m ≤ 2 * l.limit ∧ (w.start < lo → m ≤ w.count) ∧
    (w.start < hi → m ≤ l.limit + w.count)

theorem Within.of_open {lo hi : Int} {m : Nat} {w : Window} (hlate : m ≠ 0 → lo ≤ t)
    (h : w.start ≤ t ∧ w.count ≤ l.limit ∧ m ≤ 2 * l.limit ∧ (w.start < lo → m ≤ w.count) ∧
      (w.start < hi → m ≤ l.limit + w.count)) : l.Within lo hi t m (some w) where
  late := hlate
  fresh hnone := by cases hnone
  opened w hw := by
    cases hw
    exact h

theorem Within.tick {lo hi : Int} {m : Nat} {c : Option Window} (h : l.Within lo hi t m c) (hnow : t ≤ now)
    (hlen : hi - lo ≤ l.window.toInt) :
    l.Within lo hi now (m + if (l.tick now c).1 && decide (lo ≤ now ∧ now < hi) then 1 else 0)
      (l.tick now c).2 := by
  have hlate := h.late
  unfold RateLimiter.tick
  cases hc : c.filter (l.live now) with
  | some w =>
    have hopened := h.opened w (Option.filter_eq_some_iff.1 hc).1
    simp only [Option.getD_some]
    by_cases hroom : w.count < l.limit
    · simp only [if_pos hroom, Bool.true_and, decide_eq_true_eq]
      split <;> exact .of_open (by omega) (by dsimp only; omega)
    · simp only [if_neg hroom, Bool.false_and, Bool.false_eq_true, if_false]
      exact .of_open (by omega) (by omega)
  | none =>
    -- What passed before is of windows that are over.
    have hover : (now < lo → m = 0) ∧ (now < hi → m ≤ l.limit) ∧ m ≤ 2 * l.limit := by
      cases c with
      | none =>
        have hm := h.fresh rfl
        omega
      | some w =>
        have hopened := h.opened w rfl
        have hlive : ¬ now - w.start < l.window.toInt := by simpa [Option.filter, live] using hc
        omega
    simp only [Option.getD_none]
    by_cases hroom : 0 < l.limit
    · simp only [if_pos hroom, Bool.true_and, decide_eq_true_eq]
      split <;> exact .of_open (by omega) (by dsimp only; omega)
    · simp only [if_neg hroom, Bool.false_and, Bool.false_eq_true, if_false]
      exact .of_open (by omega) (by dsimp only; omega)

theorem Within.later {lo hi : Int} {m : Nat} {c : Option Window} (h : l.Within lo hi t m c) (hnow : t ≤ now) :
    l.Within lo hi now m c where
  late hm := Int.le_trans (h.late hm) hnow
  fresh := h.fresh
  opened w hw := by
    obtain ⟨hstart, hrest⟩ := h.opened w hw
    exact ⟨Int.le_trans hstart hnow, hrest⟩

omit [Hashable Key] in
theorem Within.passed {lo hi : Int} {m : Nat} {calls : List (Key × Int)} (h : l.Within lo hi t m (c key))
    (hlen : hi - lo ≤ l.window.toInt) (htimes : calls.Pairwise fun a b => a.2 ≤ b.2) (hfrom : ∀ a ∈ calls, t ≤ a.2) :
    m + passed key lo hi calls (l.counted c calls) ≤ 2 * l.limit := by
  induction calls generalizing c t m with
  | nil =>
    show m ≤ 2 * l.limit
    cases hc : c key with
    | none =>
      rw [h.fresh hc]
      exact Nat.zero_le _
    | some w => exact (h.opened w hc).2.2.1
  | cons a calls ih =>
    obtain ⟨hle, htimes⟩ := pairwise_cons.1 htimes
    have hnow := hfrom a mem_cons_self
    rw [counted, RateLimiter.passed, zip_cons_cons, countP_cons, ← RateLimiter.passed]
    by_cases hkey : a.1 = key
    · have hnext := h.tick hnow hlen
      rw [← Function.update_self key (l.tick a.2 (c key)).2 c] at hnext
      have hrest := ih hnext htimes hle
      rw [hkey]
      simp only [true_and]
      omega
    · have hsame := h.later hnow
      rw [← Function.update_of_ne (Ne.symm hkey) (l.tick a.2 (c a.1)).2 c] at hsame
      have hrest := ih hsame htimes hle
      rw [decide_eq_false fun hin => hkey hin.1, Bool.and_false]
      exact hrest

/-- The limiter decides as a counter for each key would that nobody drops, and lets through at most twice the
limit for a key in any interval no longer than the window. -/
theorem decisions_fixed_window (l : RateLimiter) (hlimit : 0 < l.limit) (calls : List (Key × Int))
    (htimes : calls.Pairwise fun a b => a.2 ≤ b.2) :
    l.decisions ∅ calls = l.counted (fun _ => none) calls ∧
    ∀ (key : Key) (lo hi : Int), hi - lo ≤ l.window.toInt → passed key lo hi calls (l.decisions ∅ calls) ≤ 2 * l.limit := by
  obtain ⟨t, hfrom⟩ : ∃ t, ∀ a ∈ calls, t ≤ a.2 := by
    cases calls with
    | nil => exact ⟨0, by simp⟩
    | cons a calls =>
      refine ⟨a.2, fun b hb => ?_⟩
      obtain rfl | hb := mem_cons.1 hb
      · exact Int.le_refl _
      · exact (pairwise_cons.1 htimes).1 b hb
  have hnew : l.Sees (∅ : Hits Key) (fun _ => none) t := ⟨by simp, by simp⟩
  have hsame := hnew.decisions hlimit htimes hfrom
  refine ⟨hsame, fun key lo hi hlen => ?_⟩
  have hfresh : l.Within lo hi t 0 none := ⟨fun h => absurd rfl h, fun _ => rfl, by simp⟩
  rw [hsame, ← Nat.zero_add (passed ..)]
  exact Within.passed hfresh hlen htimes hfrom

/-- The limit is two; the last call is after the window. -/
theorem decisions_fixed_window_four :
    (RateLimiter.mk 2 60).decisions ∅ [(7, 0), (7, 10), (7, 20), (7, 60)] = [true, true, false, true] := by
  rw [(decisions_fixed_window ⟨2, 60⟩ (by decide) [(7, 0), (7, 10), (7, 20), (7, 60)] (by decide)).1]
  decide

end RateLimiter
end Dbr2.Auth
