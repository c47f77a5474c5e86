import Mathlib.Data.List.Induction
import Dbr2.Auth.Totp

/-! How fast a password can be guessed.

The failures counted since the last success or reset are spaced by the locks: the one after `k` of
them is evaluated only when the lock that the `k`-th has set is over. The database keeps the end of
a lock to the microsecond, so a lock may end up to 999 nanoseconds before its duration has passed,
and the counter is an int32. -/
namespace Dbr2.Auth
open Lib List

/-- Times of counted failures, newest first, each not before the lock that the one before it has
set is over. -/
def Spaced : List Int → Prop
  | t :: u :: fs => u ≤ t ∧ u + lockDuration (u :: fs).length ≤ t + 999 ∧ Spaced (u :: fs)
  | _ => True

def lockSum : Nat → Int
  | 0 => 0
  | n + 1 => lockSum n + lockDuration (n + 1 : Nat)

def lockAfter : List Int → Option Int
  | [] => none
  | t :: fs =>
    if 0 < lockDuration (t :: fs).length then some (timestamptz (t + lockDuration (t :: fs).length)) else none

def Event.time : Event → Option Int
  | .start _ now => some now
  | _ => none

variable {env : Env} {s s' : Account} {e : Event} {now : Int} {r : Credential} {ts fs : List Int}

theorem int32_of_lt {n : Nat} (h : n < 2147483648) : int32 n = n := by
  have hmod : (n : Int) % 4294967296 = n := by omega
  unfold int32 Int.bmod
  rw [show ((4294967296 : Nat) : Int) = 4294967296 from rfl, hmod]
  exact if_pos (by omega)

theorem Spaced.cons (h : Spaced fs) (hle : ∀ f ∈ fs, f ≤ now) (hl : r.lockedUntil = lockAfter fs)
    (hopen : r.lockedAt now = false) : Spaced (now :: fs) := by
  cases fs with
  | nil => trivial
  | cons u fs =>
    have hu := hle u mem_cons_self
    refine ⟨hu, ?_, h⟩
    by_cases hpos : 0 < lockDuration (u :: fs).length
    · rw [Credential.lockedAt, hl, lockAfter, if_pos hpos] at hopen
      have hover := Int.not_lt.1 (of_decide_eq_false hopen)
      unfold timestamptz at hover
      omega
    · omega

theorem Spaced.elapsed (h : Spaced (now :: fs)) :
    lockSum fs.length ≤ now - (now :: fs).getLast (by simp) + 999 * fs.length := by
  induction fs generalizing now with
  | nil => simp [lockSum]
  | cons u fs ih =>
    have hrest := ih h.2.2
    have hgap := h.2.1
    rw [getLast_cons (by simp)]
    simp only [length_cons, lockSum] at hgap ⊢
    push_cast at hgap ⊢
    omega

/-- After the times `ts`: the call that holds the row has read one of them, not before any
failure that counts, and the row has the count and the lock of the failures. -/
structure Counting (ts : List Int) (s : Account) : Prop where
  holder : ∀ c now, s.holder = some (c, now) → now ∈ ts ∧ ∀ f ∈ s.failures, f ≤ now
  failures : ∀ f ∈ s.failures, f ∈ ts
  count : s.failures.length < 2147483648 →
    s.row.failedAttempts = s.failures.length ∧ s.row.lockedUntil = lockAfter s.failures ∧ Spaced s.failures

theorem counting_create (hash : String) : Counting [] (.create hash) :=
  ⟨fun _ _ h => (nomatch h), fun _ h => (nomatch h), fun _ => ⟨rfl, rfl, trivial⟩⟩

theorem Counting.moves {c : Call} {r' : Credential} {o : Outcome} (h : Counting ts s)
    (hc : s.holder = some (c, now)) (hm : Moves env c now s.row r' o)
    (hlen : (o.counted now s.failures).length < 2147483648) :
    r'.failedAttempts = (o.counted now s.failures).length ∧ r'.lockedUntil = lockAfter (o.counted now s.failures) ∧
      Spaced (o.counted now s.failures) := by
  cases hm with
  | kept _ hf =>
    rw [hf] at hlen ⊢
    exact h.count hlen
  | failed _ hopen hf =>
    rw [hf] at hlen ⊢
    obtain ⟨hn, hl, hspaced⟩ := h.count (by simp at hlen; omega)
    have hnext : s.row.failedAttempts + 1 = (now :: s.failures).length := by simp [hn]
    refine ⟨?_, ?_, hspaced.cons (h.holder _ _ hc).2 hl hopen⟩
    · show int32 (s.row.failedAttempts + 1) = _
      rw [hnext, int32_of_lt hlen]
    · show (if 0 < lockDuration (s.row.failedAttempts + 1) then
        some (timestamptz (now + lockDuration (s.row.failedAttempts + 1))) else none) = _
      rw [hnext]
      rfl
  | loggedIn | loggedInTOTP | changed => exact ⟨rfl, rfl, trivial⟩
  | confirmed | disabled => exact h.count hlen
  | @reset password hash disable _ =>
    cases disable
    · exact ⟨rfl, rfl, trivial⟩
    · exact ⟨rfl, rfl, trivial⟩

theorem mem_counted {o : Outcome} {f : Int} (h : f ∈ o.counted now fs) : f = now ∨ f ∈ fs := by
  unfold Outcome.counted at h
  split at h
  · exact mem_cons.1 h
  · exact mem_cons.1 h
  · cases h
  · cases h
  · cases h
  · exact .inr h

theorem Counting.effect (h : Counting ts s) (he : Effect env s s' e) (hts : ∀ t ∈ e.time, ∀ u ∈ ts, u ≤ t) :
    Counting (ts ++ e.time.toList) s' := by
  have hmem : ∀ {t}, t ∈ ts → t ∈ ts ++ e.time.toList := fun ht => mem_append_left _ ht
  cases he with
  | quiet hr _ _ hf hh =>
    refine ⟨fun c now hc => ?_, hf ▸ fun f hfs => hmem (h.failures f hfs), hr ▸ hf ▸ h.count⟩
    rw [hf]
    rcases hh c now hc with hold | rfl
    · exact ⟨hmem (h.holder c now hold).1, (h.holder c now hold).2⟩
    · exact ⟨by simp [Event.time], fun f hfs => hts now rfl f (h.failures f hfs)⟩
  | began _ hr _ _ hf hh =>
    refine ⟨fun c now hc => ?_, hf ▸ fun f hfs => hmem (h.failures f hfs), ?_⟩
    · rw [hh] at hc
      exact ⟨hmem (h.holder c now hc).1, hf ▸ (h.holder c now hc).2⟩
    · rw [hr, hf]
      exact h.count
  | @ended c now o hc hm _ _ hf hh =>
    refine ⟨fun c now hc' => ?_, fun f hfs => ?_, fun hlen => ?_⟩
    · rw [hh] at hc'
      cases hc'
    · rw [hf] at hfs
      rcases mem_counted hfs with rfl | hold
      · exact hmem (h.holder c f hc).1
      · exact hmem (h.failures f hold)
    · rw [hf] at hlen ⊢
      exact h.moves hc hm hlen

/-- The row counts the failures of every run. -/
theorem counting_run (env : Env) (hash : String) (es : List Event)
    (hes : (es.filterMap Event.time).Pairwise (· ≤ ·)) :
    Counting (es.filterMap Event.time) (run (Account.step env) (.create hash) es) := by
  induction es using List.reverseRecOn with
  | nil => exact counting_create hash
  | append_singleton es e ih =>
    rw [filterMap_append] at hes ⊢
    obtain ⟨hbefore, -, hafter⟩ := pairwise_append.1 hes
    have htime : [e].filterMap Event.time = e.time.toList := by
      cases e <;> rfl
    rw [htime] at hafter ⊢
    rw [run_append]
    exact (ih hbefore).effect (effect_step env _ e) fun t ht u hu => hafter u hu t (Option.mem_toList.2 ht)

/-- A login that finds the account locked: the row and the count stay, and the answer is the
same for every password, code and check of them. -/
def LockedUnread (env : Env) (s : Account) : Prop :=
  ∀ al u p t now, s.holder = some (.loginPassword al u p t, now) → s.row.lockedAt now = true →
    (s.step env .finish).row = s.row ∧ (s.step env .finish).failures = s.failures ∧
      ∀ env' p' t', handle env' (.loginPassword al u p' t') now s.row = handle env (.loginPassword al u p t) now s.row

/-- A code that is none of the active secret or is not past its last step counts as a failure. -/
def CodesCounted (env : Env) (s : Account) : Prop :=
  ∀ al u p t now secret, s.holder = some (.loginPassword al u p t, now) → s.row.lockedAt now = false →
    env.verify p s.row.passwordHash = some true → s.row.totpEnabled = true → s.row.active = some secret → t ≠ "" →
    (∀ step, matchTOTP env secret t now = some step → step ≤ s.row.totpLastStep) →
      (s.step env .finish).failures = now :: s.failures ∧
        (s.step env .finish).row.failedAttempts = int32 (s.row.failedAttempts + 1)

theorem step_finish {c : Call} (h : s.holder = some (c, now)) : s.step env .finish = s.finish env c now := by
  show (s.holder.elim s fun x => s.finish env x.1 x.2) = _
  rw [h]
  rfl

theorem login_locked {p t : String} (h : r.lockedAt now = true) :
    login env p t now r = ⟨r, [⟨.loginLocked, .denied, "account locked", .empty⟩],
      .ok (.refused (.locked (r.lockedUntil.getD now - now)))⟩ := if_pos h

theorem lockedUnread (env : Env) (s : Account) : LockedUnread env s := by
  intro al u p t now hh hl
  rw [step_finish hh]
  refine ⟨?_, ?_, fun env' p' t' => (login_locked hl).trans (login_locked hl).symm⟩
  · show (inTx s.row (login env p t now s.row)).1 = s.row
    rw [login_locked hl]
    rfl
  · show (login env p t now s.row).result.toOption.elim s.failures (Outcome.counted now s.failures) = s.failures
    rw [login_locked hl]
    rfl

theorem secondFactor_refused {t : String} {secret : Nat} (ha : r.active = some secret) (ht : t ≠ "")
    (hm : ∀ step, matchTOTP env secret t now = some step → step ≤ r.totpLastStep) :
    ∃ reason, secondFactor env t now r = loginFailure now reason .invalidTOTP r := by
  unfold secondFactor
  rw [if_neg ht, ha]
  dsimp only
  cases hmatch : matchTOTP env secret t now with
  | none => exact ⟨_, rfl⟩
  | some step =>
    have hold : ¬ r.totpLastStep < step := by
      have := hm step hmatch
      omega
    exact ⟨"replayed TOTP code", by simp [Credential.advanceTOTPStep, hold]⟩

theorem login_unlocked {p t : String} (hl : r.lockedAt now = false) (hv : env.verify p r.passwordHash = some true)
    (ht : r.totpEnabled = true) : login env p t now r = secondFactor env t now r := by
  unfold login
  rw [hl, hv, ht]
  rfl

theorem codesCounted (env : Env) (s : Account) : CodesCounted env s := by
  intro al u p t now secret hh hl hv ht ha hne hm
  obtain ⟨reason, hfail⟩ := secondFactor_refused ha hne hm
  have hwork : handle env (.loginPassword al u p t) now s.row = loginFailure now reason .invalidTOTP s.row :=
    (login_unlocked hl hv ht).trans hfail
  rw [step_finish hh, Account.finish, hwork]
  exact ⟨rfl, rfl⟩

/-- In every run at non-decreasing times, as long as fewer than 2^31 failures count: each was
evaluated when the lock of the one before it was over, to the microsecond, and the time
from the first to the last is that of the locks between. Attempts during a lock read
nothing and change nothing, and a wrong or replayed code counts. -/
theorem lockout_bound (env : Env) (hash : String) (es : List Event)
    (hes : (es.filterMap Event.time).Pairwise (· ≤ ·)) :
    let s := run (Account.step env) (.create hash) es
    (s.failures.length < 2147483648 → Spaced s.failures ∧
      ∀ t fs, s.failures = t :: fs → lockSum fs.length ≤ t - (t :: fs).getLast (by simp) + 999 * fs.length) ∧
    LockedUnread env s ∧ CodesCounted env s := by
  intro s
  refine ⟨fun hlen => ?_, lockedUnread env s, codesCounted env s⟩
  have hspaced := ((counting_run env hash es hes).count hlen).2.2
  refine ⟨hspaced, fun t fs hfs => ?_⟩
  have hspaced' : Spaced s.failures := hspaced
  rw [hfs] at hspaced'
  exact hspaced'.elapsed

def guess (now : Int) : List Event := [.start (.loginPassword true "admin" "wrong" "") now, .finish]

def guesses : List Event :=
  guess 999 ++ guess 999 ++ guess 999 ++ guess 999 ++ guess 999 ++ guess 60000000000

theorem lockout_bound_guesses : (run (Account.step sampleEnv) (.create "secret") guesses).failures.length = 6 ∧
    Spaced (run (Account.step sampleEnv) (.create "secret") guesses).failures :=
  ⟨by decide, ((lockout_bound sampleEnv "secret" guesses (by decide)).1 (by decide)).1⟩

/-- The sixth guess is evaluated before the lock of one minute that the fifth has set has
lasted for a minute. -/
theorem lock_ends_early : (guesses.filterMap Event.time).Pairwise (· ≤ ·) ∧
    (run (Account.step sampleEnv) (.create "secret") guesses).failures = [60000000000, 999, 999, 999, 999, 999] ∧
    60000000000 < 999 + lockDuration 5 := by decide

end Dbr2.Auth
