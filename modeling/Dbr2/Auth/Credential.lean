import Dbr2.Lib.Run

/-! The local account: its credential row and the calls that read and write it
(`internal/auth/service.go`, `lockout.go`, `totp.go`, `db/queries/credentials.sql`).

LoginPassword, ChangePassword, ConfirmTOTP and DisableTOTP each run in one transaction that takes
the row with `FOR UPDATE` before it reads the clock and keeps it to its end; ResetMasterPassword
takes it with its first UPDATE, and BeginTOTP writes it with a single statement that waits for it.
So between `start` and the end of a transaction nobody else changes the row, and `handle` says what
the transaction does with it. -/
namespace Dbr2.Auth
open Lib

/-- Durations and instants are counted in nanoseconds. -/
def second : Int := 1000000000

def lockoutThreshold : Int := 5
def lockoutBase : Nat := 60000000000
def lockoutMax : Nat := 3600000000000

/-- `LockDuration`: doubles with each failure from the threshold on, up to an hour. -/
def lockDuration (failures : Int) : Int :=
  if failures < lockoutThreshold then 0
  else (min (lockoutBase <<< (min (failures - lockoutThreshold) 10).toNat) lockoutMax : Nat)

/-- The database keeps instants to the microsecond. -/
def timestamptz (t : Int) : Int := t / 1000 * 1000

/-- The conversion wraps around. -/
def int32 (n : Int) : Int := n.bmod 4294967296

/-- What the calls take from outside the credential: the codes of a secret at a time step, the
password hash, the account's name and the password policy. -/
structure Env where
  generate : Nat → Int → Option String
  verify : String → String → Option Bool
  username : String
  equalFold : String → String → Bool
  policy : String → String → Bool

variable (env : Env)

def totpPeriod : Int := 30

/-- The time step at which the code is one of the secret's, of the current step and the two
beside it. -/
def matchTOTP (secret : Nat) (code : String) (now : Int) : Option Int :=
  if code.utf8ByteSize ≠ 6 then none
  else
    let current := (now / second).tdiv totpPeriod
    [current - 1, current, current + 1].find? fun step => env.generate secret step == some code

inductive Purpose
  | pending
  | active
  deriving DecidableEq

/-- A TOTP secret in the database, sealed for one purpose. -/
structure Sealed where
  purpose : Purpose
  secret : Nat
  deriving DecidableEq

/-- A sealed value opens only for its own purpose. -/
def Sealed.open? (p : Purpose) (s : Sealed) : Option Nat := if s.purpose = p then some s.secret else none

/-- The row of the local account. -/
structure Credential where
  passwordHash : String
  failedAttempts : Int
  lockedUntil : Option Int
  (totpSecretEnc totpPendingSecretEnc : Option Sealed)
  totpEnabled : Bool
  totpLastStep : Int
  deriving DecidableEq

namespace Credential

def create (hash : String) : Credential := ⟨hash, 0, none, none, none, false, 0⟩

def recordLoginFailure (n : Int) (til : Option Int) (r : Credential) : Credential :=
  {r with failedAttempts := n, lockedUntil := til}

def resetLoginFailures (r : Credential) : Credential := {r with failedAttempts := 0, lockedUntil := none}

def updatePassword (hash : String) (r : Credential) : Credential :=
  {r with passwordHash := hash, failedAttempts := 0, lockedUntil := none}

def setPendingTOTP (s : Sealed) (r : Credential) : Credential := {r with totpPendingSecretEnc := some s}

/-- The pending secret becomes the active one. -/
def enableTOTP (step : Int) (r : Credential) : Credential :=
  if r.totpPendingSecretEnc.isSome then
    {r with
      totpSecretEnc := r.totpPendingSecretEnc
      totpPendingSecretEnc := none
      totpEnabled := true
      totpLastStep := step}
  else r

def disableTOTP (r : Credential) : Credential :=
  {r with totpSecretEnc := none, totpPendingSecretEnc := none, totpEnabled := false, totpLastStep := 0}

/-- The UPDATE that finds no row when the step was used before. -/
def advanceTOTPStep (step : Int) (r : Credential) : Option Credential :=
  if r.totpLastStep < step then some {r with totpLastStep := step} else none

def active (r : Credential) : Option Nat := r.totpSecretEnc.bind (·.open? .active)

def pending (r : Credential) : Option Nat := r.totpPendingSecretEnc.bind (·.open? .pending)

/-- The account is locked at that time. -/
def lockedAt (now : Int) (r : Credential) : Bool := r.lockedUntil.any fun t => decide (now < t)

end Credential

inductive EventType
  | loginRateLimited
  | loginLocked
  | loginFailed
  | loginSucceeded
  | passwordChanged
  | totpEnabled
  | totpDisabled
  | masterAdminPasswordReset
  deriving DecidableEq

inductive AuditResult
  | success
  | failure
  | denied
  deriving DecidableEq

/-- The details of an audit record. -/
inductive Details
  | empty
  | failure (failedAttempts : Int) (locked : Bool)
  | login (totp : Bool)
  | reset (totpDisabled : Bool)
  deriving DecidableEq

structure Record where
  type : EventType
  result : AuditResult
  reason : String
  details : Details
  deriving DecidableEq

inductive AuthError
  | rateLimited
  | invalidCredentials
  | locked (retryAfter : Int)
  | totpRequired
  | invalidTOTP
  | totpNotPending
  | wrongCurrentPassword
  | weakPassword
  /-- A stored hash or secret that cannot be read. -/
  | internal
  deriving DecidableEq

/-- What a call does that returns no error from its transaction. With it goes the code it has
accepted, as secret and time step. -/
inductive Outcome
  | refused (e : AuthError)
  | session (code : Option (Nat × Int))
  | passwordChanged
  | totpEnabled (code : Nat × Int)
  | totpDisabled (code : Option (Nat × Int))
  | passwordReset
  deriving DecidableEq

def Outcome.accepted : Outcome → Option (Nat × Int)
  | .session code | .totpDisabled code => code
  | .totpEnabled code => some code
  | _ => none

/-- The times of the failures counted since the last success or reset, newest first. -/
def Outcome.counted (now : Int) (fs : List Int) : Outcome → List Int
  | .refused .invalidCredentials | .refused .invalidTOTP => now :: fs
  | .session _ | .passwordChanged | .passwordReset => []
  | _ => fs

/-- A call with its arguments. Of LoginPassword also what the rate limiter says of its
address, and of the calls that set a password the hash that is made of it. -/
inductive Call
  | loginPassword (allowed : Bool) (username password totpCode : String)
  | changePassword (current next hash : String)
  | confirmTOTP (code : String)
  | disableTOTP (code : String)
  | resetMasterPassword (password hash : String) (disable : Bool)
  deriving DecidableEq

/-- A call that ends before it needs the credential: its records and its error. -/
def entry : Call → Option (List Record × AuthError)
  | .loginPassword allowed username _ _ =>
    if !allowed then some ([⟨.loginRateLimited, .denied, "", .empty⟩], .rateLimited)
    else if !env.equalFold env.username username then
      some ([⟨.loginFailed, .failure, "unknown username", .empty⟩], .invalidCredentials)
    else none
  | .changePassword _ next _ => if env.policy next env.username then none else some ([], .weakPassword)
  | .resetMasterPassword next _ _ => if env.policy next env.username then none else some ([], .weakPassword)
  | _ => none

/-- What a transaction leaves: the row, its audit records and the answer. -/
structure Done where
  row : Credential
  records : List Record
  result : Except AuthError Outcome

def Done.aborted (r : Credential) (e : AuthError) : Done := ⟨r, [], .error e⟩

/-- `fail`: counts the failure and sets the lock. -/
def loginFailure (now : Int) (reason : String) (e : AuthError) (r : Credential) : Done :=
  let n := r.failedAttempts + 1
  let til := if 0 < lockDuration n then some (timestamptz (now + lockDuration n)) else none
  ⟨r.recordLoginFailure (int32 n) til, [⟨.loginFailed, .failure, reason, .failure n til.isSome⟩], .ok (.refused e)⟩

def loginSuccess (totp : Bool) (code : Option (Nat × Int)) (r : Credential) : Done :=
  ⟨r.resetLoginFailures, [⟨.loginSucceeded, .success, "", .login totp⟩], .ok (.session code)⟩

/-- `LoginPassword` once the password was right. -/
def secondFactor (totpCode : String) (now : Int) (r : Credential) : Done :=
  if totpCode = "" then ⟨r, [], .ok (.refused .totpRequired)⟩
  else match r.active with
    | none => .aborted r .internal
    | some secret => match matchTOTP env secret totpCode now with
      | none => loginFailure now "wrong TOTP code" .invalidTOTP r
      | some step => match r.advanceTOTPStep step with
        | none => loginFailure now "replayed TOTP code" .invalidTOTP r
        | some r' => loginSuccess true (some (secret, step)) r'

/-- `LoginPassword` under the row lock. -/
def login (password totpCode : String) (now : Int) (r : Credential) : Done :=
  if r.lockedAt now then
    ⟨r, [⟨.loginLocked, .denied, "account locked", .empty⟩], .ok (.refused (.locked (r.lockedUntil.getD now - now)))⟩
  else match env.verify password r.passwordHash with
    | none => .aborted r .internal
    | some false => loginFailure now "wrong password" .invalidCredentials r
    | some true => if r.totpEnabled then secondFactor env totpCode now r else loginSuccess false none r

/-- A wrong current password is no login failure. -/
def changePassword (current hash : String) (r : Credential) : Done :=
  match env.verify current r.passwordHash with
  | none => .aborted r .internal
  | some false => ⟨r, [⟨.passwordChanged, .failure, "current password incorrect", .empty⟩], .error .wrongCurrentPassword⟩
  | some true => ⟨r.updatePassword hash, [⟨.passwordChanged, .success, "", .empty⟩], .ok .passwordChanged⟩

/-- The first code enables the factor. -/
def confirmTOTP (code : String) (now : Int) (r : Credential) : Done :=
  if r.totpPendingSecretEnc = none then .aborted r .totpNotPending
  else match r.pending with
    | none => .aborted r .internal
    | some secret => match matchTOTP env secret code now with
      | none => .aborted r .invalidTOTP
      | some step => ⟨(r.setPendingTOTP ⟨.active, secret⟩).enableTOTP step, [⟨.totpEnabled, .success, "", .empty⟩],
          .ok (.totpEnabled (secret, step))⟩

def disableTOTP (code : String) (now : Int) (r : Credential) : Done :=
  if !r.totpEnabled then ⟨r, [], .ok (.totpDisabled none)⟩
  else match r.active with
    | none => .aborted r .internal
    | some secret => match matchTOTP env secret code now with
      | none => .aborted r .invalidTOTP
      | some step =>
        if step ≤ r.totpLastStep then .aborted r .invalidTOTP
        else ⟨r.disableTOTP, [⟨.totpDisabled, .success, "", .empty⟩], .ok (.totpDisabled (some (secret, step)))⟩

/-- The offline reset, which may disable the factor. -/
def resetMasterPassword (hash : String) (disable : Bool) (r : Credential) : Done :=
  let r := r.updatePassword hash
  ⟨if disable then r.disableTOTP else r,
    [⟨.masterAdminPasswordReset, .success, "offline reset on the server host", .reset disable⟩], .ok .passwordReset⟩

/-- The transaction of a call. -/
def handle (c : Call) (now : Int) (r : Credential) : Done :=
  match c with
  | .loginPassword _ _ password totpCode => login env password totpCode now r
  | .changePassword current _ hash => changePassword env current hash r
  | .confirmTOTP code => confirmTOTP env code now r
  | .disableTOTP code => disableTOTP env code now r
  | .resetMasterPassword _ hash disable => resetMasterPassword hash disable r

/-- The end of a transaction: what is left of the row and of the records. -/
def inTx (r : Credential) (d : Done) : Credential × List Record :=
  match d.result with
  | .ok _ => (d.row, d.records)
  | .error _ => (r, [])

/-- The transaction of a call that returns no error: the row it leaves and what it says. -/
inductive Moves (c : Call) (now : Int) (r : Credential) : Credential → Outcome → Prop
  | kept {o : Outcome} (ha : o.accepted = none) (hf : ∀ fs, o.counted now fs = fs) : Moves c now r r o
  | failed {al : Bool} {u p t reason : String} {e : AuthError} (hc : c = .loginPassword al u p t)
      (hl : r.lockedAt now = false) (hf : ∀ fs, Outcome.counted now fs (.refused e) = now :: fs) :
      Moves c now r (loginFailure now reason e r).row (.refused e)
  | loggedIn {al : Bool} {u p t : String} (hc : c = .loginPassword al u p t)
      (hl : r.lockedAt now = false) (ht : r.totpEnabled = false) :
      Moves c now r r.resetLoginFailures (.session none)
  | loggedInTOTP {al : Bool} {u p t : String} {secret : Nat} {step : Int} (hc : c = .loginPassword al u p t)
      (hl : r.lockedAt now = false) (ht : r.totpEnabled = true) (ha : r.active = some secret)
      (hm : matchTOTP env secret t now = some step) (hlast : r.totpLastStep < step) :
      Moves c now r (Credential.resetLoginFailures {r with totpLastStep := step}) (.session (some (secret, step)))
  | changed {current next hash : String} (hc : c = .changePassword current next hash) :
      Moves c now r (r.updatePassword hash) .passwordChanged
  | confirmed {code : String} {secret : Nat} {step : Int} (hc : c = .confirmTOTP code)
      (hp : r.pending = some secret) (hm : matchTOTP env secret code now = some step) :
      Moves c now r {r with
          totpSecretEnc := some ⟨.active, secret⟩
          totpPendingSecretEnc := none
          totpEnabled := true
          totpLastStep := step}
        (.totpEnabled (secret, step))
  | disabled {code : String} {secret : Nat} {step : Int} (hc : c = .disableTOTP code)
      (ht : r.totpEnabled = true) (ha : r.active = some secret)
      (hm : matchTOTP env secret code now = some step) (hlast : r.totpLastStep < step) :
      Moves c now r r.disableTOTP (.totpDisabled (some (secret, step)))
  | reset {password hash : String} {disable : Bool} (hc : c = .resetMasterPassword password hash disable) :
      Moves c now r (if disable then (r.updatePassword hash).disableTOTP else r.updatePassword hash) .passwordReset

variable {env} {c : Call} {now : Int} {r : Credential} {o : Outcome}

theorem moves_secondFactor {al : Bool} {u p t : String} (hl : r.lockedAt now = false) (ht : r.totpEnabled = true)
    (h : (secondFactor env t now r).result = .ok o) :
    Moves env (.loginPassword al u p t) now r (secondFactor env t now r).row o := by
  unfold secondFactor at h ⊢
  split
  · rename_i hcode
    rw [if_pos hcode] at h
    cases h
    exact .kept rfl fun _ => rfl
  rename_i hcode
  rw [if_neg hcode] at h
  cases ha : r.active with
  | none => rw [ha] at h; cases h
  | some secret =>
    rw [ha] at h
    cases hm : matchTOTP env secret t now with
    | none => simp only [hm] at h ⊢; cases h; exact .failed rfl hl fun _ => rfl
    | some step =>
      simp only [hm] at h ⊢
      unfold Credential.advanceTOTPStep at h ⊢
      by_cases hlast : r.totpLastStep < step
      · simp only [if_pos hlast] at h ⊢; cases h; exact .loggedInTOTP rfl hl ht ha hm hlast
      · simp only [if_neg hlast] at h ⊢; cases h; exact .failed rfl hl fun _ => rfl

theorem moves_login {al : Bool} {u p t : String} (h : (login env p t now r).result = .ok o) :
    Moves env (.loginPassword al u p t) now r (login env p t now r).row o := by
  unfold login at h ⊢
  cases hl : r.lockedAt now with
  | true => rw [hl] at h; cases h; exact .kept rfl fun _ => rfl
  | false =>
    rw [hl] at h
    cases hv : env.verify p r.passwordHash with
    | none => rw [hv] at h; cases h
    | some ok =>
      cases ok with
      | false => simp only [hv] at h ⊢; cases h; exact .failed rfl hl fun _ => rfl
      | true =>
        simp only [hv] at h ⊢
        cases ht : r.totpEnabled with
        | false => simp only [ht] at h ⊢; cases h; exact .loggedIn rfl hl ht
        | true => simp only [ht] at h ⊢; exact moves_secondFactor hl ht h

theorem moves_changePassword {current next hash : String} (h : (changePassword env current hash r).result = .ok o) :
    Moves env (.changePassword current next hash) now r (changePassword env current hash r).row o := by
  unfold changePassword at h ⊢
  split at h
  · cases h
  · cases h
  · cases h
    exact .changed rfl

theorem moves_confirmTOTP {code : String} (h : (confirmTOTP env code now r).result = .ok o) :
    Moves env (.confirmTOTP code) now r (confirmTOTP env code now r).row o := by
  unfold confirmTOTP at h ⊢
  split at h
  · cases h
  rename_i hnone
  rw [if_neg hnone]
  cases hp : r.pending with
  | none => rw [hp] at h; cases h
  | some secret =>
    rw [hp] at h
    cases hm : matchTOTP env secret code now with
    | none => simp only [hm] at h; cases h
    | some step => simp only [hm] at h ⊢; cases h; exact .confirmed rfl hp hm

theorem moves_disableTOTP {code : String} (h : (disableTOTP env code now r).result = .ok o) :
    Moves env (.disableTOTP code) now r (disableTOTP env code now r).row o := by
  unfold disableTOTP at h ⊢
  cases ht : r.totpEnabled with
  | false => rw [ht] at h; cases h; exact .kept rfl fun _ => rfl
  | true =>
    rw [ht] at h
    cases ha : r.active with
    | none => rw [ha] at h; cases h
    | some secret =>
      rw [ha] at h
      cases hm : matchTOTP env secret code now with
      | none => simp only [hm] at h; cases h
      | some step =>
        simp only [hm] at h ⊢
        by_cases hlast : step ≤ r.totpLastStep
        · rw [if_pos hlast] at h; cases h
        rw [if_neg hlast] at h ⊢
        cases h
        exact .disabled rfl ht ha hm (by omega)

theorem moves_handle (h : (handle env c now r).result = .ok o) : Moves env c now r (handle env c now r).row o := by
  cases c with
  | loginPassword al u p t => exact moves_login h
  | changePassword current next hash => exact moves_changePassword h
  | confirmTOTP code => exact moves_confirmTOTP h
  | disableTOTP code => exact moves_disableTOTP h
  | resetMasterPassword password hash disable => cases h; exact .reset rfl

/-- The account: the row, the call that holds it with the time it has read, and the audit log.
Beside them stands the history the results are about: the secrets generated, the codes
accepted and the failures counted. -/
structure Account where
  row : Credential
  holder : Option (Call × Int)
  log : List Record
  generated : List Nat
  accepted : List (Nat × Int)
  failures : List Int

def Account.create (hash : String) : Account := ⟨.create hash, none, [], [], [], []⟩

/-- A call is two events: it takes the row lock, and it ends. -/
inductive Event
  | start (c : Call) (now : Int)
  | finish
  | fail
  | beginTOTP (secret : Nat)
  | ensureMasterAdmin
  deriving DecidableEq

variable (env)

def Account.start (s : Account) (c : Call) (now : Int) : Account :=
  match entry env c with
  | some x => {s with log := s.log ++ x.1}
  | none => if s.holder.isNone then {s with holder := some (c, now)} else s

/-- The end of a call that holds the row, when the database does what it is told. -/
def Account.finish (s : Account) (c : Call) (now : Int) : Account :=
  let d := handle env c now s.row
  let t := inTx s.row d
  {s with
    row := t.1
    holder := none
    log := s.log ++ t.2
    accepted := (d.result.toOption.bind Outcome.accepted).toList ++ s.accepted
    failures := d.result.toOption.elim s.failures (Outcome.counted now s.failures)}

/-- Generated secrets are pairwise different. -/
def Account.step (s : Account) : Event → Account
  | .start c now => s.start env c now
  | .finish => s.holder.elim s fun x => s.finish env x.1 x.2
  | .fail => {s with holder := none}
  | .beginTOTP secret =>
    if s.holder.isNone ∧ secret ∉ s.generated then
      {s with row := s.row.setPendingTOTP ⟨.pending, secret⟩, generated := secret :: s.generated}
    else s
  | .ensureMasterAdmin => s

/-- All that an event can do to the account. -/
inductive Effect (s s' : Account) : Event → Prop
  | quiet {e : Event} (hr : s'.row = s.row) (hg : s'.generated = s.generated) (ha : s'.accepted = s.accepted)
      (hf : s'.failures = s.failures)
      (hh : ∀ c now, s'.holder = some (c, now) → s.holder = some (c, now) ∨ e = .start c now) : Effect s s' e
  | began {secret : Nat} (hnew : secret ∉ s.generated) (hr : s'.row = s.row.setPendingTOTP ⟨.pending, secret⟩)
      (hg : s'.generated = secret :: s.generated) (ha : s'.accepted = s.accepted) (hf : s'.failures = s.failures)
      (hh : s'.holder = s.holder) : Effect s s' (.beginTOTP secret)
  | ended {c : Call} {now : Int} {o : Outcome} (hc : s.holder = some (c, now))
      (hm : Moves env c now s.row s'.row o) (hg : s'.generated = s.generated)
      (ha : s'.accepted = o.accepted.toList ++ s.accepted) (hf : s'.failures = o.counted now s.failures)
      (hh : s'.holder = none) : Effect s s' .finish

variable {env} {s : Account}

theorem effect_start (s : Account) (c : Call) (now : Int) : Effect env s (s.start env c now) (.start c now) := by
  unfold Account.start
  split
  · exact .quiet rfl rfl rfl rfl fun _ _ h => .inl h
  split
  · refine .quiet rfl rfl rfl rfl fun _ _ h => .inr ?_
    cases h
    rfl
  · exact .quiet rfl rfl rfl rfl fun _ _ h => .inl h

theorem effect_finish (hc : s.holder = some (c, now)) : Effect env s (s.finish env c now) .finish := by
  have hwork := @moves_handle env c now s.row
  unfold Account.finish inTx
  revert hwork
  generalize handle env c now s.row = d
  intro hwork
  cases hd : d.result with
  | error e =>
    simp only [hd]
    refine .quiet rfl rfl rfl rfl ?_
    intro _ _ h
    cases h
  | ok o =>
    simp only [hd]
    exact .ended hc (hwork hd) rfl rfl rfl rfl

/-- Each event has one of the effects; the invariants look at these only. -/
theorem effect_step (env : Env) (s : Account) (e : Event) : Effect env s (s.step env e) e := by
  cases e with
  | start c now => exact effect_start s c now
  | finish =>
    unfold Account.step
    cases hc : s.holder with
    | none => exact .quiet rfl rfl rfl rfl fun _ _ h => .inl h
    | some x => exact effect_finish hc
  | fail => exact .quiet rfl rfl rfl rfl fun _ _ h => nomatch h
  | beginTOTP secret =>
    unfold Account.step
    dsimp only
    split
    · rename_i h
      exact .began h.2 rfl rfl rfl rfl rfl
    · exact .quiet rfl rfl rfl rfl fun _ _ h => .inl h
  | ensureMasterAdmin => exact .quiet rfl rfl rfl rfl fun _ _ h => .inl h

end Dbr2.Auth
