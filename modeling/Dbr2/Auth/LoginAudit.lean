import Dbr2.Auth.Lockout

/-! Which wrong passwords and codes leave a record.

LoginPassword returns a refusal beside its transaction, so the record of it is committed.
ChangePassword writes its record and then returns the error from its transaction, which takes the
record with it; ConfirmTOTP and DisableTOTP write none. -/
namespace Dbr2.Auth
open Lib List

variable {env : Env} {s : Account} {c : Call} {now : Int} {r : Credential}

def recordsOf (env : Env) (c : Call) (now : Int) (r : Credential) : List Record :=
  match entry env c with
  | some x => x.1
  | none => (inTx r (handle env c now r)).2

theorem log_call (h : s.holder = none) :
    (run (Account.step env) s [.start c now, .finish]).log = s.log ++ recordsOf env c now s.row := by
  show ((s.start env c now).step env .finish).log = _
  unfold Account.start recordsOf
  cases entry env c with
  | some x =>
    simp only [Account.step, h]
    rfl
  | none =>
    rw [h]
    rfl

def Refuses (env : Env) (secret : Nat) (code : String) (now : Int) (r : Credential) : Prop :=
  ∀ step, matchTOTP env secret code now = some step → step ≤ r.totpLastStep

/-- The call presents a wrong password or a wrong code to the credential. A right password of a
login without a code is not a wrong code. -/
def Wrong (env : Env) (c : Call) (now : Int) (r : Credential) : Prop :=
  match c with
  | .loginPassword _ username password code => env.equalFold env.username username = true ∧
      (env.verify password r.passwordHash = some false ∨
        env.verify password r.passwordHash = some true ∧ r.totpEnabled = true ∧ code ≠ "" ∧
          ∃ secret, r.active = some secret ∧ Refuses env secret code now r)
  | .changePassword current _ _ => env.verify current r.passwordHash = some false
  | .confirmTOTP code => ∃ secret, r.pending = some secret ∧ matchTOTP env secret code now = none
  | .disableTOTP code => r.totpEnabled = true ∧ ∃ secret, r.active = some secret ∧ Refuses env secret code now r
  | .resetMasterPassword _ _ _ => False

/-- After the call the log has a record of it that is none of a success. -/
def Recorded (env : Env) (s : Account) (c : Call) (now : Int) : Prop :=
  ∃ rs, (run (Account.step env) s [.start c now, .finish]).log = s.log ++ rs ∧ ∃ x ∈ rs, x.result ≠ .success

theorem recorded_iff_recordsOf (h : s.holder = none) :
    Recorded env s c now ↔ ∃ x ∈ recordsOf env c now s.row, x.result ≠ .success := by
  unfold Recorded
  rw [log_call h]
  constructor
  · rintro ⟨rs, hrs, hx⟩
    rwa [append_cancel_left hrs]
  · exact fun hx => ⟨_, rfl, hx⟩

theorem login_wrong {al : Bool} {u p t : String} (h : Wrong env (.loginPassword al u p t) now r)
    (hl : r.lockedAt now = false) : ∃ reason e, login env p t now r = loginFailure now reason e r := by
  obtain ⟨-, hv | ⟨hv, ht, hne, secret, ha, hm⟩⟩ := h
  · unfold login
    rw [hl, hv]
    exact ⟨_, _, rfl⟩
  · obtain ⟨reason, hfail⟩ := secondFactor_refused ha hne hm
    exact ⟨reason, _, (login_unlocked hl hv ht).trans hfail⟩

theorem recordsOf_login {u p t : String} (h : Wrong env (.loginPassword true u p t) now r)
    (hl : r.lockedAt now = false) : ∃ x ∈ recordsOf env (.loginPassword true u p t) now r, x.result = .failure := by
  obtain ⟨reason, e, hfail⟩ := login_wrong h hl
  have hentry : entry env (.loginPassword true u p t) = none := by simp [entry, h.1]
  have hwork : handle env (.loginPassword true u p t) now r = loginFailure now reason e r := hfail
  unfold recordsOf
  rw [hentry, hwork]
  exact ⟨_, mem_singleton_self _, rfl⟩

theorem recordsOf_login_denied {al : Bool} {u p t : String} (hu : env.equalFold env.username u = true)
    (h : al = false ∨ r.lockedAt now = true) :
    ∃ x ∈ recordsOf env (.loginPassword al u p t) now r, x.result = .denied := by
  cases al with
  | false => exact ⟨_, mem_singleton_self _, rfl⟩
  | true =>
    have hl := h.resolve_left (by decide)
    have hentry : entry env (.loginPassword true u p t) = none := by simp [entry, hu]
    have hwork : handle env (.loginPassword true u p t) now r = _ := login_locked hl
    unfold recordsOf
    rw [hentry, hwork]
    exact ⟨_, mem_singleton_self _, rfl⟩

theorem recordsOf_other (h : Wrong env c now r) (hc : ∀ al u p t, c ≠ .loginPassword al u p t) :
    recordsOf env c now r = [] := by
  unfold recordsOf
  cases c with
  | loginPassword al u p t => exact absurd rfl (hc al u p t)
  | changePassword current next hash =>
    have hwrong : env.verify current r.passwordHash = some false := h
    simp only [entry]
    split
    · rename_i heq
      split at heq
      · cases heq
      · cases heq
        rfl
    · simp only [handle, changePassword, hwrong, inTx]
  | confirmTOTP code =>
    obtain ⟨secret, hp, hm⟩ := h
    simp only [entry, handle, confirmTOTP, hp, hm]
    split <;> rfl
  | disableTOTP code =>
    obtain ⟨ht, secret, ha, hm⟩ := h
    simp only [entry, handle, disableTOTP, ht, ha, Bool.not_true, Bool.false_eq_true, if_false]
    cases hmatch : matchTOTP env secret code now with
    | none => rfl
    | some step => simp only [if_pos (hm step hmatch)]; rfl
  | resetMasterPassword password hash disable => exact h.elim

/-- A call that presents a wrong password or code leaves a record of it if and only if it is
LoginPassword. The record is that of a failure, unless the limiter or the lock refused the
attempt unread. -/
theorem recorded_iff (env : Env) (s : Account) (c : Call) (now : Int) (hfree : s.holder = none)
    (hw : Wrong env c now s.row) :
    (Recorded env s c now ↔ ∃ al u p t, c = .loginPassword al u p t) ∧
      ∀ u p t, c = .loginPassword true u p t → s.row.lockedAt now = false →
        ∃ x ∈ recordsOf env c now s.row, x.result = .failure := by
  constructor
  · rw [recorded_iff_recordsOf hfree]
    constructor
    · rintro ⟨x, hx, -⟩
      by_contra hc
      have hnone := recordsOf_other hw fun al u p t h => hc ⟨al, u, p, t, h⟩
      rw [hnone] at hx
      cases hx
    · rintro ⟨al, u, p, t, rfl⟩
      by_cases hopen : al = true ∧ s.row.lockedAt now = false
      · obtain ⟨rfl, hl⟩ := hopen
        obtain ⟨x, hx, hres⟩ := recordsOf_login hw hl
        exact ⟨x, hx, by rw [hres]; decide⟩
      have hrefused : al = false ∨ s.row.lockedAt now = true := by
        cases al with
        | false => exact .inl rfl
        | true => exact .inr (by simpa using hopen)
      obtain ⟨x, hx, hres⟩ := recordsOf_login_denied (p := p) (t := t) hw.1 hrefused
      exact ⟨x, hx, by rw [hres]; decide⟩
  · rintro u p t rfl hl
    exact recordsOf_login hw hl

/-- A login with a wrong password is recorded. -/
theorem recorded_iff_login : Recorded sampleEnv (.create "secret") (.loginPassword true "admin" "wrong" "") 0 :=
  (recorded_iff sampleEnv (.create "secret") (.loginPassword true "admin" "wrong" "") 0 rfl
    ⟨by decide, .inl (by decide)⟩).1.2 ⟨true, "admin", "wrong", "", rfl⟩

/-- ChangePassword with a wrong current password is not. -/
theorem wrong_current_password_unrecorded :
    Wrong sampleEnv (.changePassword "wrong" "next" "next") 0 (Account.create "secret").row ∧
      ¬ Recorded sampleEnv (.create "secret") (.changePassword "wrong" "next" "next") 0 := by
  refine ⟨show sampleEnv.verify "wrong" "secret" = some false by decide, ?_⟩
  rw [recorded_iff_recordsOf rfl]
  decide

end Dbr2.Auth
