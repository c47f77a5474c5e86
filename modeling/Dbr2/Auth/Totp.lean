import Mathlib.Data.List.Nodup
import Dbr2.Auth.Credential

/-! The codes of the second factor over every interleaving of the calls.

A code is spent if its secret can no longer be confirmed and, as long as the secret is active, the
last step is not before the code's (`Spent`). No event makes a spent code usable again, so none is
accepted twice (`codes_accepted_once`). What opens a session is said at the end (`session_iff`). -/
namespace Dbr2.Auth
open Lib List

variable {env : Env} {s s' : Account} {e : Event} {c : Call} {now : Int} {r r' : Credential} {o : Outcome}

variable {step : Int} {x : Nat}

theorem Moves.pending (h : Moves env c now r r' o) (hp : r'.pending = some x) : r.pending = some x := by
  cases h with
  | kept | failed | loggedIn | loggedInTOTP | changed => exact hp
  | confirmed => cases hp
  | disabled => cases hp
  | @reset password hash disable hc =>
    cases disable with
    | false => exact hp
    | true => cases hp

theorem Moves.active (h : Moves env c now r r' o) (ha : r'.active = some x) :
    (r.active = some x ∧ r.totpLastStep ≤ r'.totpLastStep) ∨
      (r.pending = some x ∧ o.accepted = some (x, r'.totpLastStep)) := by
  cases h with
  | kept | failed | loggedIn | changed => exact .inl ⟨ha, Int.le_refl _⟩
  | loggedInTOTP _ _ _ _ _ hlast => exact .inl ⟨ha, Int.le_of_lt hlast⟩
  | confirmed _ hp =>
    cases ha
    exact .inr ⟨hp, rfl⟩
  | disabled => cases ha
  | @reset password hash disable hc =>
    cases disable with
    | false => exact .inl ⟨ha, Int.le_refl _⟩
    | true => cases ha

theorem Moves.accepted (h : Moves env c now r r' o) (ho : o.accepted = some (x, step)) :
    (r.pending = some x ∨ r.active = some x ∧ r.totpLastStep < step) ∧
      (r'.active = some x → r'.totpLastStep = step) ∧ (r'.pending = some x → r.pending = some x ∧ r.active = some x) := by
  cases h with
  | kept hn => rw [hn] at ho; cases ho
  | failed | loggedIn | changed | reset => cases ho
  | loggedInTOTP _ _ _ ha _ hlast =>
    cases ho
    exact ⟨.inr ⟨ha, hlast⟩, fun _ => rfl, fun hp => ⟨hp, ha⟩⟩
  | confirmed _ hp =>
    cases ho
    exact ⟨.inl hp, fun _ => rfl, fun h => nomatch h⟩
  | disabled _ _ ha _ hlast =>
    cases ho
    exact ⟨.inr ⟨ha, hlast⟩, fun h => (nomatch h), fun h => nomatch h⟩

structure Spent (s : Account) (x : Nat) (step : Int) : Prop where
  generated : x ∈ s.generated
  pending : s.row.pending ≠ some x
  active : s.row.active = some x → step ≤ s.row.totpLastStep

theorem Spent.effect (h : Spent s x step) (he : Effect env s s' e) : Spent s' x step := by
  cases he with
  | quiet hr hg =>
    exact ⟨hg ▸ h.generated, hr ▸ h.pending, hr ▸ h.active⟩
  | @began secret hnew hr hg =>
    refine ⟨hg ▸ mem_cons_of_mem _ h.generated, ?_, ?_⟩
    · rw [hr]
      rintro ⟨⟩
      exact hnew h.generated
    · rw [hr]
      exact h.active
  | ended hc hm hg =>
    refine ⟨hg ▸ h.generated, fun hp => h.pending (hm.pending hp), fun ha => ?_⟩
    rcases hm.active ha with ⟨ha', hle⟩ | ⟨hp, -⟩
    · exact Int.le_trans (h.active ha') hle
    · exact absurd hp h.pending

/-- The secrets of the row were generated, no two of them are one, and no code that was
accepted can be accepted again. -/
structure Replayless (s : Account) : Prop where
  active : ∀ x, s.row.active = some x → x ∈ s.generated ∧ s.row.pending ≠ some x
  pending : ∀ x, s.row.pending = some x → x ∈ s.generated
  spent : ∀ x step, (x, step) ∈ s.accepted → Spent s x step
  once : s.accepted.Nodup

theorem replayless_create (hash : String) : Replayless (.create hash) :=
  ⟨fun _ h => (nomatch h), fun _ h => (nomatch h), fun _ _ h => (nomatch h), nodup_nil⟩

theorem Replayless.accept (h : Replayless s) (hm : Moves env c now s.row s'.row o)
    (hg : s'.generated = s.generated) (ho : o.accepted = some (x, step)) :
    (x, step) ∉ s.accepted ∧ Spent s' x step := by
  obtain ⟨hfrom, hactive, hpending⟩ := hm.accepted ho
  have hgen : x ∈ s.generated := by
    rcases hfrom with hp | ⟨ha, -⟩
    · exact h.pending x hp
    · exact (h.active x ha).1
  refine ⟨fun hmem => ?_, hg ▸ hgen, fun hp => ?_, fun ha => Int.le_of_eq (hactive ha).symm⟩
  · have hspent := h.spent x step hmem
    rcases hfrom with hp | ⟨ha, hlast⟩
    · exact hspent.pending hp
    · have := hspent.active ha
      omega
  · obtain ⟨hp', ha'⟩ := hpending hp
    exact (h.active x ha').2 hp'

theorem Replayless.effect (h : Replayless s) (he : Effect env s s' e) : Replayless s' := by
  have hold : ∀ x step, (x, step) ∈ s.accepted → Spent s' x step := fun x step hmem => (h.spent x step hmem).effect he
  cases he with
  | quiet hr hg ha =>
    exact ⟨hr ▸ hg ▸ h.active, hr ▸ hg ▸ h.pending, ha ▸ hold, ha ▸ h.once⟩
  | @began secret hnew hr hg ha =>
    refine ⟨fun x hx => ?_, fun x hx => ?_, ha ▸ hold, ha ▸ h.once⟩
    · rw [hr] at hx
      have hmem := (h.active x hx).1
      refine ⟨hg ▸ mem_cons_of_mem _ hmem, ?_⟩
      rw [hr]
      rintro ⟨⟩
      exact hnew hmem
    · rw [hr] at hx
      cases hx
      exact hg ▸ mem_cons_self
  | @ended c now o hc hm hg ha =>
    refine ⟨fun x hx => ?_, fun x hx => hg ▸ h.pending x (hm.pending hx), fun x step hmem => ?_, ?_⟩
    · rcases hm.active hx with ⟨hx', -⟩ | ⟨hp, ho⟩
      · exact ⟨hg ▸ (h.active x hx').1, fun hp => (h.active x hx').2 (hm.pending hp)⟩
      · exact ⟨hg ▸ h.pending x hp, (h.accept hm hg ho).2.pending⟩
    · rw [ha] at hmem
      rcases mem_append.1 hmem with hmem | hmem
      · exact (h.accept hm hg (Option.mem_toList.1 hmem)).2
      · exact hold x step hmem
    · rw [ha]
      cases ho : o.accepted with
      | none => exact h.once
      | some code => exact nodup_cons.2 ⟨(h.accept hm hg ho).1, h.once⟩

/-- No accepted code is accepted again, in every run. -/
theorem replayless_run (env : Env) (hash : String) (es : List Event) :
    Replayless (run (Account.step env) (.create hash) es) :=
  run_invariant (replayless_create hash) (fun s e h => h.effect (effect_step env s e)) es

/-- In every run no code is accepted twice, and while a secret is active its last step never
decreases, whatever happens in between. -/
theorem codes_accepted_once (env : Env) (hash : String) (es : List Event) :
    let s := run (Account.step env) (.create hash) es
    s.accepted.Nodup ∧ ∀ es' : List Event, let s' := run (Account.step env) s es'
        ∀ x, s.row.active = some x → s'.row.active = some x → s.row.totpLastStep ≤ s'.row.totpLastStep := by
  intro s
  have hs := replayless_run env hash es
  refine ⟨hs.once, ?_⟩
  intro es' s' x hx hx'
  -- The last step of the active secret is spent, and stays so.
  have hspent : Spent s x s.row.totpLastStep := ⟨(hs.active x hx).1, (hs.active x hx).2, fun _ => Int.le_refl _⟩
  have hlater :=
    run_invariant (I := fun s' => Spent s' x s.row.totpLastStep) hspent (fun s e h => h.effect (effect_step env s e)) es'
  exact hlater.active hx'

def Call.code : Call → Option String
  | .loginPassword _ _ _ code | .confirmTOTP code | .disableTOTP code => some code
  | _ => none

def Presents (env : Env) (c : Call) (now : Int) (r : Credential) (secret : Nat) : Prop :=
  ∃ code step, c.code = some code ∧ matchTOTP env secret code now = some step ∧ r.totpLastStep < step

def Call.isReset : Call → Bool
  | .resetMasterPassword _ _ _ => true
  | _ => false

/-- If the event takes the secret of an enabled second factor away, it is the end of a call that
presented a code of it, or of the offline reset. -/
def FactorKept (env : Env) (s : Account) (e : Event) : Prop :=
  ∀ secret, s.row.totpEnabled = true → s.row.active = some secret →
    ¬ ((s.step env e).row.totpEnabled = true ∧ (s.step env e).row.active = some secret) →
      ∃ c now, e = .finish ∧ s.holder = some (c, now) ∧ (Presents env c now s.row secret ∨ c.isReset = true)

/-- ConfirmTOTP ends while the second factor is enabled, with a code of the pending secret and
none of the active one. -/
def Overwrites (env : Env) (s : Account) (e : Event) : Prop :=
  ∃ code now secret other step, e = .finish ∧ s.holder = some (.confirmTOTP code, now) ∧
    s.row.totpEnabled = true ∧ s.row.active = some secret ∧ s.row.pending = some other ∧
    matchTOTP env other code now = some step ∧ ¬ Presents env (.confirmTOTP code) now s.row secret

theorem Moves.factor {secret : Nat} (h : Moves env c now r r' o) (ht : r.totpEnabled = true)
    (ha : r.active = some secret) :
    (r'.totpEnabled = true ∧ r'.active = some secret) ∨ Presents env c now r secret ∨ c.isReset = true ∨
      ∃ code other step, c = .confirmTOTP code ∧ r.pending = some other ∧
        matchTOTP env other code now = some step := by
  cases h with
  | kept | failed | loggedIn | loggedInTOTP | changed => exact .inl ⟨ht, ha⟩
  | confirmed hc hp hm => exact .inr (.inr (.inr ⟨_, _, _, hc, hp, hm⟩))
  | disabled hc _ ha' hm hlast =>
    cases (ha.symm.trans ha')
    exact .inr (.inl ⟨_, _, by rw [hc]; rfl, hm, hlast⟩)
  | reset hc => exact .inr (.inr (.inl (by rw [hc]; rfl)))

theorem confirmTOTP_row {code : String} {other : Nat} (hp : r.pending = some other)
    (hm : matchTOTP env other code now = some step) :
    (inTx r (confirmTOTP env code now r)).1.active = some other := by
  have hsome : r.totpPendingSecretEnc ≠ none := by
    intro hnone
    rw [Credential.pending, hnone] at hp
    cases hp
  unfold confirmTOTP
  rw [if_neg hsome]
  simp only [hp, hm]
  rfl

/-- In every reachable state an event gives up the secret of an enabled second factor only to
a call that presents a code of it or to the offline reset, unless it is a ConfirmTOTP that
overwrites it. -/
theorem factor_kept_iff (env : Env) (hash : String) (es : List Event) (e : Event) :
    let s := run (Account.step env) (.create hash) es
    FactorKept env s e ↔ ¬ Overwrites env s e := by
  intro s
  have hs := replayless_run env hash es
  constructor
  · rintro h ⟨code, now, secret, other, step, rfl, hh, ht, ha, hp, hm, hnot⟩
    have hrow : (s.step env .finish).row.active = some other := by
      show ((s.holder.elim s fun x => s.finish env x.1 x.2).row).active = some other
      rw [hh]
      exact confirmTOTP_row hp hm
    have hgone : ¬ ((s.step env .finish).row.totpEnabled = true ∧ (s.step env .finish).row.active = some secret) := by
      rintro ⟨-, hkept⟩
      obtain rfl := Option.some.inj (hrow.symm.trans hkept)
      exact (hs.active other ha).2 hp
    obtain ⟨c, now', -, hh', hby⟩ := h secret ht ha hgone
    cases hh.symm.trans hh'
    rcases hby with hby | hby
    · exact hnot hby
    · cases hby
  · intro h secret ht ha hgone
    have heff := effect_step env s e
    revert hgone
    generalize s.step env e = s' at heff
    intro hgone
    cases heff with
    | quiet hr => exact absurd ⟨hr ▸ ht, hr ▸ ha⟩ hgone
    | began _ hr => exact absurd ⟨hr ▸ ht, hr ▸ ha⟩ hgone
    | @ended c now o hh hm =>
      refine ⟨c, now, rfl, hh, ?_⟩
      rcases hm.factor ht ha with hkept | hby | hby | ⟨code, other, step, rfl, hp, hmatch⟩
      · exact absurd hkept hgone
      · exact .inl hby
      · exact .inr hby
      · by_contra hnot
        exact h ⟨code, now, secret, other, step, rfl, hh, ht, ha, hp, hmatch, fun hby => hnot (.inl hby)⟩

def sampleEnv : Env where
  generate secret _ := some (if secret = 1 then "111111" else "222222")
  verify password hash := some (password == hash)
  username := "admin"
  equalFold := (· == ·)
  policy _ _ := true

/-- TOTP is enabled with the first secret. Then a second one is generated, and a code of the
second is presented. -/
def reenrollment : List Event :=
  [.beginTOTP 1, .start (.confirmTOTP "111111") 0, .finish, .beginTOTP 2, .start (.confirmTOTP "222222") 0]

/-- Confirming it takes the first secret away without any code of it. -/
theorem factor_overwritten :
    ¬ FactorKept sampleEnv (run (Account.step sampleEnv) (.create "secret") reenrollment) .finish := by
  intro h
  obtain ⟨c, now, -, hh, hby⟩ := h 1 (by decide) (by decide) (by decide)
  have hc := Option.some.inj hh
  cases hc
  rcases hby with ⟨code, step, hcode, hm, -⟩ | hby
  · cases hcode
    cases hm
  · cases hby

/-- What a login shows that is given a session, with the code it is given for. -/
def Credential.Opens (env : Env) (r : Credential) (password totpCode : String) (now : Int) (code : Option (Nat × Int)) :
    Prop :=
  r.lockedAt now = false ∧ env.verify password r.passwordHash = some true ∧
    if r.totpEnabled then ∃ x step, code = some (x, step) ∧ r.active = some x ∧
      matchTOTP env x totpCode now = some step ∧ r.totpLastStep < step
    else code = none

theorem login_session_iff {p t : String} {code : Option (Nat × Int)} :
    (login env p t now r).result = .ok (.session code) ↔ r.Opens env p t now code := by
  have hempty : ∀ x, matchTOTP env x "" now = none := fun _ => rfl
  unfold login secondFactor Credential.Opens
  grind [loginSuccess, loginFailure, Done.aborted, Credential.advanceTOTPStep]

theorem Moves.session {code : Option (Nat × Int)} (h : Moves env c now r r' (.session code)) :
    ∃ al u p t, c = .loginPassword al u p t := by
  cases h with
  | kept _ hf => cases hf [now]
  | loggedIn hc => exact ⟨_, _, _, _, hc⟩
  | loggedInTOTP hc => exact ⟨_, _, _, _, hc⟩

/-- The row is held only by calls that were let in. -/
theorem entry_of_holder (env : Env) (hash : String) (es : List Event) :
    ∀ x ∈ (run (Account.step env) (.create hash) es).holder, entry env x.1 = none := by
  refine run_invariant (I := fun s : Account => ∀ x ∈ s.holder, entry env x.1 = none) (fun x hx => (by cases hx)) ?_ es
  intro s e h
  cases e with
  | start c now => grind [Account.step, Account.start]
  | finish => cases hh : s.holder <;> simp_all [Account.step, Account.finish]
  | beginTOTP secret => grind [Account.step]
  | fail | ensureMasterAdmin => simp_all [Account.step]

/-- In every run a session is opened exactly for a login that the limiter let in under the account's name,
of an account that is not locked, with its password and, if the second factor is on, a later code of the
active secret. No code opens two. -/
theorem session_iff (env : Env) (hash : String) (es : List Event) (c : Call) (now : Int) (code : Option (Nat × Int)) :
    let s := run (Account.step env) (.create hash) es
    s.holder = some (c, now) ∧ (handle env c now s.row).result = .ok (.session code) ↔
      ∃ u p t, c = .loginPassword true u p t ∧ s.holder = some (c, now) ∧ env.equalFold env.username u = true ∧
        s.row.Opens env p t now code ∧ ∀ x ∈ code, x ∉ s.accepted := by
  intro s
  constructor
  · rintro ⟨hh, hres⟩
    have hm : Moves env c now s.row (s.finish env c now).row (.session code) := by
      have := moves_handle hres
      simpa only [Account.finish, inTx, hres] using this
    obtain ⟨al, u, p, t, rfl⟩ := hm.session
    obtain ⟨rfl, hu⟩ : al = true ∧ env.equalFold env.username u = true := by
      have := entry_of_holder env hash es _ hh
      grind [entry]
    exact ⟨u, p, t, rfl, hh, hu, login_session_iff.1 hres, fun x hx =>
      ((replayless_run env hash es).accept hm rfl hx).1⟩
  · rintro ⟨u, p, t, rfl, hh, -, hopens, -⟩
    exact ⟨hh, login_session_iff.2 hopens⟩

end Dbr2.Auth
