import Mathlib.Data.String.Basic
import Mathlib.Data.List.Sort
import Dbr2.Lib.GoPath
import Dbr2.Protection.Escrow

/-! The health of the escrow and its alerts (`CheckEscrowHealth`, `escrowProblems` and
`CheckEscrowAndAlert` in `internal/protection/escrow_health.go`).

A check joins the codes and Repositories of the problems it finds to a signature, and alerts if that
is not the signature of the check before. The signature says which problems there are
(`signature_inj`). It is replaced before the alert's transaction, so when that fails, the next check
that finds the same does not try again. -/
namespace Dbr2.Protection.EscrowHealth
open Lib List
open Lib.GoPath (Text)

/-- A UUID in the form that `String` gives it. -/
structure Uuid where
  text : Text
  canonical : text.length = 36 ∧ ∀ c ∈ text, c = '-' ∨ c ∈ "0123456789abcdef".toList

inductive Code
  | tooFewRecipients
  | notConfirmed
  | recipientsChanged
  | reconfirmDue
  | drillDue
  deriving DecidableEq

def Code.text : Code → Text
  | .tooFewRecipients => "too_few_recipients".toList
  | .notConfirmed => "not_confirmed".toList
  | .recipientsChanged => "recipients_changed".toList
  | .reconfirmDue => "reconfirm_due".toList
  | .drillDue => "drill_due".toList

inductive Severity
  | critical
  | warning
  deriving DecidableEq

/-- What is wrong, and with which Repository. -/
structure EscrowProblem where
  code : Code
  severity : Severity
  repositoryID : Option Uuid
  message : String

structure Repository where
  id : Uuid
  name : String
  status : RepositoryStatus
  escrowConfirmedAt : Option Int
  escrowRecipientIDs : List Uuid

/-- What a check reads. Times are in nanoseconds. -/
structure Readings where
  recipients : List Uuid
  repositories : List Repository
  lastDrill : Option Int
  min : Nat
  now : Int

def day : Int := 24 * 3600 * 1000000000

def escrowReconfirmAfter : Int := 90 * day
def escrowDrillEvery : Int := 365 * day

def sorted (ids : List Uuid) : List Text := (ids.map (·.text)).insertionSort (· ≤ ·)

def confirmationProblem (now : Int) (r : Repository) : List EscrowProblem :=
  match r.escrowConfirmedAt with
  | none =>
    [⟨.notConfirmed, .critical, some r.id,
      "the escrow package of Repository " ++ r.name ++ " has not been confirmed"⟩]
  | some t =>
    if escrowReconfirmAfter < now - t then
      [⟨.reconfirmDue, .warning, some r.id,
        "escrow of Repository " ++ r.name ++ " was last confirmed more than 90 days ago; re-confirm it"⟩]
    else []

/-- A retired Repository has no problems. -/
def repositoryProblems (recipients : List Uuid) (now : Int) (r : Repository) : List EscrowProblem :=
  if r.status = .retired then []
  else
    confirmationProblem now r ++ if sorted r.escrowRecipientIDs = sorted recipients then [] else
        [⟨.recipientsChanged, .critical, some r.id,
          "the escrow recipients changed since the package of Repository " ++ r.name ++
            " was generated; regenerate it"⟩]

def drillProblem (lastDrill : Option Int) (now : Int) : List EscrowProblem :=
  if lastDrill.any fun t => now - t ≤ escrowDrillEvery then []
  else
    [⟨.drillDue, .warning, none,
      "no escrow drill in the last 12 months: decrypt a drill package with an escrow identity from the safe"⟩]

/-- `escrowProblems`, in the order of the source. -/
def escrowProblems (r : Readings) : List EscrowProblem :=
  (if r.recipients.length < r.min then
    [⟨.tooFewRecipients, .critical, none,
      toString r.recipients.length ++ " escrow recipients are configured; " ++ toString r.min ++ " are required"⟩]
  else []) ++ r.repositories.flatMap (repositoryProblems r.recipients r.now) ++ drillProblem r.lastDrill r.now

def EscrowProblem.key (p : EscrowProblem) : Code × Option Text := (p.code, p.repositoryID.map (·.text))

def keyText (k : Code × Option Text) : Text := k.1.text ++ ':' :: k.2.getD []

/-- What CheckEscrowAndAlert remembers of the problems. -/
def signature (ps : List EscrowProblem) : Text := [','].intercalate (ps.map fun p => keyText p.key)

structure Alert where
  severity : Severity
  message : String
  problems : List EscrowProblem

def alertOf (ps : List EscrowProblem) : Alert where
  severity := if ps.any (·.severity == .critical) then .critical else .warning
  message := "Escrow needs attention: " ++ "; ".intercalate (ps.map (·.message))
  problems := ps

/-- The memory of the process, and the alerts that were stored. -/
structure State where
  last : Text
  alerts : List Alert

def State.new : State := ⟨[], []⟩

/-- One run of CheckEscrowAndAlert: what CheckEscrowHealth has found, if none of its reads failed,
and whether the transaction of an alert commits. -/
structure Check where
  found : Option (List EscrowProblem)
  commits : Bool

def Tries (s : State) (c : Check) : Prop := ∃ ps, c.found = some ps ∧ signature ps ≠ s.last ∧ ps ≠ []

/-- The signature is remembered before the alert is stored. -/
def checkEscrowAndAlert (s : State) (c : Check) : State :=
  match c.found with
  | none => s
  | some ps =>
    let s' := {s with last := signature ps}
    if signature ps = s.last ∨ ps = [] then s'
    else if c.commits then {s' with alerts := s.alerts ++ [alertOf ps]} else s'

/-- The same problems, whatever their texts. -/
def Same (ps qs : List EscrowProblem) : Prop := ∀ k, k ∈ ps.map (·.key) ↔ k ∈ qs.map (·.key)

def Finds (c : Check) (ps : List EscrowProblem) : Prop := ∃ qs, c.found = some qs ∧ Same qs ps

/-- An alert for these problems was stored, and nothing else was found since. -/
def Alerted (done : List Check) (ps : List EscrowProblem) : Prop :=
  ∃ older c recent, done = older ++ c :: recent ∧ (Tries (run checkEscrowAndAlert .new older) c ∧ c.commits = true) ∧
    ∀ d ∈ c :: recent, d.found = none ∨ Finds d ps

/-- The next check that finds the problems tries to alert. -/
def TriedAgain (done rest : List Check) (ps : List EscrowProblem) : Prop :=
  ∀ between c after, rest = between ++ c :: after → (∀ d ∈ between, ¬ Finds d ps) → Finds c ps →
    Tries (run checkEscrowAndAlert .new (done ++ between)) c

/-- No unhealthy set is lost: a check that finds one of which there is no alert commits an alert
for it, or the next one that finds it tries. -/
def NeverLost (cs : List Check) : Prop :=
  ∀ before c after ps, cs = before ++ c :: after → c.found = some ps → ps ≠ [] → ¬ Alerted before ps →
    (Tries (run checkEscrowAndAlert .new before) c ∧ c.commits = true) ∨ TriedAgain (before ++ [c]) after ps

/-- A check that finds the very list that the check before it has found, those without a result
aside, finds it alerted. -/
def AlertedBefore (cs : List Check) : Prop :=
  ∀ before c between d after ps qs, cs = before ++ c :: (between ++ d :: after) →
    c.found = some ps → ps ≠ [] → (∀ x ∈ between, x.found = none) → d.found = some qs →
    qs.map (·.key) = ps.map (·.key) → Alerted (before ++ [c]) ps

theorem Uuid.no_comma (u : Uuid) : ',' ∉ u.text := by
  intro h
  rcases u.canonical.2 ',' h with h | h
  · cases h
  · exact absurd h (by decide)

theorem Uuid.ne_nil (u : Uuid) : u.text ≠ [] := by
  intro h
  have hlen := u.canonical.1
  rw [h] at hlen
  cases hlen

theorem Code.no_comma (c : Code) : ',' ∉ c.text := by
  cases c <;> decide

theorem Code.no_colon (c : Code) : ':' ∉ c.text := by
  cases c <;> decide

theorem Code.text_inj {c d : Code} (h : c.text = d.text) : c = d := by
  cases c <;> cases d <;> first | rfl | exact absurd h (by decide)

theorem keyText_no_comma (p : EscrowProblem) : ',' ∉ keyText p.key := by
  intro h
  rcases mem_append.1 h with h | h
  · exact p.code.no_comma h
  rcases mem_cons.1 h with h | h
  · cases h
  cases hr : p.repositoryID with
  | none => simp [EscrowProblem.key, hr] at h
  | some u =>
    simp only [EscrowProblem.key, hr, Option.map_some, Option.getD_some] at h
    exact u.no_comma h

theorem keyText_inj {p q : EscrowProblem} (h : keyText p.key = keyText q.key) : p.key = q.key := by
  have hsplit : p.code.text = q.code.text ∧
      (p.repositoryID.map (·.text)).getD [] = (q.repositoryID.map (·.text)).getD [] := by
    have htake := congrArg (List.takeWhile (· ≠ ':')) h
    have hdrop := congrArg (List.dropWhile (· ≠ ':')) h
    have hcode : ∀ (c : Code), ∀ x ∈ c.text, decide (x ≠ ':') = true := by
      intro c x hx
      exact decide_eq_true fun hc => c.no_colon (hc ▸ hx)
    simp only [keyText, EscrowProblem.key] at htake hdrop
    rw [takeWhile_append_of_pos (hcode _), takeWhile_append_of_pos (hcode _)] at htake
    rw [dropWhile_append_of_pos (hcode _), dropWhile_append_of_pos (hcode _)] at hdrop
    simpa using And.intro htake hdrop
  have hrepo : p.repositoryID.map (·.text) = q.repositoryID.map (·.text) := by
    have h2 := hsplit.2
    cases hp : p.repositoryID with
    | none =>
      cases hq : q.repositoryID with
      | none => rfl
      | some v =>
        simp only [hp, hq, Option.map_none, Option.map_some, Option.getD_none, Option.getD_some] at h2
        exact absurd h2.symm v.ne_nil
    | some u =>
      cases hq : q.repositoryID with
      | none =>
        simp only [hp, hq, Option.map_none, Option.map_some, Option.getD_none, Option.getD_some] at h2
        exact absurd h2 u.ne_nil
      | some v =>
        simp only [hp, hq, Option.map_some, Option.getD_some] at h2
        rw [Option.map_some, Option.map_some, h2]
  exact Prod.ext (Code.text_inj hsplit.1) hrepo

variable {c : Check} {ps qs : List EscrowProblem}

theorem keys_of_keyTexts
    (h : ps.map (fun p => keyText p.key) = qs.map fun p => keyText p.key) : ps.map (·.key) = qs.map (·.key) := by
  induction ps generalizing qs with
  | nil =>
    cases qs with
    | nil => rfl
    | cons q qs => cases h
  | cons p ps ih =>
    cases qs with
    | nil => cases h
    | cons q qs =>
      rw [map_cons, map_cons] at h
      obtain ⟨hhead, htail⟩ := List.cons.inj h
      rw [map_cons, map_cons, keyText_inj hhead, ih htail]

theorem signature_inj (hp : ps ≠ []) (hq : qs ≠ []) :
    signature ps = signature qs ↔ ps.map (·.key) = qs.map (·.key) := by
  have hcomma : ∀ (ps : List EscrowProblem), ∀ l ∈ ps.map (fun p => keyText p.key), ',' ∉ l := by
    intro ps l hl
    obtain ⟨p, -, rfl⟩ := mem_map.1 hl
    exact keyText_no_comma p
  unfold signature
  rw [intercalate_inj (hcomma ps) (hcomma qs) (by simpa using hp) (by simpa using hq)]
  constructor
  · exact keys_of_keyTexts
  · intro h
    have htexts := congrArg (List.map keyText) h
    rwa [map_map, map_map] at htexts

def lastFound : List Check → Option (List EscrowProblem)
  | [] => none
  | c :: cs => (lastFound cs).or c.found

theorem last_checkEscrowAndAlert (s : State) (c : Check) :
    (checkEscrowAndAlert s c).last = (c.found.map signature).getD s.last := by
  unfold checkEscrowAndAlert
  cases c.found with
  | none => rfl
  | some ps =>
    show (if signature ps = s.last ∨ ps = [] then _ else _ : State).last = signature ps
    split
    · rfl
    · split <;> rfl

/-- The signature that is remembered is that of the last check that found anything out. -/
theorem last_run (s : State) (cs : List Check) :
    (run checkEscrowAndAlert s cs).last = ((lastFound cs).map signature).getD s.last := by
  induction cs generalizing s with
  | nil => rfl
  | cons c cs ih =>
    rw [run_cons, ih, last_checkEscrowAndAlert]
    show _ = (((lastFound cs).or c.found).map signature).getD s.last
    cases lastFound cs <;> rfl

theorem lastFound_append (cs ds : List Check) : lastFound (cs ++ ds) = (lastFound ds).or (lastFound cs) := by
  induction cs with
  | nil => simp [lastFound]
  | cons c cs ih =>
    show (lastFound (cs ++ ds)).or c.found = (lastFound ds).or ((lastFound cs).or c.found)
    rw [ih, Option.or_assoc]

theorem lastFound_eq_none {cs : List Check} : lastFound cs = none ↔ ∀ c ∈ cs, c.found = none := by
  induction cs with
  | nil => simp [lastFound]
  | cons c cs ih => simp [lastFound, ih, and_comm]

theorem mem_of_lastFound {cs : List Check} (h : lastFound cs = some ps) : ∃ c ∈ cs, c.found = some ps := by
  induction cs with
  | nil => cases h
  | cons c cs ih =>
    rcases Option.or_eq_some_iff.1 h with h | ⟨-, h⟩
    · obtain ⟨d, hd, hfound⟩ := ih h
      exact ⟨d, mem_cons_of_mem c hd, hfound⟩
    · exact ⟨c, mem_cons_self, h⟩

theorem Same.trans {rs : List EscrowProblem} (h : Same ps qs) (h' : Same qs rs) : Same ps rs :=
  fun k => (h k).trans (h' k)

theorem same_of_keys (h : ps.map (·.key) = qs.map (·.key)) : Same ps qs := by
  intro k
  rw [h]

theorem Same.ne_nil (h : Same ps qs) (hne : qs ≠ []) : ps ≠ [] := by
  rintro rfl
  obtain ⟨q, qs, rfl⟩ := exists_cons_of_ne_nil hne
  have hmem := (h q.key).2 (mem_map_of_mem mem_cons_self)
  cases hmem

theorem signature_ne_of_not_same (hq : qs ≠ []) (h : ¬ Same ps qs) : signature qs ≠ signature ps := by
  intro heq
  by_cases hp : ps = []
  · subst hp
    -- The signature of no problem is empty, that of another set has a colon.
    obtain ⟨q, qs, rfl⟩ := exists_cons_of_ne_nil hq
    have hlen := congrArg List.length heq
    cases qs <;> simp [signature, keyText, List.intercalate] at hlen
  · exact h (same_of_keys ((signature_inj hq hp).1 heq).symm)

theorem alerted_append {before : List Check} (hc : Finds c ps) : Alerted (before ++ [c]) ps ↔
      Alerted before ps ∨ Tries (run checkEscrowAndAlert .new before) c ∧ c.commits = true := by
  constructor
  · intro ⟨older, d, recent, hsplit, hd, hsince⟩
    rcases eq_nil_or_concat' recent with rfl | ⟨recent, x, rfl⟩
    · obtain ⟨rfl, hx⟩ := append_inj' hsplit rfl
      cases hx
      exact .inr hd
    rw [← cons_append, ← append_assoc] at hsplit
    obtain ⟨rfl, -⟩ := append_inj' hsplit rfl
    refine .inl ⟨older, d, recent, rfl, hd, fun y hy => hsince y ?_⟩
    rw [← cons_append]
    exact mem_append_left _ hy
  · rintro (⟨older, d, recent, rfl, hd, hsince⟩ | hd)
    · refine ⟨older, d, recent ++ [c], by simp, hd, fun y hy => ?_⟩
      rw [← cons_append] at hy
      rcases mem_append.1 hy with hy | hy
      · exact hsince y hy
      · rw [mem_singleton.1 hy]
        exact .inr hc
    · refine ⟨before, c, [], rfl, hd, fun y hy => ?_⟩
      rw [mem_singleton.1 hy]
      exact .inr hc

theorem tries_next {before between : List Check} {d : Check}
    (hc : c.found = some ps) (hps : ps ≠ []) (hbetween : ∀ x ∈ between, ¬ Finds x ps)
    (hd : d.found = some qs) (hsame : Same qs ps)
    (hnew : (∀ x ∈ between, x.found = none) → qs.map (·.key) ≠ ps.map (·.key)) :
    Tries (run checkEscrowAndAlert .new (before ++ [c] ++ between)) d := by
  have hqs := hsame.ne_nil hps
  refine ⟨qs, hd, ?_, hqs⟩
  rw [last_run, lastFound_append]
  cases hl : lastFound between with
  | none =>
    have hlast : lastFound (before ++ [c]) = some ps := by
      rw [lastFound_append]
      simp [lastFound, hc]
    rw [hlast]
    exact fun h => hnew (lastFound_eq_none.1 hl) ((signature_inj hqs hps).1 h)
  | some rs =>
    obtain ⟨x, hx, hfound⟩ := mem_of_lastFound hl
    apply signature_ne_of_not_same hqs
    intro h
    exact hbetween x hx ⟨rs, hfound, h.trans hsame⟩

theorem not_tries_again (before : List Check) {between : List Check} {d : Check}
    (hc : c.found = some ps) (hbetween : ∀ x ∈ between, x.found = none) (hd : d.found = some qs)
    (hkeys : qs.map (·.key) = ps.map (·.key)) :
    ¬ Tries (run checkEscrowAndAlert .new (before ++ [c] ++ between)) d := by
  intro ⟨rs, hrs, hne, hnil⟩
  cases hd.symm.trans hrs
  apply hne
  have hps := (same_of_keys hkeys.symm).ne_nil hnil
  rw [last_run, lastFound_append, lastFound_eq_none.2 hbetween, lastFound_append]
  simp only [lastFound, hc, Option.none_or, Option.some_or, Option.map_some, Option.getD_some]
  exact (signature_inj hnil hps).2 hkeys

/-- No unhealthy set is lost in a sequence of checks if and only if a check that finds the list of
the check before it finds it alerted. -/
theorem alerts_retried (cs : List Check) : NeverLost cs ↔ AlertedBefore cs := by
  constructor
  · intro h before c between d after ps qs hcs hc hps hbetween hd hkeys
    have hfinds : Finds c ps := ⟨ps, hc, fun k => Iff.rfl⟩
    by_contra hno
    rw [alerted_append hfinds, not_or] at hno
    rcases h before c (between ++ d :: after) ps hcs hc hps hno.1 with hcommit | hagain
    · exact hno.2 hcommit
    apply not_tries_again before hc hbetween hd hkeys
    apply hagain between d after rfl ?_ ⟨qs, hd, same_of_keys hkeys⟩
    intro x hx ⟨rs, hrs, _⟩
    rw [hbetween x hx] at hrs
    cases hrs
  · intro h before c after ps hcs hc hps hno
    have hfinds : Finds c ps := ⟨ps, hc, fun k => Iff.rfl⟩
    by_cases hcommit : Tries (run checkEscrowAndAlert .new before) c ∧ c.commits = true
    · exact .inl hcommit
    right
    intro between d rest hafter hbetween ⟨qs, hd, hsame⟩
    apply tries_next hc hps hbetween hd hsame
    intro hnone hkeys
    have halerted := h before c between d rest ps qs (by rw [hcs, hafter]) hc hps hnone hd hkeys
    rcases (alerted_append hfinds).1 halerted with h' | h'
    · exact hno h'
    · exact hcommit h'

def unprepared : List EscrowProblem := escrowProblems ⟨[], [], none, 2, 0⟩

/-- The keys are taken as alerted although the alert was not stored. -/
theorem alert_lost : ¬ NeverLost [⟨some unprepared, false⟩, ⟨some unprepared, true⟩] := by
  intro h
  have hagain := h [] _ _ unprepared rfl rfl (by decide) (by
    intro ⟨older, c, recent, hsplit, _⟩
    cases older <;> cases hsplit)
  rcases hagain with ⟨-, hcommits⟩ | hagain
  · cases hcommits
  have htries := hagain [] _ [] rfl (by simp) ⟨unprepared, rfl, fun k => Iff.rfl⟩
  obtain ⟨ps, hps, hne, -⟩ := htries
  cases hps
  exact hne rfl

end Dbr2.Protection.EscrowHealth
