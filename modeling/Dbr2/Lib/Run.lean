import Mathlib.Data.List.Basic

/-! Runs of a transition system, and what holds along them.

A system is a step function `step : σ → ε → σ` on states and events; an event that is not enabled
leaves the state as it is. `run` folds a list of events. `Along step P s es` says that every step of
the run from `s` meets `P`, a condition on the state before the step and the event taken. An
invariant that every step meeting `P` preserves holds at the end of such a run (`Along.invariant`),
and what it implies of a step holds of each of them (`Along.imp`). -/
namespace Dbr2.Lib
open List

section Run
variable {σ ε : Type} (step : σ → ε → σ)

def run (s : σ) : List ε → σ
  | [] => s
  | e :: es => run (step s e) es

@[simp] theorem run_nil (s : σ) : run step s [] = s := rfl

@[simp] theorem run_cons (s : σ) (e : ε) (es : List ε) : run step s (e :: es) = run step (step s e) es := rfl

theorem run_append (s : σ) (es es' : List ε) : run step s (es ++ es') = run step (run step s es) es' := by
  induction es generalizing s with
  | nil => rfl
  | cons e es ih => exact ih (step s e)

/-- Every step of the run meets `P`. -/
def Along (P : σ → ε → Prop) (s : σ) : List ε → Prop
  | [] => True
  | e :: es => P s e ∧ Along P (step s e) es

variable {step}

variable {es : List ε} {s : σ} {I : σ → Prop} {P : σ → ε → Prop}

@[simp] theorem along_nil (P : σ → ε → Prop) (s : σ) : Along step P s [] := trivial

@[simp] theorem along_cons (P : σ → ε → Prop) (s : σ) (e : ε) (es : List ε) :
    Along step P s (e :: es) ↔ P s e ∧ Along step P (step s e) es := Iff.rfl

theorem along_append {es' : List ε} :
    Along step P s (es ++ es') ↔ Along step P s es ∧ Along step P (run step s es) es' := by
  induction es generalizing s with
  | nil => exact (and_iff_right trivial).symm
  | cons e es ih => rw [cons_append, along_cons, along_cons, run_cons, ih, and_assoc]

instance Along.decidable {P : σ → ε → Prop} [∀ s e, Decidable (P s e)] (s : σ) (es : List ε) :
    Decidable (Along step P s es) :=
  match es with
  | [] => .isTrue trivial
  | e :: es => @instDecidableAnd _ _ _ (Along.decidable (step s e) es)

/-- A condition on the events alone is met by every step when every event meets it. -/
theorem along_of_forall {P : ε → Prop} (h : ∀ e ∈ es, P e) (s : σ) : Along step (fun _ e => P e) s es := by
  induction es generalizing s with
  | nil => trivial
  | cons e es ih =>
    exact ⟨h e mem_cons_self, ih (fun e he => h e (mem_cons_of_mem _ he)) (step s e)⟩

/-- An invariant kept by every step holds at the end of a run. -/
theorem run_invariant (h0 : I s) (hstep : ∀ s e, I s → I (step s e)) (es : List ε) : I (run step s es) := by
  induction es generalizing s with
  | nil => exact h0
  | cons e es ih => exact ih (hstep s e h0)

/-- An invariant kept by every step that meets `P` holds at the end of a run
whose steps meet `P`. -/
theorem Along.invariant (hes : Along step P s es) (h0 : I s)
    (hstep : ∀ s e, I s → P s e → I (step s e)) : I (run step s es) := by
  induction es generalizing s with
  | nil => exact h0
  | cons e es ih => exact ih hes.2 (hstep s e h0 hes.1)

/-- What an invariant implies of one step holds of every step of the run. -/
theorem Along.imp {Q : σ → ε → Prop} (hes : Along step P s es) (h0 : I s)
    (hstep : ∀ s e, I s → P s e → I (step s e)) (hQ : ∀ s e, I s → P s e → Q s e) : Along step Q s es := by
  induction es generalizing s with
  | nil => trivial
  | cons e es ih => exact ⟨hQ s e h0 hes.1, ih hes.2 (hstep s e h0 hes.1)⟩

/-- Two conditions that an invariant makes equivalent are met by the same runs. -/
theorem along_congr {Q : σ → ε → Prop} (h0 : I s)
    (hstep : ∀ s e, I s → I (step s e)) (hiff : ∀ s e, I s → (P s e ↔ Q s e)) :
    Along step P s es ↔ Along step Q s es := by
  induction es generalizing s with
  | nil => exact Iff.rfl
  | cons e es ih => rw [along_cons, along_cons, hiff s e h0, ih (hstep s e h0)]

/-- Every state of a run has `J`, where a step keeps `J` if and only if it meets `P`. -/
theorem prefixes_iff_along {J : σ → Prop} (h0 : I s) (hJ : J s)
    (hstep : ∀ s e, I s → I (step s e)) (hiff : ∀ s e, I s → J s → (J (step s e) ↔ P s e)) :
    (∀ es₁ es₂, es = es₁ ++ es₂ → J (run step s es₁)) ↔ Along step P s es := by
  induction es generalizing s with
  | nil =>
    refine ⟨fun _ => trivial, fun _ es₁ es₂ hes => ?_⟩
    rw [(append_eq_nil_iff.1 hes.symm).1]
    exact hJ
  | cons e es ih =>
    constructor
    · intro h
      have hJ' : J (step s e) := h [e] es rfl
      refine ⟨(hiff s e h0 hJ).1 hJ', (ih (hstep s e h0) hJ').1 fun es₁ es₂ hes => ?_⟩
      exact h (e :: es₁) es₂ (by rw [hes, cons_append])
    · intro h es₁ es₂ hes
      have hJ' : J (step s e) := (hiff s e h0 hJ).2 h.1
      cases es₁ with
      | nil => exact hJ
      | cons e' es₁ =>
        obtain ⟨rfl, hes'⟩ := List.cons.inj hes
        exact (ih (hstep s e h0) hJ').2 h.2 es₁ es₂ hes'

end Run

theorem update_some {ι α : Type} [DecidableEq ι] {f : ι → Option α} {n m : ι} {o : Option α} {a : α}
    (h : Function.update f n o m = some a) : (m = n ∧ o = some a) ∨ (m ≠ n ∧ f m = some a) := by
  by_cases hm : m = n
  · subst hm
    rw [Function.update_self] at h
    exact .inl ⟨rfl, h⟩
  · rw [Function.update_of_ne hm] at h
    exact .inr ⟨hm, h⟩

theorem update_none_some {ι α : Type} [DecidableEq ι] {f : ι → Option α} {n m : ι} {a : α}
    (h : Function.update f n none m = some a) : m ≠ n ∧ f m = some a := by
  rcases update_some h with ⟨-, hnone⟩ | hold
  · cases hnone
  · exact hold

theorem exists_update_some {ι α : Type} [DecidableEq ι] {f : ι → Option α} {n : ι} {o : Option α} {a : α} :
    (∃ m, Function.update f n o m = some a) ↔ o = some a ∨ ∃ m, m ≠ n ∧ f m = some a := by
  constructor
  · rintro ⟨m, hm⟩
    exact (update_some hm).imp (·.2) fun h => ⟨m, h⟩
  · rintro (h | ⟨m, hm, h⟩)
    · exact ⟨n, (Function.update_self ..).trans h⟩
    · exact ⟨m, (Function.update_of_ne hm ..).trans h⟩

end Dbr2.Lib
