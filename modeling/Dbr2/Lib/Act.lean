import Mathlib.Logic.Basic

/-! Programs whose steps may fail or be the last, and rules of pre- and postconditions for them.

An `Act` is a state-passing program that draws what happens at each of its primitive steps from a
list: `φ` is one draw, and a program quantified over all lists of draws is quantified over all its
failures, crashes and interleavings. It ends with a value, with an error the caller sees, or with a
crash nobody sees. `Triple P m Q E C` says what holds at each of the three ends of `m` started where
`P` holds. -/
namespace Dbr2.Lib

inductive Outcome (ε α : Type) where
  | ok (a : α)
  | err (e : ε)
  | crash
  deriving DecidableEq

def Act (φ σ ε α : Type) : Type := List φ → σ → Outcome ε α × List φ × σ

namespace Act
variable {φ σ ε α β : Type}

/-- Sequencing: an error or a crash ends the whole program. -/
def andThen (m : Act φ σ ε α) (f : α → Act φ σ ε β) : Act φ σ ε β := fun o s =>
  match m o s with
  | (.ok a, o', s') => f a o' s'
  | (.err e, o', s') => (.err e, o', s')
  | (.crash, o', s') => (.crash, o', s')

instance : Monad (Act φ σ ε) where
  pure a := fun o s => (.ok a, o, s)
  bind := andThen

def throw (e : ε) : Act φ σ ε α := fun o s => (.err e, o, s)

def get : Act φ σ ε σ := fun o s => (.ok s, o, s)

def modify (f : σ → σ) : Act φ σ ε Unit := fun o s => (.ok (), o, f s)

/-- One primitive step: what it does is given by the next draw. Past the end of
the list nothing unusual happens. -/
def prim [Inhabited φ] (f : φ → σ → Outcome ε α × σ) : Act φ σ ε α := fun o s =>
  let r := f (o.headD default) s
  (r.1, o.tail, r.2)

/-- Runs `m` and hands its error to the caller as a value. -/
def attempt (m : Act φ σ ε α) : Act φ σ ε (Except ε α) := fun o s =>
  match m o s with
  | (.ok a, o', s') => (.ok (.ok a), o', s')
  | (.err e, o', s') => (.ok (.error e), o', s')
  | (.crash, o', s') => (.crash, o', s')

/-- Runs `m` and puts its error into the caller's words. -/
def mapError (f : ε → ε) (m : Act φ σ ε α) : Act φ σ ε α := fun o s =>
  match m o s with
  | (.ok a, o', s') => (.ok a, o', s')
  | (.err e, o', s') => (.err (f e), o', s')
  | (.crash, o', s') => (.crash, o', s')

def when (c : Prop) [Decidable c] (m : Act φ σ ε Unit) : Act φ σ ε Unit :=
  if c then m else pure ()

def each (f : β → Act φ σ ε Unit) : List β → Act φ σ ε Unit
  | [] => pure ()
  | x :: xs => do
    f x
    each f xs

/-- Runs `f` over the whole list and collects its values and its errors. -/
def collect (f : β → Act φ σ ε α) : List β → Act φ σ ε (List α × List ε)
  | [] => pure ([], [])
  | x :: xs => do
    let r ← attempt (f x)
    let (as, es) ← collect f xs
    match r with
    | .ok a => pure (a :: as, es)
    | .error e => pure (as, e :: es)

end Act

section Triple
variable {φ σ ε α β : Type}

/-- What holds at the end of a program: `Q` of its value, `E` of its error or `C`. -/
def Outcome.meets (Q : α → σ → Prop) (E : ε → σ → Prop) (C : σ → Prop) : Outcome ε α → σ → Prop
  | .ok a, s => Q a s
  | .err e, s => E e s
  | .crash, s => C s

/-- Started where `P` holds, `m` ends with a value where `Q` holds, with an error
where `E` holds or with a crash where `C` holds. -/
def Triple (P : σ → Prop) (m : Act φ σ ε α) (Q : α → σ → Prop) (E : ε → σ → Prop) (C : σ → Prop) : Prop :=
  ∀ o s, P s → (m o s).1.meets Q E C (m o s).2.2

variable {P A : σ → Prop} {m : Act φ σ ε α} {Q Q' : α → σ → Prop} {E F : ε → σ → Prop}
  {C C' : σ → Prop}

theorem Outcome.meets.mono {r : Outcome ε α} {s : σ} (h : r.meets Q' F C' s)
    (hQ : ∀ a, Q' a s → Q a s) (hE : ∀ e, F e s → E e s) (hC : C' s → C s) :
    r.meets Q E C s := by
  cases r with
  | ok a => exact hQ a h
  | err e => exact hE e h
  | crash => exact hC h

theorem Triple.conseq (h : Triple A m Q' F C') (hP : ∀ s, P s → A s)
    (hQ : ∀ a s, Q' a s → Q a s) (hE : ∀ e s, F e s → E e s) (hC : ∀ s, C' s → C s) :
    Triple P m Q E C := fun o s hs =>
  (h o s (hP s hs)).mono (fun a => hQ a _) (fun e => hE e _) (hC _)

theorem Triple.pre (h : Triple A m Q E C) (hP : ∀ s, P s → A s) : Triple P m Q E C :=
  fun o s hs => h o s (hP s hs)

theorem Triple.post (h : Triple P m Q' E C) (hQ : ∀ a s, Q' a s → Q a s) : Triple P m Q E C :=
  h.conseq (fun _ h => h) hQ (fun _ _ h => h) (fun _ h => h)

theorem Triple.error (h : Triple P m Q F C) (hE : ∀ e s, F e s → E e s) : Triple P m Q E C :=
  h.conseq (fun _ h => h) (fun _ _ h => h) hE (fun _ h => h)

variable {I : List β → σ → Prop} {f : β → Act φ σ ε α} {J : σ → Prop}

/-- What holds at each end of a program holds of the state it leaves. -/
theorem Triple.final (h : Triple P m (fun _ => J) (fun _ => J) J) {s : σ} (hs : P s) (o : List φ) : J (m o s).2.2 := by
  have hend := h o s hs
  revert hend
  rcases m o s with ⟨a | e | _, o', s'⟩
  · exact fun h => h
  · exact fun h => h
  · exact fun h => h

theorem Triple.pure {a : α} (h : ∀ s, P s → Q a s) :
    Triple (φ := φ) P (Pure.pure a : Act φ σ ε α) Q E C := fun _ s hs => h s hs

theorem Triple.bind {f : α → Act φ σ ε β} {R : β → σ → Prop} (hm : Triple P m Q E C)
    (hf : ∀ a, Triple (Q a) (f a) R E C) : Triple P (m >>= f) R E C := by
  intro o s hs
  have hend := hm o s hs
  show (Act.andThen m f o s).1.meets R E C (Act.andThen m f o s).2.2
  unfold Act.andThen
  revert hend
  rcases m o s with ⟨a | e | _, o', s'⟩
  · exact fun h => hf a o' s' h
  · exact fun h => h
  · exact fun h => h

theorem Triple.throw {e : ε} (h : ∀ s, P s → E e s) :
    Triple (φ := φ) P (Act.throw e : Act φ σ ε α) Q E C := fun _ s hs => h s hs

theorem Triple.get {R : σ → σ → Prop} (h : ∀ s, P s → R s s) :
    Triple (φ := φ) P (Act.get : Act φ σ ε σ) R E C := fun _ s hs => h s hs

theorem Triple.modify {f : σ → σ} {R : Unit → σ → Prop} (h : ∀ s, P s → R () (f s)) :
    Triple (φ := φ) P (Act.modify f : Act φ σ ε Unit) R E C := fun _ s hs => h s hs

theorem Triple.prim [Inhabited φ] {f : φ → σ → Outcome ε α × σ}
    (h : ∀ d s, P s → (f d s).1.meets Q E C (f d s).2) : Triple P (Act.prim f) Q E C :=
  fun o s hs => h (o.headD default) s hs

/-- The error of an attempt is a value for the program that follows. -/
theorem Triple.attempt {R : Except ε α → σ → Prop} (h : Triple P m Q E C)
    (hok : ∀ a s, Q a s → R (.ok a) s) (herr : ∀ e s, E e s → R (.error e) s) :
    Triple P (Act.attempt m) R F C := by
  intro o s hs
  have hend := h o s hs
  unfold Act.attempt
  revert hend
  rcases m o s with ⟨a | e | _, o', s'⟩
  · exact hok a s'
  · exact herr e s'
  · exact fun h => h

/-- What an attempt leaves: `Q` of its value, or `E` of its error. -/
def Attempted (Q : α → σ → Prop) (E : ε → σ → Prop) : Except ε α → σ → Prop
  | .ok a => Q a
  | .error e => E e

theorem Triple.attempted (h : Triple P m Q E C) : Triple P (Act.attempt m) (Attempted Q E) F C :=
  h.attempt (fun _ _ h => h) fun _ _ h => h

theorem Triple.mapError {f : ε → ε} (h : Triple P m Q F C) (herr : ∀ e s, F e s → E (f e) s) :
    Triple P (Act.mapError f m) Q E C := by
  intro o s hs
  have hend := h o s hs
  unfold Act.mapError
  revert hend
  rcases m o s with ⟨a | e | _, o', s'⟩
  · exact fun h => h
  · exact herr e s'
  · exact fun h => h

theorem Triple.when {c : Prop} [Decidable c] {m : Act φ σ ε Unit} {R : Unit → σ → Prop}
    (h : c → Triple P m R E C) (hn : ¬ c → ∀ s, P s → R () s) : Triple P (Act.when c m) R E C := by
  unfold Act.when
  split
  · exact h ‹_›
  · exact Triple.pure (hn ‹_›)

/-- What is known before the program starts may be used for it. -/
theorem Triple.of_forall (h : ∀ s, P s → Triple (fun s' => s' = s) m Q E C) : Triple P m Q E C :=
  fun o s hs => h s hs o s rfl

/-- The state that is read is the state the program goes on from. -/
theorem Triple.get_bind {f : σ → Act φ σ ε α} (h : ∀ s, P s → Triple (fun s' => s' = s) (f s) Q E C) :
    Triple P (Act.get >>= f) Q E C := fun o s hs => h s hs o s rfl

theorem Triple.get_keeps {f : σ → Act φ σ ε α} (h : ∀ s, Triple P (f s) Q E C) : Triple P (Act.get >>= f) Q E C :=
  fun o s hs => h s o s hs

/-- A loop that stops at the first error; `I` is indexed by what is left to do. -/
theorem Triple.each {f : β → Act φ σ ε Unit}
    (h : ∀ x xs, Triple (I (x :: xs)) (f x) (fun _ => I xs) E C) (xs : List β) :
    Triple (I xs) (Act.each f xs) (fun _ => I []) E C := by
  induction xs with
  | nil => exact Triple.pure fun _ hs => hs
  | cons x xs ih => exact (h x xs).bind fun _ => ih

/-- It keeps what each of its rounds keeps. -/
theorem Triple.each_keeps {f : β → Act φ σ ε Unit} {xs : List β} (h : ∀ x ∈ xs, Triple J (f x) (fun _ => J) E C) :
    Triple J (Act.each f xs) (fun _ => J) E C := by
  induction xs with
  | nil => exact Triple.pure fun _ hs => hs
  | cons x xs ih =>
    exact (h x List.mem_cons_self).bind fun _ => ih fun y hy => h y (List.mem_cons_of_mem _ hy)

/-- Each round of a loop that goes on after errors goes on from where the one before it ended, failed or
not; `I` is indexed by what is left to do. -/
theorem Triple.collect_all (h : ∀ x xs, Triple (I (x :: xs)) (f x) (fun _ => I xs) (fun _ => I xs) C) (xs : List β) :
    Triple (I xs) (Act.collect f xs) (fun _ => I []) E C := by
  induction xs with
  | nil => exact Triple.pure fun _ hs => hs
  | cons x xs ih =>
    refine ((h x xs).attempt (R := fun _ => I xs) (fun _ _ h => h) (fun _ _ h => h)).bind fun r => ?_
    refine ih.bind fun p => ?_
    cases r with
    | ok _ => exact Triple.pure fun _ hs => hs
    | error e => exact Triple.pure fun _ hs => hs

theorem Triple.collect_keeps (h : ∀ x, Triple J (f x) (fun _ => J) (fun _ => J) C) (xs : List β) :
    Triple J (Act.collect f xs) (fun _ => J) E C :=
  Triple.collect_all (I := fun _ => J) (fun x _ => h x) xs

/-- When it collects no error it has done all its work; `I` is indexed by what is
left to do while there was none, `J` holds from the first error on. -/
theorem Triple.collect (hI : ∀ x xs, Triple (I (x :: xs)) (f x) (fun _ => I xs) (fun _ => J) C)
    (hJ : ∀ x, Triple J (f x) (fun _ => J) (fun _ => J) C) (xs : List β) :
    Triple (I xs) (Act.collect f xs) (fun p s => if p.2 = [] then I [] s else J s) E C := by
  induction xs with
  | nil => exact Triple.pure fun _ hs => by simpa using hs
  | cons x xs ih =>
    refine (hI x xs).attempted.bind fun r => ?_
    cases r with
    | ok _ => exact ih.bind fun p => Triple.pure fun _ hs => hs
    | error e =>
      refine (Triple.collect_keeps hJ xs).bind fun p => Triple.pure fun s hs => ?_
      simpa using hs

end Triple
end Dbr2.Lib
