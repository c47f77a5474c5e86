import Dbr2.Agent.Host
import Dbr2.Lib.Utf8

/-! Exit codes of processes in containers (`Exec` in `internal/runtime/control.go`, `ExecInput` in
`internal/runtime/restore.go`, `loadPostgres` in `internal/agent/database.go`, `runHooks` in
`internal/agent/hooks.go`).

The output of a process may end before the engine has recorded its exit; until then an inspection
says that it is running, with exit code 0. Exec and ExecInput ask once and return what they see. -/
namespace Dbr2.Agent.Exec
open List
open Lib.Utf8 (Bytes)

structure Engine where
  (create attach : Option Err)
  /-- What the process writes, in order, and whether to stderr. -/
  output : List (Bool × Bytes)
  copyErr : Option Err
  /-- Of the goroutine that writes the input, and how much it has read. -/
  inputErr : Option Err
  consumed : Nat
  /-- `ctx.Err()` when the output has ended. -/
  ctxErr : Option Err
  inspectErr : Nat → Option Err
  /-- The number of inspections before the exit is recorded. -/
  lag : Nat
  exitCode : Int

/-- The engine's answer to an inspection: whether the process is running, and its exit code. -/
def Engine.execInspect (e : Engine) (i : Nat) : Except Err (Bool × Int) :=
  match e.inspectErr i with
  | some err => .error err
  | none => if i < e.lag then .ok (true, 0) else .ok (false, e.exitCode)

/-- Keeps the last `n` bytes that were written. -/
structure TailBuffer where
  n : Nat
  buf : Bytes
  truncated : Bool
  deriving DecidableEq

def newTailBuffer (n : Int) : TailBuffer := ⟨if n ≤ 0 then 8192 else n.toNat, [], false⟩

def TailBuffer.write (t : TailBuffer) (p : Bytes) : TailBuffer :=
  if t.n < (t.buf ++ p).length then ⟨t.n, (t.buf ++ p).drop ((t.buf ++ p).length - t.n), true⟩
  else {t with buf := t.buf ++ p}

structure ExecResult where
  exitCode : Int
  output : Bytes
  truncated : Bool
  deriving DecidableEq

def noResult : ExecResult := ⟨0, [], false⟩

/-- The output of a process, its last bytes only. -/
def collect (maxOutput : Int) (chunks : List Bytes) : ExecResult :=
  let t := chunks.foldl TailBuffer.write (newTailBuffer maxOutput)
  ⟨0, t.buf, t.truncated⟩

/-- The exec is created and attached, and its output read; then come the errors of the streams, in
the order in which they are looked at, and the exit code. -/
def session (cmd : List String) (e : Engine) (res : ExecResult) (errs : List (Option Err))
    (exit : Except Err Int) : ExecResult × Option Err :=
  if cmd = [] then (noResult, some (err "empty command"))
  else
    match [e.create, e.attach].findSome? id with
    | some er => (noResult, some er)
    | none =>
      match errs.findSome? id, exit with
      | some er, _ => (res, some er)
      | none, .error er => (res, some er)
      | none, .ok code => ({res with exitCode := code}, none)

def inspectOnce (e : Engine) : Except Err Int := (e.execInspect 0).map (·.2)

/-- `Exec`. -/
def exec (cmd : List String) (e : Engine) (maxOutput : Int) : ExecResult × Option Err :=
  session cmd e (collect maxOutput (e.output.map (·.2))) [e.ctxErr, e.copyErr] (inspectOnce e)

/-- `ExecInput`, which also writes to the process. -/
def execInput (cmd : List String) (e : Engine) (maxOutput : Int) : ExecResult × Option Err :=
  session cmd e (collect maxOutput (e.output.map (·.2)))
    [e.ctxErr, e.inputErr.map (Err.wrap "stream input: "), e.copyErr] (inspectOnce e)

/-- `strings.ToValidUTF8`: a replacement character for each run of bytes that are not UTF-8; `bad` is
whether one has begun. -/
def toValidUpTo : Nat → Bool → Bytes → Bytes
  | _, _, [] => []
  | 0, _, _ :: _ => []
  | n + 1, bad, b :: rest =>
    match Lib.Utf8.follows b rest with
    | some k => b :: (rest.take k ++ toValidUpTo n false (rest.drop k))
    | none => if bad then toValidUpTo n true rest else Lib.Utf8.replacement ++ toValidUpTo n true rest

def toValidUTF8 (s : Bytes) : Bytes := toValidUpTo s.length false s

def envValue (env : List (String × String)) (key : String) : String := (env.lookup key).getD ""

/-- What a load meets: InspectDetails with the environment, OpenStream, the zstd reader, and the exec. -/
structure Load where
  details : Except Err (List (String × String))
  (stream reader : Option Err)
  engine : Engine
  /-- `ctx.Err()` is set when ExecInput has failed. -/
  cancelled : Bool

structure LoadResult where
  bytes : Nat
  output : Bytes
  deriving DecidableEq

def psql (user : String) : List String := ["psql", "-X", "-U", user, "-d", "postgres"]

def maxDBOutput : Int := 8192

/-- `loadPostgres`: a dump is streamed into psql. -/
def loadPostgres (l : Load) : Option LoadResult × Option Err :=
  match l.details with
  | .error er => (none, some er)
  | .ok env =>
    let user := if envValue env "POSTGRES_USER" = "" then "postgres" else envValue env "POSTGRES_USER"
    match l.stream, l.reader with
    | some er, _ => (none, some er)
    | none, some er => (none, some er.makePermanent)
    | none, none =>
      let r := execInput (psql user) l.engine maxDBOutput
      let res : LoadResult := ⟨l.engine.consumed, toValidUTF8 r.1.output⟩
      match r.2 with
      | some er => (some res, some (if l.cancelled then er else (er.wrap "psql: ").makePermanent))
      | none =>
        if r.1.exitCode ≠ 0 then (some res, some (permanent ("psql exited with code " ++ toString r.1.exitCode)))
        else (some res, none)

/-- A hook and how its execution goes. -/
structure Hook where
  containerID : String
  command : List String
  timeoutSeconds : Nat
  optional : Bool
  engine : Engine
  timedOut : Bool
  /-- `ctx.Err()` before and after it. -/
  (ctxBefore ctxAfter : Option Err)

structure HookResult where
  containerID : String
  exitCode : Int
  output : Bytes
  error : String
  deriving DecidableEq

def defaultHookTimeout : Nat := 300
def maxHookOutput : Int := 8192

def hookTimeout (h : Hook) : Nat := if 0 < h.timeoutSeconds then h.timeoutSeconds else defaultHookTimeout

def durationText (s : Nat) : String :=
  if s < 60 then toString s ++ "s"
  else if s < 3600 then toString (s / 60) ++ "m" ++ toString (s % 60) ++ "s"
  else toString (s / 3600) ++ "h" ++ toString (s / 60 % 60) ++ "m" ++ toString (s % 60) ++ "s"

/-- `herr`, and the exit code of the result. -/
def hookEnd (h : Hook) : Option String × Int :=
  if h.command = [] ∨ h.containerID = "" then (some "hook has no container or command", -1)
  else
    let r := exec h.command h.engine maxHookOutput
    if h.timedOut then (some ("timed out after " ++ durationText (hookTimeout h)), -1)
    else
      match r.2 with
      | some er => (some er.msg, -1)
      | none => (if r.1.exitCode ≠ 0 then some ("exit code " ++ toString r.1.exitCode) else none, r.1.exitCode)

/-- "[output truncated]\n" -/
def truncationMark : Bytes :=
  [0x5b, 0x6f, 0x75, 0x74, 0x70, 0x75, 0x74, 0x20, 0x74, 0x72, 0x75, 0x6e, 0x63, 0x61, 0x74, 0x65, 0x64, 0x5d, 0x0a]

def hookResult (h : Hook) : HookResult where
  containerID := h.containerID
  exitCode := (hookEnd h).2
  output :=
    if h.command = [] ∨ h.containerID = "" then []
    else
      let r := (exec h.command h.engine maxHookOutput).1
      (if r.truncated then truncationMark else []) ++ toValidUTF8 r.output
  error := (hookEnd h).1.getD ""

/-- `runHooks`: stops at the first hook that is not optional and fails. -/
def runHooks (phase : String) : Nat → List Hook → List HookResult × Option Err
  | _, [] => ([], none)
  | i, h :: hooks =>
    match h.ctxBefore with
    | some er => ([], some er)
    | none =>
      match h.ctxAfter, (hookEnd h).1, h.optional with
      | some er, _, _ => ([hookResult h], some er)
      | none, some msg, false =>
        ([hookResult h], some (permanent (phase ++ " hook " ++ toString (i + 1) ++ " in container " ++ h.containerID ++
          " failed: " ++ msg)))
      | none, _, _ => (hookResult h :: (runHooks phase (i + 1) hooks).1, (runHooks phase (i + 1) hooks).2)

/-- Without an error the exit code is that of the process. -/
def Truthful (e : Engine) (r : ExecResult × Option Err) : Prop := r.2 = none → r.1.exitCode = e.exitCode

/-- The call ends with an error whatever the process does. -/
def Interrupted (cmd : List String) (e : Engine) (errs : List (Option Err)) : Prop :=
  cmd = [] ∨ e.create ≠ none ∨ e.attach ≠ none ∨ (∃ x ∈ errs, x ≠ none) ∨ e.inspectErr 0 ≠ none

/-- The engine has the exit code when it is asked, or there is nothing to miss. -/
def InTime (e : Engine) : Prop := e.lag = 0 ∨ e.exitCode = 0

/-- The command was started and has failed. -/
def Hook.Fails (h : Hook) : Prop :=
  h.containerID ≠ "" ∧ h.command ≠ [] ∧ h.engine.create = none ∧ h.engine.attach = none ∧ h.engine.exitCode ≠ 0

/-- The hook ends the sequence: the context is cancelled, or it is required and seen to fail. -/
def Hook.Stops (h : Hook) : Prop :=
  h.ctxBefore ≠ none ∨ h.ctxAfter ≠ none ∨ h.optional = false ∧ (h.containerID = "" ∨ h.timedOut = true ∨
      Interrupted h.command h.engine [h.engine.ctxErr, h.engine.copyErr] ∨ h.engine.lag = 0 ∧ h.engine.exitCode ≠ 0)

structure Reported (cmd : List String) (e : Engine) (maxOutput : Int) (l : Load) (phase : String) (hooks : List Hook) :
    Prop where
  exec : Truthful e (exec cmd e maxOutput)
  execInput : Truthful e (execInput cmd e maxOutput)
  load : l.engine.exitCode ≠ 0 → (loadPostgres l).2 ≠ none
  hooks : (∃ h ∈ hooks, h.Fails) → (runHooks phase 0 hooks).2 ≠ none

structure Noticed (cmd : List String) (e : Engine) (l : Load) (hooks : List Hook) : Prop where
  exec : Interrupted cmd e [e.ctxErr, e.copyErr] ∨ InTime e
  execInput : Interrupted cmd e [e.ctxErr, e.inputErr, e.copyErr] ∨ InTime e
  load : (∃ er, l.details = .error er) ∨ l.stream ≠ none ∨ l.reader ≠ none ∨
    Interrupted (psql "") l.engine [l.engine.ctxErr, l.engine.inputErr, l.engine.copyErr] ∨ InTime l.engine
  hooks : (∃ h ∈ hooks, h.Fails) → ∃ h ∈ hooks, h.Stops

variable {cmd : List String} {e : Engine} {res : ExecResult} {errs : List (Option Err)} {exit : Except Err Int}

theorem findSome_id {xs : List (Option Err)} : xs.findSome? id = none ↔ ¬ ∃ x ∈ xs, x ≠ none := by
  simp [findSome?_eq_none_iff]

theorem session_ok (h : ¬ (cmd = [] ∨ e.create ≠ none ∨ e.attach ≠ none ∨ ∃ x ∈ errs, x ≠ none)) (code : Int) :
    session cmd e res errs (.ok code) = ({res with exitCode := code}, none) := by
  simp only [not_or, ne_eq, not_not] at h
  obtain ⟨hcmd, hcreate, hattach, herrs⟩ := h
  unfold session
  rw [if_neg hcmd, hcreate, hattach, findSome_id.2 herrs]
  rfl

theorem session_error (er : Err) : (session cmd e res errs (.error er)).2 ≠ none := by
  unfold session
  split
  · simp
  split
  · simp
  · cases errs.findSome? id <;> simp

theorem session_interrupted (h : cmd = [] ∨ e.create ≠ none ∨ e.attach ≠ none ∨ ∃ x ∈ errs, x ≠ none) :
    (session cmd e res errs exit).2 ≠ none := by
  unfold session
  by_cases hcmd : cmd = []
  · rw [if_pos hcmd]
    simp
  rw [if_neg hcmd]
  cases hopen : [e.create, e.attach].findSome? id with
  | some er => simp
  | none =>
    cases herr : errs.findSome? id with
    | some er => simp
    | none =>
      rw [findSome_id] at hopen herr
      simp only [mem_cons, not_mem_nil, or_false, exists_eq_or_imp, exists_eq_left, not_or] at hopen
      rcases h with h | h | h | h
      · exact absurd h hcmd
      · exact absurd h hopen.1
      · exact absurd h hopen.2
      · exact absurd h herr

theorem inspectOnce_eq (h : e.inspectErr 0 = none) : inspectOnce e = .ok (if 0 < e.lag then 0 else e.exitCode) := by
  unfold inspectOnce Engine.execInspect
  rw [h]
  show (if 0 < e.lag then Except.ok (true, (0 : Int)) else Except.ok (false, e.exitCode)).map _ = _
  split <;> rfl

theorem inspectOnce_error {er : Err} (h : e.inspectErr 0 = some er) : inspectOnce e = .error er := by
  unfold inspectOnce Engine.execInspect
  rw [h]
  rfl

theorem seen_eq_iff : (if 0 < e.lag then 0 else e.exitCode) = e.exitCode ↔ InTime e := by
  unfold InTime
  split <;> omega

theorem session_once (cmd : List String) (e : Engine) (res : ExecResult) (errs : List (Option Err)) :
    (Interrupted cmd e errs ∧ (session cmd e res errs (inspectOnce e)).2 ≠ none) ∨
    ¬ Interrupted cmd e errs ∧ session cmd e res errs (inspectOnce e) =
      ({res with exitCode := if 0 < e.lag then 0 else e.exitCode}, none) := by
  by_cases hopen : cmd = [] ∨ e.create ≠ none ∨ e.attach ≠ none ∨ ∃ x ∈ errs, x ≠ none
  · left
    refine ⟨?_, session_interrupted hopen⟩
    rcases hopen with h | h | h | h
    · exact .inl h
    · exact .inr (.inl h)
    · exact .inr (.inr (.inl h))
    · exact .inr (.inr (.inr (.inl h)))
  cases hins : e.inspectErr 0 with
  | some er =>
    left
    rw [inspectOnce_error hins]
    exact ⟨.inr (.inr (.inr (.inr (by simp [hins])))), session_error er⟩
  | none =>
    right
    rw [inspectOnce_eq hins, session_ok hopen]
    refine ⟨?_, rfl⟩
    rintro (h | h | h | h | h)
    · exact hopen (.inl h)
    · exact hopen (.inr (.inl h))
    · exact hopen (.inr (.inr (.inl h)))
    · exact hopen (.inr (.inr (.inr h)))
    · exact h hins

theorem truthful_once_iff :
    Truthful e (session cmd e res errs (inspectOnce e)) ↔ Interrupted cmd e errs ∨ InTime e := by
  rcases session_once cmd e res errs with ⟨hint, herr⟩ | ⟨hint, heq⟩
  · exact ⟨fun _ => .inl hint, fun _ hnone => absurd hnone herr⟩
  rw [heq]
  rw [← seen_eq_iff]
  exact ⟨fun h => .inr (h rfl), fun h _ => h.resolve_left hint⟩

theorem failing_once_iff (hexit : e.exitCode ≠ 0) :
    ((session cmd e res errs (inspectOnce e)).2 ≠ none ∨ (session cmd e res errs (inspectOnce e)).1.exitCode ≠ 0) ↔
      Interrupted cmd e errs ∨ InTime e := by
  rcases session_once cmd e res errs with ⟨hint, herr⟩ | ⟨hint, heq⟩
  · exact ⟨fun _ => .inl hint, fun _ => .inl herr⟩
  rw [heq]
  simp only [hint, ne_eq, not_true_eq_false, false_or]
  unfold InTime
  split <;> omega

theorem interrupted_input : Interrupted cmd e [e.ctxErr, e.inputErr.map (Err.wrap "stream input: "), e.copyErr] ↔
      Interrupted cmd e [e.ctxErr, e.inputErr, e.copyErr] := by
  unfold Interrupted
  cases e.inputErr <;> simp

theorem interrupted_psql (user : String) : Interrupted (psql user) e errs ↔ Interrupted (psql "") e errs := by
  unfold Interrupted psql
  simp

theorem execInput_truthful_iff (maxOutput : Int) :
    Truthful e (execInput cmd e maxOutput) ↔ Interrupted cmd e [e.ctxErr, e.inputErr, e.copyErr] ∨ InTime e := by
  unfold execInput
  rw [truthful_once_iff, interrupted_input]

theorem load_fails_iff (l : Load) : (l.engine.exitCode ≠ 0 → (loadPostgres l).2 ≠ none) ↔
    (∃ er, l.details = .error er) ∨ l.stream ≠ none ∨ l.reader ≠ none ∨
      Interrupted (psql "") l.engine [l.engine.ctxErr, l.engine.inputErr, l.engine.copyErr] ∨ InTime l.engine := by
  by_cases hexit : l.engine.exitCode = 0
  · exact ⟨fun _ => .inr (.inr (.inr (.inr (.inr hexit)))), fun _ h => absurd hexit h⟩
  unfold loadPostgres
  cases hd : l.details with
  | error er => simp
  | ok env =>
    cases hs : l.stream with
    | some er => simp
    | none =>
      cases hr : l.reader with
      | some er => simp
      | none =>
        simp only [reduceCtorEq, exists_false, ne_eq, not_true_eq_false, false_or, hexit, not_false_eq_true, forall_const]
        generalize hu : (if envValue env "POSTGRES_USER" = "" then "postgres" else envValue env "POSTGRES_USER") = user
        rw [← interrupted_psql user, ← interrupted_input, ← failing_once_iff hexit]
        show _ ↔ (execInput (psql user) l.engine maxDBOutput).2 ≠ none ∨
          (execInput (psql user) l.engine maxDBOutput).1.exitCode ≠ 0
        cases he : (execInput (psql user) l.engine maxDBOutput).2 with
        | some er => simp
        | none =>
          by_cases hc : (execInput (psql user) l.engine maxDBOutput).1.exitCode = 0 <;> simp [hc]

theorem hookEnd_iff (h : Hook) : (hookEnd h).1 ≠ none ↔ h.containerID = "" ∨ h.timedOut = true ∨
      Interrupted h.command h.engine [h.engine.ctxErr, h.engine.copyErr] ∨ h.engine.lag = 0 ∧ h.engine.exitCode ≠ 0 := by
  unfold hookEnd
  by_cases hnone : h.command = [] ∨ h.containerID = ""
  · rw [if_pos hnone]
    refine ⟨fun _ => ?_, fun _ => by simp⟩
    rcases hnone with hc | hc
    · exact .inr (.inr (.inl (.inl hc)))
    · exact .inl hc
  rw [if_neg hnone]
  rw [not_or] at hnone
  cases htime : h.timedOut with
  | true => simp
  | false =>
    simp only [hnone.2, Bool.false_eq_true, if_false, false_or]
    unfold exec
    rcases session_once h.command h.engine (collect maxHookOutput (h.engine.output.map (·.2)))
      [h.engine.ctxErr, h.engine.copyErr] with ⟨hint, herr⟩ | ⟨hint, heq⟩
    · obtain ⟨er, her⟩ := Option.ne_none_iff_exists'.1 herr
      simp [her, hint]
    simp only [heq, hint, false_or]
    by_cases hlag : h.engine.lag = 0
    · simp [hlag]
    · simp [hlag, Nat.pos_of_ne_zero hlag]

theorem runHooks_iff (phase : String) (hooks : List Hook) (i : Nat) :
    (runHooks phase i hooks).2 ≠ none ↔ ∃ h ∈ hooks, h.Stops := by
  induction hooks generalizing i with
  | nil => simp [runHooks]
  | cons h hooks ih =>
    rw [runHooks, exists_mem_cons_iff, ← ih (i + 1)]
    unfold Hook.Stops
    rw [← hookEnd_iff]
    cases hb : h.ctxBefore with
    | some er => simp
    | none =>
      cases ha : h.ctxAfter with
      | some er => simp
      | none =>
        cases he : (hookEnd h).1 with
        | none => simp
        | some msg => cases ho : h.optional <;> simp

/-- A failed process is reported if and only if its exit is recorded when its output ends, or
something else fails. -/
theorem failure_reported (cmd : List String) (e : Engine) (maxOutput : Int) (l : Load) (phase : String)
    (hooks : List Hook) : Reported cmd e maxOutput l phase hooks ↔ Noticed cmd e l hooks := by
  constructor
  · intro h
    exact ⟨truthful_once_iff.1 h.exec, (execInput_truthful_iff maxOutput).1 h.execInput, (load_fails_iff l).1 h.load,
      fun hfails => (runHooks_iff phase hooks 0).1 (h.hooks hfails)⟩
  · intro h
    exact ⟨truthful_once_iff.2 h.exec, (execInput_truthful_iff maxOutput).2 h.execInput, (load_fails_iff l).2 h.load,
      fun hfails => (runHooks_iff phase hooks 0).2 (h.hooks hfails)⟩

/-- The process fails, and its output ends before the engine has recorded that. -/
def early : Engine :=
  ⟨none, none, [], none, none, 0, none, fun _ => none, 1, 3⟩

/-- Each of the four reports a success. -/
theorem failure_unreported : ¬ Reported ["false"] early 0 ⟨.ok [], none, none, early, false⟩ "pre"
      [⟨"c", ["false"], 0, false, early, false, none, none⟩] ∧
    (exec ["false"] early 0).1.exitCode = 0 ∧ (loadPostgres ⟨.ok [], none, none, early, false⟩).2 = none ∧
    (runHooks "pre" 0 [⟨"c", ["false"], 0, false, early, false, none, none⟩]).2 = none := by
  refine ⟨fun h => ?_, by decide, by decide, by decide⟩
  exact absurd (h.exec (by decide)) (by decide)

end Dbr2.Agent.Exec
