import Dbr2.Agent.JournalDurability

/-! Commands that are dispatched again (`workflows/agentcmd`, `handleCommand`).

The id of a command is that of the activity that dispatches it, whatever the attempt, and the agent
answers an id it has a result of from the journal. A failure that is marked retryable is a result
like any other: the next attempt of the activity is answered with it, and nothing is executed
(`retryable_replayed`). -/
namespace Dbr2.Agent.Commands
open Lib

structure ActivityInfo where
  (workflowId runId activityId : String)
  attempt : Nat
  deriving DecidableEq

def commandID (info : ActivityInfo) : String :=
  info.workflowId ++ "/" ++ info.runId ++ "/" ++ info.activityId

inductive DispatchResult
  | ok (u : CommandUpdate)
  | permanent (error : String)
  | retry (error : String)
  deriving DecidableEq

def dispatchResult (u : CommandUpdate) : DispatchResult :=
  if u.state = .succeeded then .ok u
  else if u.retryable then .retry ("agent command failed: " ++ u.error)
  else .permanent ("agent command failed: " ++ u.error)

def CommandUpdate.retries (u : CommandUpdate) : Bool :=
  match dispatchResult u with
  | .retry _ => true
  | _ => false

/-- How an execution goes: it ends with an update that is journaled; or the agent shuts down, and whether it has
ended or not, nothing is journaled. -/
inductive Ending
  | ends (u : CommandUpdate) (fate : WriteFate)
  | stops (u : Option CommandUpdate)

/-- The journal, and the update that the last execution of each command ended with. -/
structure Attempts where
  world : JournalWorld
  ended : String → Option CommandUpdate

inductive AttemptEvent
  | dispatch (info : ActivityInfo) (kind : String) (accept : WriteFate) (ending : Ending)
  | ack (id : String) (fate : WriteFate)
  | tick (d : Nat)
  | crash
  | open (fate : CompactFate)

section Dispatch
variable (codec : Codec Record)

/-- handleCommand, from the lookup on: the stored result, or none if the command is to
be executed. -/
def stored (w : JournalWorld) (id : String) : Option CommandUpdate :=
  w.journal.bind fun j => j.records.result id

def executes (w : JournalWorld) (id : String) : Bool := w.journal.isSome && (stored w id).isNone

def Attempts.execute (s : Attempts) (id kind : String) (accept : WriteFate) (ending : Ending) : Attempts :=
  let w := journalStep codec s.world (.accept id kind accept)
  -- the agent may die in Accept
  if w.journal.isNone then {s with world := w}
  else match ending with
    -- execute answers with the id of its command
    | .ends u fate => ⟨journalStep codec w (.finish {u with commandId := id} kind fate),
        Function.update s.ended id (some {u with commandId := id})⟩
    | .stops none => {s with world := {w with journal := none}}
    | .stops (some u) => ⟨{w with journal := none}, Function.update s.ended id (some {u with commandId := id})⟩

def attemptStep (s : Attempts) : AttemptEvent → Attempts
  | .dispatch info kind accept ending =>
    if executes s.world (commandID info) then s.execute codec (commandID info) kind accept ending else s
  | .ack id fate => {s with world := journalStep codec s.world (.ack id fate)}
  | .tick d => {s with world := journalStep codec s.world (.tick d)}
  | .crash => {s with world := journalStep codec s.world .crash}
  | .open fate => {s with world := journalStep codec s.world (.open fate)}

/-- An attempt after an execution that ended executes the command again if that ended
in a retryable failure, and is answered with its outcome if not. -/
def Answers (s : Attempts) : AttemptEvent → Prop
  | .dispatch info _ _ _ => s.world.journal.isSome = true → ∀ u, s.ended (commandID info) = some u →
      if u.retries then executes s.world (commandID info) = true
      else executes s.world (commandID info) = false ∧ stored s.world (commandID info) = some u
  | _ => True

/-- An execution ends in a retryable failure exactly if the agent is shutting down; the journal's calls are tidy;
and when the agent starts, the outcome of every other execution is durable and was not acknowledged a day ago. -/
def Sound (s : Attempts) : AttemptEvent → Prop
  | .dispatch info kind accept ending => executes s.world (commandID info) = true →
      Tidy codec s.world (.accept (commandID info) kind accept) ∧
      (∀ u fate, ending = .ends u fate → u.retries = false ∧
        Tidy codec (journalStep codec s.world (.accept (commandID info) kind accept))
          (.finish {u with commandId := commandID info} kind fate)) ∧
      ∀ u, ending = .stops (some u) → u.retries = true
  | .ack id fate => Tidy codec s.world (.ack id fate)
  | .open fate => Tidy codec s.world (.open fate) ∧ ∀ id u, s.ended id = some u → u.retries = false →
      ∃ r, s.world.durable id = some r ∧ r.update = some u ∧ r.stale s.world.now = false
  | _ => True

end Dispatch

/-- The outcome that is to be answered with: none after a retryable failure. -/
def outcome (ended : String → Option CommandUpdate) (id : String) : Option CommandUpdate :=
  (ended id).filter (!·.retries)

/-- What a record holds is its command's outcome. -/
def Known (ended : String → Option CommandUpdate) (r : Record) : Prop :=
  ∀ u, r.update = some u → outcome ended r.commandId = some u

/-- The records, in memory and in the file, hold outcomes only, and those in memory hold all of them. -/
structure Recorded (codec : Codec Record) (s : Attempts) : Prop where
  kept : Kept codec (Known s.ended) s.world
  all : ∀ j, s.world.journal = some j → ∀ id u, outcome s.ended id = some u → (j.records.result id).isSome = true
  named : ∀ id u, s.ended id = some u → id ≠ ""

variable {codec : Codec Record} {s : Attempts} {w : JournalWorld} {j j' : Journal} {r : Record} {id kind : String}

theorem commandID_ne (info : ActivityInfo) : commandID info ≠ "" := by
  intro h
  have hlen := congrArg String.length h
  simp only [commandID, String.length_append] at hlen
  simp at hlen

theorem write_records {fate : WriteFate} (h : (w.write codec j r fate).journal = some j') :
    j'.records = j.records.put r := by
  unfold JournalWorld.write at h
  split at h
  · cases fate with
    | whole c =>
      dsimp only at h
      split at h
      · cases c <;> cases h <;> rfl
      · cases h
        rfl
    | cut n dies => cases dies <;> cases h; rfl
  · dsimp only at h
    split at h <;> cases h
    rfl

/-- After a call, the map in memory has the call's record. -/
theorem call_records {e : JournalEvent} (hj : w.journal = some j) (hr : e.record w.now j.records = some r)
    (h : (w.call codec e).journal = some j') : j'.records = j.records.put r := by
  unfold JournalWorld.call at h
  rw [hj] at h
  dsimp only at h
  rw [hr] at h
  exact write_records h

theorem Recorded.stored_eq (h : Recorded codec s) (hup : s.world.journal.isSome = true) (id : String) :
    stored s.world id = outcome s.ended id := by
  obtain ⟨j, hj⟩ := Option.isSome_iff_exists.1 hup
  have hstored : stored s.world id = j.records.result id := by
    unfold stored
    rw [hj]
    rfl
  rw [hstored]
  cases hres : j.records.result id with
  | some u =>
    obtain ⟨r, hr, hu⟩ := Option.bind_eq_some_iff.1 hres
    obtain ⟨hmem, rfl⟩ := Records.find_some hr
    exact ((h.kept.journal j hj).known r hmem u hu).symm
  | none =>
    cases ho : outcome s.ended id with
    | none => rfl
    | some u => exact absurd (h.all j hj id u ho) (by rw [hres]; exact Bool.false_ne_true)

theorem outcome_retries {u : CommandUpdate} (hu : s.ended id = some u) (hr : u.retries = true) :
    outcome s.ended id = none := by
  simp [outcome, hu, hr]

theorem outcome_final {u : CommandUpdate} (hu : s.ended id = some u) (hr : u.retries = false) :
    outcome s.ended id = some u := by
  simp [outcome, hu, hr]

theorem Recorded.answers (h : Recorded codec s) (e : AttemptEvent) : Answers s e := by
  cases e with
  | dispatch info kind accept ending =>
    intro hup u hu
    unfold executes
    rw [h.stored_eq hup, hup]
    cases hr : u.retries with
    | true =>
      rw [outcome_retries hu hr]
      rfl
    | false =>
      rw [outcome_final hu hr]
      exact ⟨rfl, rfl⟩
  | _ => trivial

theorem Recorded.down (h : Recorded codec s) : Recorded codec {s with world := {s.world with journal := none}} where
  kept := h.kept.step (e := .crash) ⟨fun _ _ _ hr => (by cases hr), fun _ he => by cases he⟩ fun _ _ _ hr => by cases hr
  all _ hj := by cases hj
  named := h.named

/-- A call that writes a record of a command: the map has an outcome of it as before, or the record's. -/
theorem Recorded.call (h : Recorded codec s) {e : JournalEvent} {ended : String → Option CommandUpdate}
    (hstep : journalStep codec s.world e = s.world.call codec e) (he : Tidy codec s.world e)
    (hknown : ∀ r, Known s.ended r → Known ended r) (hnamed : ∀ id u, ended id = some u → id ≠ "")
    (hrec : ∀ j r, s.world.journal = some j → e.record s.world.now j.records = some r → Known ended r ∧
      ((outcome ended r.commandId).isSome = true → r.update.isSome = true) ∧
      ∀ id, id ≠ r.commandId → outcome ended id = outcome s.ended id)
    (hnone : ∀ j, s.world.journal = some j → e.record s.world.now j.records = none → ended = s.ended) :
    Recorded codec ⟨journalStep codec s.world e, ended⟩ where
  kept := (h.kept.mono hknown).step he fun j r hj hr => (hrec j r hj hr).1
  all j' hj' id u hu := by
    dsimp only at hj'
    rw [hstep] at hj'
    cases hj : s.world.journal with
    | none =>
      rw [JournalWorld.call, hj] at hj'
      cases hj.symm.trans hj'
    | some j =>
      cases hr : e.record s.world.now j.records with
      | none =>
        rw [JournalWorld.call, hj] at hj'
        dsimp only at hj'
        rw [hr] at hj'
        rw [hnone j hj hr] at hu
        exact h.all j' hj' id u hu
      | some r =>
        obtain ⟨-, hsame, hother⟩ := hrec j r hj hr
        rw [call_records hj hr hj', Records.result_put]
        split
        · rename_i hid
          exact hsame (by rw [hid, hu]; rfl)
        · rename_i hid
          exact h.all j hj id u (hother id (Ne.symm hid) ▸ hu)
  named := hnamed

theorem retries_commandId (u : CommandUpdate) (id : String) :
    CommandUpdate.retries {u with commandId := id} = u.retries := by
  unfold CommandUpdate.retries dispatchResult
  split_ifs <;> rfl

/-- A journal that is there after OpenJournal was there before, or holds what was read. -/
theorem openJournal_journal {fate : CompactFate} (h : (w.openJournal codec fate).journal = some j) :
    w.journal = some j ∨ w.journal = none ∧ openRecords codec w.now w.file = some j.records := by
  unfold JournalWorld.openJournal at h
  split at h
  · rename_i hnone hrs
    refine .inr ⟨hnone, ?_⟩
    cases fate with
    | done =>
      cases h
      exact hrs
    | _ => cases hnone.symm.trans h
  · exact .inl h

theorem openJournal_done {rs : Records} (hj : w.journal = none) (h : openRecords codec w.now w.file = some rs) :
    w.openJournal codec .done = w.compact codec ⟨rs, 0, true⟩ .done := by
  unfold JournalWorld.openJournal
  rw [hj, h]

theorem Recorded.congr (h : Recorded codec s) {ended : String → Option CommandUpdate}
    (ho : outcome ended = outcome s.ended) (hnamed : ∀ id u, ended id = some u → id ≠ "") :
    Recorded codec ⟨s.world, ended⟩ where
  kept := h.kept.mono fun _ hr u hu => ho ▸ hr u hu
  all j hj id u hu := h.all j hj id u (ho ▸ hu)
  named := hnamed

theorem Recorded.accept (h : Recorded codec s) {fate : WriteFate} (hid : outcome s.ended id = none)
    (he : Tidy codec s.world (.accept id kind fate)) :
    Recorded codec {s with world := journalStep codec s.world (.accept id kind fate)} := by
  refine h.call rfl he (fun _ hr => hr) h.named (fun j r _ hr => ?_) fun _ _ hr => by cases hr
  obtain rfl : acceptedRecord s.world.now id kind = r := Option.some.inj hr
  exact ⟨fun _ hu => (by cases hu), fun hsome => absurd hsome (by rw [acceptedRecord, hid]; exact Bool.false_ne_true),
    fun _ _ => rfl⟩

theorem named_update (h : Recorded codec s) (hid : id ≠ "") {o : Option CommandUpdate} :
    ∀ x u, Function.update s.ended id o x = some u → x ≠ "" := by
  intro x u hx
  rcases update_some hx with ⟨rfl, -⟩ | ⟨-, hx⟩
  · exact hid
  · exact h.named x u hx

theorem outcome_update_ne {x : String} {o : Option CommandUpdate} (hx : x ≠ id) :
    outcome (Function.update s.ended id o) x = outcome s.ended x := by
  unfold outcome
  rw [Function.update_of_ne hx]

theorem Recorded.finish (h : Recorded codec s) {u : CommandUpdate} {fate : WriteFate} (hne : id ≠ "")
    (hid : outcome s.ended id = none) (hu : u.retries = false)
    (he : Tidy codec s.world (.finish {u with commandId := id} kind fate)) :
    Recorded codec ⟨journalStep codec s.world (.finish {u with commandId := id} kind fate),
      Function.update s.ended id (some {u with commandId := id})⟩ := by
  have hout : outcome (Function.update s.ended id (some {u with commandId := id})) id =
      some {u with commandId := id} := by
    unfold outcome
    rw [Function.update_self]
    exact Option.filter_some_pos (by rw [retries_commandId, hu]; rfl)
  refine h.call rfl he (fun r hr v hv => ?_) (named_update h hne) (fun j r _ hr => ?_) fun _ _ hr => by cases hr
  · by_cases hx : r.commandId = id
    · cases hid.symm.trans (hx ▸ hr v hv)
    · rw [outcome_update_ne hx]
      exact hr v hv
  · obtain rfl : finishedRecord s.world.now {u with commandId := id} kind = r := Option.some.inj hr
    exact ⟨fun v hv => hout.trans hv, fun _ => rfl, fun x hx => outcome_update_ne hx⟩

theorem Recorded.ack (h : Recorded codec s) {fate : WriteFate} (he : Tidy codec s.world (.ack id fate)) :
    Recorded codec {s with world := journalStep codec s.world (.ack id fate)} := by
  refine h.call rfl he (fun _ hr => hr) h.named (fun j r hj hr => ?_) fun _ _ _ => rfl
  obtain ⟨r₀, hfind, hr⟩ := Option.bind_eq_some_iff.1 (show ackedRecord s.world.now j.records id = some r from hr)
  obtain ⟨hmem, rfl⟩ := Records.find_some hfind
  split at hr
  · obtain rfl := Option.some.inj hr
    refine ⟨(h.kept.journal j hj).known r₀ hmem, fun hsome => ?_, fun _ _ => rfl⟩
    obtain ⟨u, hu⟩ := Option.isSome_iff_exists.1 hsome
    have hall := h.all j hj _ u hu
    rw [Records.result, hfind] at hall
    exact hall
  · cases hr

theorem Recorded.reopen (h : Recorded codec s) {fate : CompactFate} (he : Sound codec s (.open fate)) :
    Recorded codec {s with world := journalStep codec s.world (.open fate)} where
  kept := h.kept.step he.1 fun _ _ _ hr => by cases hr
  all j' hj' id u hu := by
    rcases openJournal_journal hj' with hj | ⟨hj, hread⟩
    · exact h.all j' hj id u hu
    · obtain ⟨rs, hopen, hmapped⟩ := h.kept.opens (he.1.2 fate rfl hj)
      obtain rfl := Option.some.inj (hread.symm.trans hopen)
      obtain ⟨hended, hfinal⟩ := Option.filter_eq_some_iff.1 hu
      obtain ⟨r, hdurable, hupdate, hfresh⟩ := he.2 id u hended (by simpa using hfinal)
      rcases hmapped.current id (h.named id u hended) r hdurable with hstale | ⟨r', hfind, -, hsome⟩
      · rw [hfresh] at hstale
        cases hstale
      · rw [Records.result, hfind]
        exact hsome (by rw [hupdate]; rfl)
  named := h.named

/-- What was answered is in the journal, through attempts that die. -/
theorem Recorded.step (h : Recorded codec s) {e : AttemptEvent} (he : Sound codec s e) :
    Recorded codec (attemptStep codec s e) := by
  cases e with
  | dispatch info kind accept ending =>
    dsimp only [attemptStep]
    by_cases hex : executes s.world (commandID info) = true
    · obtain ⟨htidy, hends, hstops⟩ := he hex
      simp only [executes, Bool.and_eq_true] at hex
      have hid : outcome s.ended (commandID info) = none := by
        rw [← h.stored_eq hex.1]
        exact Option.isNone_iff_eq_none.1 hex.2
      have haccept := h.accept hid htidy
      rw [if_pos (by simp [executes, hex])]
      unfold Attempts.execute
      dsimp only
      split
      · exact haccept
      cases ending with
      | ends u fate => exact haccept.finish (commandID_ne info) hid (hends u fate rfl).1 (hends u fate rfl).2
      | stops u =>
        cases u with
        | none => exact haccept.down
        | some u =>
          refine haccept.down.congr ?_ (named_update h (commandID_ne info))
          funext x
          by_cases hx : x = commandID info
          · subst hx
            refine Eq.trans ?_ hid.symm
            unfold outcome
            rw [Function.update_self]
            exact Option.filter_some_neg (by rw [retries_commandId, hstops u rfl]; decide)
          · exact outcome_update_ne hx
    · rw [if_neg hex]
      exact h
  | ack id fate => exact h.ack he
  | tick d =>
    exact ⟨h.kept.step (e := .tick d) ⟨fun _ _ _ hr => (by cases hr), fun _ he => by cases he⟩ fun _ _ _ hr => (by cases hr),
      h.all, h.named⟩
  | crash => exact h.down
  | «open» fate => exact h.reopen he

def resumeInfo (attempt : Nat) : ActivityInfo := ⟨"wf", "run", "7", attempt⟩

def dockerFailure : CommandUpdate := ⟨"", .failed, "docker is restarting", true, ""⟩

def resumeAccepted : Record := acceptedRecord 0 "wf/run/7" "resume"

/-- `unaryCodec` with the record of this command for its first one. -/
noncomputable def resumeCodec : Codec Record where
  encode r := unaryCodec.encode (Equiv.swap firstRecord resumeAccepted r)
  decode bs := (unaryCodec.decode bs).map (Equiv.swap firstRecord resumeAccepted)
  printable _ := unaryCodec.printable _
  decode_encode r := by simp [unaryCodec.decode_encode]
  decode_cut r p hp hne := by rw [unaryCodec.decode_cut _ p hp hne, Option.map_none]

theorem resumeCodec_encode : resumeCodec.encode resumeAccepted = [123, 125] := by
  simp [resumeCodec, unary_firstRecord]

theorem resumeCodec_tidy (s : JournalWorld) (hnow : s.now = 0) (hfile : AtBoundary s.file)
    (hdurable : ∀ r, s.durable "wf/run/7" = some r → r.update = none) :
    Tidy resumeCodec s (.accept "wf/run/7" "resume" (.whole .done)) := by
  refine ⟨fun j r hj hr => ?_, fun _ he => by cases he⟩
  obtain rfl : resumeAccepted = r := by
    rw [← Option.some.inj hr, hnow]
    rfl
  exact ⟨fun _ => hfile, by rw [resumeCodec_encode]; decide, fun _ _ => hdurable⟩

/-- The agent shuts down while it executes the command, which fails for that, and executes it again when it is
back. -/
def failsInShutdown : List AttemptEvent :=
  [.open .done, .dispatch (resumeInfo 1) "resume" (.whole .done) (.stops (some dockerFailure)), .open .done,
    .dispatch (resumeInfo 2) "resume" (.whole .done) (.stops none)]

def failsOnce : List AttemptEvent :=
  [.open .done, .dispatch (resumeInfo 1) "resume" (.whole .done) (.ends dockerFailure (.whole .done)),
    .dispatch (resumeInfo 2) "resume" (.whole .done) (.ends ⟨"", .succeeded, "", false, "resumed"⟩ (.whole .done))]

end Dbr2.Agent.Commands
