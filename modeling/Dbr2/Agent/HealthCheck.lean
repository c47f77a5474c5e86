import Mathlib.Data.List.Chain

/-! The health check of a restored application (`checkHealth` in `internal/agent/recreate.go`).

The check polls the containers until all have been fine for `stable_seconds`. It looks at them only
when it polls: a container that restarts and is running again at the next poll goes unnoticed,
unless it has done so three times since the first poll. -/
namespace Dbr2.Agent.HealthCheck
open List

inductive State
  | created
  | running
  | paused
  | restarting
  | removing
  | exited
  | dead
  deriving DecidableEq

inductive Health
  | none
  | starting
  | healthy
  | unhealthy
  deriving DecidableEq

structure Details where
  name : String
  state : State
  health : Health
  (exitCode restartCount : Int)
  deriving DecidableEq

inductive InspectError
  | notFound
  | other
  deriving DecidableEq

/-- What an inspection finds at a time. -/
abbrev World := Int → String → Except InspectError Details

/-- One round of the loop: when each container is inspected, and when it ends. -/
structure Poll where
  inspected : String → Int
  now : Int
  /-- The context has ended at a failing inspection, and in the wait after the poll. -/
  (cancelled stopped : Bool)

structure ContainerHealth where
  containerID : String
  details : Option Details
  ok : Bool
  deriving DecidableEq

/-- Why the check gives up before its timeout. -/
inductive Fatal
  | gone (id : String)
  | unhealthy (name : String) (since : Int)
  | ended (name : String) (state : State) (exitCode : Int)
  | restarted (name : String) (times : Int)
  deriving DecidableEq

inductive Verdict
  | ok (containers : List ContainerHealth)
  | unhealthy (containers : List ContainerHealth) (fatal : List Fatal)
  | timeout (containers : List ContainerHealth)
  | cancelled
  deriving DecidableEq

structure Command where
  containerIDs : List String
  (timeoutSeconds stableSeconds : Nat)

def second : Int := 1000000000

def restartLoop : Int := 3

def Command.timeout (c : Command) : Int := if c.timeoutSeconds = 0 then 300 * second else c.timeoutSeconds * second

def Command.stable (c : Command) : Int := c.stableSeconds * second

/-- What the loop keeps from poll to poll. -/
structure Loop where
  baseRestarts : String → Option Int := fun _ => none
  unhealthySince : String → Option Int := fun _ => none
  okSince : Option Int := none

structure Round where
  loop : Loop
  ok : Bool
  fatal : List Fatal
  containers : List ContainerHealth

/-- Running, and healthy if it has a health check. -/
def Details.fine (d : Details) : Bool := d.state == .running && (d.health == .none || d.health == .healthy)

section Check
variable (world : World) (unhealthyAfter : Int)

/-- Unhealthy for too long, ended, or in a restart loop. -/
def fatalOf (d : Details) (base since : Option Int) (now : Int) : Option Fatal :=
  if since.any fun u => unhealthyAfter ≤ now - u then some (.unhealthy d.name (now - since.getD now))
  else if d.state = .exited ∨ d.state = .dead then some (.ended d.name d.state d.exitCode)
  else if base.any fun b => restartLoop ≤ d.restartCount - b then
    some (.restarted d.name (d.restartCount - base.getD 0))
  else none

def inspect (p : Poll) (r : Round) (id : String) : Option Round :=
  match world (p.inspected id) id with
  | .error e =>
    if p.cancelled then none
    else some ⟨r.loop, false, r.fatal ++ if e = .notFound then [.gone id] else [], r.containers ++ [⟨id, none, false⟩]⟩
  | .ok d =>
    let base := r.loop.baseRestarts id
    let since := if d.health = .unhealthy then some ((r.loop.unhealthySince id).getD (p.inspected id)) else none
    some {
      loop := { r.loop with
        baseRestarts := Function.update r.loop.baseRestarts id (some (base.getD d.restartCount))
        unhealthySince := Function.update r.loop.unhealthySince id since }
      ok := r.ok && d.fine
      fatal := r.fatal ++ (fatalOf unhealthyAfter d base since (p.inspected id)).toList
      containers := r.containers ++ [⟨id, some d, d.fine⟩] }

def okSinceAfter (l : Loop) (ok : Bool) (now : Int) : Option Int := if ok then some (l.okSince.getD now) else none

/-- The loop, with the polls that are left over; none if the polls do not suffice. -/
def poll (c : Command) (deadline : Int) (l : Loop) : List Poll → Option (Verdict × List Poll)
  | [] => none
  | p :: ps =>
    match c.containerIDs.foldlM (inspect world unhealthyAfter p) ⟨l, true, [], []⟩ with
    | none => some (.cancelled, ps)
    | some r =>
      let okSince := okSinceAfter l r.ok p.now
      if r.fatal ≠ [] then some (.unhealthy r.containers r.fatal, ps)
      else if okSince.any fun s => c.stable ≤ p.now - s then some (.ok r.containers, ps)
      else if deadline < p.now then some (.timeout r.containers, ps)
      else if p.stopped then some (.cancelled, ps)
      else poll c deadline { r.loop with okSince } ps

/-- `checkHealth`. -/
def checkHealth (c : Command) (start : Int) (ps : List Poll) : Option (Verdict × List Poll) :=
  if c.containerIDs = [] then some (.ok [], ps) else poll world unhealthyAfter c (start + c.timeout) {} ps

end Check

section Stable
variable (world : World) (ids : List String)

/-- The poll finds every container running, and neither unhealthy nor starting. -/
def Poll.Fine (p : Poll) : Prop :=
  ∀ id ∈ ids, ∃ d, world (p.inspected id) id = .ok d ∧ d.state = .running ∧ d.health ≠ .unhealthy ∧ d.health ≠ .starting

def restartCount (id : String) (t : Int) : Option Int := (world t id).toOption.map (·.restartCount)

/-- No container restarts between the two times. -/
def Unrestarted (a b : Int) : Prop :=
  ∀ id ∈ ids, ∀ t, a ≤ t → t ≤ b → restartCount world id t = restartCount world id a

def StableWindow (stable : Int) (made : List Poll) : Prop :=
  ids = [] ∨ ∃ pre first rest, made = pre ++ first :: rest ∧ (∀ p ∈ first :: rest, p.Fine world ids) ∧
    stable ≤ (rest.getLastD first).now - first.now ∧ Unrestarted world ids first.now (rest.getLastD first).now

/-- Time does not go back, and nothing restarts between two polls that find all containers fine. -/
def Poll.Followed (p q : Poll) : Prop :=
  p.now ≤ q.now ∧ (p.Fine world ids → q.Fine world ids → Unrestarted world ids p.now q.now)

/-- Every poll since `okSince` was fine. -/
def Streak (made : List Poll) (okSince : Option Int) : Prop :=
  ∀ s, okSince = some s → ∃ pre first rest, made = pre ++ first :: rest ∧ first.now = s ∧
    ∀ p ∈ first :: rest, p.Fine world ids

variable {world ids} {unhealthyAfter : Int} {p : Poll}

theorem fine_of_details {d : Details} (h : d.fine = true) :
    d.state = .running ∧ d.health ≠ .unhealthy ∧ d.health ≠ .starting := by
  unfold Details.fine at h
  cases hs : d.health <;> simp [hs] at h ⊢ <;> exact h

theorem inspect_ok {r r' : Round} {id : String} (h : inspect world unhealthyAfter p r id = some r')
    (hok : r'.ok = true) : r.ok = true ∧ ∃ d, world (p.inspected id) id = .ok d ∧ d.fine = true := by
  unfold inspect at h
  split at h
  · split at h
    · cases h
    · cases h
      cases hok
  rename_i d hd
  cases h
  exact ⟨(Bool.and_eq_true_iff.1 hok).1, d, hd, (Bool.and_eq_true_iff.1 hok).2⟩

theorem fine_of_foldlM {r r' : Round} (h : ids.foldlM (inspect world unhealthyAfter p) r = some r')
    (hok : r'.ok = true) : r.ok = true ∧ p.Fine world ids := by
  induction ids generalizing r with
  | nil =>
    cases h
    exact ⟨hok, fun _ hid => absurd hid not_mem_nil⟩
  | cons id ids ih =>
    rw [foldlM_cons] at h
    obtain ⟨r₁, hr₁, hrest⟩ := Option.bind_eq_some_iff.1 h
    obtain ⟨hok₁, hfine⟩ := ih hrest
    obtain ⟨hok₀, d, hd, hdfine⟩ := inspect_ok hr₁ hok₁
    refine ⟨hok₀, fun x hx => ?_⟩
    rcases mem_cons.1 hx with rfl | hx
    · exact ⟨d, hd, fine_of_details hdfine⟩
    · exact hfine x hx

theorem Unrestarted.trans {a b c : Int} (hab : a ≤ b) (h : Unrestarted world ids a b) (h' : Unrestarted world ids b c) :
    Unrestarted world ids a c := by
  intro id hid t hat htc
  by_cases hbt : b ≤ t
  · rw [h' id hid t hbt htc, h id hid b hab (Int.le_refl b)]
  · exact h id hid t hat (by omega)

theorem unrestarted_of_chain {first : Poll} {rest : List Poll} (hchain : (first :: rest).IsChain (Poll.Followed world ids))
    (hfine : ∀ p ∈ first :: rest, p.Fine world ids) : Unrestarted world ids first.now (rest.getLastD first).now := by
  induction rest generalizing first with
  | nil =>
    intro id _ t hle hge
    rw [show t = first.now from Int.le_antisymm hge hle]
  | cons q rest ih =>
    obtain ⟨⟨hle, hquiet⟩, htail⟩ := isChain_cons_cons.1 hchain
    have hq := hquiet (hfine first mem_cons_self) (hfine q (mem_cons_of_mem _ mem_cons_self))
    rw [getLastD_cons]
    exact hq.trans hle (ih htail fun p hp => hfine p (mem_cons_of_mem _ hp))

theorem Streak.next {made : List Poll} {okSince : Option Int} (h : Streak world ids made okSince)
    (hp : p.Fine world ids) : Streak world ids (made ++ [p]) (some (okSince.getD p.now)) := by
  intro s hs
  cases okSince with
  | none => exact ⟨made, p, [], rfl, Option.some.inj hs, by simpa using hp⟩
  | some s' =>
    obtain ⟨pre, first, rest, rfl, hfirst, hfine⟩ := h s' rfl
    refine ⟨pre, first, rest ++ [p], by simp, hfirst.trans (Option.some.inj hs), fun q hq => ?_⟩
    rw [← cons_append, mem_append, mem_singleton] at hq
    rcases hq with hq | rfl
    · exact hfine q hq
    · exact hp

theorem poll_streak {c : Command} {deadline : Int} {ps made left : List Poll} {l : Loop} {cs : List ContainerHealth}
    (h : poll world unhealthyAfter c deadline l ps = some (.ok cs, left))
    (hs : Streak world c.containerIDs made l.okSince) :
    ∃ more, ps = more ++ left ∧ ∃ pre first rest, made ++ more = pre ++ first :: rest ∧
      (∀ p ∈ first :: rest, p.Fine world c.containerIDs) ∧ c.stable ≤ (rest.getLastD first).now - first.now := by
  induction ps generalizing l made with
  | nil => cases h
  | cons p ps ih =>
    unfold poll at h
    split at h
    · cases h
    rename_i r hr
    dsimp only at h
    split at h
    · cases h
    split at h
    · rename_i hstable
      cases h
      cases hok : r.ok with
      | false =>
        rw [hok] at hstable
        cases hstable
      | true =>
        obtain ⟨pre, first, rest, hmade, hfirst, hfine⟩ := hs.next (fine_of_foldlM hr hok).2 _ rfl
        refine ⟨[p], rfl, pre, first, rest, hmade, hfine, ?_⟩
        have hlast : rest.getLastD first = p := by
          have := congrArg List.getLast? hmade
          rw [getLast?_append, getLast?_append] at this
          simpa [getLast?_cons, getLastD_eq_getLast?] using this.symm
        rw [hok] at hstable
        rw [hlast, hfirst]
        simpa [okSinceAfter] using hstable
    split at h
    · cases h
    split at h
    · cases h
    have hnext : Streak world c.containerIDs (made ++ [p]) (okSinceAfter l r.ok p.now) := by
      unfold okSinceAfter
      split
      · rename_i hok
        exact hs.next (fine_of_foldlM hr hok).2
      · exact fun s hs => by cases hs
    obtain ⟨more, rfl, hmore⟩ := ih h hnext
    refine ⟨p :: more, rfl, ?_⟩
    rwa [append_assoc] at hmore

/-- A check that passes has seen a stable application, where nothing restarts unseen. -/
theorem checkHealth_stable (world : World) (unhealthyAfter : Int) (c : Command) (start : Int) (ps left : List Poll)
    (cs : List ContainerHealth) (h : checkHealth world unhealthyAfter c start ps = some (.ok cs, left))
    (hfollowed : ps.IsChain (Poll.Followed world c.containerIDs)) :
    ∃ made, ps = made ++ left ∧ StableWindow world c.containerIDs c.stable made := by
  unfold checkHealth at h
  split at h
  · rename_i hnil
    cases h
    exact ⟨[], rfl, .inl hnil⟩
  obtain ⟨made, rfl, pre, first, rest, hmade, hfine, hlong⟩ :=
    poll_streak h (show Streak world c.containerIDs [] none from fun s hs => by cases hs)
  rw [nil_append] at hmade
  subst hmade
  refine ⟨_, rfl, .inr ⟨pre, first, rest, rfl, hfine, hlong, ?_⟩⟩
  rw [append_assoc] at hfollowed
  exact unrestarted_of_chain hfollowed.right_of_append.left_of_append hfine

end Stable

def web (restarts : List Int) : World := fun t _ => .ok ⟨"web", .running, .none, 0, restarts.countP (· ≤ t)⟩

def pollAt (t : Int) : Poll := ⟨fun _ => t, t, false, false⟩

def tenSeconds : Command := ⟨["web"], 0, 10⟩

theorem checkHealth_stable_web : checkHealth (web []) (30 * second) tenSeconds 0 [pollAt 0, pollAt (10 * second)] =
        some (.ok [⟨"web", some ⟨"web", .running, .none, 0, 0⟩, true⟩], []) ∧
      ∃ made, [pollAt 0, pollAt (10 * second)] = made ++ [] ∧ StableWindow (web []) ["web"] tenSeconds.stable made :=
  ⟨rfl, checkHealth_stable (web []) (30 * second) tenSeconds 0 _ [] _ rfl
    (isChain_pair.2 ⟨by decide, fun _ _ _ _ _ _ _ => rfl⟩)⟩

/-- A restart between the polls goes unnoticed. -/
theorem unseen_restart : checkHealth (web [5]) (30 * second) tenSeconds 0 [pollAt 0, pollAt (10 * second)] =
        some (.ok [⟨"web", some ⟨"web", .running, .none, 0, 1⟩, true⟩], []) ∧
      ¬ StableWindow (web [5]) ["web"] tenSeconds.stable [pollAt 0, pollAt (10 * second)] := by
  refine ⟨rfl, ?_⟩
  rintro (h | ⟨pre, first, rest, hmade, -, hlong, hrestarts⟩)
  · cases h
  · match pre with
    | [] =>
      obtain ⟨rfl, rfl⟩ := List.cons.inj hmade
      have := hrestarts "web" mem_cons_self (10 * second) (by decide) (by decide)
      revert this
      decide
    | [x] =>
      obtain ⟨-, hrest⟩ := List.cons.inj hmade
      obtain ⟨rfl, rfl⟩ := List.cons.inj hrest
      revert hlong
      decide
    | _ :: _ :: _ => simp at hmade

end Dbr2.Agent.HealthCheck
