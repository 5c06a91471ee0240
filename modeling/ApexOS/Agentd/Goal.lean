import ApexOS.Agentd.Supervisor
import Mathlib.Data.Finset.Basic
import Mathlib.Data.Finset.Dedup

/-!
# The goal driver

`agentd/crates/agentd/src/goal.rs`: one task that owns every autonomous goal. It takes the goal
tools' calls off a channel, moves a goal on when its session's turn completes, holds it while a
batch of workers is out, parks it when it meets an approval, fails it when it stalls, and keeps the
whole book in a file that a restart reads back. It arms and disarms sessions in the yolo set, which
the supervisor's gate reads.

Handlers are atomic steps. What they ask of the world (the clock, the episode Cerebro opens, the
fate of a write) comes with the step. Prompts are kept as what they are made from; their wording is
left out.

## Main definitions

* `Goal`, `GoalDriver`: the book, the counters, the yolo set, the batches in flight, the file
* `GoalDriver.createGoal`, `resumeGoal`, `cancelGoal`, `recordStep`, `advance`, `failStalled`,
  `holdAwaitingBatch`, `resumeAfterBatch`, `blockOnApproval`, `reloadGoals`: the handlers
* `GoalDriver.request`, `GoalDriver.step`: the arms of the driver's loop

## Main results

* `GoalDriver.step_keeps`: what a step that creates no goal can do to goals, file and yolo set
* `GoalDriver.createGoal_cases`: what creating one does
-/

namespace ApexOS.Agentd

/-! ### Data -/

/-- `GoalId`. -/
abbrev GoalId := UInt64

/-- `GoalState`. -/
inductive GoalState
  | planning
  | acting
  | blocked
  | reflecting
  | done
  | failed
  | cancelled
  deriving DecidableEq, Repr

/-- `format!("{:?}", state).to_lowercase()`. -/
def GoalState.name : GoalState → String
  | planning => "planning"
  | acting => "acting"
  | blocked => "blocked"
  | reflecting => "reflecting"
  | done => "done"
  | failed => "failed"
  | cancelled => "cancelled"

/-- `Verdict`: how the agent says a step went. -/
inductive Verdict
  | proceed (steer : Option String)
  | done
  | blocked (reason : String)
  deriving DecidableEq, Repr

/-- `Goal`. -/
structure Goal where
  objective : String
  session : SessionId
  state : GoalState
  /-- The step in flight, from `1`. -/
  step : ℕ
  maxSteps : ℕ
  stepStarted : ℕ
  pending : Option Verdict
  episode : Option String
  yolo : Bool
  awaitingBatch : Bool
  deriving DecidableEq, Repr

/-- `PersistedGoal`. -/
structure PersistedGoal where
  id : GoalId
  objective : String
  session : SessionId
  state : GoalState
  step : ℕ
  maxSteps : ℕ
  episode : Option String
  yolo : Bool
  deriving DecidableEq, Repr

/-- `WorkerState`. -/
inductive WorkerState
  | queued
  | running
  | idle
  | parked
  | blocked
  | done
  | failed
  | cancelled
  deriving DecidableEq, Repr

/-- `BatchWorkerRow`, as far as a prompt shows it. -/
structure BatchWorkerRow where
  worker : UInt64
  state : WorkerState
  evidence : String
  timedOut : Bool
  deriving DecidableEq, Repr

/-- The prompts: `directive_first`, `directive_continue`, `directive_integrate`. -/
inductive Directive
  | first (objective : String) (maxSteps : ℕ)
  | next (objective : String) (step maxSteps : ℕ) (steer : Option String)
  | integrate (objective : String) (step maxSteps : ℕ) (batch : UInt64)
      (rows : List BatchWorkerRow)
  deriving DecidableEq, Repr

/-- What the driver emits, and what it asks of Cerebro. -/
inductive Emit
  | toolResult (session : SessionId) (call : ActionId) (output : ToolOutput)
  | goalStateChanged (goal : GoalId) (objective : String) (state : GoalState) (step maxSteps : ℕ)
      (detail : String) (yolo : Bool) (session : SessionId)
  | userPrompt (session : SessionId) (text : Directive)
  | userCancel (session : SessionId)
  | episodeStart (goal : GoalId) (objective : String)
  | episodeEnd (episode : String) (state : GoalState)

/-- The fate of a write of `goals.json`, whose result nobody looks at. -/
inductive DiskWrite
  | stored
  | failed
  | torn
  deriving DecidableEq, Repr

/-- What the world answers during a step. -/
structure World where
  now : ℕ
  /-- The episode `episode_start` opens. -/
  episode : Option String
  disk : DiskWrite
  deriving DecidableEq, Repr

/-- The goals, in the order the map happens to iterate in. -/
abbrev Goals := List (GoalId × Goal)

namespace Goals

/-- The goal of this id, changed. -/
def modify (goals : Goals) (id : GoalId) (f : Goal → Goal) : Goals :=
  goals.map fun x => if x.1 = id then (x.1, f x.2) else x

/-- `HashMap::insert`. -/
def put (goals : Goals) (id : GoalId) (goal : Goal) : Goals :=
  goals.filter (fun x => x.1 ≠ id) ++ [(id, goal)]

/-- The goal a session is running. -/
def acting? (goals : Goals) (session : SessionId) : Option (GoalId × Goal) :=
  goals.find? fun x => x.2.session = session ∧ x.2.state = .acting

/-- The goal of this id, if it is in one of these states. -/
def inState? (goals : Goals) (args : Json) (states : List GoalState) : Option (GoalId × Goal) :=
  ((args.get? "goal_id").bind Json.asU64).bind fun id =>
    goals.find? fun x => x.1 = id ∧ x.2.state ∈ states

end Goals

/-- What the driver owns, and the counters and the set it shares. -/
structure GoalDriver where
  goals : Goals
  nextGoalId : GoalId
  nextSessionId : SessionId
  /-- `GoalYoloSessions`. -/
  yolo : Finset SessionId
  /-- `pending_batches`. -/
  pendingBatches : SessionId → Finset UInt64
  /-- `done_batches`. -/
  doneBatches : Finset UInt64
  /-- What `load_goals` would read. -/
  file : List PersistedGoal
  stepTimeout : ℕ

/-! ### Small functions -/

/-- `DEFAULT_MAX_STEPS`. -/
def defaultMaxSteps : ℕ := 12

/-- `MAX_STEPS_CEIL`. -/
def maxStepsCeil : ℕ := 100

/-- `char::is_whitespace`. -/
def isWhitespace (c : Char) : Bool :=
  let n := c.toNat
  (9 ≤ n && n ≤ 13) || n == 0x20 || n == 0x85 || n == 0xA0 || n == 0x1680 ||
    (0x2000 ≤ n && n ≤ 0x200A) || n == 0x2028 || n == 0x2029 || n == 0x202F || n == 0x205F ||
    n == 0x3000

/-- The objective, unless it is missing or blank. -/
def parseObjective (args : Json) : Option String :=
  ((args.get? "objective").bind Json.asStr).filter fun o => !o.toList.all isWhitespace

/-- `max_steps`, cut to a word of `32` bits and clamped. -/
def parseMaxSteps (args : Json) : ℕ :=
  match (args.get? "max_steps").bind Json.asU64 with
  | some n => max 1 (min n.toUInt32.toNat maxStepsCeil)
  | none => defaultMaxSteps

/-- `parse_verdict`. -/
def parseVerdict (args : Json) : Verdict :=
  match (args.get? "status").bind Json.asStr with
  | some "done" => .done
  | some "blocked" => .blocked (((args.get? "reason").bind Json.asStr).getD "blocked")
  | _ => .proceed ((args.get? "next").bind Json.asStr)

/-- A number of the wire. -/
def jsonNat (n : ℕ) : Json := .number (.posInt (UInt64.ofNat n))

/-- `emit_state`. -/
def emitState (id : GoalId) (goal : Goal) (detail : String) : Emit :=
  .goalStateChanged id goal.objective goal.state goal.step goal.maxSteps detail goal.yolo
    goal.session

/-- `episode_end_goal`, if an episode was opened. -/
def episodeEnd (episode : Option String) (state : GoalState) : List Emit :=
  episode.toList.map fun e => .episodeEnd e state

/-- A goal as the file holds it. -/
def persist (x : GoalId × Goal) : PersistedGoal :=
  ⟨x.1, x.2.objective, x.2.session, x.2.state, x.2.step, x.2.maxSteps, x.2.episode, x.2.yolo⟩

/-- The state a goal comes back in: one that was running is parked. -/
def PersistedGoal.reloadedState (pg : PersistedGoal) : GoalState :=
  if pg.state = .acting then .blocked else pg.state

/-- A goal as a restart brings it back. -/
def PersistedGoal.reload (pg : PersistedGoal) (now : ℕ) : Goal :=
  ⟨pg.objective, pg.session, pg.reloadedState, pg.step, pg.maxSteps, now, none, pg.episode, pg.yolo,
    false⟩

/-- The goal comes back armed: it is a yolo goal and can still run. -/
def PersistedGoal.armed (pg : PersistedGoal) : Bool :=
  pg.yolo && pg.reloadedState ∉ [GoalState.done, .failed, .cancelled]

namespace GoalDriver

/-! ### Handlers -/

/-- `save_goals`. -/
def saveGoals (d : GoalDriver) (disk : DiskWrite) : GoalDriver :=
  match disk with
  | .stored => { d with file := d.goals.map persist }
  | .failed => d
  | .torn => { d with file := [] }

/-- `create_goal`. -/
def createGoal (d : GoalDriver) (session : SessionId) (call : ActionId) (args : Json)
    (world : World) : GoalDriver × List Emit :=
  match parseObjective args with
  | none => (d, [.toolResult session call (refusal "objective is required")])
  | some objective =>
    let maxSteps := parseMaxSteps args
    let yolo := yoloGrantPresent args
    let id := d.nextGoalId
    let sid := d.nextSessionId
    let goal : Goal :=
      ⟨objective, sid, .acting, 1, maxSteps, world.now, none, world.episode, yolo, false⟩
    ({ d with
        nextGoalId := id + 1
        nextSessionId := sid + 1
        yolo := if yolo then insert sid d.yolo else d.yolo
        goals := d.goals.put id goal },
      [.episodeStart id objective,
        .toolResult session call ⟨true, .object [("goal_id", .number (.posInt id)),
          ("session", .number (.posInt sid)), ("max_steps", jsonNat maxSteps),
          ("yolo", .bool yolo), ("status", .string "started")]⟩,
        emitState id goal "", .userPrompt sid (.first objective maxSteps)])

/-- `resume_goal`. -/
def resumeGoal (d : GoalDriver) (session : SessionId) (call : ActionId) (args : Json) (now : ℕ) :
    GoalDriver × List Emit :=
  match d.goals.inState? args [.blocked, .failed] with
  | none =>
    (d, [.toolResult session call (refusal "no resumable (blocked/failed) goal with that id")])
  | some (id, goal) =>
    let goal := { goal with state := .acting, stepStarted := now, pending := none }
    ({ d with
        goals := d.goals.modify id fun g =>
          { g with state := .acting, stepStarted := now, pending := none }
        yolo := if goal.yolo then insert goal.session d.yolo else d.yolo },
      [emitState id goal "resumed",
        .userPrompt goal.session (.next goal.objective goal.step goal.maxSteps none),
        .toolResult session call ⟨true, .object [("goal_id", .number (.posInt id)),
          ("status", .string "resumed"), ("step", jsonNat goal.step)]⟩])

/-- `cancel_goal`. -/
def cancelGoal (d : GoalDriver) (session : SessionId) (call : ActionId) (args : Json) :
    GoalDriver × List Emit :=
  match d.goals.inState? args [.acting, .blocked] with
  | none =>
    (d, [.toolResult session call (refusal "no active/blocked goal with that id to cancel")])
  | some (id, goal) =>
    let cancelled := { goal with state := .cancelled, pending := none, episode := none }
    ({ d with
        goals := d.goals.modify id fun g =>
          { g with state := .cancelled, pending := none, episode := none }
        yolo := d.yolo.erase goal.session },
      [.userCancel goal.session, emitState id cancelled "cancelled"] ++
        episodeEnd goal.episode .cancelled ++
        [.toolResult session call ⟨true, .object [("goal_id", .number (.posInt id)),
          ("status", .string "cancelled"), ("step", jsonNat goal.step)]⟩])

/-- `handle_list_goals`. -/
def listGoals (d : GoalDriver) (session : SessionId) (call : ActionId) : List Emit :=
  let goals := d.goals.mergeSort fun x y => x.1 ≤ y.1
  [.toolResult session call ⟨true, .object [
    ("goals", .array (goals.map fun x => .object [("goal_id", .number (.posInt x.1)),
      ("state", .string x.2.state.name), ("step", jsonNat x.2.step),
      ("max_steps", jsonNat x.2.maxSteps), ("objective", .string x.2.objective),
      ("yolo", .bool x.2.yolo)])),
    ("count", jsonNat goals.length)]⟩]

/-- `record_step`. -/
def recordStep (d : GoalDriver) (session : SessionId) (call : ActionId) (args : Json) :
    GoalDriver × List Emit :=
  match d.goals.acting? session with
  | none => (d, [.toolResult session call
      (refusal "goal_step has no effect outside a running goal session")])
  | some (id, _) =>
    ({ d with goals := d.goals.modify id fun g => { g with pending := some (parseVerdict args) } },
      [.toolResult session call ⟨true, .object [
        ("recorded", .string (((args.get? "status").bind Json.asStr).getD "continue")),
        ("note", .string "applied when this step completes")]⟩])

/-- The arm of `advance` that finishes a goal, for good or until it is resumed. -/
def finish (d : GoalDriver) (id : GoalId) (goal : Goal) (state : GoalState) (detail : String) :
    GoalDriver × List Emit :=
  let goals := d.goals.modify id fun g => { g with state := state, pending := none }
  let emit := emitState id { goal with state := state } detail
  if state = .done ∨ state = .failed then
    ({ d with goals := goals, yolo := d.yolo.erase goal.session },
      emit :: episodeEnd goal.episode state)
  else ({ d with goals := goals }, [emit])

/-- `advance`. -/
def advance (d : GoalDriver) (session : SessionId) (now : ℕ) : GoalDriver × List Emit :=
  match d.goals.acting? session with
  | none => (d, [])
  | some (id, goal) =>
    match goal.pending.getD (.proceed none) with
    | .done => d.finish id goal .done ""
    | .blocked reason => d.finish id goal .blocked reason
    | .proceed steer =>
      if goal.maxSteps ≤ goal.step then d.finish id goal .done "step budget reached"
      else
        let goal := { goal with step := goal.step + 1 }
        ({ d with goals := d.goals.modify id fun g =>
            { g with step := g.step + 1, stepStarted := now, pending := none } },
          [emitState id goal "",
            .userPrompt session (.next goal.objective goal.step goal.maxSteps steer)])

/-- The goal is stuck. -/
def stalled (d : GoalDriver) (now : ℕ) (goal : Goal) : Bool :=
  goal.state == .acting && !goal.awaitingBatch && d.stepTimeout < now - goal.stepStarted

/-- `fail_stalled`. -/
def failStalled (d : GoalDriver) (now : ℕ) : GoalDriver × List Emit :=
  let failed := d.goals.filter fun x => d.stalled now x.2
  ({ d with
      goals := d.goals.map fun x =>
        if d.stalled now x.2 then (x.1, { x.2 with state := .failed }) else x
      yolo := d.yolo \ (failed.map fun x => x.2.session).toFinset },
    failed.flatMap fun x =>
      emitState x.1 { x.2 with state := .failed } "step stalled — no completion" ::
        episodeEnd x.2.episode .failed)

/-- `hold_awaiting_batch`. -/
def holdAwaitingBatch (d : GoalDriver) (session : SessionId) : GoalDriver × List Emit :=
  match d.goals.acting? session with
  | none => (d, [])
  | some (id, goal) =>
    if goal.awaitingBatch then (d, [])
    else
      ({ d with goals := d.goals.modify id fun g => { g with awaitingBatch := true } },
        [emitState id goal "awaiting batch"])

/-- `resume_after_batch`. -/
def resumeAfterBatch (d : GoalDriver) (session : SessionId) (batch : UInt64)
    (rows : List BatchWorkerRow) (now : ℕ) : GoalDriver × List Emit :=
  match d.goals.find? fun x =>
      x.2.session = session ∧ x.2.state = .acting ∧ x.2.awaitingBatch with
  | none => (d, [])
  | some (id, goal) =>
    let goal := { goal with step := min (goal.step + 1) goal.maxSteps }
    ({ d with goals := d.goals.modify id fun g =>
        { g with
          awaitingBatch := false
          pending := none
          step := min (g.step + 1) g.maxSteps
          stepStarted := now } },
      [emitState id goal s!"batch {batch} reported — integrating",
        .userPrompt session (.integrate goal.objective goal.step goal.maxSteps batch rows)])

/-- `block_on_approval`. -/
def blockOnApproval (d : GoalDriver) (session : SessionId) (tool : String) :
    GoalDriver × List Emit :=
  match d.goals.acting? session with
  | none => (d, [])
  | some (id, goal) =>
    ({ d with goals := d.goals.modify id fun g => { g with state := .blocked, pending := none } },
      [.userCancel session,
        emitState id { goal with state := .blocked } s!"awaiting approval — {tool}"])

/-- A new process, and `reload_goals`. -/
def restart (d : GoalDriver) (nextSessionId : SessionId) (now : ℕ) : GoalDriver × List Emit :=
  let goals := d.file.map fun pg => (pg.id, pg.reload now)
  ({ d with
      goals := goals
      nextGoalId := max 1 (d.file.foldl (fun n pg => max n pg.id) 0 + 1)
      nextSessionId := nextSessionId
      yolo := ((d.file.filter PersistedGoal.armed).map PersistedGoal.session).toFinset
      pendingBatches := fun _ => ∅
      doneBatches := ∅ },
    goals.map fun x => emitState x.1 x.2
      (if x.2.state = .blocked then "interrupted by daemon restart — goal_resume to continue"
        else ""))

/-! ### The loop -/

/-- The tools the driver answers. -/
def tools : List String := ["goal_create", "goal_step", "list_goals", "goal_resume", "goal_cancel"]

/-- The arm for a tool call off the channel. -/
def request (d : GoalDriver) (session : SessionId) (call : ToolCall) (world : World) :
    GoalDriver × List Emit :=
  if call.tool = "goal_create" then
    let r := d.createGoal session call.id call.args world
    (r.1.saveGoals world.disk, r.2)
  else if call.tool = "goal_step" then d.recordStep session call.id call.args
  else if call.tool = "goal_resume" then
    let r := d.resumeGoal session call.id call.args world.now
    (r.1.saveGoals world.disk, r.2)
  else if call.tool = "goal_cancel" then
    let r := d.cancelGoal session call.id call.args
    (r.1.saveGoals world.disk, r.2)
  else if call.tool = "list_goals" then (d, d.listGoals session call.id)
  else (d, [])

/-- What else the driver reacts to: the bus, its ticker, a restart, and other parts of the daemon
taking session ids. -/
inductive Event
  | turnComplete (session : SessionId)
  | approvalPending (session : SessionId) (tool : String)
  | workerStateChanged (batch : UInt64) (parent : SessionId)
  | taskBatchDone (batch : UInt64) (parent : SessionId) (rows : List BatchWorkerRow)
  | tick
  | restart (nextSessionId : SessionId)
  | sessionTaken

/-- Save after a handler that changed something. -/
def saveIfChanged (r : GoalDriver × List Emit) (disk : DiskWrite) : GoalDriver × List Emit :=
  if r.2.isEmpty then r else (r.1.saveGoals disk, r.2)

/-- The other arms. -/
def step (d : GoalDriver) (e : Event) (world : World) : GoalDriver × List Emit :=
  match e with
  | .turnComplete session =>
    if (d.pendingBatches session).Nonempty then
      saveIfChanged (d.holdAwaitingBatch session) world.disk
    else saveIfChanged (d.advance session world.now) world.disk
  | .approvalPending session tool => saveIfChanged (d.blockOnApproval session tool) world.disk
  | .workerStateChanged batch parent =>
    if batch ∈ d.doneBatches then (d, [])
    else
      let pending := insert batch (d.pendingBatches parent)
      ({ d with pendingBatches := Function.update d.pendingBatches parent pending }, [])
  | .taskBatchDone batch parent rows =>
    let left := (d.pendingBatches parent).erase batch
    let d := { d with
      doneBatches := insert batch d.doneBatches
      pendingBatches := Function.update d.pendingBatches parent left }
    if left = ∅ then saveIfChanged (d.resumeAfterBatch parent batch rows world.now) world.disk
    else (d, [])
  | .tick => saveIfChanged (d.failStalled world.now) world.disk
  | .restart nextSessionId => d.restart nextSessionId world.now
  | .sessionTaken => ({ d with nextSessionId := d.nextSessionId + 1 }, [])

/-! ### Who is marked for yolo -/

/-- A goal in the book, or in the file, says that this session is a yolo goal's. -/
def Marked (d : GoalDriver) (s : SessionId) : Prop :=
  (∃ x ∈ d.goals, x.2.yolo = true ∧ x.2.session = s) ∨
    ∃ pg ∈ d.file, pg.yolo = true ∧ pg.session = s

/-- From `d` to `d'` no session is newly marked, and only marked ones are newly armed. -/
structure Keeps (d d' : GoalDriver) : Prop where
  marked : ∀ s, d'.Marked s → d.Marked s
  armed : ∀ s ∈ d'.yolo, s ∈ d.yolo ∨ d.Marked s

variable {d d' d'' : GoalDriver}

theorem Keeps.refl (d : GoalDriver) : Keeps d d := ⟨fun _ h => h, fun _ h => Or.inl h⟩

theorem Keeps.trans (h : Keeps d d') (h' : Keeps d' d'') : Keeps d d'' := by
  refine ⟨fun s hs => h.marked s (h'.marked s hs), fun s hs => ?_⟩
  rcases h'.armed s hs with hs | hs
  · exact h.armed s hs
  · exact Or.inr (h.marked s hs)

/-- Goals changed one by one, neither in their yolo bit nor in their session. -/
theorem Keeps.of_goals (hgoals : ∀ x ∈ d'.goals, ∃ y ∈ d.goals,
      y.2.yolo = x.2.yolo ∧ y.2.session = x.2.session)
    (hfile : d'.file = d.file) (hyolo : ∀ s ∈ d'.yolo, s ∈ d.yolo ∨ d.Marked s) : Keeps d d' := by
  refine ⟨?_, hyolo⟩
  rintro s (⟨x, hx, hxy, hxs⟩ | ⟨pg, hpg, hmark⟩)
  · obtain ⟨y, hy, hyolo, hsession⟩ := hgoals x hx
    exact Or.inl ⟨y, hy, hyolo.trans hxy, hsession.trans hxs⟩
  · exact Or.inr ⟨pg, hfile ▸ hpg, hmark⟩

/-- The same, where one goal is changed. -/
theorem keeps_modify {id : GoalId} {f : Goal → Goal} {yolo : Finset SessionId}
    (hyolo : ∀ s ∈ yolo, s ∈ d.yolo ∨ d.Marked s)
    (hf : ∀ g, g.yolo = (f g).yolo ∧ g.session = (f g).session) :
    Keeps d { d with goals := d.goals.modify id f, yolo := yolo } := by
  refine Keeps.of_goals (fun x hx => ?_) rfl hyolo
  obtain ⟨y, hy, rfl⟩ := List.mem_map.mp hx
  refine ⟨y, hy, ?_⟩
  split
  · exact hf y.2
  · exact ⟨rfl, rfl⟩

theorem yolo_saveGoals (d : GoalDriver) (disk : DiskWrite) : (d.saveGoals disk).yolo = d.yolo := by
  cases disk <;> rfl

theorem keeps_saveGoals (d : GoalDriver) (disk : DiskWrite) : Keeps d (d.saveGoals disk) := by
  refine ⟨fun s hs => ?_, fun s hs => Or.inl (yolo_saveGoals d disk ▸ hs)⟩
  · cases disk with
    | stored =>
      rcases hs with hs | ⟨pg, hpg, hmark⟩
      · exact Or.inl hs
      · obtain ⟨x, hx, rfl⟩ := List.mem_map.mp hpg
        exact Or.inl ⟨x, hx, hmark⟩
    | failed => exact hs
    | torn =>
      rcases hs with hs | ⟨pg, hpg, -⟩
      · exact Or.inl hs
      · cases hpg

theorem keeps_saveIfChanged {r : GoalDriver × List Emit} (disk : DiskWrite) (h : Keeps d r.1) :
    Keeps d (saveIfChanged r disk).1 := by
  rw [saveIfChanged]
  split
  · exact h
  · exact h.trans (keeps_saveGoals _ _)

theorem keeps_recordStep (session : SessionId) (call : ActionId) (args : Json) :
    Keeps d (d.recordStep session call args).1 := by
  rw [recordStep]
  split
  · exact Keeps.refl d
  · exact keeps_modify (fun s hs => Or.inl hs) fun _ => ⟨rfl, rfl⟩

theorem mem_of_inState? {goals : Goals} {args : Json} {states : List GoalState} {x : GoalId × Goal}
    (h : goals.inState? args states = some x) : x ∈ goals := by
  obtain ⟨id, -, hfind⟩ := Option.bind_eq_some_iff.mp h
  exact List.mem_of_find?_eq_some hfind

/-- Resuming re-arms a goal that is marked. -/
theorem keeps_resumeGoal (session : SessionId) (call : ActionId) (args : Json) (now : ℕ) :
    Keeps d (d.resumeGoal session call args now).1 := by
  rw [resumeGoal]
  split
  · exact Keeps.refl d
  · rename_i id goal hgoal
    refine keeps_modify (fun s hs => ?_) fun _ => ⟨rfl, rfl⟩
    split at hs
    · rename_i hyolo
      rcases Finset.mem_insert.mp hs with rfl | hs
      · exact Or.inr (Or.inl ⟨_, mem_of_inState? hgoal, hyolo, rfl⟩)
      · exact Or.inl hs
    · exact Or.inl hs

theorem keeps_cancelGoal (session : SessionId) (call : ActionId) (args : Json) :
    Keeps d (d.cancelGoal session call args).1 := by
  rw [cancelGoal]
  split
  · exact Keeps.refl d
  · exact keeps_modify (fun s hs => Or.inl (Finset.mem_of_mem_erase hs)) fun _ => ⟨rfl, rfl⟩

theorem keeps_finish (id : GoalId) (goal : Goal) (state : GoalState) (detail : String) :
    Keeps d (d.finish id goal state detail).1 := by
  rw [finish]
  split
  · exact keeps_modify (fun s hs => Or.inl (Finset.mem_of_mem_erase hs)) fun _ => ⟨rfl, rfl⟩
  · exact keeps_modify (fun s hs => Or.inl hs) fun _ => ⟨rfl, rfl⟩

theorem keeps_advance (session : SessionId) (now : ℕ) : Keeps d (d.advance session now).1 := by
  rw [advance]
  split
  · exact Keeps.refl d
  · split
    · exact keeps_finish _ _ _ _
    · exact keeps_finish _ _ _ _
    · split
      · exact keeps_finish _ _ _ _
      · exact keeps_modify (fun s hs => Or.inl hs) fun _ => ⟨rfl, rfl⟩

theorem keeps_failStalled (now : ℕ) : Keeps d (d.failStalled now).1 := by
  refine Keeps.of_goals (fun x hx => ?_) rfl fun s hs => Or.inl (Finset.mem_sdiff.mp hs).1
  obtain ⟨y, hy, rfl⟩ := List.mem_map.mp hx
  refine ⟨y, hy, ?_⟩
  split <;> exact ⟨rfl, rfl⟩

theorem keeps_holdAwaitingBatch (session : SessionId) :
    Keeps d (d.holdAwaitingBatch session).1 := by
  rw [holdAwaitingBatch]
  split
  · exact Keeps.refl d
  · split
    · exact Keeps.refl d
    · exact keeps_modify (fun s hs => Or.inl hs) fun _ => ⟨rfl, rfl⟩

theorem keeps_resumeAfterBatch (session : SessionId) (batch : UInt64) (rows : List BatchWorkerRow)
    (now : ℕ) : Keeps d (d.resumeAfterBatch session batch rows now).1 := by
  rw [resumeAfterBatch]
  split
  · exact Keeps.refl d
  · exact keeps_modify (fun s hs => Or.inl hs) fun _ => ⟨rfl, rfl⟩

theorem keeps_blockOnApproval (session : SessionId) (tool : String) :
    Keeps d (d.blockOnApproval session tool).1 := by
  rw [blockOnApproval]
  split
  · exact Keeps.refl d
  · exact keeps_modify (fun s hs => Or.inl hs) fun _ => ⟨rfl, rfl⟩

/-- A restart arms what the file marks. -/
theorem keeps_restart (nextSessionId : SessionId) (now : ℕ) :
    Keeps d (d.restart nextSessionId now).1 := by
  constructor
  · rintro s (⟨x, hx, hyolo, hsession⟩ | hs)
    · obtain ⟨pg, hpg, rfl⟩ := List.mem_map.mp hx
      exact Or.inr ⟨pg, hpg, hyolo, hsession⟩
    · exact Or.inr hs
  · intro s hs
    obtain ⟨pg, hpg, hsession⟩ := List.mem_map.mp (List.mem_toFinset.mp hs)
    obtain ⟨hmem, harmed⟩ := List.mem_filter.mp hpg
    rw [PersistedGoal.armed, Bool.and_eq_true] at harmed
    exact Or.inr (Or.inr ⟨pg, hmem, harmed.1, hsession⟩)

/-- **No arm but the one that creates goals** marks a session, or arms one that is not marked. -/
theorem step_keeps (d : GoalDriver) (e : Event) (world : World) : Keeps d (d.step e world).1 := by
  cases e with
  | turnComplete session =>
    rw [step]
    split
    · exact keeps_saveIfChanged _ (keeps_holdAwaitingBatch _)
    · exact keeps_saveIfChanged _ (keeps_advance _ _)
  | approvalPending session tool => exact keeps_saveIfChanged _ (keeps_blockOnApproval _ _)
  | workerStateChanged batch parent =>
    rw [step]
    split <;> exact ⟨fun _ h => h, fun _ h => Or.inl h⟩
  | taskBatchDone batch parent rows =>
    rw [step]
    split
    · refine keeps_saveIfChanged _ (Keeps.trans ?_ (keeps_resumeAfterBatch _ _ _ _))
      exact ⟨fun _ h => h, fun _ h => Or.inl h⟩
    · exact ⟨fun _ h => h, fun _ h => Or.inl h⟩
  | tick => exact keeps_saveIfChanged _ (keeps_failStalled _)
  | restart nextSessionId => exact keeps_restart _ _
  | sessionTaken => exact ⟨fun _ h => h, fun _ h => Or.inl h⟩

/-- A call whose grant key is there creates a goal that is marked and armed; any other marks and
arms nothing. Either way the new session gets the first prompt. -/
theorem createGoal_cases (session : SessionId) (call : ActionId) (args : Json) (world : World) :
    Keeps d (d.createGoal session call args world).1 ∨
    yoloGrantPresent args = true ∧
      (∃ objective maxSteps, .userPrompt d.nextSessionId (.first objective maxSteps)
        ∈ (d.createGoal session call args world).2) ∧
      (∀ s, (d.createGoal session call args world).1.Marked s → d.Marked s ∨ s = d.nextSessionId) ∧
      ∀ s ∈ (d.createGoal session call args world).1.yolo, s ∈ d.yolo ∨ s = d.nextSessionId := by
  rw [createGoal]
  split
  · exact Or.inl (Keeps.refl d)
  · rename_i objective _
    have hput : ∀ (g : Goal), ∀ x ∈ d.goals.put d.nextGoalId g,
        x ∈ d.goals ∨ x = (d.nextGoalId, g) := by
      intro g x hx
      rcases List.mem_append.mp hx with hx | hx
      · exact Or.inl (List.mem_of_mem_filter hx)
      · exact Or.inr (List.mem_singleton.mp hx)
    cases hyolo : yoloGrantPresent args with
    | false =>
      refine Or.inl ⟨?_, fun s hs => Or.inl hs⟩
      rintro s (⟨x, hx, hx', hxs⟩ | hs)
      · rcases hput _ x hx with hx | rfl
        · exact Or.inl ⟨x, hx, hx', hxs⟩
        · cases hx'
      · exact Or.inr hs
    | true =>
      refine Or.inr ⟨rfl, ⟨objective, parseMaxSteps args, by simp⟩, ?_, fun s hs => ?_⟩
      · rintro s (⟨x, hx, hx', hxs⟩ | hs)
        · rcases hput _ x hx with hx | rfl
          · exact Or.inl (Or.inl ⟨x, hx, hx', hxs⟩)
          · exact Or.inr hxs.symm
        · exact Or.inl (Or.inr hs)
      · rcases Finset.mem_insert.mp hs with rfl | hs
        · exact Or.inr rfl
        · exact Or.inl hs

/-- **What a tool call can do**: mark and arm the session it creates, if its grant key is there. -/
theorem request_cases (session : SessionId) (call : ToolCall) (world : World) :
    Keeps d (d.request session call world).1 ∨
    call.tool = "goal_create" ∧ yoloGrantPresent call.args = true ∧
      (∃ objective maxSteps, .userPrompt d.nextSessionId (.first objective maxSteps)
        ∈ (d.request session call world).2) ∧
      (∀ s, (d.request session call world).1.Marked s → d.Marked s ∨ s = d.nextSessionId) ∧
      ∀ s ∈ (d.request session call world).1.yolo, s ∈ d.yolo ∨ s = d.nextSessionId := by
  rw [request]
  split
  · rename_i htool
    have hsave := keeps_saveGoals (d.createGoal session call.id call.args world).1 world.disk
    rcases createGoal_cases (d := d) session call.id call.args world with
      hkeeps | ⟨hgrant, hprompt, hmarked, harmed⟩
    · exact Or.inl (hkeeps.trans hsave)
    · refine Or.inr ⟨htool, hgrant, hprompt, fun s hs => hmarked s (hsave.marked s hs),
        fun s hs => harmed s ?_⟩
      rwa [yolo_saveGoals] at hs
  · left
    split
    · exact keeps_recordStep _ _ _
    · split
      · exact (keeps_resumeGoal _ _ _ _).trans (keeps_saveGoals _ _)
      · split
        · exact (keeps_cancelGoal _ _ _).trans (keeps_saveGoals _ _)
        · split <;> exact Keeps.refl d

end GoalDriver

end ApexOS.Agentd
