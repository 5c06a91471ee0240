import ApexOS.Fabrica.Mandala
import ApexOS.Fabrica.Remote

/-!
# Workers

The data of the worker tier (`agentd/crates/agentd/src/worker.rs`) and the functions of it that are
pure: a worker's record and the form of it on disk, a batch's ledger entry, what is read off the two
maps (the slots in use, the next worker to admit, the rows of a report), the observables of a
review, and the parsing of the tools' arguments.

A task keeps the text it was minted with and the blocks that opened barriers added to it apart;
`Task.render` is the string the source has. Directives are kept as what they are made from.

## Main definitions

* `Worker`, `BatchMeta`, `PersistedWorker`, `PersistedBatch`, `WorkerTxn`
* `Worker.isTerminal`, `Worker.holdsSlot`, `Worker.posture`, `buildReview`, `scheduleNextReview`
* `slotsUsed`, `nextQueued`, `batchRows`, `wireRows`, `Due`
* `parseTasks`, `parseVerdict`, `parseBatchDeadline`
-/

namespace ApexOS.Fabrica

open ApexOS.Agentd (SessionId ActionId WorkerState BatchWorkerRow isWhitespace)

/-! ### Constants -/

/-- `MAX_BATCH_TASKS`. -/
def maxBatchTasks : ℕ := 32

/-- `DEFAULT_BATCH_DEADLINE_S`. -/
def defaultBatchDeadlineS : ℕ := 3600

/-- `INLINE_MAX_TASKS`. -/
def inlineMaxTasks : ℕ := 4

/-- `INLINE_DEADLINE_CEIL_S`. -/
def inlineDeadlineCeilS : ℕ := 240

/-- `DEFAULT_BARRIER_TIMEOUT_S`. -/
def defaultBarrierTimeoutS : ℕ := 1800

/-- `REVIEW_PERIOD`. -/
def reviewPeriod : ℕ := 30000

/-- `TICK`. -/
def tickPeriod : ℕ := 5000

/-- `WORKER_TXN_VERSION`. -/
def workerTxnVersion : ℕ := 1

/-- `WORKER_SESSION_BASE`. -/
def workerSessionBase : SessionId := 0x4000000000000000

/-- `SPAWN_SESSION_BASE`. -/
def spawnSessionBase : SessionId := 0x8000000000000000

/-- `is_worker_session`. -/
def isWorkerSession (s : SessionId) : Bool := workerSessionBase ≤ s && s < spawnSessionBase

/-- `a.saturating_add(b)` of `u64`. -/
def saturatingAdd (a b : ℕ) : ℕ := min (a + b) (2 ^ 64 - 1)

/-- The first characters of a string. -/
def clip (n : ℕ) (s : String) : String := String.ofList (s.toList.take n)

/-- `str::trim`. -/
def trim (s : String) : String :=
  String.ofList ((s.toList.dropWhile isWhitespace).reverse.dropWhile isWhitespace).reverse

/-! ### Tasks -/

/-- What `barrier_block` lists: every descendant with its state and evidence. -/
structure BarrierBlock where
  timedOut : Bool
  cells : List (Addr × String × Option String)
  repo : Option String
  deriving DecidableEq, Repr

/-- `merge_ritual`. -/
def mergeRitual (repo : String) (branches : List String) : String :=
  let list := if branches.isEmpty then "(none delivered)" else ", ".intercalate branches
  s!"\n\nMERGE RITUAL — repo: {repo}\nDelivered cell branches: {list}\nMerge each delivered " ++
    "branch (git_merge), resolve conflicts, run the VERIFY command from the invariant through " ++
    "your normal tools, and commit the merged result before reporting done. Report done with " ++
    "the merged files declared in `artifacts` — the evidence rule reaches the join too."

/-- `barrier_block`. -/
def BarrierBlock.render (b : BarrierBlock) : String :=
  let line (x : Addr × String × Option String) :=
    if isOpenState x.2.1 then s!"- cell {x.1.text} [OPEN — not delivered]\n"
    else "- cell " ++ x.1.text ++ " [" ++ x.2.1 ++ "]: " ++ x.2.2.getD "no evidence file" ++ "\n"
  let branches := (b.cells.filter fun x => x.2.1 = "done").map fun x => x.1.branch
  "\n\nBARRIER OPEN (" ++
    (if b.timedOut then "guard timeout — stragglers listed" else "subtree settled") ++
    ") — your descendant cells:\n" ++ String.join (b.cells.map line) ++
    "Read each evidence file (and the artifacts it declares) before integrating." ++
    (b.repo.elim "" fun r => mergeRitual r branches)

/-- A worker's task: the text of the mint, and what its barrier added. -/
structure Task where
  text : String
  blocks : List BarrierBlock
  deriving DecidableEq, Repr

/-- The task as one string. -/
def Task.render (t : Task) : String := t.text ++ String.join (t.blocks.map BarrierBlock.render)

/-! ### Workers and batches -/

/-- `Verdict`. -/
inductive Verdict
  | proceed (steer : Option String) (measure : Option ℕ)
  | done (summary : String) (artifacts : List String) (measure : Option ℕ)
  | blocked (reason : String)
  | yield
  deriving DecidableEq, Repr

/-- `Worker`. -/
structure Worker where
  batch : ℕ
  parent : SessionId
  session : SessionId
  task : Task
  state : WorkerState
  step : ℕ
  summary : Option String
  artifacts : List String
  episode : Option String
  started : ℕ
  pending : Option Verdict
  turnInflight : Bool
  yolo : Bool
  model : Option String
  errored : Bool
  barrierHeld : Bool
  stepCeiling : ℕ
  nextReview : Option ℕ
  lastReviewKey : Option String
  reviewAttempt : ℕ
  deriving DecidableEq, Repr

/-- `BatchMeta`. -/
structure BatchMeta where
  parent : SessionId
  createdEpoch : ℕ
  deadlineS : ℕ
  reported : Bool
  inlineAck : Option (SessionId × ActionId)
  origin : Option (String × ℕ)
  deriving DecidableEq, Repr

/-- `PersistedWorker`. -/
structure PersistedWorker where
  id : ℕ
  batch : ℕ
  parent : SessionId
  session : SessionId
  task : Task
  state : WorkerState
  step : ℕ
  summary : Option String
  artifacts : List String
  episode : Option String
  yolo : Bool
  model : Option String
  stepCeiling : ℕ
  deriving DecidableEq, Repr

/-- `PersistedBatch`. -/
structure PersistedBatch where
  batch : ℕ
  parent : SessionId
  createdEpoch : ℕ
  deadlineS : ℕ
  reported : Bool
  origin : Option (String × ℕ)
  deriving DecidableEq, Repr

/-- `WorkerTxn`. -/
structure WorkerTxn where
  version : ℕ
  seq : ℕ
  workers : List PersistedWorker
  batches : List PersistedBatch
  deriving DecidableEq, Repr

/-- The workers, by id. -/
abbrev Workers := Table ℕ Worker

/-- The batch ledger, by id. -/
abbrev Batches := Table ℕ BatchMeta

/-- The mirror rows, by the id they have here. -/
abbrev Remotes := Table ℕ RemoteWorker

/-- `is_terminal`. -/
def terminal : WorkerState → Bool
  | .done | .failed | .cancelled => true
  | _ => false

/-- `parked_form`. -/
def parkedForm (state : WorkerState) : WorkerState := if terminal state then state else .parked

namespace Worker

/-- `is_terminal` of the worker's state. -/
def isTerminal (w : Worker) : Bool := terminal w.state

/-- `holds_slot`. -/
def holdsSlot (w : Worker) : Bool := w.state = .running || (w.state = .blocked && w.turnInflight)

/-- In the queue's view: queued, and not held by a barrier. -/
def admissible (w : Worker) : Bool := w.state = .queued && !w.barrierHeld

/-- `posture_of`. -/
def posture (w : Worker) : Posture :=
  if w.isTerminal then .terminal
  else if w.barrierHeld && w.state = .queued then .barrierWait
  else if w.state = .running || (w.state = .blocked && w.turnInflight) then .live
  else .waiting

/-- `effective_ceiling`. -/
def effectiveCeiling (w : Worker) (maxSteps : ℕ) : ℕ :=
  if 0 < w.stepCeiling then w.stepCeiling else maxSteps

/-- `started.elapsed()`. -/
def elapsed (w : Worker) (now : ℕ) : ℕ := now - w.started

/-- A worker as the snapshot holds it. -/
def persist (id : ℕ) (w : Worker) : PersistedWorker where
  id := id
  batch := w.batch
  parent := w.parent
  session := w.session
  task := w.task
  state := w.state
  step := w.step
  summary := w.summary
  artifacts := w.artifacts
  episode := w.episode
  yolo := w.yolo
  model := w.model
  stepCeiling := w.stepCeiling

end Worker

/-- A worker as a restart brings it back: parked, unless it had ended. -/
def PersistedWorker.hydrate (pw : PersistedWorker) (now : ℕ) : Worker where
  batch := pw.batch
  parent := pw.parent
  session := pw.session
  task := pw.task
  state := parkedForm pw.state
  step := pw.step
  summary := pw.summary
  artifacts := pw.artifacts
  episode := pw.episode
  started := now
  pending := none
  turnInflight := false
  yolo := pw.yolo
  model := pw.model
  errored := false
  barrierHeld := false
  stepCeiling := pw.stepCeiling
  nextReview := none
  lastReviewKey := none
  reviewAttempt := 0

/-- A batch as the snapshot holds it. -/
def BatchMeta.persist (id : ℕ) (b : BatchMeta) : PersistedBatch :=
  ⟨id, b.parent, b.createdEpoch, b.deadlineS, b.reported, b.origin⟩

/-- A batch as a restart brings it back: whoever was blocked on it is gone. -/
def PersistedBatch.hydrate (pb : PersistedBatch) : BatchMeta :=
  ⟨pb.parent, pb.createdEpoch, pb.deadlineS, pb.reported, none, pb.origin⟩

/-- `snapshot_workers`. -/
def snapshotWorkers (workers : Workers) : List PersistedWorker :=
  (workers.entries.map fun x => x.2.persist x.1).insertionSort fun a b => a.id ≤ b.id

/-- `snapshot_batches`. -/
def snapshotBatches (batches : Batches) : List PersistedBatch :=
  (batches.entries.map fun x => x.2.persist x.1).insertionSort fun a b => a.batch ≤ b.batch

/-! ### Admission -/

/-- `slots_used`. -/
def slotsUsed (workers : Workers) : ℕ := workers.count Worker.holdsSlot

/-- `next_queued`. -/
def nextQueued (workers : Workers) : Option ℕ :=
  (workers.keysWhere fun _ w => w.admissible).min?

/-! ### Reports -/

/-- `BatchWorkerRow`. -/
structure Row where
  worker : ℕ
  state : WorkerState
  evidence : String
  timedOut : Bool
  node : Option String
  deriving DecidableEq, Repr

/-- The row as the goal driver reads it. -/
def Row.wire (r : Row) : BatchWorkerRow := ⟨UInt64.ofNat r.worker, r.state, r.evidence, r.timedOut⟩

/-- `evidence_path`. -/
def evidencePath (agentsDir : String) (id : ℕ) : String :=
  agentsDir ++ "/" ++ toString id ++ ".json"

/-- The row of a local worker. -/
def Worker.row (agentsDir : String) (id : ℕ) (w : Worker) : Row where
  worker := id
  state := w.state
  evidence := if w.isTerminal then evidencePath agentsDir id else ""
  timedOut := !w.isTerminal
  node := none

/-- The row of a worker on a peer. -/
def RemoteWorker.row (id : ℕ) (r : RemoteWorker) : Row where
  worker := id
  state := rowState r.stateRaw
  evidence := r.evidence.getD ""
  timedOut := !r.isTerminal
  node := some r.node

/-- `batch_rows`. -/
def batchRows (workers : Workers) (remotes : Remotes) (batch : ℕ) (agentsDir : String) : List Row :=
  (((workers.entries.filter fun x => x.2.batch = batch).map fun x => x.2.row agentsDir x.1) ++
    (remotes.entries.filter fun x => x.2.batch = batch).map fun x => x.2.row x.1).insertionSort
      fun a b => a.worker ≤ b.worker

/-- `wire_rows_for_batch`; a terminal worker's evidence document rides along. -/
def wireRows (workers : Workers) (batch : ℕ) : List WireRow :=
  ((workers.entries.filter fun x => x.2.batch = batch).map fun x =>
    (⟨x.1, x.2.session, stateStr x.2.state, false, x.2.summary, x.2.isTerminal⟩ : WireRow)
      ).insertionSort fun a b => a.worker ≤ b.worker

/-- The batch has members, and all of them have ended. -/
def allTerminal (workers : Workers) (remotes : Remotes) (batch : ℕ) : Bool :=
  let members := workers.values.filter fun w => w.batch = batch
  let rmembers := remotes.values.filter fun r => r.batch = batch
  (!members.isEmpty || !rmembers.isEmpty) && members.all Worker.isTerminal &&
    rmembers.all RemoteWorker.isTerminal

/-- The batch's deadline has passed. -/
def BatchMeta.expired (b : BatchMeta) (epoch : ℕ) : Bool :=
  saturatingAdd b.createdEpoch b.deadlineS ≤ epoch

/-- An unreported batch that is to report now. -/
def due (workers : Workers) (remotes : Remotes) (epoch batch : ℕ) (b : BatchMeta) : Bool :=
  !b.reported && (allTerminal workers remotes batch || b.expired epoch)

/-! ### Reviews -/

/-- `build_review`. -/
def buildReview (w : Worker) (barrierReady : Option Bool) (batchDeadlineOk : Bool)
    (maxSteps stepTimeout idleTtl now : ℕ) : Posture × Word :=
  let posture := w.posture
  let progress := match posture with
    | .live => (w.state = .blocked && w.turnInflight) || w.elapsed now ≤ stepTimeout
    | .waiting => w.elapsed now ≤ idleTtl
    | .barrierWait => !barrierReady.getD false
    | .terminal => true
  (posture, {
    progress := progress
    budget := w.step < maxSteps || w.isTerminal
    verified := !w.errored
    demand := true
    capacity := true
    horizon := batchDeadlineOk })

/-- `schedule_next_review`. -/
def scheduleNextReview (w : Worker) (posture : Posture) (word : Word)
    (stepTimeout idleTtl now : ℕ) (barrierDeadlineIn : Option ℕ) : Worker :=
  if w.isTerminal then
    { w with nextReview := if posture = .terminal then none else some now }
  else
    let key := censusKey posture word
    let attempt := if w.lastReviewKey = some key then w.reviewAttempt + 1 else 0
    let interval := match posture with
      | .live => reviewPeriod
      | _ => fibBackoff attempt reviewPeriod
    let deadlineIn := match posture with
      | .live => if w.state = WorkerState.running then some (stepTimeout - w.elapsed now) else none
      | .waiting => some (idleTtl - w.elapsed now)
      | .barrierWait => barrierDeadlineIn
      | .terminal => none
    { w with
      reviewAttempt := attempt
      lastReviewKey := some key
      nextReview := some (now + deadlineIn.elim interval fun d => min interval (d + tickPeriod)) }

/-! ### Arguments -/

/-- A field that is a string. -/
def strField (args : Json) (key : String) : Option String := (args.get? key).bind Json.asStr

/-- A field that is a word. -/
def natField (args : Json) (key : String) : Option ℕ :=
  ((args.get? key).bind Json.asU64).map UInt64.toNat

/-- A field that is a trimmed text of at most so many bytes, and not blank. -/
def knob (limit : ℕ) (args : Json) (key : String) : Option String :=
  ((strField args key).map trim).filter fun s => !s.isEmpty && s.utf8ByteSize ≤ limit

/-- `TaskSpecItem`. -/
structure TaskSpecItem where
  prompt : String
  model : Option String
  measure : Option String
  voucher : Bool
  node : Option String
  deriving DecidableEq, Repr

/-- One item of `tasks`, the `i`-th. -/
def parseTask (batchModel batchNode : Option String) (i : ℕ) (item : Json) :
    Except String TaskSpecItem :=
  let prompt := trim (((Json.asStr item).or (strField item "prompt")).getD "")
  if prompt.isEmpty then .error s!"task {i + 1} has no prompt"
  else .ok {
    prompt := prompt
    model := (knob 64 item "model").or batchModel
    measure := knob 200 item "measure"
    voucher := ((item.get? "voucher").bind Json.asBool).getD false
    node := (knob 64 item "node").or batchNode }

/-- `parse_tasks`. -/
def parseTasks (args : Json) : Except String (List TaskSpecItem) :=
  match (args.get? "tasks").bind Json.asArray with
  | none => .error "tasks must be an array of task strings or \x7bprompt\x7d objects"
  | some items =>
    if items.isEmpty then .error "tasks is empty — nothing to fan out"
    else if maxBatchTasks < items.length then
      .error
        (s!"{items.length} tasks exceeds the {maxBatchTasks}-per-batch ceiling — split into " ++
        "sequential batches")
    else (items.zipIdx).mapM fun x =>
      parseTask (knob 64 args "model") (knob 64 args "node") x.2 x.1

/-- `parse_batch_deadline`. -/
def parseBatchDeadline (args : Json) : ℕ :=
  (natField args "batch_deadline_s").elim defaultBatchDeadlineS fun n => max 60 (min n 86400)

/-- `artifact_strings`. -/
def artifactStrings (args : Json) : List String :=
  ((((args.get? "artifacts").bind Json.asArray).getD []).filterMap Json.asStr).map trim
    |>.filter fun s => !s.isEmpty

/-- `parse_verdict`. -/
def parseVerdict (args : Json) : Verdict :=
  let measure := natField args "measure"
  let status := strField args "status"
  if status = some "done" then
    .done (trim ((strField args "summary").getD "")) (artifactStrings args) measure
  else if status = some "blocked" then .blocked ((strField args "reason").getD "blocked")
  else if status = some "yield" then .yield
  else .proceed (strField args "next") measure

/-- `confine_artifacts`: `confine` is the workspace gate on one declared path. -/
def confineArtifacts (confine : String → Option String) :
    List String → Except String (List String)
  | [] => .ok []
  | p :: ps =>
    match confine p with
    | none => .error (s!"artifact path '{p}' is outside the agent workspace — declare workspace " ++
        "paths only")
    | some canon => (confineArtifacts confine ps).map (canon :: ·)

end ApexOS.Fabrica
