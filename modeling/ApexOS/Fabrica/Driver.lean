import ApexOS.Fabrica.Cells

/-!
# The worker driver: its state and the lives of its workers

`agentd/crates/agentd/src/worker.rs`, `spawn_worker_driver`: one task that owns every worker, the
batch ledger, the mirror rows of workers on peers and the mandalas' trees. This module has the state
and the handlers that move a worker along: admission, a turn's end, sends and approvals, barriers,
cancellation, the report of a batch. `Fabrica.Loop` has the arms of the loop that call them.

A handler is atomic and sees one reading of the clocks. Everything it does to the world outside, a
file written, an event emitted, a call made, is appended to `out`, in the order of the source. A
write's fate is the world's to decide; it is recorded with the write.

## Main definitions

* `Config`, `World`: what the driver is given once, and what it is given with a step
* `Effect`, `Event`: what it does
* `Driver`: what it owns
* `Driver.persistWorkerTxn`, `admitQueued`, `recordReport`, `advance`, `wakeOnSend`,
  `blockOnApproval`, `resumeFromApproval`, `checkBatches`, `cancelWorkers`, `checkBarriers`
-/

namespace ApexOS.Fabrica

open ApexOS.Agentd (SessionId ActionId WorkerState)

/-! ### Surroundings -/

/-- What the driver is started with. The last four stand for code it calls: the offsets of reviews,
the workspace gate, the digest of an invariant, and the hash of a snapshot. -/
structure Config where
  cap : ℕ
  maxSteps : ℕ
  stepTimeout : ℕ
  idleTtl : ℕ
  agentsDir : String
  meshEnabled : Bool
  goldenOffset : ℕ → ℕ
  confine : String → Option String
  hexDigest : String → String
  fingerprint : List (ℕ × String × Bool × Bool) → UInt64

/-- What the world answers during a step. -/
structure World where
  /-- `Instant::now()`, in milliseconds. -/
  now : ℕ
  /-- `epoch_now()`, in seconds. -/
  epoch : ℕ
  /-- The write that is the `n`-th effect of the step is made. -/
  written : ℕ → Bool
  /-- The episode `episode_start` opens for a worker. -/
  episode : ℕ → Option String
  /-- The peer is in the registry. -/
  registered : String → Bool
  /-- The beacon calls the peer dark. -/
  dark : String → Bool

/-! ### Effects -/

/-- The texts put into a session. -/
inductive Prompt
  | first (worker batch maxSteps : ℕ) (task : Task)
  | next (worker batch step maxSteps : ℕ) (task : Task) (steer : Option String)
  | kstall (addr : Addr) (tail : List ℕ)
  | report (batch : ℕ) (rows : List Row)
  deriving DecidableEq, Repr

/-- What a fan-out is acknowledged with. -/
structure FanAck where
  batch : ℕ
  workers : List (ℕ × SessionId)
  remote : List (ℕ × String)
  cap : ℕ
  admitted : ℕ
  deadlineS : ℕ
  yoloInherited : Bool
  cells : List Addr
  gate : Option (Addr × Option ℕ)
  deriving DecidableEq, Repr

/-- The results of the driver's tools. -/
inductive Output
  | refused (msg : String)
  | fanned (ack : FanAck)
  | reported (batch done failed cancelled timedOut : ℕ) (rows : List (Row × Option String))
  | recorded (status : String)
  | cancelled (ids remoteIds : List ℕ)
  | mandalaOpened (record : MandalaRecord)
  | mandalaClosed (id : ℕ) (already : Bool)
  deriving DecidableEq, Repr

/-- What goes onto the bus. -/
inductive Event
  | workerStateChanged (worker batch : ℕ) (parent session : SessionId) (task : String)
      (state : WorkerState) (detail : String) (yolo : Bool) (node : Option String)
  | taskBatchDone (batch : ℕ) (parent : SessionId) (rows : List Row)
  | userPrompt (session : SessionId) (text : Prompt)
  | userCancel (session : SessionId)
  | toolResult (session : SessionId) (call : ActionId) (output : Output)
  deriving DecidableEq, Repr

/-- The answer to a peer's request. -/
inductive Reply
  | refused (msg : String)
  | accepted (batch : ℕ) (workers : List AcceptedRow) (cap admitted : ℕ)
  | rows (originBatch batch : ℕ) (rows : List WireRow)
  | cancelled (ids : List ℕ)
  | applied (count : ℕ)
  deriving DecidableEq, Repr

/-- What a spawned task posts to a peer; `failed` answers the driver itself. -/
inductive Post
  | fanout (batch deadlineS : ℕ) (wids : List ℕ) (items : List RemoteTaskItem)
  | failed (batch : ℕ) (wids : List ℕ) (cause : String)
  | query (batch peerBatch : ℕ)
  | cancel (peerBatch : ℕ) (workers : List ℕ)
  | report (originBatch localBatch : ℕ) (rows : List WireRow)
  deriving DecidableEq, Repr

/-- What a handler does outside: the writes of files, each with its fate, the trail of a worker,
the calls to Cerebro, the bus, and the mesh. -/
inductive Effect
  | txn (txn : WorkerTxn) (ok : Bool)
  | workersFile (rows : List PersistedWorker) (ok : Bool)
  | batchesFile (rows : List PersistedBatch) (ok : Bool)
  | remotesFile (rows : List PersistedRemoteWorker) (ok : Bool)
  | mandalasFile (rows : List MandalaRecord) (ok : Bool)
  | cellFile (mandala : ℕ) (cell : CellRecord) (ok : Bool)
  | evidence (worker : ℕ) (record : Worker)
  | mirror (worker : ℕ) (row : RemoteWorker) (doc : Bool)
  | episodeStart (worker batch : ℕ) (task : Task)
  | episodeEnd (worker : ℕ) (episode : String) (record : Worker)
  | event (e : Event)
  | reply (r : Reply)
  | post (node : String) (p : Post)
  deriving DecidableEq, Repr

/-! ### State -/

/-- `PollTarget`. -/
structure PollTarget where
  next : ℕ
  attempt : ℕ
  fingerprint : UInt64
  inflight : Bool
  deriving DecidableEq, Repr

/-- What the driver owns, the two maps it shares, and what it has done in this step. -/
structure Driver where
  workers : Workers
  batches : Batches
  remotes : Remotes
  polls : Table (ℕ × String) PollTarget
  mandalas : Table ℕ MandalaRecord
  trees : Table ℕ Tree
  cellByWorker : Table ℕ (ℕ × Addr)
  nextWorkerId : ℕ
  nextBatchId : ℕ
  nextWorkerSid : SessionId
  nextMandalaId : ℕ
  txnSeq : ℕ
  /-- `GoalYoloSessions`. -/
  yolo : Finset SessionId
  /-- `WorkerModels`. -/
  models : Table SessionId String
  out : List Effect

namespace Driver

/-! ### Emission and persistence -/

/-- Something is done. -/
def emit (d : Driver) (e : Effect) : Driver := { d with out := d.out ++ [e] }

/-- An event goes onto the bus. -/
def send (d : Driver) (e : Event) : Driver := d.emit (.event e)

/-- A file is written, or not. -/
def write (d : Driver) (w : World) (e : Bool → Effect) : Driver :=
  d.emit (e (w.written d.out.length))

/-- A tool is refused. -/
def refuse (d : Driver) (session : SessionId) (call : ActionId) (msg : String) : Driver :=
  d.send (.toolResult session call (.refused msg))

/-- `emit_state`. -/
def emitState (d : Driver) (id : ℕ) (wk : Worker) (detail : String) : Driver :=
  d.send (.workerStateChanged id wk.batch wk.parent wk.session (clip 80 wk.task.render) wk.state
    detail wk.yolo none)

/-- `emit_remote_state`. -/
def emitRemoteState (d : Driver) (id : ℕ) (r : RemoteWorker) (detail : String) : Driver :=
  d.send (.workerStateChanged id r.batch r.parent 0 (clip 80 r.task) (rowState r.stateRaw)
    (if detail = "" then s!"{r.stateRaw} @ {r.node}" else detail) false (some r.node))

/-- `persist_worker_txn`: the transaction, and the mirrors if it was written. -/
def persistWorkerTxn (d : Driver) (w : World) : Driver × Bool :=
  let ok := w.written d.out.length
  let txn : WorkerTxn :=
    ⟨workerTxnVersion, saturatingAdd d.txnSeq 1, snapshotWorkers d.workers,
      snapshotBatches d.batches⟩
  let d := { d with txnSeq := txn.seq }.emit (.txn txn ok)
  if ok then ((d.write w (.workersFile txn.workers)).write w (.batchesFile txn.batches), true)
  else (d, false)

/-- `save_worker_state`. -/
def saveWorkerState (d : Driver) (w : World) : Driver := (d.persistWorkerTxn w).1

/-- `save_remotes`. -/
def saveRemotes (d : Driver) (w : World) : Driver :=
  d.write w (.remotesFile ((d.remotes.entries.map fun x => ⟨x.1, x.2⟩).insertionSort
    fun a b : PersistedRemoteWorker => a.id ≤ b.id))

/-- `save_mandalas`. -/
def saveMandalas (d : Driver) (w : World) : Driver :=
  d.write w (.mandalasFile (d.mandalas.values.insertionSort fun a b => a.id ≤ b.id))

/-- The worker of this id becomes this one. -/
def put (d : Driver) (id : ℕ) (wk : Worker) : Driver :=
  { d with workers := d.workers.modify id fun _ => wk }

/-- The row of this id becomes this one. -/
def putRemote (d : Driver) (id : ℕ) (r : RemoteWorker) : Driver :=
  { d with remotes := d.remotes.modify id fun _ => r }

/-- A cell of a mandala. -/
def cell? (d : Driver) (mandala : ℕ) (addr : Addr) : Option CellRecord :=
  (d.trees.get? mandala).bind fun t => t.get? addr

/-- The cell a worker runs: its mandala, its address and its record. -/
def cellOf (d : Driver) (id : ℕ) : Option (ℕ × Addr × CellRecord) :=
  (d.cellByWorker.get? id).bind fun x => (d.cell? x.1 x.2).map fun c => (x.1, x.2, c)

/-- A cell is changed, if it is there, and saved. -/
def setCell (d : Driver) (w : World) (mandala : ℕ) (addr : Addr) (f : CellRecord → CellRecord) :
    Driver :=
  match d.cell? mandala addr with
  | none => d
  | some c =>
    { d with trees := d.trees.modify mandala fun t => t.modify addr f }.write w
      (.cellFile mandala (f c))

/-- `arm_worker`. -/
def armWorker (d : Driver) (wk : Worker) : Driver :=
  { d with
    yolo := if wk.yolo then insert wk.session d.yolo else d.yolo
    models := wk.model.elim d.models fun m => d.models.insert wk.session m }

/-- `disarm_worker`. -/
def disarmWorker (d : Driver) (session : SessionId) : Driver :=
  { d with yolo := d.yolo.erase session, models := d.models.erase session }

/-- `finalize_terminal`. -/
def finalizeTerminal (d : Driver) (id : ℕ) (wk : Worker) : Driver :=
  let d := d.emit (.evidence id wk)
  wk.episode.elim d fun ep => d.emit (.episodeEnd id ep wk)

/-! ### Admission -/

/-- The worker as its admission leaves it. -/
def admitted (cfg : Config) (w : World) (id : ℕ) (wk : Worker) : Worker :=
  { wk with
    episode := wk.episode.or (w.episode id)
    state := .running
    started := w.now
    turnInflight := true
    errored := false
    nextReview := some (w.now + cfg.goldenOffset id)
    lastReviewKey := none
    reviewAttempt := 0 }

/-- One worker is admitted: its episode opens, and its work order goes out. -/
def admitOne (d : Driver) (cfg : Config) (w : World) (id : ℕ) (wk : Worker) : Driver :=
  let d := if wk.episode.isNone then d.emit (.episodeStart id wk.batch wk.task) else d
  let wk := admitted cfg w id wk
  (((d.put id wk).armWorker wk).emitState id wk "").send
    (.userPrompt wk.session (.first id wk.batch cfg.maxSteps wk.task))

/-- The loop of `admit_queued`, so many rounds. -/
def admitLoop (cfg : Config) (w : World) : ℕ → Driver → Driver
  | 0, d => d
  | n + 1, d =>
    if slotsUsed d.workers < cfg.cap then
      match (nextQueued d.workers).bind fun id => (d.workers.get? id).map fun wk => (id, wk) with
      | none => d
      | some (id, wk) => admitLoop cfg w n (d.admitOne cfg w id wk)
    else d

/-- `admit_queued`: every round admits a worker, so there are no more rounds than workers. -/
def admitQueued (d : Driver) (cfg : Config) (w : World) : Driver :=
  admitLoop cfg w d.workers.entries.length d

/-! ### A step of a worker -/

/-- `record_report`. -/
def recordReport (d : Driver) (cfg : Config) (session : SessionId) (call : ActionId) (args : Json) :
    Driver :=
  let status := (strField args "status").getD "continue"
  if status = "done" && (trim ((strField args "summary").getD "")).isEmpty then
    d.refuse session call
      "done requires a summary — one paragraph: what was delivered and where it lives"
  else
    let confined : Except String Verdict := match parseVerdict args with
      | .done summary artifacts measure =>
        (confineArtifacts cfg.confine artifacts).map fun canon => .done summary canon measure
      | verdict => .ok verdict
    match confined with
    | .error msg => d.refuse session call msg
    | .ok verdict =>
      match d.workers.find? fun _ wk =>
          wk.session = session && (wk.state = .running || wk.state = .blocked) with
      | none => d.refuse session call "worker_report has no effect outside a running worker session"
      | some (id, wk) =>
        (d.put id { wk with pending := some verdict }).send
          (.toolResult session call (.recorded status))

/-- What `advance` reads of the tree: the cell, whether it is measured, its laps, and the parent
whose steps a renewal spends. -/
structure CellCtx where
  mandala : ℕ
  addr : Addr
  isR : Bool
  history : List ℕ
  parentEff : Option Addr
  parentSteps : Option ℕ

/-- The pre-read of `advance`. -/
def cellCtx (d : Driver) (id : ℕ) : Option CellCtx :=
  (d.cellOf id).map fun (mandala, addr, c) =>
    let parentEff := c.reparentedTo.or addr.parent
    { mandala := mandala
      addr := addr
      isR := c.measure.isSome
      history := c.measureHistory
      parentEff := parentEff
      parentSteps := (parentEff.bind (d.cell? mandala)).map fun pc => pc.budget.steps }

/-- What a completed turn comes to. -/
structure Verdicted where
  worker : Worker
  detail : String
  next : Option Prompt
  lap : Option ℕ
  kstall : Bool
  renew : Option ℕ

/-- A number of laps, joined by arrows. -/
def arrows (laps : List ℕ) : String := "→".intercalate (laps.map toString)

/-- The last three laps. -/
def lapTail (laps : List ℕ) : List ℕ := laps.drop (laps.length - 3)

/-- The `Continue` arm of `advance`: the measure law, the ceiling with its renewal, or one more
step. -/
def applyContinue (cfg : Config) (w : World) (ctx : Option CellCtx) (id : ℕ) (wk : Worker)
    (steer : Option String) (measure : Option ℕ) : Verdicted :=
  let isR := ctx.elim false CellCtx.isR
  let ceiling := wk.effectiveCeiling cfg.maxSteps
  let projected := ctx.elim [] CellCtx.history ++ if isR then measure.toList else []
  if isR && kStalled projected then
    { worker := { wk with state := .blocked, started := w.now }
      detail := s!"K-stall: {arrows (lapTail projected)} — ring broken, escalated"
      next := none, lap := measure, kstall := true, renew := none }
  else if ceiling ≤ wk.step then
    match if isR then (ctx.bind CellCtx.parentSteps).bind fun ps => renewalGrant ps projected
      else none with
    | some g =>
      let wk := { wk with
        step := wk.step + 1, stepCeiling := ceiling + g, started := w.now, turnInflight := true }
      { worker := wk
        detail := s!"renewed +{g} steps (measure decreasing)"
        next := some (.next id wk.batch wk.step wk.stepCeiling wk.task steer)
        lap := measure, kstall := false, renew := some g }
    | none =>
      { worker := { wk with state := .done }
        detail := "step budget reached"
        next := none, lap := measure, kstall := false, renew := none }
  else
    let wk := { wk with step := wk.step + 1, started := w.now, turnInflight := true }
    { worker := wk
      detail := ""
      next := some (.next id wk.batch wk.step ceiling wk.task steer)
      lap := measure, kstall := false, renew := none }

/-- The match of `advance` on the reported verdict. -/
def applyVerdict (cfg : Config) (w : World) (ctx : Option CellCtx) (id : ℕ) (wk : Worker) :
    Verdicted :=
  let pending := wk.pending
  let wk := { wk with turnInflight := false, pending := none }
  match pending with
  | some (.done summary artifacts measure) =>
    { worker := { wk with state := .done, summary := some summary, artifacts := artifacts }
      detail := clip 120 summary
      next := none, lap := measure, kstall := false, renew := none }
  | some (.blocked reason) =>
    { worker := { wk with state := .blocked, started := w.now }
      detail := clip 120 reason
      next := none, lap := none, kstall := false, renew := none }
  | some .yield =>
    { worker := { wk with state := .idle, started := w.now }
      detail := "yielded — awaiting input"
      next := none, lap := none, kstall := false, renew := none }
  | some (.proceed steer measure) => applyContinue cfg w ctx id wk steer measure
  | none =>
    { worker := { wk with state := if wk.errored then .failed else .done }
      detail :=
        if wk.errored then "turn error — no deliverable" else "final text is the deliverable"
      next := none, lap := none, kstall := false, renew := none }

/-- The lap is recorded, a renewal moves steps from the parent's cell to this one, and a break is
told to a parent that is a worker. -/
def recordLap (d : Driver) (w : World) (parent : SessionId) (ctx : CellCtx) (v : Verdicted) :
    Driver :=
  let d := if ctx.isR then v.lap.elim d fun m =>
      d.setCell w ctx.mandala ctx.addr fun c =>
        let laps := c.measureHistory ++ [m]
        { c with measureHistory := laps.drop (laps.length - measureHistoryCap) }
    else d
  let d := match v.renew, ctx.parentEff with
    | some g, some pa =>
      let d := d.setCell w ctx.mandala pa fun c =>
        { c with budget := { c.budget with steps := c.budget.steps - g } }
      d.setCell w ctx.mandala ctx.addr fun c =>
        { c with budget := { c.budget with steps := min (c.budget.steps + g) (2 ^ 16 - 1) } }
    | _, _ => d
  if v.kstall && isWorkerSession parent then
    let tail := (d.cell? ctx.mandala ctx.addr).elim [] fun c => lapTail c.measureHistory
    d.send (.userPrompt parent (.kstall ctx.addr tail))
  else d

/-- What `advance` does for a worker whose verdict ends it. -/
def endTurn (d : Driver) (w : World) (id : ℕ) (wk : Worker) : Driver :=
  if wk.isTerminal then
    ((d.disarmWorker wk.session).finalizeTerminal id wk).put id { wk with nextReview := some w.now }
  else d

/-- `advance`: `none` if no worker of the session has a step under way. -/
def advance (d : Driver) (cfg : Config) (w : World) (session : SessionId) : Option Driver :=
  match d.workers.find? fun _ wk =>
      wk.session = session && (wk.state = .running || wk.state = .blocked) with
  | none => none
  | some (id, wk) =>
    let ctx := d.cellCtx id
    let v := applyVerdict cfg w ctx id wk
    let d := d.put id v.worker
    let d := ctx.elim d fun ctx => d.recordLap w v.worker.parent ctx v
    let d := (d.emitState id v.worker v.detail).endTurn w id v.worker
    some (v.next.elim d fun text => d.send (.userPrompt v.worker.session text))

/-! ### Sends and approvals -/

/-- A worker a send wakes. -/
def wakes (wk : Worker) : Bool :=
  (wk.state = .parked || wk.state = .idle) || (wk.state = .blocked && !wk.turnInflight) ||
    (wk.state = .queued && wk.barrierHeld)

/-- The worker as a send leaves it. -/
def woken (cfg : Config) (w : World) (id : ℕ) (wk : Worker) : Worker :=
  { wk with
    state := .running
    started := w.now
    turnInflight := true
    errored := false
    barrierHeld := false
    nextReview := some (w.now + cfg.goldenOffset id)
    lastReviewKey := none
    reviewAttempt := 0 }

/-- What is said of a woken worker. -/
def wakeDetail (wk : Worker) : String :=
  match wk.state with
  | .parked => "revived by send"
  | .idle => "woken by send"
  | _ => if wk.barrierHeld then "barrier overridden by send" else "unblocked by send"

/-- `wake_on_send`: `none` if nobody woke. The model pin comes back, inherited yolo does not. -/
def wakeOnSend (d : Driver) (cfg : Config) (w : World) (session : SessionId) : Option Driver :=
  (d.workers.find? fun _ wk => wk.session = session && wakes wk).map fun x =>
    let wk := woken cfg w x.1 x.2
    let d := d.put x.1 wk
    { d with models := wk.model.elim d.models fun m => d.models.insert wk.session m }.emitState x.1
      wk (wakeDetail x.2)

/-- `overridden_gate_open`. -/
def overriddenGateOpen (c : CellRecord) : Bool :=
  c.barrierTimeoutS.isSome && c.measure.isNone && !c.barrierOpened

/-- What the loop adds to a wake: an overridden gate's cell records the open, and a worker that
never had one gets its episode. -/
def afterWake (d : Driver) (w : World) (session : SessionId) : Driver :=
  match d.workers.find? fun _ wk => wk.session = session with
  | none => d
  | some (id, _) =>
    let d := match d.cellOf id with
      | some (mandala, addr, c) =>
        if overriddenGateOpen c then
          d.setCell w mandala addr fun c => { c with barrierOpened := true }
        else d
      | none => d
    match d.workers.get? id with
    | none => d
    | some wk =>
      if wk.episode.isNone then
        (d.emit (.episodeStart id wk.batch wk.task)).put id { wk with episode := w.episode id }
      else d

/-- `block_on_approval`. -/
def blockOnApproval (d : Driver) (session : SessionId) (tool : String) : Option Driver :=
  (d.workers.find? fun _ wk => wk.session = session && wk.state = .running).map fun x =>
    let wk := { x.2 with state := .blocked }
    (d.put x.1 wk).emitState x.1 wk s!"awaiting approval — {tool}"

/-- `resume_from_approval`. -/
def resumeFromApproval (d : Driver) (w : World) (session : SessionId) : Option Driver :=
  (d.workers.find? fun _ wk => wk.session = session && wk.state = .blocked).map fun x =>
    let wk := { x.2 with state := .running, started := w.now }
    (d.put x.1 wk).emitState x.1 wk "approval resolved"

/-! ### The end of a worker and of a batch -/

/-- One worker is cancelled, unless it has ended. -/
def cancelOne (w : World) (d : Driver) (id : ℕ) : Driver :=
  match d.workers.get? id with
  | none => d
  | some wk =>
    if wk.isTerminal then d
    else
      let wk' := { wk with
        state := .cancelled, turnInflight := false, pending := none, barrierHeld := false
        nextReview := some w.now }
      let d := d.put id wk'
      let d := if wk.turnInflight then d.send (.userCancel wk.session) else d
      ((d.disarmWorker wk.session).emitState id wk' "cancelled").finalizeTerminal id wk'

/-- `cancel_workers`. -/
def cancelWorkers (d : Driver) (w : World) (ids : List ℕ) : Driver := ids.foldl (cancelOne w) d

/-- How a report's rows are tallied: done, failed, cancelled, timed out. -/
def tally (rows : List Row) : ℕ × ℕ × ℕ × ℕ :=
  let timedOut := rows.countP Row.timedOut
  let done := rows.countP fun r => !r.timedOut && r.state = .done
  let cancelled := rows.countP fun r => !r.timedOut && r.state = .cancelled
  (done, rows.length - timedOut - done - cancelled, cancelled, timedOut)

/-- The result of a call that waited for its batch, with the summaries of the workers. -/
def inlineResult (d : Driver) (batch : ℕ) (rows : List Row) : Output :=
  let (done, failed, cancelled, timedOut) := tally rows
  .reported batch done failed cancelled timedOut (rows.map fun r =>
    (r, (d.workers.get? r.worker).bind fun wk => if wk.batch = batch then wk.summary else none))

/-- One batch reports: to the bus, to a parent that is a worker, and to a call that waits for it. -/
def reportBatch (cfg : Config) (d : Driver) (batch : ℕ) : Driver :=
  match d.batches.get? batch with
  | none => d
  | some b =>
    let d := { d with
      batches := d.batches.modify batch fun b => { b with reported := true, inlineAck := none } }
    let rows := batchRows d.workers d.remotes batch cfg.agentsDir
    let d := d.send (.taskBatchDone batch b.parent rows)
    let d := if isWorkerSession b.parent then
        d.send (.userPrompt b.parent (.report batch rows))
      else d
    b.inlineAck.elim d fun ack => d.send (.toolResult ack.1 ack.2 (d.inlineResult batch rows))

/-- The batches that are to report now. -/
def dueBatches (d : Driver) (w : World) : List ℕ :=
  d.batches.keysWhere fun id b => due d.workers d.remotes w.epoch id b

/-- What a hosted batch posts home. -/
def reportHome (d : Driver) (batch : ℕ) : Option (String × ℕ × ℕ × List WireRow) :=
  (d.batches.get? batch).bind fun b => b.origin.map fun o =>
    (o.1, o.2, batch, wireRows d.workers batch)

/-- `check_batches`, with the save that follows a change and `spawn_report_home`. -/
def checkBatches (d : Driver) (cfg : Config) (w : World) : Driver :=
  let dueNow := d.dueBatches w
  let homes := dueNow.filterMap d.reportHome
  let d := dueNow.foldl (reportBatch cfg) d
  let d := if dueNow.isEmpty then d else d.saveWorkerState w
  homes.foldl (fun d x => if w.registered x.1 then
    d.emit (.post x.1 (.report x.2.1 x.2.2.1 x.2.2.2)) else d) d

/-! ### Cells -/

/-- `sync_cells`: what ended is written into its cell. -/
def syncCells (d : Driver) (cfg : Config) (w : World) : Driver :=
  d.cellByWorker.entries.foldl (fun d x =>
    match d.workers.get? x.1, d.cell? x.2.1 x.2.2 with
    | some wk, some c =>
      if wk.isTerminal && c.state ≠ stateStr wk.state then
        d.setCell w x.2.1 x.2.2 fun c =>
          { c with state := stateStr wk.state, evidence := some (evidencePath cfg.agentsDir x.1) }
      else d
    | _, _ => d) d

/-- `sync_remote_cells`. -/
def syncRemoteCells (d : Driver) (w : World) : Driver :=
  d.cellByWorker.entries.foldl (fun d x =>
    match d.remotes.get? x.1, d.cell? x.2.1 x.2.2 with
    | some r, some c =>
      if r.isTerminal && !(c.state = r.stateRaw && c.evidence = r.evidence) then
        d.setCell w x.2.1 x.2.2 fun c => { c with state := r.stateRaw, evidence := r.evidence }
      else d
    | _, _ => d) d

/-- A gate's subtree is there and has settled. -/
def settled (t : Tree) (addr : Addr) : Bool :=
  (openDescendants t addr).isEmpty && !(descendants t addr).isEmpty

/-- A gate's guard has run out. -/
def guardOut (c : CellRecord) (epoch : ℕ) : Bool :=
  c.barrierTimeoutS.elim false fun t => saturatingAdd c.createdEpoch t ≤ epoch

/-- `barrier_signals`: ready, and the time to the guard. -/
def barrierSignals (d : Driver) (w : World) (id : ℕ) : Option Bool × Option ℕ :=
  match d.cellOf id, (d.cellByWorker.get? id).bind fun x => d.trees.get? x.1 with
  | some (_, addr, c), some t =>
    (some (settled t addr || guardOut c w.epoch),
      c.barrierTimeoutS.map fun s => 1000 * (saturatingAdd c.createdEpoch s - w.epoch))
  | _, _ => (none, none)

/-- What an opened gate's task is given. -/
def barrierBlock (t : Tree) (gate : Addr) (timedOut : Bool) (repo : Option String) :
    BarrierBlock where
  timedOut := timedOut
  cells := (descendants t gate).filterMap fun a => (t.get? a).map fun c => (a, c.state, c.evidence)
  repo := repo

/-- One held gate is opened, if it is ready; whether it was. -/
def openGate (w : World) (x : Driver × Bool) (id : ℕ) : Driver × Bool :=
  let d := x.1
  match d.workers.get? id, d.cellOf id, (d.cellByWorker.get? id).bind fun y => d.trees.get? y.1 with
  | some wk, some (mandala, addr, c), some t =>
    let isSettled := settled t addr
    let timedOut := guardOut c w.epoch
    if isSettled || timedOut then
      let repo := (d.mandalas.get? mandala).bind MandalaRecord.repo
      let block := barrierBlock t addr (timedOut && !isSettled) repo
      let wk := { wk with
        task := { wk.task with blocks := wk.task.blocks ++ [block] }, barrierHeld := false }
      let d := (d.put id wk).setCell w mandala addr fun c => { c with barrierOpened := true }
      (d.emitState id wk (if timedOut && !isSettled then
        "barrier open — guard timeout, stragglers listed" else "barrier open — subtree settled"),
        true)
    else x
  | _, _, _ => x

/-- `check_barriers`: whether a gate was opened. -/
def checkBarriers (d : Driver) (w : World) : Driver × Bool :=
  (d.workers.keysWhere fun _ wk => wk.barrierHeld && wk.state = .queued).foldl
    (openGate w) (d, false)

end Driver

end ApexOS.Fabrica
