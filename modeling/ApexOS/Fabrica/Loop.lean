import ApexOS.Fabrica.Driver

/-!
# The worker driver: its loop

The arms of the loop of `agentd/crates/agentd/src/worker.rs`: fan-outs and the other tools, what a
peer asks, what a peer answers, the bus, the review tick, and the boot that reads the files back.
With them the disk, as what its effects have left on it, and the node: the driver and its disk,
where a process can end between two handlers or at any point inside one.

Left out are the read-only tools (`list_workers`, `mandala_status`), the epochs and orbit councils
of mandalas, the nudge against chained spawns, the load gauges, and the hop counts of the mesh.

## Main definitions

* `Driver.fanout`, `hostFanout`: the two ways workers are minted
* `Driver.reviewOne`, `tick`: the review
* `Driver.react`: one turn of the loop
* `Disk`, `boot`, `Node`, `Node.step`: crashes and restarts
-/

namespace ApexOS.Fabrica

open ApexOS.Agentd (SessionId ActionId WorkerState GoalState)

namespace Driver

/-! ### Minting -/

/-- The worker `mint_local_worker` makes. -/
def mintedWorker (cfg : Config) (w : World) (id batch : ℕ) (parent session : SessionId)
    (task : String) (model : Option String) (yolo held : Bool) (ceiling : ℕ) : Worker where
  batch := batch
  parent := parent
  session := session
  task := ⟨task, []⟩
  state := .queued
  step := 1
  summary := none
  artifacts := []
  episode := none
  started := w.now
  pending := none
  turnInflight := false
  yolo := yolo
  model := model
  errored := false
  barrierHeld := held
  stepCeiling := ceiling
  nextReview := if held then some (w.now + cfg.goldenOffset id) else none
  lastReviewKey := none
  reviewAttempt := 0

/-- `mint_local_worker`. -/
def mintLocalWorker (d : Driver) (cfg : Config) (w : World) (batch : ℕ) (parent : SessionId)
    (task : String) (model : Option String) (yolo held : Bool) (ceiling : ℕ) : Driver :=
  { d with
    workers := d.workers.insert d.nextWorkerId
      (mintedWorker cfg w d.nextWorkerId batch parent d.nextWorkerSid task model yolo held ceiling)
    nextWorkerId := d.nextWorkerId + 1
    nextWorkerSid := d.nextWorkerSid + 1 }

/-- The row `mint_remote_row` makes. -/
def mintedRow (w : World) (batch : ℕ) (parent : SessionId) (node prompt : String)
    (model : Option String) : RemoteWorker :=
  ⟨batch, parent, node, prompt, model, none, none, none, stateAssigning, none, none, w.epoch⟩

/-- `mint_remote_row`, up to its group. -/
def mintRemoteRow (d : Driver) (w : World) (batch : ℕ) (parent : SessionId)
    (node prompt : String) (model : Option String) : Driver :=
  { d with
    remotes := d.remotes.insert d.nextWorkerId (mintedRow w batch parent node prompt model)
    nextWorkerId := d.nextWorkerId + 1 }

/-- The assigns to make: for each node, the ids and the items, in the order of the request. -/
abbrev Groups := List (String × List ℕ × List RemoteTaskItem)

/-- A row joins its node's group. -/
def Groups.join : Groups → String → ℕ → RemoteTaskItem → Groups
  | [], node, id, item => [(node, [id], [item])]
  | g :: gs, node, id, item =>
    if g.1 = node then (g.1, g.2.1 ++ [id], g.2.2 ++ [item]) :: gs
    else g :: Groups.join gs node id item

/-- The ids of the groups. -/
def Groups.ids (gs : Groups) : List ℕ := gs.flatMap fun g => g.2.1

/-- The ids of the groups, with their nodes. -/
def Groups.pairs (gs : Groups) : List (ℕ × String) := gs.flatMap fun g =>
    g.2.1.map fun id => (id, g.1)

/-- What a fan-out mints: one task, for this node or for a peer. -/
structure MintItem where
  prompt : String
  model : Option String
  node : Option String
  held : Bool
  ceiling : ℕ
  /-- The `steps` of the assignment. -/
  steps : Option ℕ

/-- The state of the minting loops. -/
structure Minting where
  driver : Driver
  /-- The workers minted here, with their sessions. -/
  locals : List (ℕ × SessionId)
  /-- Every id minted, in order. -/
  wids : List ℕ
  groups : Groups

/-- One task is minted. -/
def mintItem (cfg : Config) (w : World) (batch : ℕ) (parent : SessionId) (yolo : Bool)
    (m : Minting) (i : MintItem) : Minting :=
  let id := m.driver.nextWorkerId
  match i.node with
  | some node =>
    { m with
      driver := m.driver.mintRemoteRow w batch parent node i.prompt i.model
      wids := m.wids ++ [id]
      groups := m.groups.join node id ⟨i.prompt, i.model, i.steps⟩ }
  | none =>
    { m with
      driver := m.driver.mintLocalWorker cfg w batch parent i.prompt i.model yolo i.held i.ceiling
      locals := m.locals ++ [(id, m.driver.nextWorkerSid)]
      wids := m.wids ++ [id] }

/-- `holds_at_mint`. -/
def holdsAtMint (barrier : Option ℕ) (measure : Option String) : Bool :=
  barrier.isSome && measure.isNone

/-- What a plan mints. -/
def CellPlan.item (p : CellPlan) : MintItem where
  prompt := p.prompt
  model := p.model
  node := p.node
  held := holdsAtMint p.barrierTimeoutS p.measure
  ceiling := max 1 (min p.budget.steps 100)
  steps := some p.budget.steps

/-- What a task of a plain fan mints. -/
def TaskSpecItem.item (t : TaskSpecItem) : MintItem := ⟨t.prompt, t.model, t.node, false, 0, none⟩

/-- Plans in their order; or the tasks for this node, and then those for peers. -/
def mintItems (tasks : List TaskSpecItem) (ctx : Option CellsCtx) : List MintItem :=
  match ctx with
  | some c => c.plans.map CellPlan.item
  | none =>
    ((tasks.filter fun t => t.node.isNone) ++ tasks.filter fun t => t.node.isSome).map
      TaskSpecItem.item

/-! ### Fan-out -/

/-- A fan-out that is not refused. -/
structure FanPlan where
  inline : Bool
  tasks : List TaskSpecItem
  ctx : Option CellsCtx

/-- The voucher gate: the cell a worker fans out from. -/
def callerCell (d : Driver) (session : SessionId) (args : Json) (inline : Bool) :
    Except String (Option Addr) := do
  if !isWorkerSession session then return none
  match (d.workers.find? fun _ wk => wk.session = session).bind fun x =>
    d.cellByWorker.get? x.1 with
  | none =>
    .error "workers cannot fan out work without a mandala-cell VOUCHER (depth-1 by design)"
  | some (mid, addr) =>
    require ((d.cell? mid addr).elim false CellRecord.voucher)
      "your cell carries no VOUCHER — only vouchered cells sub-conduct"
    require (natField args "mandala" = some mid)
      s!"your voucher is for mandala {mid} — pass mandala: {mid} and grow your own subtree"
    require (!inline)
      "sub-conductors fan async — an inline hold has no place inside the tree"
    return some addr

/-- The checks of `fanout`, in their order. -/
def fanPlan (d : Driver) (cfg : Config) (w : World) (session : SessionId) (args : Json) :
    Except String FanPlan := do
  let inline ← match strField args "mode" with
    | none => .ok false
    | some mode =>
      if mode = "async" then .ok false
      else if mode = "inline" then .ok true
      else .error s!"unknown mode \"{mode}\" — async (default) or inline"
  let tasks ← parseTasks args
  require (!(inline && inlineMaxTasks < tasks.length))
    (s!"inline mode is short-batch-only ({tasks.length} tasks > {inlineMaxTasks}) — use mode " ++
      "async; the batch report arrives via the AwaitingBatch loop")
  let caller ← d.callerCell session args inline
  let nodes := ((tasks.filterMap TaskSpecItem.node).insertionSort (· ≤ ·)).dedup
  if !nodes.isEmpty then
    require cfg.meshEnabled "mesh workers are disabled on this node (AGENTD_MESH_WORKERS=0)"
    require (!inline) "node tasks fan async — remote latency has no place in an inline hold"
    nodes.forM fun n => require (w.registered n)
      s!"'{n}' is not a registered mesh peer — list_mesh_peers shows them"
  let ctx ← prepareMandalaCells d.mandalas d.trees session args tasks inline caller
  return ⟨inline, tasks, ctx⟩

/-- The batch a fan-out opens. -/
def fanBatch (w : World) (session : SessionId) (call : ActionId) (args : Json) (plan : FanPlan) :
    BatchMeta :=
  let deadline := parseBatchDeadline args
  let deadline := if plan.inline then min deadline inlineDeadlineCeilS else deadline
  let deadline := plan.ctx.elim deadline fun c => min deadline c.deadlineCapS
  { parent := session
    createdEpoch := w.epoch
    deadlineS := deadline
    reported := false
    inlineAck := if plan.inline then some (session, call) else none
    origin := none }

/-- The batch is opened and its tasks are minted. -/
def fanMint (d : Driver) (cfg : Config) (w : World) (session : SessionId) (call : ActionId)
    (args : Json) (plan : FanPlan) : Minting :=
  let batch := d.nextBatchId
  let yolo := strField args "yolo" = some "inherit" && session ∈ d.yolo
  let d := { d with
    nextBatchId := batch + 1
    batches := d.batches.insert batch (fanBatch w session call args plan) }
  (mintItems plan.tasks plan.ctx).foldl (mintItem cfg w batch session yolo) ⟨d, [], [], []⟩

/-- What was minted is taken back. -/
def rollback (d : Driver) (locals remotes : List ℕ) (batch : ℕ) : Driver :=
  { d with
    workers := d.workers.eraseAll locals
    remotes := d.remotes.eraseAll remotes
    batches := d.batches.erase batch }

/-- The cards of minted workers. -/
def fanCards (d : Driver) (locals : List (ℕ × SessionId)) : Driver :=
  locals.foldl (fun d x => (d.workers.get? x.1).elim d fun wk =>
    d.emitState x.1 wk
      (if wk.barrierHeld then "barrier armed — waiting on descendants" else "queued")) d

/-- The cards of minted rows. -/
def fanRemoteCards (d : Driver) (groups : Groups) : Driver :=
  groups.ids.foldl (fun d id => (d.remotes.get? id).elim d fun r =>
    d.emitRemoteState id r s!"assigning to {r.node}") d

/-- What a fan-out is acknowledged with. -/
def fanAck (d : Driver) (cfg : Config) (batch deadlineS : ℕ) (yolo : Bool) (m : Minting)
    (ctx : Option CellsCtx) : FanAck where
  batch := batch
  workers := m.locals
  remote := m.groups.pairs
  cap := cfg.cap
  admitted := min (cfg.cap - slotsUsed d.workers) m.locals.length
  deadlineS := deadlineS
  yoloInherited := yolo
  cells := ctx.elim [] fun c => c.plans.map CellPlan.addr
  gate := (ctx.bind fun c => c.plans.find? fun p => p.barrierTimeoutS.isSome).map fun p =>
    (p.addr, p.barrierTimeoutS)

/-- The assigns go out, or fail at once. -/
def fanPosts (d : Driver) (w : World) (batch deadlineS : ℕ) (groups : Groups) : Driver :=
  groups.foldl (fun d g =>
    if w.dark g.1 then d.emit (.post g.1 (.failed batch g.2.1 "peer dark (beacon)"))
    else if w.registered g.1 then d.emit (.post g.1 (.fanout batch deadlineS g.2.1 g.2.2))
    else d.emit (.post g.1 (.failed batch g.2.1 "peer vanished from the registry"))) d

/-- `fanout`: the minting comes back unless the call was refused. The transaction is written before
anything is said. -/
def fanout (d : Driver) (cfg : Config) (w : World) (session : SessionId) (call : ActionId)
    (args : Json) : Driver × Option (Option CellsCtx × List ℕ) :=
  match d.fanPlan cfg w session args with
  | .error msg => (d.refuse session call msg, none)
  | .ok plan =>
    let batch := d.nextBatchId
    let yolo := strField args "yolo" = some "inherit" && session ∈ d.yolo
    let deadlineS := (fanBatch w session call args plan).deadlineS
    let m := d.fanMint cfg w session call args plan
    let (d, ok) := m.driver.persistWorkerTxn w
    if !ok then
      ((d.rollback (m.locals.map Prod.fst) m.groups.ids batch).refuse session call
        (s!"could not persist worker batch {batch} — refusing the fanout so nothing is " ++
          "acknowledged without a durable record"), none)
    else
      let d := (d.fanCards m.locals).fanRemoteCards m.groups
      let d := if plan.inline then d
        else d.send (.toolResult session call
          (.fanned (d.fanAck cfg batch deadlineS yolo m plan.ctx)))
      let d := d.admitQueued cfg w
      (d.fanPosts w batch deadlineS m.groups,
        some (plan.ctx, if plan.ctx.isSome then m.wids else []))

/-- The cell a plan becomes. -/
def plannedCell (w : World) (ctx : CellsCtx) (p : CellPlan) (id : ℕ) : CellRecord :=
  let form := CellForm.spine
  let form := if p.barrierTimeoutS.isSome then
      if ctx.armGateBranch then form.armJoin.armBranch else form.armJoin
    else form
  { addr := p.addr
    form := if p.measure.isSome then form.armRecur else form
    task := ""
    budget := p.budget
    invariantHash := ctx.invariantHash
    worker := some id
    state := "open"
    evidence := none
    reparentedTo := none
    createdEpoch := w.epoch
    barrierTimeoutS := p.barrierTimeoutS
    barrierOpened := false
    measure := p.measure
    measureHistory := []
    voucher := p.voucher
    node := p.node }

/-- `bind_cells`. -/
def bindCells (d : Driver) (w : World) (ctx : CellsCtx) (wids : List ℕ) : Driver :=
  let d := (ctx.plans.zip wids).foldl (fun d x =>
    let c := plannedCell w ctx x.1 x.2
    let tree := (d.trees.get? ctx.mandala).getD Table.empty
    { d.write w (.cellFile ctx.mandala c) with
      cellByWorker := d.cellByWorker.insert x.2 (ctx.mandala, x.1.addr)
      trees := d.trees.insert ctx.mandala (tree.insert c.addr c) }) d
  if ctx.armParentBranch && (d.cell? ctx.mandala ctx.parent).any fun c => !c.form.branches then
    d.setCell w ctx.mandala ctx.parent fun c => { c with form := c.form.armBranch }
  else d

/-- The `task_fanout` arm. -/
def taskFanout (d : Driver) (cfg : Config) (w : World) (session : SessionId) (call : ActionId)
    (args : Json) : Driver :=
  match d.fanout cfg w session call args with
  | (d, none) => d
  | (d, some (ctx, wids)) =>
    let d := ctx.elim d fun c => d.bindCells w c wids
    ((d.saveWorkerState w).saveWorkerState w).saveRemotes w

/-! ### Cancellation -/

/-- The rows to cancel, by batch and node: the peer's batch, and the peer's ids. -/
abbrev CancelGroups := Table (ℕ × String) (Option ℕ × List ℕ)

/-- One row is marked, and joins its group. -/
def relayOne (x : Driver × CancelGroups) (id : ℕ) : Driver × CancelGroups :=
  match x.1.remotes.get? id with
  | none => x
  | some r =>
    if r.isTerminal then x
    else
      let r' := { r with stateRaw := stateCancelRequested }
      let group := (x.2.get? (r.batch, r.node)).getD (r.remoteBatch, [])
      ((x.1.putRemote id r').emitRemoteState id r' s!"cancel relayed to {r.node}",
        x.2.insert (r.batch, r.node) (group.1, group.2 ++ r.remoteWorker.toList))

/-- `relay_remote_cancels`. -/
def relayRemoteCancels (d : Driver) (w : World) (ids : List ℕ) : Driver :=
  let (d, groups) := ids.foldl relayOne (d, Table.empty)
  groups.entries.foldl (fun d g => g.2.1.elim d fun rb =>
    if w.registered g.1.2 then d.emit (.post g.1.2 (.cancel rb g.2.2)) else d) d

/-- What a `worker_cancel` is about: local and remote ids, if exactly one selector is given. -/
def cancelTargets (d : Driver) (args : Json) : Option (List ℕ × List ℕ) :=
  match natField args "worker", natField args "batch" with
  | some id, none => some
      (d.workers.keysWhere (fun i wk => i = id && !wk.isTerminal),
        d.remotes.keysWhere fun i r => i = id && !r.isTerminal)
  | none, some b => some
      (d.workers.keysWhere (fun _ wk => wk.batch = b && !wk.isTerminal),
        d.remotes.keysWhere fun _ r => r.batch = b && !r.isTerminal)
  | _, _ => none

/-- The `worker_cancel` arm. -/
def workerCancel (d : Driver) (cfg : Config) (w : World) (session : SessionId) (call : ActionId)
    (args : Json) : Driver :=
  match d.cancelTargets args with
  | none => d.refuse session call
      "pass exactly one of worker (an id) or batch (cancels every non-terminal worker in it)"
  | some (ids, remoteIds) =>
    if ids.isEmpty && remoteIds.isEmpty then
      d.refuse session call "no matching non-terminal worker(s)"
    else
      let d := (d.cancelWorkers w ids).relayRemoteCancels w remoteIds
      let d := d.send (.toolResult session call (.cancelled ids remoteIds))
      let d := ((d.syncCells cfg w).checkBarriers w).1
      let d := (d.admitQueued cfg w).checkBatches cfg w
      (d.saveWorkerState w).saveRemotes w

/-! ### Mandalas -/

/-- `mandala_closable`. -/
def mandalaClosable (t : Tree) : Bool :=
  t.entries.all fun x => x.1 = Addr.root || !isOpenState x.2.state

/-- `close_mandala`. -/
def closeMandala (w : World) (d : Driver) (mid : ℕ) : Driver :=
  let d := { d with mandalas := d.mandalas.modify mid fun m => { m with state := "closed" } }
  if (d.cell? mid Addr.root).any fun c => isOpenState c.state then
    d.setCell w mid Addr.root fun c => { c with state := "done" }
  else d

/-- `try_close_for_conductor`, with the save. -/
def tryCloseForConductor (d : Driver) (w : World) (conductor : SessionId) : Driver :=
  let ids := d.mandalas.keysWhere fun id m =>
    m.conductor = conductor && m.state ≠ "closed" && (d.trees.get? id).elim true mandalaClosable
  if ids.isEmpty then d else (ids.foldl (closeMandala w) d).saveMandalas w

/-- The `mandala_close` arm. -/
def mandalaClose (d : Driver) (w : World) (session : SessionId) (call : ActionId) (args : Json) :
    Driver :=
  if isWorkerSession session then d.refuse session call "workers cannot close mandalas"
  else match natField args "mandala" with
  | none => d.refuse session call "mandala id is required — mandala_status lists them"
  | some mid =>
    match d.mandalas.get? mid with
    | none => d.refuse session call s!"no mandala {mid} — mandala_status lists them"
    | some m =>
      if m.state = "closed" then d.send (.toolResult session call (.mandalaClosed mid true))
      else
        let still := (d.trees.get? mid).elim [] fun t => (t.keysWhere fun a c =>
          a ≠ Addr.root && isOpenState c.state).map Addr.text
        if !still.isEmpty then
          let sorted := still.insertionSort (· ≤ ·)
          d.refuse session call
            (s!"{still.length} cell(s) still open (" ++ ", ".intercalate (sorted.take 5) ++
              (if 5 < still.length then ", …" else "") ++
              ") — finish them or worker_cancel\x7bbatch\x7d first; closing is bookkeeping, not " ++
              "a kill switch")
        else
          ((closeMandala w d mid).send (.toolResult session call (.mandalaClosed mid false))
            ).saveMandalas w

/-- The fields a mandala is opened with. -/
def mandalaRecord (d : Driver) (cfg : Config) (w : World) (session : SessionId) (args : Json) :
    Except String MandalaRecord := do
  let objective := ((strField args "objective").map trim).getD ""
  let doneWhen := ((strField args "done_when").map trim).getD ""
  let verify := ((strField args "verify").map trim).getD ""
  require (!objective.isEmpty && !doneWhen.isEmpty && !verify.isEmpty)
    ("objective, done_when and verify are all required — the invariant is written once and " ++
      "never paraphrased")
  require (!isWorkerSession session)
    "workers cannot open mandalas (sub-conducting arrives with M1c vouchers)"
  let lattice ← match strField args "lattice" with
    | none => .ok Lattice.spine
    | some s => match Lattice.parse s with
      | some l => .ok l
      | none => .error "unknown lattice — spine, quad, fan, spiral or funnel"
  let repo ← match ((strField args "repo").map trim).filter fun s => !s.isEmpty with
    | none => .ok none
    | some r => match cfg.confine r with
      | some canon => .ok (some canon)
      | none => .error ("repo must be an existing directory inside the agent workspace (e.g. " ++
          "code/myproject)")
  return {
    id := d.nextMandalaId
    conductor := session
    lattice := lattice
    budget := {
      depth := (natField args "depth").elim depthCeil fun n => max 1 (min (n % 2 ^ 8) depthCeil)
      cells := cellsCeil
      steps := (natField args "steps").elim 32 fun n => max 1 (min (n % 2 ^ 16) 512)
      deadlineS := (natField args "deadline_s").elim 86400 fun n => max 300 (min n 604800) }
    invariant := ⟨objective, doneWhen, verify, cfg.hexDigest
      s!"objective:{objective}\ndone_when:{doneWhen}\nverify:{verify}"⟩
    state := "open"
    repo := repo
    createdEpoch := w.epoch }

/-- The root cell of a mandala. -/
def rootCell (m : MandalaRecord) : CellRecord where
  addr := Addr.root
  form := CellForm.spine
  task := m.invariant.objective
  budget := m.budget
  invariantHash := m.invariant.hash
  worker := none
  state := "open"
  evidence := none
  reparentedTo := none
  createdEpoch := m.createdEpoch
  barrierTimeoutS := none
  barrierOpened := false
  measure := none
  measureHistory := []
  voucher := false
  node := none

/-- The `mandala_create` arm. -/
def mandalaCreate (d : Driver) (cfg : Config) (w : World) (session : SessionId) (call : ActionId)
    (args : Json) : Driver :=
  match d.mandalaRecord cfg w session args with
  | .error msg => (d.refuse session call msg).saveMandalas w
  | .ok m =>
    let tree := (d.trees.get? m.id).getD Table.empty
    let d := { d.write w (.cellFile m.id (rootCell m)) with
      nextMandalaId := m.id + 1
      trees := d.trees.insert m.id (tree.insert Addr.root (rootCell m))
      mandalas := d.mandalas.insert m.id m }
    (d.send (.toolResult session call (.mandalaOpened m))).saveMandalas w

/-! ### Peers -/

/-- A remote row ends here: refused, or never delivered. -/
def failRemoteRow (cfg : Config) (cause : String) (d : Driver) (id : ℕ) : Driver :=
  match d.remotes.get? id with
  | none => d
  | some r =>
    if r.isTerminal then d
    else
      let r := { r with
        stateRaw := "failed", summary := some s!"remote assignment failed: {cause}" }
      let d := d.emit (.mirror id r false)
      let r := { r with evidence := some (evidencePath cfg.agentsDir id) }
      (d.putRemote id r).emitRemoteState id r s!"assign failed: {cause}"

/-- One row of the peer's accept. -/
def acceptRow (node : String) (wids : List ℕ) (peerBatch : ℕ) (d : Driver) (ar : AcceptedRow) :
    Driver :=
  match (wids[ar.index]?).bind fun id => (d.remotes.get? id).map fun r => (id, r) with
  | none => d
  | some (id, r) =>
    let r := { r with
      remoteBatch := some peerBatch, remoteWorker := some ar.worker
      remoteSession := some ar.session, stateRaw := "queued" }
    (d.putRemote id r).emitRemoteState id r
      s!"assigned to {node} (worker {ar.worker}, session {ar.session})"

/-- `handle_assign_outcome`. -/
def handleAssignOutcome (d : Driver) (cfg : Config) (w : World) (batch : ℕ) (node : String)
    (wids : List ℕ) (result : Except String (ℕ × List AcceptedRow)) : Driver :=
  match result with
  | .error cause => wids.foldl (failRemoteRow cfg cause) d
  | .ok (peerBatch, rows) =>
    let d := rows.foldl (acceptRow node wids peerBatch) d
    let target : PollTarget := ⟨w.now + cfg.goldenOffset (wids.head?.getD batch), 0, 0, false⟩
    { d with polls := d.polls.insert (batch, node) target }

/-- One wire row is applied; whether anything changed. -/
def applyWireRow (cfg : Config) (batch : ℕ) (node : String) (x : Driver × Bool) (wire : WireRow) :
    Driver × Bool :=
  match x.1.remotes.find? fun _ r =>
      r.batch = batch && r.node = node && r.remoteWorker = some wire.worker with
  | none => x
  | some (id, r) =>
    let stateChanged := r.stateRaw ≠ wire.state
    let summaryChanged := wire.summary.isSome && r.summary ≠ wire.summary
    let r := { r with
      stateRaw := wire.state
      summary := if summaryChanged then wire.summary else r.summary }
    let mirrored := r.isTerminal && r.evidence.isNone
    let d := if mirrored then x.1.emit (.mirror id r wire.evidenceDoc) else x.1
    let r := if mirrored then { r with evidence := some (evidencePath cfg.agentsDir id) } else r
    let d := d.putRemote id r
    (if stateChanged then d.emitRemoteState id r "" else d,
      x.2 || stateChanged || summaryChanged || mirrored)

/-- `apply_wire_rows`. -/
def applyWireRows (d : Driver) (cfg : Config) (batch : ℕ) (node : String) (rows : List WireRow) :
    Driver × Bool :=
  rows.foldl (applyWireRow cfg batch node) (d, false)

/-- `handle_poll_outcome`. -/
def handlePollOutcome (d : Driver) (cfg : Config) (w : World) (batch : ℕ) (node : String)
    (result : Except String (List WireRow)) : Driver × Bool :=
  match d.polls.get? (batch, node) with
  | none => (d, false)
  | some t =>
    let (d, changed, t) : Driver × Bool × PollTarget := match result with
      | .ok rows =>
        let fp := cfg.fingerprint (rows.map WireRow.picture)
        let (d, changed) := d.applyWireRows cfg batch node rows
        let moved := fp ≠ t.fingerprint || changed
        let attempt := if moved then 0 else t.attempt + 1
        (d, changed, ⟨w.now + nextPollIn attempt moved reviewPeriod, attempt, fp, false⟩)
      | .error _ =>
        let attempt := t.attempt + 1
        (d, false, ⟨w.now + nextPollIn attempt false reviewPeriod, attempt, t.fingerprint, false⟩)
    ({ d with polls := d.polls.modify (batch, node) fun _ => t }, changed)

/-- One due poll: dropped, put off, or made. -/
def pollOne (w : World) (d : Driver) (key : ℕ × String) : Driver :=
  let group := d.remotes.values.filter fun r => r.batch = key.1 && r.node = key.2
  let reported := (d.batches.get? key.1).elim true BatchMeta.reported
  if group.isEmpty || (group.all RemoteWorker.isTerminal && reported) then
    { d with polls := d.polls.erase key }
  else match group.findSome? RemoteWorker.remoteBatch with
  | none => { d with polls := d.polls.erase key }
  | some peerBatch =>
    if w.dark key.2 || !w.registered key.2 then
      { d with polls := d.polls.modify key fun t =>
          { t with
            attempt := t.attempt + 1
            next := w.now + nextPollIn (t.attempt + 1) false reviewPeriod } }
    else
      { d with polls := d.polls.modify key fun t => { t with inflight := true } }.emit
        (.post key.2 (.query key.1 peerBatch))

/-- `run_due_polls`. -/
def runDuePolls (d : Driver) (w : World) : Driver :=
  (d.polls.keysWhere fun _ t => !t.inflight && t.next ≤ w.now).foldl (pollOne w) d

/-- A task of a peer's request. -/
structure HostedTask where
  prompt : Option String
  model : Option String
  steps : Option ℕ

/-- What a peer asks, over the gateway. -/
inductive MeshReq
  | fanout (sender : String) (originBatch : ℕ) (parent : Option SessionId)
      (tasks : List HostedTask) (deadlineS : Option ℕ)
  | query (sender : String) (batch : Option ℕ)
  | cancel (sender : String) (batch : Option ℕ) (workers : Option (List ℕ))
  | report (sender : String) (originBatch : Option ℕ) (rows : List WireRow)

/-- What a hosted task mints. -/
def HostedTask.item (sender : String) (originBatch : ℕ) (t : HostedTask) : MintItem where
  prompt := provenancePrefix sender originBatch (trim (t.prompt.getD ""))
  model := (t.model.map trim).filter fun s => !s.isEmpty && s.utf8ByteSize ≤ 64
  node := none
  held := false
  ceiling := hostedStepCeiling t.steps
  steps := none

/-- The `Fanout` arm of `handle_mesh_req`: the transaction is written before the peer is
answered. -/
def hostFanout (d : Driver) (cfg : Config) (w : World) (sender : String) (originBatch : ℕ)
    (parent : Option SessionId) (tasks : List HostedTask) (deadlineS : Option ℕ) : Driver × Bool :=
  match parent with
  | none => (d.emit (.reply (.refused "no landing session resolved")), false)
  | some parent =>
    if tasks.isEmpty || maxBatchTasks < tasks.length then
      (d.emit (.reply (.refused s!"tasks must be 1..={maxBatchTasks}")), false)
    else if tasks.any fun t => (trim (t.prompt.getD "")).isEmpty then
      (d.emit (.reply (.refused "a task has no prompt")), false)
    else
      let batch := d.nextBatchId
      let entry : BatchMeta :=
        { parent := parent
          createdEpoch := w.epoch
          deadlineS := deadlineS.elim defaultBatchDeadlineS fun n => max 60 (min n 86400)
          reported := false
          inlineAck := none
          origin := some (sender, originBatch) }
      let d := { d with nextBatchId := batch + 1, batches := d.batches.insert batch entry }
      let m := (tasks.map (HostedTask.item sender originBatch)).foldl
        (mintItem cfg w batch parent false) ⟨d, [], [], []⟩
      let (d, ok) := m.driver.persistWorkerTxn w
      if !ok then
        ((d.rollback (m.locals.map Prod.fst) [] batch).emit
          (.reply (.refused "could not persist hosted batch")), false)
      else
        let d := m.locals.foldl (fun d x => (d.workers.get? x.1).elim d fun wk =>
          d.emitState x.1 wk "queued (mesh)") d
        let d := d.admitQueued cfg w
        let admitted := m.locals.countP fun x =>
          (d.workers.get? x.1).any fun wk => wk.state = .running
        (d.emit (.reply (.accepted batch
          (m.locals.zipIdx.map fun x => ⟨x.2, x.1.1, x.1.2⟩) cfg.cap admitted)), true)

/-- The batch a peer may ask about: it is hosted for that peer. -/
def hostedFor (d : Driver) (sender : String) (batch : ℕ) : Option ℕ :=
  (d.batches.get? batch).bind fun b => b.origin.bind fun o =>
    if o.1 = sender then some o.2 else none

/-- `handle_mesh_req`: whether the driver's state changed. -/
def handleMeshReq (d : Driver) (cfg : Config) (w : World) (req : MeshReq) : Driver × Bool :=
  match req with
  | .fanout sender originBatch parent tasks deadlineS =>
    d.hostFanout cfg w sender originBatch parent tasks deadlineS
  | .query sender batch =>
    match batch with
    | none => (d.emit (.reply (.refused "missing batch")), false)
    | some batch =>
      match d.hostedFor sender batch with
      | none => (d.emit (.reply (.refused "not your hosted batch")), false)
      | some originBatch =>
        (d.emit (.reply (.rows originBatch batch (wireRows d.workers batch))), false)
  | .cancel sender batch workers =>
    match batch with
    | none => (d.emit (.reply (.refused "missing batch")), false)
    | some batch =>
      match d.hostedFor sender batch with
      | none => (d.emit (.reply (.refused "not your hosted batch")), false)
      | some _ =>
        let ids := d.workers.keysWhere fun id wk =>
          wk.batch = batch && !wk.isTerminal && workers.elim true fun asked => id ∈ asked
        let d := if ids.isEmpty then d else (d.cancelWorkers w ids).admitQueued cfg w
        (d.emit (.reply (.cancelled ids)), !ids.isEmpty)
  | .report sender originBatch rows =>
    match originBatch with
    | none => (d.emit (.reply (.refused "missing origin_batch")), false)
    | some batch =>
      if !d.remotes.values.any fun r => r.batch = batch && r.node = sender then
        (d.emit (.reply (.refused "no such remote batch here")), false)
      else
        let (d, changed) := d.applyWireRows cfg batch sender rows
        let d := { d with polls := d.polls.modify (batch, sender) fun t =>
          { t with attempt := 0, next := w.now + reviewPeriod } }
        (d.emit (.reply (.applied rows.length)), changed)

/-- The gateway arm. -/
def meshRequest (d : Driver) (cfg : Config) (w : World) (req : MeshReq) : Driver :=
  let (d, saved) := d.handleMeshReq cfg w req
  if !saved then d
  else
    let d := d.syncRemoteCells w
    let (d, opened) := d.checkBarriers w
    let d := if opened then d.admitQueued cfg w else d
    let d := ((d.saveWorkerState w).saveWorkerState w).saveRemotes w
    d.checkBatches cfg w

/-- What follows a change of the mirror rows: cells, barriers, batches, and the file. -/
def remotesMoved (d : Driver) (cfg : Config) (w : World) : Driver :=
  let d := d.syncRemoteCells w
  let (d, opened) := d.checkBarriers w
  let d := if opened then (d.admitQueued cfg w).saveWorkerState w else d
  (d.checkBatches cfg w).saveRemotes w

/-! ### The bus -/

/-- The `TurnComplete` arm. -/
def turnComplete (d : Driver) (cfg : Config) (w : World) (session : SessionId) : Driver :=
  match d.advance cfg w session with
  | none => d
  | some d =>
    let d := ((d.syncCells cfg w).checkBarriers w).1
    ((d.admitQueued cfg w).checkBatches cfg w).saveWorkerState w

/-- The `UserPrompt` arm. -/
def userPrompt (d : Driver) (cfg : Config) (w : World) (session : SessionId) : Driver :=
  match d.wakeOnSend cfg w session with
  | none => d
  | some d => (d.afterWake w session).saveWorkerState w

/-- The `Error` arm. -/
def turnErrored (d : Driver) (session : SessionId) : Driver :=
  match d.workers.find? fun _ wk => wk.session = session with
  | none => d
  | some (id, wk) => d.put id { wk with errored := true }

/-- The cascade of a cancelled goal: its workers go with it. -/
def cascade (d : Driver) (cfg : Config) (w : World) (parent : SessionId) : Driver :=
  let ids := d.workers.keysWhere fun _ wk => wk.parent = parent && !wk.isTerminal
  let remoteIds := d.remotes.keysWhere fun _ r => r.parent = parent && !r.isTerminal
  if ids.isEmpty && remoteIds.isEmpty then d
  else
    let d := (d.cancelWorkers w ids).relayRemoteCancels w remoteIds
    let d := (d.admitQueued cfg w).checkBatches cfg w
    ((d.syncCells cfg w).saveWorkerState w).saveRemotes w

/-- The `GoalStateChanged` arm. -/
def goalEnded (d : Driver) (cfg : Config) (w : World) (state : GoalState) (parent : SessionId) :
    Driver :=
  (if state = .cancelled then d.cascade cfg w parent else d).tryCloseForConductor w parent

/-! ### The review -/

/-- A sweep under way: what it found. -/
structure Sweep where
  driver : Driver
  failed : Bool
  parked : Bool
  reaped : Bool
  barriers : Bool

/-- The remediation is carried out. -/
def remediate (w : World) (s : Sweep) (id : ℕ) (wk : Worker) (r : Remediation) : Sweep :=
  let d := s.driver
  match r with
  | .healthy => s
  | .fail =>
    let wk := { wk with state := .failed, turnInflight := false }
    let d := ((d.put id wk).disarmWorker wk.session).emitState id wk "step stalled — no completion"
    { s with driver := d.finalizeTerminal id wk, failed := true }
  | .park =>
    if wk.state = .parked then s
    else
      let wk := { wk with state := .parked }
      let d := (d.put id wk).disarmWorker wk.session
      { s with driver := d.emitState id wk "idle TTL — parked (a send revives)", parked := true }
  | .reap => { s with reaped := true }
  | .openBarrier => { s with barriers := true }
  | .cancel => { s with driver := d.cancelWorkers w [id] }

/-- What a review sees of a worker: its posture, its word, and the time to its gate's guard. -/
def observe (d : Driver) (cfg : Config) (w : World) (id : ℕ) (wk : Worker) :
    Posture × Word × Option ℕ :=
  let signals := if wk.barrierHeld then d.barrierSignals w id else (none, none)
  let deadlineOk := (d.batches.get? wk.batch).elim true fun b => b.reported || !b.expired w.epoch
  let seen := buildReview wk signals.1 deadlineOk cfg.maxSteps cfg.stepTimeout cfg.idleTtl w.now
  (seen.1, seen.2, signals.2)

/-- The next review is scheduled. -/
def Sweep.schedule (s : Sweep) (id : ℕ) (f : Worker → Worker) : Sweep :=
  { s with driver := { s.driver with workers := s.driver.workers.modify id f } }

/-- One due worker is reviewed. -/
def reviewOne (cfg : Config) (w : World) (s : Sweep) (id : ℕ) : Sweep :=
  match s.driver.workers.get? id with
  | none => s
  | some wk =>
    let seen := s.driver.observe cfg w id wk
    (remediate w s id wk (review seen.1 seen.2.1)).schedule id fun wk =>
      scheduleNextReview wk seen.1 seen.2.1 cfg.stepTimeout cfg.idleTtl w.now seen.2.2

/-- The workers due for a review. -/
def dueReviews (d : Driver) (w : World) : List ℕ :=
  d.workers.keysWhere fun _ wk => wk.nextReview.any (· ≤ w.now)

/-- The sweep of a tick. -/
def swept (d : Driver) (cfg : Config) (w : World) : Sweep :=
  (d.dueReviews w).foldl (reviewOne cfg w) ⟨d, false, false, false, false⟩

/-- What follows the sweep. -/
def Sweep.follow (s : Sweep) (cfg : Config) (w : World) : Driver :=
  let d := s.driver
  let d := if s.barriers then
      if (d.checkBarriers w).2 then (d.checkBarriers w).1.admitQueued cfg w
      else (d.checkBarriers w).1
    else d
  let d := if s.failed then d.admitQueued cfg w else d
  let d := d.checkBatches cfg w
  let d := if s.failed || s.reaped then d.syncCells cfg w else d
  let d := if s.failed || s.parked then d.saveWorkerState w else d
  d.runDuePolls w

/-- The tick. -/
def tick (d : Driver) (cfg : Config) (w : World) : Driver := (d.swept cfg w).follow cfg w

/-! ### The loop -/

/-- What the driver reacts to: a tool call, a peer's request or answer, the bus, the ticker, and the
goal driver arming and disarming sessions in the shared set. -/
inductive Input
  | request (session : SessionId) (call : ActionId) (tool : String) (args : Json)
  | mesh (req : MeshReq)
  | assigned (batch : ℕ) (node : String) (wids : List ℕ)
      (result : Except String (ℕ × List AcceptedRow))
  | polled (batch : ℕ) (node : String) (result : Except String (List WireRow))
  | turnComplete (session : SessionId)
  | approvalPending (session : SessionId) (tool : String)
  | userApproval (session : SessionId)
  | userPrompt (session : SessionId)
  | turnError (session : SessionId)
  | goalEnded (state : GoalState) (session : SessionId)
  | tick
  | goalArmed (session : SessionId)
  | goalDisarmed (session : SessionId)

/-- The arm of an input. -/
def handle (d : Driver) (cfg : Config) (w : World) : Input → Driver
  | .request session call tool args =>
    if tool = "task_fanout" then d.taskFanout cfg w session call args
    else if tool = "mandala_close" then d.mandalaClose w session call args
    else if tool = "mandala_create" then d.mandalaCreate cfg w session call args
    else if tool = "worker_report" then d.recordReport cfg session call args
    else if tool = "worker_cancel" then d.workerCancel cfg w session call args
    else d
  | .mesh req => d.meshRequest cfg w req
  | .assigned batch node wids result =>
    (d.handleAssignOutcome cfg w batch node wids result).remotesMoved cfg w
  | .polled batch node result =>
    match d.handlePollOutcome cfg w batch node result with
    | (d, changed) => if changed then d.remotesMoved cfg w else d
  | .turnComplete session => if isWorkerSession session then d.turnComplete cfg w session else d
  | .approvalPending session tool =>
    if isWorkerSession session then
      (d.blockOnApproval session tool).elim d fun d => d.saveWorkerState w
    else d
  | .userApproval session =>
    if isWorkerSession session then
      (d.resumeFromApproval w session).elim d fun d => d.saveWorkerState w
    else d
  | .userPrompt session => if isWorkerSession session then d.userPrompt cfg w session else d
  | .turnError session => if isWorkerSession session then d.turnErrored session else d
  | .goalEnded state session =>
    if state = .cancelled || state = .done || state = .failed then d.goalEnded cfg w state session
    else d
  | .tick => d.tick cfg w
  | .goalArmed session => { d with yolo := insert session d.yolo }
  | .goalDisarmed session => { d with yolo := d.yolo.erase session }

/-- One turn of the loop, with what it did. -/
def react (d : Driver) (cfg : Config) (w : World) (i : Input) : Driver :=
  { d with out := [] }.handle cfg w i

end Driver

/-! ### The disk, and the boot -/

/-- What is in the driver's files. -/
structure Disk where
  txn : Option WorkerTxn
  workersFile : List PersistedWorker
  batchesFile : List PersistedBatch
  remotesFile : List PersistedRemoteWorker
  mandalasFile : List MandalaRecord
  cells : Table (ℕ × Addr) CellRecord

namespace Disk

/-- A new node's. -/
def blank : Disk := ⟨none, [], [], [], [], Table.empty⟩

/-- What an effect leaves on the disk: a write that is made replaces its file. -/
def apply (k : Disk) : Effect → Disk
  | .txn txn true => { k with txn := some txn }
  | .workersFile rows true => { k with workersFile := rows }
  | .batchesFile rows true => { k with batchesFile := rows }
  | .remotesFile rows true => { k with remotesFile := rows }
  | .mandalasFile rows true => { k with mandalasFile := rows }
  | .cellFile mandala c true => { k with cells := k.cells.insert (mandala, c.addr) c }
  | _ => k

/-- `load_worker_txn`. -/
def loadWorkerTxn (k : Disk) : Option WorkerTxn :=
  k.txn.filter fun t => !(t.version = 0 || workerTxnVersion < t.version)

/-- `load_tree`. -/
def loadTree (k : Disk) (mandala : ℕ) : Tree :=
  reparentOrphans ((k.cells.entries.filter fun x =>
    x.1.1 = mandala && Addr.parse x.1.2.text = some x.2.addr).foldl
      (fun t x => t.insert x.2.addr x.2) Table.empty)

end Disk

namespace Driver

/-- Before anything is loaded. -/
def blank : Driver where
  workers := Table.empty
  batches := Table.empty
  remotes := Table.empty
  polls := Table.empty
  mandalas := Table.empty
  trees := Table.empty
  cellByWorker := Table.empty
  nextWorkerId := 1
  nextBatchId := 1
  nextWorkerSid := workerSessionBase
  nextMandalaId := 1
  txnSeq := 0
  yolo := ∅
  models := Table.empty
  out := []

/-- `hydrate_workers`. -/
def hydrateWorkers (d : Driver) (w : World) (rows : List PersistedWorker) : Driver :=
  rows.foldl (fun d pw =>
    { d with
      nextWorkerId := max d.nextWorkerId (pw.id + 1)
      nextBatchId := max d.nextBatchId (pw.batch + 1)
      nextWorkerSid := max d.nextWorkerSid (pw.session + 1)
      workers := d.workers.insert pw.id (pw.hydrate w.now) }) d

/-- `hydrate_batches`. -/
def hydrateBatches (d : Driver) (rows : List PersistedBatch) : Driver :=
  rows.foldl (fun d pb =>
    { d with
      nextBatchId := max d.nextBatchId (pb.batch + 1)
      batches := d.batches.insert pb.batch pb.hydrate }) d

/-- `emit_reloaded_workers`. -/
def emitReloadedWorkers (d : Driver) : Driver :=
  (d.workers.keys.insertionSort (· ≤ ·)).foldl (fun d id => (d.workers.get? id).elim d fun wk =>
    d.emitState id wk (if wk.state = .parked then "parked by daemon restart" else "")) d

/-- A worker whose batch is not in the ledger gets it an entry. -/
def reconcileOne (w : World) (d : Driver) (wk : Worker) : Driver :=
  if d.batches.contains wk.batch then d
  else
    let allEnded := (d.workers.values.filter fun x => x.batch = wk.batch).all Worker.isTerminal
    let entry : BatchMeta := ⟨wk.parent, w.epoch, defaultBatchDeadlineS, allEnded, none, none⟩
    { d with batches := d.batches.insert wk.batch entry }

/-- `reconcile_batches`. -/
def reconcileBatches (d : Driver) (w : World) : Driver := d.workers.values.foldl (reconcileOne w) d

/-- A cell is found in a mandala's directory: one that was given a new parent is saved again. -/
def reloadCell (w : World) (mandala : ℕ) (d : Driver) (c : CellRecord) : Driver :=
  let d := if c.reparentedTo.isSome then d.write w (.cellFile mandala c) else d
  { d with
    cellByWorker := c.worker.elim d.cellByWorker fun id =>
      d.cellByWorker.insert id (mandala, c.addr) }

/-- `load_mandalas`. -/
def loadMandalas (rows : List MandalaRecord) : Table ℕ MandalaRecord :=
  rows.foldl (fun t m => t.insert m.id m) Table.empty

/-- `reload_mandalas`. -/
def reloadMandalas (d : Driver) (w : World) (k : Disk) : Driver :=
  let d := { d with mandalas := loadMandalas k.mandalasFile }
  d.mandalas.keys.foldl (fun d id =>
    let tree := k.loadTree id
    { tree.values.foldl (reloadCell w id) d with
      nextMandalaId := max d.nextMandalaId (id + 1)
      trees := d.trees.insert id tree }) d

/-- The rows of `reload_remotes`. -/
def hydrateRemotes (d : Driver) (rows : List PersistedRemoteWorker) : Driver :=
  rows.foldl (fun d p =>
    { d with
      nextWorkerId := max d.nextWorkerId (p.id + 1)
      nextBatchId := max d.nextBatchId (p.row.batch + 1)
      remotes := d.remotes.insert p.id p.reload }) d

/-- The cards of the reloaded rows. -/
def emitReloadedRemotes (d : Driver) : Driver :=
  (d.remotes.keys.insertionSort (· ≤ ·)).foldl (fun d id => (d.remotes.get? id).elim d fun r =>
    d.emitRemoteState id r "") d

/-- Polling is taken up for every accepted group that is not settled and reported. -/
def resumePolls (d : Driver) (cfg : Config) (w : World) : Driver :=
  d.remotes.entries.foldl (fun d x =>
    let unsettled := !x.2.isTerminal || (d.batches.get? x.2.batch).any fun b => !b.reported
    if x.2.remoteBatch.isSome && unsettled && !d.polls.contains (x.2.batch, x.2.node) then
      let target : PollTarget := ⟨w.now + cfg.goldenOffset x.1, 0, 0, false⟩
      { d with polls := d.polls.insert (x.2.batch, x.2.node) target }
    else d) d

/-- The workers and the ledger are read back: from the transaction, or from the older files. -/
def loadBooks (w : World) (k : Disk) : Driver :=
  match k.loadWorkerTxn with
  | some txn =>
    (({ blank with txnSeq := txn.seq }.hydrateWorkers w txn.workers).hydrateBatches
      txn.batches).emitReloadedWorkers
  | none =>
    ((blank.hydrateWorkers w k.workersFile).emitReloadedWorkers).hydrateBatches k.batchesFile

/-- The start of the driver: everything is read back, every worker that had not ended is parked. -/
def boot (cfg : Config) (w : World) (k : Disk) : Driver :=
  let d := ((loadBooks w k).reconcileBatches w).reloadMandalas w k
  ((d.hydrateRemotes k.remotesFile).emitReloadedRemotes).resumePolls cfg w

end Driver

/-! ### The node -/

/-- The process and its files. -/
structure Node where
  driver : Driver
  disk : Disk

/-- What happens to a node: an input is handled; the process ends inside a handler, so many effects
into it, and starts again; it ends between two handlers and starts again. -/
inductive Happening
  | handled (w : World) (i : Driver.Input)
  | crashed (w : World) (i : Driver.Input) (effects : ℕ) (boot : World)
  | restarted (boot : World)

namespace Node

/-- The process starts, from these files. -/
def booted (cfg : Config) (w : World) (k : Disk) : Node × List Effect :=
  let d := Driver.boot cfg w k
  (⟨d, d.out.foldl Disk.apply k⟩, d.out)

/-- A new node. -/
def fresh (cfg : Config) (w : World) : Node := (booted cfg w Disk.blank).1

/-- One happening, with what was done. -/
def step (cfg : Config) (n : Node) : Happening → Node × List Effect
  | .handled w i =>
    let d := n.driver.react cfg w i
    (⟨d, d.out.foldl Disk.apply n.disk⟩, d.out)
  | .crashed w i effects bootWorld =>
    let done := (n.driver.react cfg w i).out.take effects
    let r := booted cfg bootWorld (done.foldl Disk.apply n.disk)
    (r.1, done ++ r.2)
  | .restarted bootWorld => booted cfg bootWorld n.disk

end Node

/-! ### A small node -/

/-- One slot, and the timeouts of the defaults. -/
def Config.small : Config where
  cap := 1
  maxSteps := 12
  stepTimeout := 900000
  idleTtl := 1800000
  agentsDir := "agents"
  meshEnabled := true
  goldenOffset := fun _ => 0
  confine := some
  hexDigest := fun _ => "0123456789abcdef"
  fingerprint := fun _ => 1

/-- So many seconds after the start: every write is made, every peer is registered and in sight. -/
def World.calm (s : ℕ) : World :=
  ⟨1000 * s, s, fun _ => true, fun _ => none, fun _ => true, fun _ => false⟩

/-- Arguments that are texts. -/
def textArgs (fields : List (String × String)) : Json :=
  .object (fields.map fun x => (x.1, .string x.2))

/-- A fan-out of plain tasks. -/
def taskArgs (tasks : List String) : Json := .object [("tasks", .array (tasks.map .string))]

end ApexOS.Fabrica
