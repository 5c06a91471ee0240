import ApexOS.Fabrica.Handling

/-!
# Acts of the worker driver

`Fabrica.Moves` accounts for the books and leaves the rest of the driver open: the trees of the
mandalas, the cells that workers run, the auto-approve set and the model pins. This module is the
other account. An `Act` is one of the driver's own operations, applied at the place where a handler
applies it and with what the handler knows there; every handler is a number of acts. What is said
about the trees, the pins and the mirror rows is then said act by act.

The acts of one turn of the loop are taken from the driver `d₀` at its start, since a fan-out plans
on it what it mints and binds.

## Main definitions

* `Driver.Side`: what the books leave out
* `Driver.Idle`: nothing but effects that no account follows
* `Driver.Mints`: what a fan-out mints, here or for a peer
* `Driver.Act`: what the driver can do

## Main results

* `Driver.acts_handle`: every handler is a number of acts
-/

namespace ApexOS.Fabrica

open ApexOS.Agentd (SessionId ActionId WorkerState GoalState)

/-! ### Effects -/

/-- No save of the books or of a cell, no mirrored document, no card of a worker here, no first work
order and no cancel to a peer. -/
def Effect.idle : Effect → Bool
  | .txn .. | .workersFile .. | .batchesFile .. | .cellFile .. | .mirror .. => false
  | .event (.workerStateChanged _ _ _ _ _ _ _ _ none) => false
  | .event (.userPrompt _ (.first ..)) => false
  | .post _ (.cancel ..) => false
  | _ => true

namespace Driver

/-! ### Beside the books -/

/-- What the books leave out, up to the polls: the mandalas and their trees, who runs which cell,
and the shared maps. -/
structure Side where
  mandalas : Table ℕ MandalaRecord
  trees : Table ℕ Tree
  cellByWorker : Table ℕ (ℕ × Addr)
  nextMandalaId : ℕ
  yolo : Finset SessionId
  models : Table SessionId String

/-- The side of a driver. -/
def side (d : Driver) : Side :=
  ⟨d.mandalas, d.trees, d.cellByWorker, d.nextMandalaId, d.yolo, d.models⟩

section Side

variable (d : Driver) (w : World) (id : ℕ) (wk : Worker)

@[simp] theorem side_emit (e : Effect) : (d.emit e).side = d.side := rfl

@[simp] theorem side_send (e : Event) : (d.send e).side = d.side := rfl

@[simp] theorem side_write (e : Bool → Effect) : (d.write w e).side = d.side := rfl

@[simp] theorem side_refuse (s : SessionId) (c : ActionId) (m : String) :
    (d.refuse s c m).side = d.side := rfl

@[simp] theorem side_emitState (detail : String) : (d.emitState id wk detail).side = d.side := rfl

@[simp] theorem side_emitRemoteState (r : RemoteWorker) (detail : String) :
    (d.emitRemoteState id r detail).side = d.side := rfl

@[simp] theorem side_finalizeTerminal : (d.finalizeTerminal id wk).side = d.side := by
  unfold finalizeTerminal
  cases wk.episode <;> rfl

@[simp] theorem side_put : (d.put id wk).side = d.side := rfl

@[simp] theorem side_putRemote (r : RemoteWorker) : (d.putRemote id r).side = d.side := rfl

@[simp] theorem side_saveWorkerState : (d.saveWorkerState w).side = d.side := by
  unfold saveWorkerState persistWorkerTxn
  extract_lets ok txn d₁
  split <;> rfl

end Side

variable {cfg : Config} {w : World} {i : Input} {d₀ d d' d'' : Driver} {id : ℕ} {wk : Worker}
  {m : Minting}

theorem side_foldl {α : Type*} {f : Driver → α → Driver} (h : ∀ d a, (f d a).side = d.side)
    (l : List α) (d : Driver) : (l.foldl f d).side = d.side := by
  induction l generalizing d with
  | nil => rfl
  | cons a l ih => exact (ih _).trans (h d a)

/-- The books stay, up to the number of the last transaction, and so does what they leave out; what
is done is of no account. -/
structure Idle (d d' : Driver) : Prop where
  core : d'.core = { d.core with txnSeq := d'.txnSeq }
  side : d'.side = d.side
  out : ∃ effs, d'.out = d.out ++ effs ∧ ∀ e ∈ effs, e.idle = true

theorem Idle.refl (d : Driver) : Idle d d := ⟨rfl, rfl, [], by simp⟩

theorem Idle.trans (h : Idle d d') (h' : Idle d' d'') : Idle d d'' := by
  obtain ⟨effs, hout, hidle⟩ := h.out
  obtain ⟨effs', hout', hidle'⟩ := h'.out
  refine ⟨?_, h'.side.trans h.side, effs ++ effs', by rw [hout', hout, List.append_assoc], ?_⟩
  · rw [h'.core, h.core]
  · intro e he
    exact (List.mem_append.mp he).elim (hidle e) (hidle' e)

theorem Idle.emit {e : Effect} (he : e.idle = true) : Idle d (d.emit e) :=
  ⟨rfl, rfl, [e], rfl, by simpa using he⟩

theorem Idle.of_eq (hcore : d'.core = { d.core with txnSeq := d'.txnSeq })
    (hside : d'.side = d.side)
    (hout : d'.out = d.out) : Idle d d' :=
  ⟨hcore, hside, [], by simp [hout]⟩

theorem Idle.foldl {α : Type*} {f : Driver → α → Driver} (h : ∀ d a, Idle d (f d a)) (l : List α)
    (d : Driver) : Idle d (l.foldl f d) := by
  induction l generalizing d with
  | nil => exact .refl d
  | cons a l ih => exact (h d a).trans (ih _)

/-! ### The parts of loops -/

/-- One round of `sync_cells`. -/
def syncCell (cfg : Config) (w : World) (d : Driver) (x : ℕ × ℕ × Addr) : Driver :=
  match d.workers.get? x.1, d.cell? x.2.1 x.2.2 with
  | some wk, some c =>
    if wk.isTerminal && c.state ≠ stateStr wk.state then
      d.setCell w x.2.1 x.2.2 fun c =>
        { c with state := stateStr wk.state, evidence := some (evidencePath cfg.agentsDir x.1) }
    else d
  | _, _ => d

theorem syncCells_eq (cfg : Config) (w : World) (d : Driver) :
    d.syncCells cfg w = d.cellByWorker.entries.foldl (syncCell cfg w) d := rfl

/-- One round of `sync_remote_cells`. -/
def syncRemoteCell (w : World) (d : Driver) (x : ℕ × ℕ × Addr) : Driver :=
  match d.remotes.get? x.1, d.cell? x.2.1 x.2.2 with
  | some r, some c =>
    if r.isTerminal && !(c.state = r.stateRaw && c.evidence = r.evidence) then
      d.setCell w x.2.1 x.2.2 fun c => { c with state := r.stateRaw, evidence := r.evidence }
    else d
  | _, _ => d

theorem syncRemoteCells_eq (w : World) (d : Driver) :
    d.syncRemoteCells w = d.cellByWorker.entries.foldl (syncRemoteCell w) d := rfl

/-- One cell of `bind_cells`. -/
def bindCell (w : World) (ctx : CellsCtx) (d : Driver) (x : CellPlan × ℕ) : Driver :=
  let c := plannedCell w ctx x.1 x.2
  let tree := (d.trees.get? ctx.mandala).getD Table.empty
  { d.write w (.cellFile ctx.mandala c) with
    cellByWorker := d.cellByWorker.insert x.2 (ctx.mandala, x.1.addr)
    trees := d.trees.insert ctx.mandala (tree.insert c.addr c) }

/-- The parent's form, when its children are several. -/
def armParent (w : World) (ctx : CellsCtx) (d : Driver) : Driver :=
  if ctx.armParentBranch && (d.cell? ctx.mandala ctx.parent).any fun c => !c.form.branches then
    d.setCell w ctx.mandala ctx.parent fun c => { c with form := c.form.armBranch }
  else d

theorem bindCells_eq (d : Driver) (w : World) (ctx : CellsCtx) (wids : List ℕ) :
    d.bindCells w ctx wids = armParent w ctx ((ctx.plans.zip wids).foldl (bindCell w ctx) d) := rfl

/-! ### Acts -/

/-- The batch a fan-out opens, what it mints, and whether the workers inherit. -/
inductive Mints (cfg : Config) (w : World) (i : Input) (d₀ : Driver) :
    BatchMeta → List MintItem → Bool → Prop
  | fan {session : SessionId} {call : ActionId} {args : Json} {plan : FanPlan}
      (hi : i = .request session call "task_fanout" args)
      (hplan : d₀.fanPlan cfg w session args = .ok plan) :
      Mints cfg w i d₀ (fanBatch w session call args plan) (mintItems plan.tasks plan.ctx)
        (strField args "yolo" = some "inherit" && session ∈ d₀.yolo)
  | host {sender : String} {originBatch : ℕ} {parent : SessionId} {tasks : List HostedTask}
      {deadlineS : Option ℕ} {deadline : ℕ}
      (hi : i = .mesh (.fanout sender originBatch (some parent) tasks deadlineS)) :
      Mints cfg w i d₀ ⟨parent, w.epoch, deadline, false, none, some (sender, originBatch)⟩
        (tasks.map (HostedTask.item sender originBatch)) false

/-- A minted worker as it is when its cell is bound: as it was minted, or admitted since. -/
def Unbound (cfg : Config) (w : World) (d₀ d : Driver) (parent : SessionId) (yolo : Bool) (id : ℕ)
    (item : MintItem) : Prop :=
  ∃ sid, d.workers.get? id = some (mintedWorker cfg w id d₀.nextBatchId parent sid item.prompt
      item.model yolo item.held item.ceiling) ∨
    item.held = false ∧ d.workers.get? id = some (admitted cfg w id (mintedWorker cfg w id
      d₀.nextBatchId parent sid item.prompt item.model yolo item.held item.ceiling))

/-- A fan-out under a mandala is about to bind its cells: the trees are those it was planned on, and
the ids it has minted are those of its plans. -/
structure Binds (cfg : Config) (w : World) (i : Input) (d₀ d : Driver) (ctx : CellsCtx)
    (wids : List ℕ) : Prop where
  planned : ∃ session call args plan, i = .request session call "task_fanout" args ∧
    d₀.fanPlan cfg w session args = .ok plan ∧ plan.ctx = some ctx ∧
    ∀ x ∈ ctx.plans.zip wids, x.1.node = none →
      Unbound cfg w d₀ d session (strField args "yolo" = some "inherit" && session ∈ d₀.yolo) x.2
        (CellPlan.item x.1)
  mandalas : d.mandalas = d₀.mandalas
  trees : d.trees = d₀.trees
  cellByWorker : d.cellByWorker = d₀.cellByWorker
  ids : wids = List.range' d₀.nextWorkerId ctx.plans.length
  rows : ∀ x ∈ ctx.plans.zip wids, ∀ node, x.1.node = some node → ∃ r,
    d.remotes.get? x.2 = some r ∧ r.stateRaw = stateAssigning ∧ r.remoteWorker = none ∧
      r.evidence = none

/-- Sessions were given out, no more of them than ids. -/
def SidsUsed (d d' : Driver) : Prop :=
  ∃ k, d.nextWorkerId + k ≤ d'.nextWorkerId ∧ d'.nextWorkerSid = d.nextWorkerSid + UInt64.ofNat k

/-- A peer's answer to an assignment or a poll, or its report home. -/
def Input.answers : Input → Bool
  | .assigned .. => true
  | .polled .. => true
  | .mesh (.report ..) => true
  | _ => false

/-- What the driver can do in a turn of its loop that began at `d₀`. -/
inductive Act (cfg : Config) (w : World) (i : Input) (d₀ : Driver) : Driver → Driver → Prop
  | idle {d d' : Driver} (h : Idle d d') : Act cfg w i d₀ d d'
  | card {d : Driver} {id : ℕ} {wk : Worker} {detail : String}
      (hget : d.workers.get? id = some wk) : Act cfg w i d₀ d (d.emitState id wk detail)
  | save {d : Driver} : Act cfg w i d₀ d (d.saveWorkerState w)
  | reported {d : Driver} {batch : ℕ} : Act cfg w i d₀ d (reportBatch cfg d batch)
  | admission {d : Driver} {id : ℕ} {wk : Worker} (hnext : nextQueued d.workers = some id)
      (hget : d.workers.get? id = some wk) : Act cfg w i d₀ d (d.admitOne cfg w id wk)
  | verdict {d : Driver} {id : ℕ} {wk : Worker} {verdict : Verdict}
      (hget : d.workers.get? id = some wk) (hstep : Worker.stepping wk = true) :
      Act cfg w i d₀ d (d.put id { wk with pending := some verdict })
  | advanced {d d' : Driver} {session : SessionId} (hi : i = .turnComplete session)
      (h : d.advance cfg w session = some d') : Act cfg w i d₀ d d'
  | sent {d d' : Driver} {session : SessionId} (hi : i = .userPrompt session)
      (h : d.wakeOnSend cfg w session = some d') : Act cfg w i d₀ d (d'.afterWake w session)
  | suspended {d d' : Driver} {session : SessionId} {tool : String}
      (h : d.blockOnApproval session tool = some d') : Act cfg w i d₀ d d'
  | resumed {d d' : Driver} {session : SessionId} (hi : i = .userApproval session)
      (h : d.resumeFromApproval w session = some d') : Act cfg w i d₀ d d'
  | errored {d : Driver} {session : SessionId} : Act cfg w i d₀ d (d.turnErrored session)
  | cancelled {d : Driver} {id : ℕ} : Act cfg w i d₀ d (cancelOne w d id)
  | gateOpened {x : Driver × Bool} {id : ℕ} {wk : Worker}
      (hget : x.1.workers.get? id = some wk) (hheld : wk.barrierHeld = true)
      (hqueued : wk.state = .queued) : Act cfg w i d₀ x.1 (openGate w x id).1
  | reviewed {s : Sweep} {id : ℕ} (hi : i = .tick) (hdue : Reviewable w s.driver id) :
      Act cfg w i d₀ s.driver (reviewOne cfg w s id).driver
  | cellSynced {d : Driver} {x : ℕ × ℕ × Addr} (hx : x ∈ d.cellByWorker.entries) :
      Act cfg w i d₀ d (syncCell cfg w d x)
  | remoteCellSynced {d : Driver} {x : ℕ × ℕ × Addr} (hx : x ∈ d.cellByWorker.entries) :
      Act cfg w i d₀ d (syncRemoteCell w d x)
  | rowFailed {d : Driver} {cause : String} {id : ℕ} (hi : i.answers = true) :
      Act cfg w i d₀ d (failRemoteRow cfg cause d id)
  | rowAccepted {d : Driver} {batch : ℕ} {node : String} {wids : List ℕ} {peerBatch : ℕ}
      {rows : List AcceptedRow} {ar : AcceptedRow}
      (hi : i = .assigned batch node wids (.ok (peerBatch, rows))) (har : ar ∈ rows) :
      Act cfg w i d₀ d (acceptRow node wids peerBatch d ar)
  | rowReported {batch : ℕ} {node : String} {x : Driver × Bool} {wire : WireRow}
      (hi : i.answers = true) : Act cfg w i d₀ x.1 (applyWireRow cfg batch node x wire).1
  | rowRelayed {x : Driver × CancelGroups} {id : ℕ} : Act cfg w i d₀ x.1 (relayOne x id).1
  | cancelPosted {d : Driver} {node : String} {peerBatch : ℕ} {ids : List ℕ} :
      Act cfg w i d₀ d (d.emit (.post node (.cancel peerBatch ids)))
  | batchOpened {b : BatchMeta} {items : List MintItem} {yolo : Bool}
      (h : Mints cfg w i d₀ b items yolo) : Act cfg w i d₀ d₀ { d₀ with
        nextBatchId := d₀.nextBatchId + 1, batches := d₀.batches.insert d₀.nextBatchId b }
  | workerMinted {d : Driver} {b : BatchMeta} {items : List MintItem} {yolo : Bool}
      (h : Mints cfg w i d₀ b items yolo) {item : MintItem} (hitem : item ∈ items)
      (hnode : item.node = none) (hopen : d₀.nextBatchId < d.nextBatchId) :
      Act cfg w i d₀ d (d.mintLocalWorker cfg w d₀.nextBatchId b.parent item.prompt item.model yolo
        item.held item.ceiling)
  | rowMinted {d : Driver} {b : BatchMeta} {items : List MintItem} {yolo : Bool}
      (h : Mints cfg w i d₀ b items yolo) {item : MintItem} (hitem : item ∈ items) {node : String}
      (hnode : item.node = some node) (hopen : d₀.nextBatchId < d.nextBatchId) :
      Act cfg w i d₀ d (d.mintRemoteRow w d₀.nextBatchId b.parent node item.prompt item.model)
  | lost {d' : Driver} (h : TakenBack d₀ d') (hsid : SidsUsed d₀ d') (hside : d'.side = d₀.side) :
      Act cfg w i d₀ d₀ d'
  | bound {d : Driver} {ctx : CellsCtx} {wids : List ℕ} (h : Binds cfg w i d₀ d ctx wids) :
      Act cfg w i d₀ d (d.bindCells w ctx wids)
  | mandalaOpened {d : Driver} {session : SessionId} {args : Json} {m : MandalaRecord}
      (h : d.mandalaRecord cfg w session args = .ok m) :
      Act cfg w i d₀ d { d.write w (.cellFile m.id (rootCell m)) with
        nextMandalaId := m.id + 1
        trees := d.trees.insert m.id
          (((d.trees.get? m.id).getD Table.empty).insert Addr.root (rootCell m))
        mandalas := d.mandalas.insert m.id m }
  | mandalaClosed {d : Driver} {mid : ℕ} {m : MandalaRecord} (hget : d.mandalas.get? mid = some m)
      (hclosable : (d.trees.get? mid).elim true mandalaClosable = true) :
      Act cfg w i d₀ d (closeMandala w d mid)
  | armed {d : Driver} {session : SessionId} (hi : i = .goalArmed session) :
      Act cfg w i d₀ d { d with yolo := insert session d.yolo }
  | disarmed {d : Driver} {session : SessionId} :
      Act cfg w i d₀ d { d with yolo := d.yolo.erase session }

/-- A number of acts. -/
abbrev Acts (cfg : Config) (w : World) (i : Input) (d₀ : Driver) : Driver → Driver → Prop :=
  Relation.ReflTransGen (Act cfg w i d₀)

theorem Acts.of_idle (h : Idle d d') : Acts cfg w i d₀ d d' := .single (.idle h)

theorem Acts.emit {e : Effect} (he : e.idle = true) : Acts cfg w i d₀ d (d.emit e) :=
  .of_idle (.emit he)

/-- A fold over distinct things: what licenses a step outlasts the steps for the others. -/
theorem Acts.foldl {σ α : Type*} (π : σ → Driver) {f : σ → α → σ} {Q : Driver → α → Prop}
    (hact : ∀ s a, Q (π s) a → Acts cfg w i d₀ (π s) (π (f s a)))
    (hkeep : ∀ s a b, Q (π s) a → Q (π s) b → b ≠ a → Q (π (f s a)) b) {l : List α} (hl : l.Nodup)
    {s : σ} (hQ : ∀ a ∈ l, Q (π s) a) : Acts cfg w i d₀ (π s) (π (l.foldl f s)) := by
  induction l generalizing s with
  | nil => exact .refl
  | cons a l ih =>
    obtain ⟨ha, hl⟩ := List.nodup_cons.mp hl
    have hQa := hQ a (by simp)
    refine (hact s a hQa).trans (ih hl fun b hb => ?_)
    exact hkeep s a b hQa (hQ b (by simp [hb])) (fun h => ha (h ▸ hb))

/-- A fold whose steps need no licence. -/
theorem Acts.foldl_any {σ α : Type*} (π : σ → Driver) {f : σ → α → σ} (l : List α)
    (hact : ∀ s, ∀ a ∈ l, Acts cfg w i d₀ (π s) (π (f s a))) (s : σ) :
    Acts cfg w i d₀ (π s) (π (l.foldl f s)) := by
  induction l generalizing s with
  | nil => exact .refl
  | cons a l ih =>
    exact (hact s a (by simp)).trans (ih (fun s b hb => hact s b (by simp [hb])) _)

/-! ### The parts of the handlers -/

theorem acts_admitLoop (n : ℕ) (d : Driver) : Acts cfg w i d₀ d (admitLoop cfg w n d) := by
  induction n generalizing d with
  | zero => exact .refl
  | succ n ih =>
    rw [admitLoop]
    split
    · split
      · exact .refl
      · rename_i x hx
        obtain ⟨id, hnext, hid⟩ := Option.bind_eq_some_iff.mp hx
        obtain ⟨wk, hget, hx⟩ := Option.map_eq_some_iff.mp hid
        obtain ⟨rfl, rfl⟩ := Prod.mk.inj hx
        exact (Relation.ReflTransGen.single (.admission hnext hget)).trans (ih _)
    · exact .refl

theorem acts_admitQueued (d : Driver) : Acts cfg w i d₀ d (d.admitQueued cfg w) :=
  acts_admitLoop _ d

theorem acts_refuse (session : SessionId) (call : ActionId) (msg : String) :
    Acts cfg w i d₀ d (d.refuse session call msg) := .emit rfl

theorem acts_recordReport (session : SessionId) (call : ActionId) (args : Json) :
    Acts cfg w i d₀ d (d.recordReport cfg session call args) := by
  unfold recordReport
  dsimp only
  split
  · exact acts_refuse ..
  · split
    · exact acts_refuse ..
    · split
      · exact acts_refuse ..
      · rename_i id wk hfind
        obtain ⟨hget, hp⟩ := Table.find?_eq_some hfind
        have hstep : Worker.stepping wk = true := by simp_all [Worker.stepping]
        exact (Relation.ReflTransGen.single (.verdict hget hstep)).trans (Acts.emit rfl)

theorem acts_cancelWorkers (ids : List ℕ) : Acts cfg w i d₀ d (d.cancelWorkers w ids) :=
  .foldl_any (fun d => d) ids (fun _ _ _ => .single .cancelled) d

theorem acts_relayRemoteCancels (ids : List ℕ) :
    Acts cfg w i d₀ d (d.relayRemoteCancels w ids) := by
  unfold relayRemoteCancels
  split
  rename_i d₁ groups heq
  have h₁ : Acts cfg w i d₀ d d₁ := by
    rw [show d₁ = (ids.foldl relayOne (d, Table.empty)).1 by rw [heq]]
    exact Acts.foldl_any Prod.fst ids (fun _ _ _ => .single .rowRelayed) (d, Table.empty)
  refine h₁.trans (Acts.foldl_any (fun d => d) groups.entries (fun d g _ => ?_) d₁)
  cases g.2.1 with
  | none => exact .refl
  | some rb =>
    change Acts cfg w i d₀ d
      (if w.registered g.1.2 then d.emit (.post g.1.2 (.cancel rb g.2.2)) else d)
    split
    · exact .single .cancelPosted
    · exact .refl

theorem acts_handleAssignOutcome {batch : ℕ} {node : String} {wids : List ℕ}
    {result : Except String (ℕ × List AcceptedRow)} (hi : i = .assigned batch node wids result) :
    Acts cfg w i d₀ d (d.handleAssignOutcome cfg w batch node wids result) := by
  cases result with
  | error cause =>
    exact .foldl_any (fun d => d) wids (fun _ _ _ => .single (.rowFailed (hi ▸ rfl))) d
  | ok accepted =>
    obtain ⟨peerBatch, rows⟩ := accepted
    refine (Acts.foldl_any (fun d => d) rows (fun d ar har => ?_) d).trans
      (Acts.of_idle (.of_eq rfl rfl rfl))
    exact .single (.rowAccepted hi har)

theorem acts_applyWireRows (hi : i.answers = true) (batch : ℕ) (node : String)
    (rows : List WireRow) : Acts cfg w i d₀ d (d.applyWireRows cfg batch node rows).1 :=
  .foldl_any Prod.fst rows (fun _ _ _ => .single (.rowReported hi)) (d, false)

theorem acts_handlePollOutcome {batch : ℕ} {node : String}
    {result : Except String (List WireRow)} (hi : i = .polled batch node result) :
    Acts cfg w i d₀ d (d.handlePollOutcome cfg w batch node result).1 := by
  unfold handlePollOutcome
  split
  · exact .refl
  · cases result with
    | error cause => exact .of_idle (.of_eq rfl rfl rfl)
    | ok rows =>
      exact (acts_applyWireRows (hi ▸ rfl) batch node rows).trans
        (Acts.of_idle (.of_eq rfl rfl rfl))

theorem cellByWorker_setCell (d : Driver) (w : World) (mandala : ℕ) (addr : Addr)
    (f : CellRecord → CellRecord) : (d.setCell w mandala addr f).cellByWorker = d.cellByWorker := by
  rw [setCell]
  split <;> rfl

theorem cellByWorker_syncCell (cfg : Config) (w : World) (d : Driver) (x : ℕ × ℕ × Addr) :
    (syncCell cfg w d x).cellByWorker = d.cellByWorker := by
  unfold syncCell
  split
  · split
    · exact cellByWorker_setCell ..
    · rfl
  · rfl

theorem cellByWorker_syncRemoteCell (w : World) (d : Driver) (x : ℕ × ℕ × Addr) :
    (syncRemoteCell w d x).cellByWorker = d.cellByWorker := by
  unfold syncRemoteCell
  split
  · split
    · exact cellByWorker_setCell ..
    · rfl
  · rfl

theorem acts_syncCells (cfg : Config) (w : World) (d : Driver) :
    Acts cfg w i d₀ d (d.syncCells cfg w) := by
  rw [syncCells_eq]
  refine Acts.foldl (fun d => d) (Q := fun d x => x ∈ d.cellByWorker.entries)
    (fun d x hx => .single (.cellSynced hx)) ?_ (.of_map Prod.fst d.cellByWorker.nodup)
      fun x hx => hx
  intro d x y _ hy _
  rw [cellByWorker_syncCell]
  exact hy

theorem acts_syncRemoteCells (w : World) (d : Driver) :
    Acts cfg w i d₀ d (d.syncRemoteCells w) := by
  rw [syncRemoteCells_eq]
  refine Acts.foldl (fun d => d) (Q := fun d x => x ∈ d.cellByWorker.entries)
    (fun d x hx => .single (.remoteCellSynced hx)) ?_ (.of_map Prod.fst d.cellByWorker.nodup)
    fun x hx => hx
  intro d x y _ hy _
  rw [cellByWorker_syncRemoteCell]
  exact hy

theorem acts_checkBarriers (d : Driver) : Acts cfg w i d₀ d (d.checkBarriers w).1 := by
  change Acts cfg w i d₀ (d, false).1 (d.checkBarriers w).1
  refine Acts.foldl Prod.fst (Q := fun d id => ∃ wk, d.workers.get? id = some wk ∧
    wk.barrierHeld = true ∧ wk.state = .queued) ?_ ?_ (Table.nodup_keysWhere ..) ?_
  · rintro x id ⟨wk, hget, hheld, hqueued⟩
    exact .single (.gateOpened hget hheld hqueued)
  · rintro x a b ⟨wk, hget, hheld, hqueued⟩ ⟨wk', hget', hb⟩ hne
    have hstroke : Stroke cfg w (.handling i) a x.1 (openGate w x a).1 := by
      refine stroke_openGate fun wk₁ hget₁ => ?_
      obtain rfl : wk₁ = wk := Option.some.inj (hget₁.symm.trans hget)
      exact ⟨hheld, hqueued⟩
    exact ⟨wk', (hstroke.get?_of_ne hne).trans hget', hb⟩
  · intro id hid
    obtain ⟨wk, hget, hp⟩ := Table.mem_keysWhere.mp hid
    exact ⟨wk, hget, by simpa using hp⟩

theorem acts_checkBatches (d : Driver) : Acts cfg w i d₀ d (d.checkBatches cfg w) := by
  unfold checkBatches
  extract_lets dueNow homes d₁ d₂
  have h₁ : Acts cfg w i d₀ d d₁ :=
    .foldl_any (fun d => d) dueNow (fun _ _ _ => .single .reported) d
  have h₂ : Acts cfg w i d₀ d₁ d₂ := by
    unfold d₂
    split
    · exact .refl
    · exact .single .save
  refine (h₁.trans h₂).trans (Acts.of_idle (.foldl (fun d x => ?_) homes d₂))
  split
  · exact .emit rfl
  · exact .refl d

theorem acts_swept (hi : i = .tick) (d : Driver) : Acts cfg w i d₀ d (d.swept cfg w).driver :=
  Acts.foldl Sweep.driver (fun _ _ h => .single (.reviewed hi h))
    (fun _ _ _ ha hb hne => ha.of_reviewOne hb hne) (Table.nodup_keysWhere ..)
    (s := ⟨d, false, false, false, false⟩) fun _ hid => Table.mem_keysWhere.mp hid

theorem idle_runDuePolls (w : World) (d : Driver) : Idle d (d.runDuePolls w) := by
  refine .foldl (fun d key => ?_) _ d
  unfold pollOne
  extract_lets group reported
  split
  · exact .of_eq rfl rfl rfl
  · split
    · exact .of_eq rfl rfl rfl
    · split
      · exact .of_eq rfl rfl rfl
      · exact ⟨rfl, rfl, [_], rfl, by simp [Effect.idle]⟩

theorem idle_saveMandalas (w : World) (d : Driver) : Idle d (d.saveMandalas w) := .emit rfl

theorem idle_saveRemotes (w : World) (d : Driver) : Idle d (d.saveRemotes w) := .emit rfl

/-! ### Mandalas -/

theorem acts_mandalaCreate (session : SessionId) (call : ActionId) (args : Json) :
    Acts cfg w i d₀ d (d.mandalaCreate cfg w session call args) := by
  unfold mandalaCreate
  split
  · exact (acts_refuse ..).trans (Acts.of_idle (idle_saveMandalas ..))
  · rename_i m hm
    extract_lets tree d₁
    refine (Relation.ReflTransGen.single (.mandalaOpened hm)).trans ?_
    exact (Acts.emit rfl).trans (Acts.of_idle (idle_saveMandalas ..))

theorem trees_setCell (d : Driver) (w : World) (mandala : ℕ) (addr : Addr)
    (f : CellRecord → CellRecord) (mid : ℕ) : (d.setCell w mandala addr f).trees.get? mid =
      if mid = mandala then (d.trees.get? mid).map fun t =>
      t.modify addr f else d.trees.get? mid := by
  rw [setCell]
  split
  · rename_i hcell
    split
    · rename_i hmid
      subst hmid
      cases ht : d.trees.get? mid with
      | none => rfl
      | some t =>
        have hget : t.get? addr = none := by simpa [cell?, ht] using hcell
        rw [Option.map_some, Table.modify_of_none hget]
    · rfl
  · exact Table.get?_modify

theorem mandalas_setCell (d : Driver) (w : World) (mandala : ℕ) (addr : Addr)
    (f : CellRecord → CellRecord) : (d.setCell w mandala addr f).mandalas = d.mandalas := by
  rw [setCell]
  split <;> rfl

theorem closeMandala_of_ne {mid mid' : ℕ} (h : mid' ≠ mid) :
    (closeMandala w d mid).mandalas.get? mid' = d.mandalas.get? mid' ∧
      (closeMandala w d mid).trees.get? mid' = d.trees.get? mid' := by
  unfold closeMandala
  extract_lets d₁
  split
  · rw [mandalas_setCell, trees_setCell, if_neg h]
    exact ⟨Table.get?_modify_of_ne h, rfl⟩
  · exact ⟨Table.get?_modify_of_ne h, rfl⟩

theorem acts_tryCloseForConductor (conductor : SessionId) :
    Acts cfg w i d₀ d (d.tryCloseForConductor w conductor) := by
  unfold tryCloseForConductor
  extract_lets ids
  split
  · exact .refl
  · refine Relation.ReflTransGen.trans ?_ (Acts.of_idle (idle_saveMandalas ..))
    refine Acts.foldl (fun d => d) (Q := fun d mid => (∃ m, d.mandalas.get? mid = some m) ∧
      (d.trees.get? mid).elim true mandalaClosable = true) ?_ ?_ (Table.nodup_keysWhere ..) ?_
    · rintro d mid ⟨⟨m, hget⟩, hclosable⟩
      exact .single (.mandalaClosed hget hclosable)
    · rintro d a b - ⟨⟨m, hget⟩, hclosable⟩ hne
      obtain ⟨hmandalas, htrees⟩ := closeMandala_of_ne (w := w) (d := d) hne
      exact ⟨⟨m, hmandalas.trans hget⟩, htrees ▸ hclosable⟩
    · intro mid hmid
      obtain ⟨m, hget, hp⟩ := Table.mem_keysWhere.mp hmid
      simp only [Bool.and_eq_true] at hp
      exact ⟨⟨m, hget⟩, hp.2⟩

theorem acts_mandalaClose (session : SessionId) (call : ActionId) (args : Json) :
    Acts cfg w i d₀ d (d.mandalaClose w session call args) := by
  unfold mandalaClose
  split
  · exact acts_refuse ..
  · split
    · exact acts_refuse ..
    · split
      · exact acts_refuse ..
      · rename_i mid _ _ m hget
        split
        · exact .emit rfl
        · extract_lets still sorted
          split
          · exact acts_refuse ..
          · rename_i hstill
            have hclosable : (d.trees.get? mid).elim true mandalaClosable = true := by
              cases ht : d.trees.get? mid with
              | none => rfl
              | some t =>
                have hnone :
                    (t.keysWhere fun a c => a ≠ Addr.root && isOpenState c.state) = [] := by
                  simpa [still, ht] using hstill
                refine List.all_eq_true.mpr fun x hx => ?_
                have hx : ¬ ((decide (x.1 ≠ Addr.root) && isOpenState x.2.state) = true) := by
                  intro h
                  have hmem : x.1 ∈ t.keysWhere fun a c => a ≠ Addr.root && isOpenState c.state :=
                    Table.mem_keysWhere.mpr ⟨x.2, Table.mem_iff_get?.mp hx, h⟩
                  rw [hnone] at hmem
                  cases hmem
                by_cases hroot : x.1 = Addr.root
                · simp [hroot]
                · simpa [hroot] using hx
            refine (Relation.ReflTransGen.single (.mandalaClosed hget hclosable)).trans ?_
            exact (Acts.emit rfl).trans (Acts.of_idle (idle_saveMandalas ..))

/-! ### Minting -/

theorem side_mintItem (batch : ℕ) (parent : SessionId) (yolo : Bool) (m : Minting)
    (item : MintItem) : (mintItem cfg w batch parent yolo m item).driver.side = m.driver.side := by
  unfold mintItem
  split <;> rfl

theorem side_mintItems (batch : ℕ) (parent : SessionId) (yolo : Bool) (items : List MintItem)
    (m : Minting) :
    (items.foldl (mintItem cfg w batch parent yolo) m).driver.side = m.driver.side := by
  induction items generalizing m with
  | nil => rfl
  | cons item items ih => exact (ih _).trans (side_mintItem ..)

theorem SidsUsed.mintItem (h : SidsUsed d m.driver) (batch : ℕ) (parent : SessionId) (yolo : Bool)
    (item : MintItem) : SidsUsed d (Driver.mintItem cfg w batch parent yolo m item).driver := by
  obtain ⟨k, hid, hsid⟩ := h
  unfold Driver.mintItem
  split
  · exact ⟨k, Nat.le_succ_of_le hid, hsid⟩
  · refine ⟨k + 1, Nat.succ_le_succ hid, ?_⟩
    change m.driver.nextWorkerSid + 1 = _
    rw [hsid, UInt64.ofNat_add, UInt64.add_assoc]
    rfl

theorem SidsUsed.mintItems (h : SidsUsed d m.driver) (batch : ℕ) (parent : SessionId) (yolo : Bool)
    (items : List MintItem) :
    SidsUsed d (items.foldl (Driver.mintItem cfg w batch parent yolo) m).driver := by
  induction items generalizing m with
  | nil => exact h
  | cons item items ih => exact ih (h.mintItem ..)

theorem acts_mintItems {b : BatchMeta} {items : List MintItem} {yolo : Bool}
    (h : Mints cfg w i d₀ b items yolo) (m : Minting)
    (hopen : d₀.nextBatchId < m.driver.nextBatchId) (minting : List MintItem)
    (hitems : ∀ item ∈ minting, item ∈ items) : Acts cfg w i d₀ m.driver
      (minting.foldl (mintItem cfg w d₀.nextBatchId b.parent yolo) m).driver := by
  induction minting generalizing m with
  | nil => exact .refl
  | cons item minting ih =>
    rw [List.foldl_cons]
    refine Relation.ReflTransGen.head ?_ (ih _ ?_ fun x hx => hitems x (by simp [hx]))
    · unfold mintItem
      split
      · exact .rowMinted h (hitems item (by simp)) ‹_› hopen
      · exact .workerMinted h (hitems item (by simp)) ‹_› hopen
    · unfold mintItem
      split <;> exact hopen

/-- What the minting loop has made of its items, in their order. -/
structure MintedItems (cfg : Config) (w : World) (d : Driver) (batch : ℕ) (parent : SessionId)
    (yolo : Bool) (items : List MintItem) (m : Minting) : Prop where
  nextId : m.driver.nextWorkerId = d.nextWorkerId + items.length
  ids : m.wids = List.range' d.nextWorkerId items.length
  worker : ∀ x ∈ items.zip m.wids, x.1.node = none → ∃ sid, m.driver.workers.get? x.2 =
    some (mintedWorker cfg w x.2 batch parent sid x.1.prompt x.1.model yolo x.1.held x.1.ceiling)
  row : ∀ x ∈ items.zip m.wids, ∀ node, x.1.node = some node → m.driver.remotes.get? x.2 =
    some (mintedRow w batch parent node x.1.prompt x.1.model)

theorem mintedItems (cfg : Config) (w : World) (d : Driver) (batch : ℕ) (parent : SessionId)
    (yolo : Bool) (items : List MintItem) : MintedItems cfg w d batch parent yolo items
      (items.foldl (mintItem cfg w batch parent yolo) ⟨d, [], [], []⟩) := by
  induction items using List.reverseRecOn with
  | nil => constructor <;> simp
  | append_singleton items item ih =>
    rw [List.foldl_append, List.foldl_cons, List.foldl_nil]
    generalize items.foldl (mintItem cfg w batch parent yolo) ⟨d, [], [], []⟩ = m at ih ⊢
    have hids : m.wids ++ [m.driver.nextWorkerId] =
        List.range' d.nextWorkerId (items ++ [item]).length := by
      rw [ih.ids, ih.nextId, List.length_append, List.length_singleton, List.range'_concat]
      simp
    have hzip : (items ++ [item]).zip (m.wids ++ [m.driver.nextWorkerId]) =
        items.zip m.wids ++ [(item, m.driver.nextWorkerId)] := by
      rw [List.zip_append (by simp [ih.ids])]
      rfl
    have hold {x : MintItem × ℕ} (hx : x ∈ items.zip m.wids) : x.2 ≠ m.driver.nextWorkerId := by
      have hmem := (List.of_mem_zip hx).2
      rw [ih.ids, List.mem_range'_1] at hmem
      rw [ih.nextId]
      omega
    have hnext : m.driver.nextWorkerId + 1 = d.nextWorkerId + (items ++ [item]).length := by
      rw [ih.nextId, List.length_append, List.length_singleton, Nat.add_assoc]
    unfold mintItem
    split
    · rename_i node hnode
      refine ⟨hnext, hids, ?_, ?_⟩
      · rw [hzip]
        intro x hx hxnode
        rcases List.mem_append.mp hx with hx | hx
        · exact ih.worker x hx hxnode
        · rw [List.mem_singleton.mp hx] at hxnode
          cases hnode.symm.trans hxnode
      · rw [hzip]
        intro x hx node' hxnode
        rcases List.mem_append.mp hx with hx | hx
        · exact (Table.get?_insert.trans (if_neg (hold hx))).trans (ih.row x hx node' hxnode)
        · rw [List.mem_singleton.mp hx] at hxnode ⊢
          obtain rfl := Option.some.inj (hnode.symm.trans hxnode)
          exact Table.get?_insert.trans (if_pos rfl)
    · rename_i hnode
      refine ⟨hnext, hids, ?_, ?_⟩
      · rw [hzip]
        intro x hx hxnode
        rcases List.mem_append.mp hx with hx | hx
        · obtain ⟨sid, hget⟩ := ih.worker x hx hxnode
          exact ⟨sid, (Table.get?_insert.trans (if_neg (hold hx))).trans hget⟩
        · rw [List.mem_singleton.mp hx]
          exact ⟨m.driver.nextWorkerSid, Table.get?_insert.trans (if_pos rfl)⟩
      · rw [hzip]
        intro x hx node hxnode
        rcases List.mem_append.mp hx with hx | hx
        · exact ih.row x hx node hxnode
        · rw [List.mem_singleton.mp hx] at hxnode
          cases hnode.symm.trans hxnode

/-! ### What admissions leave alone -/

/-- Admissions change workers and arm them, and nothing else. -/
structure AdmitsOnly (d d' : Driver) : Prop where
  remotes : d'.remotes = d.remotes
  mandalas : d'.mandalas = d.mandalas
  trees : d'.trees = d.trees
  cellByWorker : d'.cellByWorker = d.cellByWorker

theorem admitsOnly_admitOne (d : Driver) (id : ℕ) (wk : Worker) :
    AdmitsOnly d (d.admitOne cfg w id wk) := by
  unfold admitOne
  cases wk.episode <;> exact ⟨rfl, rfl, rfl, rfl⟩

theorem admitsOnly_admitLoop (n : ℕ) (d : Driver) : AdmitsOnly d (admitLoop cfg w n d) := by
  induction n generalizing d with
  | zero => exact ⟨rfl, rfl, rfl, rfl⟩
  | succ n ih =>
    rw [admitLoop]
    split
    · split
      · exact ⟨rfl, rfl, rfl, rfl⟩
      · rename_i id wk _
        have h₁ : AdmitsOnly d (d.admitOne cfg w id wk) := admitsOnly_admitOne d id wk
        have h₂ := ih (d.admitOne cfg w id wk)
        exact ⟨h₂.remotes.trans h₁.remotes, h₂.mandalas.trans h₁.mandalas, h₂.trees.trans h₁.trees,
          h₂.cellByWorker.trans h₁.cellByWorker⟩
    · exact ⟨rfl, rfl, rfl, rfl⟩

/-- A worker is left as it was, or was in the queue and is admitted. -/
theorem get?_admitLoop (cfg : Config) (w : World) (n : ℕ) (d : Driver)
    (hget : d.workers.get? id = some wk) :
    (admitLoop cfg w n d).workers.get? id = some wk ∨ wk.admissible = true ∧
      (admitLoop cfg w n d).workers.get? id = some (admitted cfg w id wk) := by
  induction n generalizing d wk with
  | zero => exact Or.inl hget
  | succ n ih =>
    rw [admitLoop]
    split
    · split
      · exact Or.inl hget
      · rename_i x hx
        obtain ⟨id', hnext, hid⟩ := Option.bind_eq_some_iff.mp hx
        obtain ⟨wk', hget', hx⟩ := Option.map_eq_some_iff.mp hid
        obtain ⟨rfl, rfl⟩ := Prod.mk.inj hx
        have hworkers : (d.admitOne cfg w id' wk').workers =
            d.workers.modify id' fun _ => admitted cfg w id' wk' :=
          congrArg Core.workers (admitOne_spec d cfg w id' wk').1
        by_cases hid : id = id'
        · subst hid
          obtain rfl : wk' = wk := Option.some.inj (hget'.symm.trans hget)
          have hadm : wk'.admissible = true := admissible_of_nextQueued hnext hget
          have hget₁ :
              (d.admitOne cfg w id wk').workers.get? id = some (admitted cfg w id wk') := by
            rw [hworkers, Table.get?_modify_self, hget]
            rfl
          rcases ih _ hget₁ with h | ⟨h, -⟩
          · exact Or.inr ⟨hadm, h⟩
          · simp [Worker.admissible, admitted] at h
        · refine ih _ ?_
          rw [hworkers, Table.get?_modify_of_ne hid, hget]
    · exact Or.inl hget

/-! ### Fan-outs -/

theorem acts_cards (detail : Worker → String) (l : List (ℕ × SessionId)) :
    Acts cfg w i d₀ d (l.foldl (fun d x => (d.workers.get? x.1).elim d fun wk =>
      d.emitState x.1 wk (detail wk)) d) := by
  refine .foldl_any (fun d => d) l (fun d x _ => ?_) d
  cases hget : d.workers.get? x.1 with
  | none => exact .refl
  | some wk => exact .single (.card hget)

theorem side_cards (detail : Worker → String) (l : List (ℕ × SessionId)) (d : Driver) :
    (l.foldl (fun d x => (d.workers.get? x.1).elim d fun wk =>
      d.emitState x.1 wk (detail wk)) d).side = d.side := by
  refine side_foldl (fun d x => ?_) l d
  cases d.workers.get? x.1 <;> rfl

theorem idle_fanRemoteCards (gs : Groups) (d : Driver) : Idle d (d.fanRemoteCards gs) := by
  refine .foldl (fun d id => ?_) gs.ids d
  cases d.remotes.get? id with
  | none => exact .refl d
  | some r => exact .emit rfl

theorem idle_fanPosts (batch deadlineS : ℕ) (gs : Groups) (d : Driver) :
    Idle d (d.fanPosts w batch deadlineS gs) := by
  refine .foldl (fun d g => ?_) gs d
  split
  · exact .emit rfl
  · split <;> exact .emit rfl

/-- The minting of a fan-out, to the transaction that makes it good. -/
theorem acts_minting {b : BatchMeta} {items : List MintItem} {yolo : Bool}
    (h : Mints cfg w i d₀ b items yolo) : Acts cfg w i d₀ d₀
      ((items.foldl (mintItem cfg w d₀.nextBatchId b.parent yolo) ⟨{ d₀ with
        nextBatchId := d₀.nextBatchId + 1
        batches := d₀.batches.insert d₀.nextBatchId b }, [], [], []⟩).driver.saveWorkerState w) :=
  ((Relation.ReflTransGen.single (.batchOpened h)).trans
    (acts_mintItems h ⟨_, [], [], []⟩ (Nat.lt_succ_self _) items fun _ h => h)).tail .save

theorem sidsUsed_mintItems (b : BatchMeta) (parent : SessionId) (yolo : Bool)
    (items : List MintItem) :
    SidsUsed d (items.foldl (mintItem cfg w d.nextBatchId parent yolo) ⟨{ d with
      nextBatchId := d.nextBatchId + 1
      batches := d.batches.insert d.nextBatchId b }, [], [], []⟩).driver := by
  have hstart : SidsUsed d { d with
      nextBatchId := d.nextBatchId + 1
      batches := d.batches.insert d.nextBatchId b } := ⟨0, le_rfl, (UInt64.add_zero _).symm⟩
  exact SidsUsed.mintItems (m := ⟨_, [], [], []⟩) hstart ..

/-- A fan-out in acts; if it goes through, what it minted is there for its cells. -/
theorem acts_fanout (cfg : Config) (w : World) (hd : d₀.Fresh) {session : SessionId}
    {call : ActionId} {args : Json}
    (hi : i = .request session call "task_fanout" args) :
    Acts cfg w i d₀ d₀ (d₀.fanout cfg w session call args).1 ∧
      ∀ ctx wids, (d₀.fanout cfg w session call args).2 = some (some ctx, wids) →
        Binds cfg w i d₀ (d₀.fanout cfg w session call args).1 ctx wids := by
  unfold fanout
  split
  · exact ⟨acts_refuse .., fun _ _ h => nomatch h⟩
  · rename_i plan hplan
    extract_lets batch yolo deadlineS m
    have hmints : Mints cfg w i d₀ (fanBatch w session call args plan)
        (mintItems plan.tasks plan.ctx) yolo := .fan hi hplan
    have hacts : Acts cfg w i d₀ d₀ (m.driver.saveWorkerState w) := acts_minting hmints
    have hside : m.driver.side = d₀.side := side_mintItems ..
    split
    rename_i d₁ ok hpersist
    have hok : ok = w.written m.driver.out.length := by
      rw [← persistWorkerTxn_snd, hpersist]
    split
    · rename_i hfalse
      refine ⟨?_, fun _ _ h => nomatch h⟩
      have hd₁ : d₁ = (m.driver.persistWorkerTxn w).1 := by rw [hpersist]
      have hlost : w.written m.driver.out.length = false := by
        rw [← hok]
        simpa using hfalse
      obtain ⟨locals, rows, hm⟩ : ∃ locals rows, Minted { d₀ with
          nextBatchId := d₀.nextBatchId + 1
          batches := d₀.batches.insert d₀.nextBatchId (fanBatch w session call args plan) }
          batch session m locals rows := minted_fanMint hd session call args plan
      have hback := Minted.takenBack hd rfl hm hlost fun k => hm.mem_groups
      have hsids : SidsUsed d₀ m.driver := sidsUsed_mintItems ..
      rw [hd₁]
      refine (Relation.ReflTransGen.single (.lost hback ?_ ?_)).trans (Acts.emit rfl)
      · rw [persistWorkerTxn_fst_of_not hlost]
        exact hsids
      · rw [persistWorkerTxn_fst_of_not hlost]
        exact hside
    · have hd₁ : d₁ = m.driver.saveWorkerState w := by rw [saveWorkerState, hpersist]
      extract_lets d₂ d₃ d₄
      have h₂ : Acts cfg w i d₀ d₁ d₂ :=
        (acts_cards _ m.locals).trans (Acts.of_idle (idle_fanRemoteCards m.groups _))
      have h₃ : Idle d₂ d₃ := by
        unfold d₃
        split
        · exact .refl d₂
        · exact .emit rfl
      have h₄ : Acts cfg w i d₀ d₃ d₄ := acts_admitQueued d₃
      refine ⟨?_, fun ctx wids h => ?_⟩
      · rw [hd₁] at h₂
        refine ((hacts.trans h₂).trans (Acts.of_idle h₃)).trans (h₄.trans ?_)
        exact Acts.of_idle (idle_fanPosts ..)
      · obtain ⟨hctx, rfl⟩ := Prod.mk.inj (Option.some.inj h)
        have hcore₁ : d₁.core = { m.driver.core with txnSeq := m.driver.nextTxn.seq } := by
          rw [hd₁, core_saveWorkerState]
        have hcore₂ : d₂.core = d₁.core := (core_fanRemoteCards ..).trans (core_cards ..)
        have hside₂ : d₂.side = d₀.side := by
          refine ((idle_fanRemoteCards m.groups _).side.trans (side_cards ..)).trans ?_
          rw [hd₁, side_saveWorkerState, hside]
        have hworkers : d₃.workers = m.driver.workers := by
          refine (congrArg Core.workers h₃.core).trans ?_
          exact (congrArg Core.workers hcore₂).trans (congrArg Core.workers hcore₁)
        have hremotes : d₃.remotes = m.driver.remotes := by
          refine (congrArg Core.remotes h₃.core).trans ?_
          exact (congrArg Core.remotes hcore₂).trans (congrArg Core.remotes hcore₁)
        have hside₃ : d₃.side = d₀.side := h₃.side.trans hside₂
        have honly : AdmitsOnly d₃ d₄ := admitsOnly_admitLoop _ d₃
        have hpost : Idle d₄ (d₄.fanPosts w batch deadlineS m.groups) := idle_fanPosts ..
        have hm : MintedItems cfg w { d₀ with
            nextBatchId := d₀.nextBatchId + 1
            batches := d₀.batches.insert d₀.nextBatchId (fanBatch w session call args plan) }
            batch session yolo (ctx.plans.map CellPlan.item) m := by
          have hitems : mintItems plan.tasks plan.ctx = ctx.plans.map CellPlan.item := by
            rw [hctx]
            rfl
          rw [← hitems]
          exact mintedItems ..
        have hzip {x : CellPlan × ℕ} (hx : x ∈ ctx.plans.zip m.wids) :
            (CellPlan.item x.1, x.2) ∈ (ctx.plans.map CellPlan.item).zip m.wids := by
          rw [List.zip_map_left]
          exact List.mem_map_of_mem hx
        rw [if_pos (by rw [hctx]; rfl)]
        refine ⟨⟨session, call, args, plan, hi, hplan, hctx, fun x hx hnode => ?_⟩, ?_, ?_, ?_, ?_,
          fun x hx node hnode => ?_⟩
        · obtain ⟨sid, hget⟩ := hm.worker _ (hzip hx) hnode
          have hworkers₄ : (d₄.fanPosts w batch deadlineS m.groups).workers = d₄.workers :=
            congrArg Core.workers hpost.core
          rw [← hworkers] at hget
          refine ⟨sid, ?_⟩
          rw [hworkers₄]
          rcases get?_admitLoop cfg w d₃.workers.entries.length d₃ hget with h | h
          · exact Or.inl h
          · refine Or.inr ⟨?_, h.2⟩
            have hadm := h.1
            simp only [Worker.admissible, mintedWorker, Bool.and_eq_true, Bool.not_eq_true'] at hadm
            exact hadm.2
        · exact (congrArg Side.mandalas hpost.side).trans
            (honly.mandalas.trans (congrArg Side.mandalas hside₃))
        · exact (congrArg Side.trees hpost.side).trans
            (honly.trees.trans (congrArg Side.trees hside₃))
        · exact (congrArg Side.cellByWorker hpost.side).trans
            (honly.cellByWorker.trans (congrArg Side.cellByWorker hside₃))
        · rw [hm.ids, List.length_map]
        · refine ⟨mintedRow w batch session node x.1.prompt x.1.model, ?_, rfl, rfl, rfl⟩
          rw [show (d₄.fanPosts w batch deadlineS m.groups).remotes = d₃.remotes from
            (congrArg Core.remotes hpost.core).trans honly.remotes, hremotes]
          exact hm.row _ (hzip hx) node hnode

theorem acts_taskFanout (hd : d₀.Fresh) {session : SessionId} {call : ActionId} {args : Json}
    (hi : i = .request session call "task_fanout" args) :
    Acts cfg w i d₀ d₀ (d₀.taskFanout cfg w session call args) := by
  obtain ⟨hacts, hbinds⟩ := acts_fanout cfg w hd hi
  unfold taskFanout
  split
  · rename_i d₁ heq
    rw [heq] at hacts
    exact hacts
  · rename_i d₁ ctx wids heq
    rw [heq] at hacts hbinds
    have hbind : Acts cfg w i d₀ d₁ (ctx.elim d₁ fun c => d₁.bindCells w c wids) := by
      cases ctx with
      | none => exact .refl
      | some ctx => exact .single (.bound (hbinds ctx wids rfl))
    exact (((hacts.trans hbind).tail .save).tail .save).tail (.idle (idle_saveRemotes ..))

theorem acts_hostFanout (hd : d₀.Fresh) {sender : String} {originBatch : ℕ}
    {parent : Option SessionId} {tasks : List HostedTask} {deadlineS : Option ℕ}
    (hi : i = .mesh (.fanout sender originBatch parent tasks deadlineS)) : Acts cfg w i d₀ d₀
      (d₀.hostFanout cfg w sender originBatch parent tasks deadlineS).1 := by
  unfold hostFanout
  split
  · exact .emit rfl
  · rename_i parent
    split
    · exact .emit rfl
    · split
      · exact .emit rfl
      · extract_lets batch entry d₁ m
        have hmints :
            Mints cfg w i d₀ entry (tasks.map (HostedTask.item sender originBatch)) false :=
          .host hi
        have hacts : Acts cfg w i d₀ d₀ (m.driver.saveWorkerState w) := acts_minting hmints
        split
        rename_i d₂ ok hpersist
        have hok : ok = w.written m.driver.out.length := by
          rw [← persistWorkerTxn_snd, hpersist]
        split
        · rename_i hfalse
          have hd₂ : d₂ = (m.driver.persistWorkerTxn w).1 := by rw [hpersist]
          have hlost : w.written m.driver.out.length = false := by
            rw [← hok]
            simpa using hfalse
          obtain ⟨locals, rows, hm⟩ : ∃ locals rows, Minted d₁ batch parent m locals rows :=
            (Minted.start d₁).items (hd.withBatch entry) ..
          have hrows (k : ℕ) : k ∈ ([] : List ℕ) ↔ ∃ r, (k, r) ∈ rows := by
            have hgroups : m.groups = [] := by
              refine groups_hosted false _ (fun x hx => ?_) _
              obtain ⟨t, -, rfl⟩ := List.mem_map.mp hx
              rfl
            rw [← hm.mem_groups, hgroups]
            rfl
          have hback := Minted.takenBack hd rfl hm hlost hrows
          have hsids : SidsUsed d₀ m.driver := sidsUsed_mintItems ..
          have hside : m.driver.side = d₀.side := side_mintItems ..
          rw [hd₂]
          refine (Relation.ReflTransGen.single (.lost hback ?_ ?_)).trans (Acts.emit rfl)
          · rw [persistWorkerTxn_fst_of_not hlost]
            exact hsids
          · rw [persistWorkerTxn_fst_of_not hlost]
            exact hside
        · have hd₂ : d₂ = m.driver.saveWorkerState w := by rw [saveWorkerState, hpersist]
          extract_lets d₃ d₄ admitted
          have h₃ : Acts cfg w i d₀ d₂ d₃ := acts_cards (fun _ => "queued (mesh)") m.locals
          have h₄ : Acts cfg w i d₀ d₃ d₄ := acts_admitQueued d₃
          rw [hd₂] at h₃
          exact ((hacts.trans h₃).trans h₄).trans (Acts.emit rfl)

/-! ### The arms of the loop -/

theorem acts_handleMeshReq (hd : d₀.Fresh) {req : MeshReq} (hi : i = .mesh req) :
    Acts cfg w i d₀ d₀ (d₀.handleMeshReq cfg w req).1 := by
  cases req with
  | fanout sender originBatch parent tasks deadlineS => exact acts_hostFanout hd hi
  | query sender batch =>
    cases batch with
    | none => exact .emit rfl
    | some batch =>
      unfold handleMeshReq
      dsimp only
      split <;> exact .emit rfl
  | cancel sender batch workers =>
    cases batch with
    | none => exact .emit rfl
    | some batch =>
      unfold handleMeshReq
      dsimp only
      split
      · exact .emit rfl
      · refine Relation.ReflTransGen.trans ?_ (Acts.emit rfl)
        split
        · exact .refl
        · exact (acts_cancelWorkers _).trans (acts_admitQueued _)
  | report sender originBatch rows =>
    cases originBatch with
    | none => exact .emit rfl
    | some batch =>
      unfold handleMeshReq
      dsimp only
      split
      · exact .emit rfl
      · refine (acts_applyWireRows (hi ▸ rfl) batch sender rows).trans ?_
        exact Acts.of_idle ⟨rfl, rfl, [_], rfl, by simp [Effect.idle]⟩

/-- The gates are looked after, and if one opened something follows. -/
theorem acts_barriersThen (f : Driver → Driver) (hf : ∀ d, Acts cfg w i d₀ d (f d)) (d : Driver) :
    Acts cfg w i d₀ d
      (if (d.checkBarriers w).2 then f (d.checkBarriers w).1 else (d.checkBarriers w).1) := by
  split
  · exact (acts_checkBarriers d).trans (hf _)
  · exact acts_checkBarriers d

theorem acts_meshRequest (hd : d₀.Fresh) {req : MeshReq} (hi : i = .mesh req) :
    Acts cfg w i d₀ d₀ (d₀.meshRequest cfg w req) := by
  have hreq : Acts cfg w i d₀ d₀ (d₀.handleMeshReq cfg w req).1 := acts_handleMeshReq hd hi
  unfold meshRequest
  split
  rename_i d₁ saved heq
  rw [heq] at hreq
  split
  · exact hreq
  · have hopen := @acts_barriersThen cfg w i d₀ (fun d => d.admitQueued cfg w)
      acts_admitQueued (d₁.syncRemoteCells w)
    have hsaves := ((hreq.trans (acts_syncRemoteCells w d₁)).trans hopen).tail .save |>.tail .save
    exact (hsaves.tail (.idle (idle_saveRemotes ..))).trans (acts_checkBatches _)

theorem acts_remotesMoved (d : Driver) : Acts cfg w i d₀ d (d.remotesMoved cfg w) := by
  have hopen := @acts_barriersThen cfg w i d₀
    (fun d => (d.admitQueued cfg w).saveWorkerState w) (fun d => (acts_admitQueued d).tail .save)
    (d.syncRemoteCells w)
  exact (((acts_syncRemoteCells w d).trans hopen).trans (acts_checkBatches _)).tail
    (.idle (idle_saveRemotes ..))

theorem acts_turnComplete {session : SessionId} (hi : i = .turnComplete session) :
    Acts cfg w i d₀ d (d.turnComplete cfg w session) := by
  unfold turnComplete
  split
  · exact .refl
  · rename_i d₁ heq
    have hadvance : Acts cfg w i d₀ d d₁ := .single (.advanced hi heq)
    have hopen := (hadvance.trans (acts_syncCells cfg w d₁)).trans (acts_checkBarriers _)
    exact ((hopen.trans (acts_admitQueued _)).trans (acts_checkBatches _)).tail .save

theorem acts_userPrompt {session : SessionId} (hi : i = .userPrompt session) :
    Acts cfg w i d₀ d (d.userPrompt cfg w session) := by
  unfold userPrompt
  split
  · exact .refl
  · rename_i d₁ heq
    exact (Relation.ReflTransGen.single (.sent hi heq)).tail .save

theorem acts_workerCancel (session : SessionId) (call : ActionId) (args : Json) :
    Acts cfg w i d₀ d (d.workerCancel cfg w session call args) := by
  unfold workerCancel
  split
  · exact acts_refuse ..
  · rename_i ids remoteIds _
    split
    · exact acts_refuse ..
    · have hcancel : Acts cfg w i d₀ d ((d.cancelWorkers w ids).relayRemoteCancels w remoteIds) :=
        (acts_cancelWorkers ids).trans (acts_relayRemoteCancels remoteIds)
      have hsaid := hcancel.trans
        (Acts.emit (e := .event (.toolResult session call (.cancelled ids remoteIds))) rfl)
      have hopen := (hsaid.trans (acts_syncCells cfg w _)).trans (acts_checkBarriers _)
      exact (((hopen.trans (acts_admitQueued _)).trans (acts_checkBatches _)).tail .save).tail
        (.idle (idle_saveRemotes ..))

theorem acts_goalEnded (state : GoalState) (session : SessionId) :
    Acts cfg w i d₀ d (d.goalEnded cfg w state session) := by
  unfold goalEnded
  refine Relation.ReflTransGen.trans ?_ (acts_tryCloseForConductor session)
  split
  · unfold cascade
    extract_lets ids remoteIds
    split
    · exact .refl
    · have hcancel : Acts cfg w i d₀ d ((d.cancelWorkers w ids).relayRemoteCancels w remoteIds) :=
        (acts_cancelWorkers ids).trans (acts_relayRemoteCancels remoteIds)
      have hbatches := (hcancel.trans (acts_admitQueued _)).trans (acts_checkBatches _)
      exact ((hbatches.trans (acts_syncCells cfg w _)).tail .save).tail
        (.idle (idle_saveRemotes ..))
  · exact .refl

theorem acts_tick (hi : i = .tick) (d : Driver) : Acts cfg w i d₀ d (d.tick cfg w) := by
  refine (acts_swept hi d).trans ?_
  unfold tick Sweep.follow
  generalize d.swept cfg w = s
  extract_lets d₁ d₂ d₃ d₄ d₅ d₆
  have h₂ : Acts cfg w i d₀ d₁ d₂ := by
    unfold d₂
    split
    · exact acts_barriersThen (fun d => d.admitQueued cfg w) acts_admitQueued d₁
    · exact .refl
  have h₃ : Acts cfg w i d₀ d₂ d₃ := by
    unfold d₃
    split
    · exact acts_admitQueued d₂
    · exact .refl
  have h₄ : Acts cfg w i d₀ d₃ d₄ := acts_checkBatches d₃
  have h₅ : Acts cfg w i d₀ d₄ d₅ := by
    unfold d₅
    split
    · exact acts_syncCells cfg w d₄
    · exact .refl
  have h₆ : Acts cfg w i d₀ d₅ d₆ := by
    unfold d₆
    split
    · exact .single .save
    · exact .refl
  exact ((((h₂.trans h₃).trans h₄).trans h₅).trans h₆).trans (Acts.of_idle (idle_runDuePolls w d₆))

theorem acts_request (hd : d₀.Fresh) {session : SessionId} {call : ActionId} {tool : String}
    {args : Json} (hi : i = .request session call tool args) :
    Acts cfg w i d₀ d₀ (d₀.handle cfg w (.request session call tool args)) := by
  unfold handle
  dsimp only
  split
  · rename_i htool
    exact acts_taskFanout hd (htool ▸ hi)
  · split
    · exact acts_mandalaClose ..
    · split
      · exact acts_mandalaCreate ..
      · split
        · exact acts_recordReport ..
        · split
          · exact acts_workerCancel ..
          · exact .refl

/-- **Every handler is a number of acts.** -/
theorem acts_handle (hd : d₀.Fresh) (i : Input) : Acts cfg w i d₀ d₀ (d₀.handle cfg w i) := by
  cases i with
  | request session call tool args => exact acts_request hd rfl
  | mesh req => exact acts_meshRequest hd rfl
  | assigned batch node wids result =>
    exact (acts_handleAssignOutcome rfl).trans (acts_remotesMoved _)
  | polled batch node result =>
    have hpoll : Acts cfg w (.polled batch node result) d₀ d₀ _ :=
      acts_handlePollOutcome rfl
    unfold handle
    dsimp only
    split
    · exact hpoll.trans (acts_remotesMoved _)
    · exact hpoll
  | turnComplete session =>
    unfold handle
    dsimp only
    split
    · exact acts_turnComplete rfl
    · exact .refl
  | approvalPending session tool =>
    unfold handle
    dsimp only
    split
    · cases hblock : d₀.blockOnApproval session tool with
      | none => exact .refl
      | some d₁ => exact (Relation.ReflTransGen.single (.suspended hblock)).tail .save
    · exact .refl
  | userApproval session =>
    unfold handle
    dsimp only
    split
    · cases hresume : d₀.resumeFromApproval w session with
      | none => exact .refl
      | some d₁ => exact (Relation.ReflTransGen.single (.resumed rfl hresume)).tail .save
    · exact .refl
  | userPrompt session =>
    unfold handle
    dsimp only
    split
    · exact acts_userPrompt rfl
    · exact .refl
  | turnError session =>
    unfold handle
    dsimp only
    split
    · exact .single .errored
    · exact .refl
  | goalEnded state session =>
    unfold handle
    dsimp only
    split
    · exact acts_goalEnded state session
    · exact .refl
  | tick => exact acts_tick rfl d₀
  | goalArmed session => exact .single (.armed rfl)
  | goalDisarmed session => exact .single .disarmed

theorem Fresh.blankOut (h : d.Fresh) : Fresh { d with out := [] } := ⟨h.worker, h.remote, h.batch⟩

/-- What every act keeps, a turn of the loop keeps. -/
theorem acts_induction (cfg : Config) (w : World) {P : Driver → Prop} (hd : d.Fresh)
    (h : P { d with out := [] }) (i : Input)
    (hact : ∀ d₁ d₂, Acts cfg w i { d with out := [] } { d with out := [] } d₁ →
      Act cfg w i { d with out := [] } d₁ d₂ → P d₁ → P d₂) : P (d.react cfg w i) := by
  have hacts : Acts cfg w i { d with out := [] } { d with out := [] } (d.react cfg w i) :=
    acts_handle hd.blankOut i
  generalize d.react cfg w i = d' at hacts
  induction hacts with
  | refl => exact h
  | tail hpast hlast ih => exact hact _ _ hpast hlast ih

/-! ### What an act does to the ledger -/

/-- The books without the workers. -/
structure Ledger where
  batches : Batches
  remotes : Remotes
  nextWorkerId : ℕ
  nextBatchId : ℕ
  nextWorkerSid : SessionId

/-- The ledger of the books. -/
def Core.ledger (c : Core) : Ledger :=
  ⟨c.batches, c.remotes, c.nextWorkerId, c.nextBatchId, c.nextWorkerSid⟩

/-- What an act does to the ledger. -/
inductive Posts (cfg : Config) (w : World) (i : Input) (d₀ d d' : Driver) : Prop
  | same (h : d'.core.ledger = d.core.ledger)
  | row {id : ℕ} {r r' : RemoteWorker} (hget : d.remotes.get? id = some r)
      (h : d'.core.ledger = { d.core.ledger with remotes := d.remotes.modify id fun _ => r' })
  | report {batch : ℕ} (h : d'.core.ledger = { d.core.ledger with
      batches := d.batches.modify batch fun b => { b with reported := true, inlineAck := none } })
  | batchOpened {b : BatchMeta} {items : List MintItem} {yolo : Bool}
      (hm : Mints cfg w i d₀ b items yolo) (hd : d = d₀) (h : d'.core.ledger = { d.core.ledger with
        nextBatchId := d.nextBatchId + 1, batches := d.batches.insert d.nextBatchId b })
  | workerMinted (h : d'.core.ledger = { d.core.ledger with
      nextWorkerId := d.nextWorkerId + 1, nextWorkerSid := d.nextWorkerSid + 1 })
  | rowMinted {r : RemoteWorker} (h : d'.core.ledger = { d.core.ledger with
      nextWorkerId := d.nextWorkerId + 1, remotes := d.remotes.insert d.nextWorkerId r })
  | lost (hid : d.nextWorkerId ≤ d'.nextWorkerId) (hbatch : d.nextBatchId ≤ d'.nextBatchId)
      (hsid : SidsUsed d d') (h : d'.core.ledger = { d.core.ledger with
        nextWorkerId := d'.nextWorkerId, nextBatchId := d'.nextBatchId
        nextWorkerSid := d'.nextWorkerSid })

theorem Posts.of_core (h : d'.core = d.core) : Posts cfg w i d₀ d d' :=
  .same (congrArg Core.ledger h)

theorem ledger_endTurn (d : Driver) (w : World) (id : ℕ) (wk : Worker) :
    (d.endTurn w id wk).core.ledger = d.core.ledger := by
  unfold endTurn
  split
  · rw [core_put, core_finalizeTerminal]
    rfl
  · rfl

theorem ledger_advance {session : SessionId} (h : d.advance cfg w session = some d') :
    d'.core.ledger = d.core.ledger := by
  unfold advance at h
  split at h
  · cases h
  · extract_lets ctx v d₁ d₂ d₃ at h
    obtain rfl := Option.some.inj h
    have hlap : d₂.core = d₁.core := by
      unfold d₂
      cases ctx with
      | none => rfl
      | some ctx => exact (aside_recordLap ..).core
    have hend : d₃.core.ledger = d.core.ledger := by
      refine (ledger_endTurn ..).trans ?_
      rw [core_emitState, hlap]
      rfl
    cases v.next <;> exact hend

theorem ledger_afterWake (d : Driver) (w : World) (session : SessionId) :
    (d.afterWake w session).core.ledger = d.core.ledger := by
  unfold afterWake
  split
  · rfl
  · extract_lets d₁
    have h₁ : d₁.core = d.core := by
      unfold d₁
      split
      · split
        · exact core_setCell ..
        · rfl
      · rfl
    split
    · rw [h₁]
    · split
      · rw [core_put, core_emit, h₁]
        rfl
      · rw [h₁]

theorem ledger_cancelOne (w : World) (d : Driver) (id : ℕ) :
    (cancelOne w d id).core.ledger = d.core.ledger := by
  unfold cancelOne
  split
  · rfl
  · split
    · rfl
    · extract_lets wk' d₁ d₂
      have h₂ : d₂.core = d₁.core := by
        unfold d₂
        split <;> rfl
      rw [core_finalizeTerminal, core_emitState, core_disarmWorker, h₂]
      rfl

theorem ledger_openGate (w : World) (x : Driver × Bool) (id : ℕ) :
    (openGate w x id).1.core.ledger = x.1.core.ledger := by
  unfold openGate
  extract_lets d
  split
  · extract_lets isSettled timedOut repo block task wk' d₁
    split
    · change d₁.core.ledger = _
      rw [show d₁.core = _ from core_setCell ..]
      rfl
    · rfl
  · rfl

theorem ledger_turnErrored (d : Driver) (session : SessionId) :
    (d.turnErrored session).core.ledger = d.core.ledger := by
  unfold turnErrored
  split <;> rfl

theorem posts_failRemoteRow (cause : String) (d : Driver) (id : ℕ) :
    Posts cfg w i d₀ d (failRemoteRow cfg cause d id) := by
  unfold failRemoteRow
  split
  · exact .same rfl
  · rename_i r hget
    split
    · exact .same rfl
    · exact .row hget rfl

theorem posts_acceptRow (node : String) (wids : List ℕ) (peerBatch : ℕ) (d : Driver)
    (ar : AcceptedRow) : Posts cfg w i d₀ d (acceptRow node wids peerBatch d ar) := by
  unfold acceptRow
  split
  · exact .same rfl
  · rename_i id r hx
    obtain ⟨id', -, hid⟩ := Option.bind_eq_some_iff.mp hx
    obtain ⟨r', hget, hx⟩ := Option.map_eq_some_iff.mp hid
    obtain ⟨rfl, rfl⟩ := Prod.mk.inj hx
    exact .row hget rfl

theorem posts_applyWireRow (batch : ℕ) (node : String) (x : Driver × Bool) (wire : WireRow) :
    Posts cfg w i d₀ x.1 (applyWireRow cfg batch node x wire).1 := by
  unfold applyWireRow
  split
  · exact .same rfl
  · rename_i id r hfind
    obtain ⟨hget, -⟩ := Table.find?_eq_some hfind
    extract_lets stateChanged summaryChanged r₁ mirrored d₁ r₂ d₂
    have h₁ : d₁.core = x.1.core := by
      unfold d₁
      split <;> rfl
    have h₂ : d₂.core.ledger = { x.1.core.ledger with
        remotes := x.1.remotes.modify id fun _ => r₂ } := by
      rw [core_putRemote, h₁, show d₁.remotes = x.1.remotes from congrArg Core.remotes h₁]
      rfl
    change Posts cfg w i d₀ x.1 (if stateChanged then d₂.emitRemoteState id r₂ "" else d₂)
    split <;> exact .row hget h₂

theorem posts_relayOne (x : Driver × CancelGroups) (id : ℕ) :
    Posts cfg w i d₀ x.1 (relayOne x id).1 := by
  unfold relayOne
  split
  · exact .same rfl
  · rename_i r hget
    split
    · exact .same rfl
    · exact .row hget rfl

theorem core_syncCell (cfg : Config) (w : World) (d : Driver) (x : ℕ × ℕ × Addr) :
    (syncCell cfg w d x).core = d.core := by
  unfold syncCell
  split
  · split
    · exact core_setCell ..
    · rfl
  · rfl

theorem core_syncRemoteCell (w : World) (d : Driver) (x : ℕ × ℕ × Addr) :
    (syncRemoteCell w d x).core = d.core := by
  unfold syncRemoteCell
  split
  · split
    · exact core_setCell ..
    · rfl
  · rfl

/-- **What an act does to the ledger.** -/
theorem Act.posts (h : Act cfg w i d₀ d d') : Posts cfg w i d₀ d d' := by
  cases h with
  | idle h => exact .same (by rw [h.core]; rfl)
  | card hget => exact .same rfl
  | save => exact .same (by rw [core_saveWorkerState]; rfl)
  | reported =>
    rename_i batch
    cases hget : d.batches.get? batch with
    | none => exact .of_core (by rw [reportBatch_of_none hget])
    | some b => exact .report (by rw [(reportBatch_spec hget).1]; rfl)
  | admission hnext hget => exact .same (by rw [(admitOne_spec ..).1]; rfl)
  | verdict hget hstep => exact .same rfl
  | advanced hi h => exact .same (ledger_advance h)
  | sent hi h =>
    refine .same ((ledger_afterWake ..).trans ?_)
    obtain ⟨x, -, rfl⟩ := Option.map_eq_some_iff.mp h
    rfl
  | suspended h =>
    obtain ⟨x, -, rfl⟩ := Option.map_eq_some_iff.mp h
    exact .same rfl
  | resumed hi h =>
    obtain ⟨x, -, rfl⟩ := Option.map_eq_some_iff.mp h
    exact .same rfl
  | errored => exact .same (ledger_turnErrored ..)
  | cancelled => exact .same (ledger_cancelOne ..)
  | gateOpened hget hheld hqueued => exact .same (ledger_openGate ..)
  | reviewed hi hdue =>
    obtain ⟨wk, hget, hdue⟩ := hdue
    obtain ⟨wk', effs, -, hcore, -⟩ := @reviewOne_spec cfg _ _ _ _ hget hdue
    exact .same (by rw [hcore]; rfl)
  | cellSynced hx => exact .of_core (core_syncCell ..)
  | remoteCellSynced hx => exact .of_core (core_syncRemoteCell ..)
  | rowFailed hi => exact posts_failRemoteRow ..
  | rowAccepted hi har => exact posts_acceptRow ..
  | rowReported hi => exact posts_applyWireRow ..
  | rowRelayed => exact posts_relayOne ..
  | cancelPosted => exact .same rfl
  | batchOpened h => exact .batchOpened h rfl rfl
  | workerMinted h hitem hnode hopen => exact .workerMinted rfl
  | rowMinted h hitem hnode hopen => exact .rowMinted rfl
  | lost h hsid hside => exact .lost h.nextId h.batchId hsid (by rw [h.core]; rfl)
  | bound h => exact .of_core (aside_bindCells ..).core
  | mandalaOpened h => exact .same rfl
  | mandalaClosed hget hclosable => exact .of_core (aside_closeMandala ..).core
  | armed hi => exact .same rfl
  | disarmed => exact .same rfl

end Driver

end ApexOS.Fabrica
