import ApexOS.Fabrica.Worker

/-!
# Planning the cells of a fan-out

The part of `agentd/crates/agentd/src/worker.rs` that validates a fan-out under a mandala and
composes its cells: `prepare_mandala_cells`, with the texts it injects into a cell's work order. It
only reads; a refusal is the text of the tool's result.

Three layouts: a ring of tasks under the parent, a bare gate (one task with a barrier), and the
one-call diamond, a gate from `join` with the ring under it.

## Main definitions

* `CellPlan`, `CellsCtx`: what is planned, in the order of minting
* `prepareMandalaCells`: the validation
-/

namespace ApexOS.Fabrica

open ApexOS.Agentd (SessionId)

/-! ### Texts -/

/-- `worktree_ritual`. -/
def worktreeRitual (repo branch : String) : String :=
  s!"\n\nCODE CELL — repo: {repo}\nYour branch: {branch}\nFIRST call git_worktree\x7b" ++
    s!"action:\"add\", path:\"{repo}\", branch:\"{branch}\"\x7d and work ONLY inside the worktree " ++
    "directory it returns. Commit your work on your branch there before reporting done — " ++
    "uncommitted work is invisible to the join."

/-- `gate_note`. -/
def gateNote (timeoutS : ℕ) : String :=
  "\n\nYou are this subtree's JOIN: a barrier holds you until your descendant cells settle " ++
    s!"(guard timeout {timeoutS}s). When your turn begins, their addresses, states and evidence " ++
    "paths will be appended to this work order — read the evidence files, integrate, and only " ++
    "then report done."

/-- `measure_ritual`. -/
def measureRitual (cmd : String) : String :=
  s!"\n\nMEASURE (your lap gate): at the END of every lap run `{cmd}` through your normal tools " ++
    "and report the resulting non-negative integer with worker_report\x7bstatus:\"continue\", " ++
    "measure: N\x7d — or status:\"done\" with the final measure on your last lap. The number " ++
    "must STRICTLY DECREASE every lap; two non-decreasing laps break your ring and escalate " ++
    "with the history attached. When it reaches 0, report done — looping at 0 counts as a stall."

/-- `voucher_block`. -/
def voucherBlock (mandala : ℕ) (addr : Addr) : String :=
  "\n\nVOUCHER — you may SUB-CONDUCT: grow your OWN subtree with task_fanout\x7bmandala: " ++
    s!"{mandala}, parent_cell: \"{addr.text}\" (or one of your descendants), tasks:[…], join?, " ++
    "measure?, voucher?\x7d. Your cell's budget vector is your slice — children contract from " ++
    "it and renewals spend YOUR steps, so fan late and fan narrow. When a batch of your " ++
    "children settles, its report is delivered into your session: read the evidence files, " ++
    "integrate, then continue your own task."

/-- `remote_cell_veto`. -/
def remoteCellVeto (isGate hasMeasure hasVoucher repoMandala : Bool) : Option String :=
  if repoMandala then
    some ("code mandalas keep every cell local — the repo lives on this node's disk and " ++
      "worktrees don't teleport; run code rings here, or open a repo-less mandala for remote work")
  else if isGate then
    some ("the join/gate stays on this node — barriers are conductor machinery (the bindu on " ++
      "the spine); give node to ring cells, never the gate")
  else if hasMeasure then
    some ("a measured (R) cell cannot go remote — the lap boundary lives where turns complete, " ++
      "and the wire never carries state; measure on this node or drop the measure")
  else if hasVoucher then
    some ("a vouchered cell cannot go remote — sub-conduction needs the tree, and the tree " ++
      "stays on this node")
  else none

/-! ### Plans -/

/-- `CellPlan`. -/
structure CellPlan where
  addr : Addr
  budget : BudgetVec
  barrierTimeoutS : Option ℕ
  measure : Option String
  voucher : Bool
  node : Option String
  prompt : String
  model : Option String
  deriving DecidableEq, Repr

/-- `CellsCtx`. -/
structure CellsCtx where
  mandala : ℕ
  parent : Addr
  plans : List CellPlan
  invariantHash : String
  armParentBranch : Bool
  armGateBranch : Bool
  deadlineCapS : ℕ
  deriving DecidableEq, Repr

/-- Refuse, unless the condition holds. -/
def require (cond : Bool) (msg : String) : Except String Unit := if cond then .ok () else .error msg

/-- The composition table at a mint: every planned child under what it hangs off, and the parent's
own new form under the grandparent's. -/
def checkComposition (m : MandalaRecord) (tree : Tree) (parentAddr : Addr) (parent : CellRecord)
    (tasks : List TaskSpecItem) (joined barrier : Bool) : Except String Unit := do
  let wide := 1 < tasks.length
  let parentPost := if wide && !joined then parent.form.armBranch else parent.form
  let gatePlanned := joined || barrier
  tasks.zipIdx.forM fun (t, i) => do
    let isTheGate := gatePlanned && !joined && i = 0
    let form := if isTheGate then CellForm.spine.armJoin else CellForm.spine
    let form := if t.measure.isSome then form.armRecur else form
    let above := if gatePlanned && !isTheGate then CellForm.gate else parentPost
    require (compose above form ≠ .forbidden)
      (s!"composition refused: {form.name} over {above.name} is R-over-R — nested recurrence is " ++
        "the classic livelock; drop the child's measure or conduct from an unmeasured cell")
  if joined then
    require (compose parentPost CellForm.gate ≠ .forbidden)
      "composition refused: a join cannot mint under this parent (R-over-R)"
  if wide then
    match parentAddr.parent.bind tree.get? with
    | none => pure ()
    | some gp =>
      require (compose gp.form parent.form.armBranch ≠ .conditional ||
          breadthProductOk tree parentAddr tasks.length m.budget.cells)
        (s!"B-over-B breadth product refused: a {tasks.length}-wide fan under " ++
          s!"{parentAddr.text} (itself under a branching {gp.form.name}) would promise more " ++
          s!"frontier than the {m.budget.cells}-cell budget — narrow the fan or integrate first")

/-- The work order of a cell. -/
def cellPrompt (m : MandalaRecord) (addr : Addr) (task extra : String) : String :=
  s!"{m.invariant.directiveBlock}\n\nCELL {addr.text} — your task within the mandala:\n{task}{extra}"

/-- The plan of a ring cell. -/
def ringPlan (m : MandalaRecord) (budget : BudgetVec) (wide : Bool) (addr : Addr)
    (t : TaskSpecItem) : CellPlan :=
  let worktree := if wide then m.repo.elim "" fun r => worktreeRitual r addr.branch else ""
  let extra := worktree ++ t.measure.elim "" measureRitual ++
    if t.voucher then voucherBlock m.id addr else ""
  ⟨addr, budget, none, t.measure, t.voucher, t.node, cellPrompt m addr t.prompt extra, t.model⟩

/-- The plan of a gate. -/
def gatePlan (m : MandalaRecord) (budget : BudgetVec) (addr : Addr) (task : String) (timeout : ℕ)
    (model measure : Option String) (voucher : Bool) : CellPlan :=
  let extra := gateNote timeout ++ measure.elim "" measureRitual ++
    if voucher then voucherBlock m.id addr else ""
  ⟨addr, budget, some timeout, measure, voucher, none, cellPrompt m addr task extra, model⟩

/-- A gate under the parent, with the ring under the gate. -/
def planGate (m : MandalaRecord) (tree : Tree) (parentAddr : Addr) (parent : CellRecord)
    (args : Json) (tasks ringTasks : List TaskSpecItem) (gateTask : String) (bare : Bool)
    (barrier : Option ℕ) : Except String CellsCtx := do
  let ring := parentAddr.depth
  let width := ringWidth m.lattice ring
  let ordinal := nextChildOrdinal tree parentAddr
  require (width ≠ 0 && ordinal < width)
    (s!"ring {ring} of the {m.lattice.debug} lattice is full (width {width}) — go deeper or " ++
      "pick another parent")
  let gateBudget := contractChild parent.budget
  require (admissible parent.budget gateBudget (width - ordinal))
    (s!"budget descent refused at cell {parentAddr.text}: parent depth {parent.budget.depth} " ++
      s!"steps {parent.budget.steps} — the vector must strictly descend and stay positive")
  let gateAddr := parentAddr.child ordinal
  let timeout :=
    max 60 (min (barrier.getD defaultBarrierTimeoutS) (max gateBudget.deadlineS 60))
  let ring2 := gateAddr.depth
  let width2 := ringWidth m.lattice ring2
  let ringBudget := contractChild gateBudget
  if !ringTasks.isEmpty then
    require (ringTasks.length ≤ width2)
      (s!"{ringTasks.length} ring tasks exceed ring {ring2}'s width {width2} in the " ++
        s!"{m.lattice.debug} lattice — narrow the fan or pick a wider lattice")
    require (admissible gateBudget ringBudget width2)
      ("budget descent refused under the gate: a join consumes a depth level, so cell " ++
        s!"{parentAddr.text} needs depth ≥ 3 (it has {parent.budget.depth})")
  let wide := 1 < ringTasks.length
  let first := if bare then tasks.head? else none
  let model := if bare then first.bind TaskSpecItem.model else knob 64 args "model"
  return {
    mandala := m.id
    parent := parentAddr
    plans := gatePlan m gateBudget gateAddr gateTask timeout model
        (first.bind TaskSpecItem.measure) (first.elim false TaskSpecItem.voucher) ::
      ringTasks.zipIdx.map fun (t, i) => ringPlan m ringBudget wide (gateAddr.child i) t
    invariantHash := m.invariant.hash
    armParentBranch := false
    armGateBranch := wide
    deadlineCapS := gateBudget.deadlineS }

/-- A ring under the parent. -/
def planRing (m : MandalaRecord) (tree : Tree) (parentAddr : Addr) (parent : CellRecord)
    (ringTasks : List TaskSpecItem) : Except String CellsCtx := do
  let ring := parentAddr.depth
  let width := ringWidth m.lattice ring
  let ordinal := nextChildOrdinal tree parentAddr
  let n := ringTasks.length
  require (width ≠ 0 && ordinal + n ≤ width)
    (s!"ring {ring} of the {m.lattice.debug} lattice fits {width - ordinal} more cell(s) " ++
      s!"({n} asked) — go deeper, narrow the fan, or pick another parent")
  let childBudget := contractChild parent.budget
  require (admissible parent.budget childBudget (width - ordinal))
    (s!"budget descent refused at cell {parentAddr.text}: parent depth {parent.budget.depth} " ++
      s!"steps {parent.budget.steps} — the vector must strictly descend and stay positive")
  let wide := 1 < n
  return {
    mandala := m.id
    parent := parentAddr
    plans := ringTasks.zipIdx.map fun (t, i) =>
      ringPlan m childBudget wide (parentAddr.child (ordinal + i)) t
    invariantHash := m.invariant.hash
    armParentBranch := wide
    armGateBranch := false
    deadlineCapS := childBudget.deadlineS }

/-- The cell a fan-out grows under: what `parent_cell` names, or the caller's own cell, or the
root. -/
def parentCell (args : Json) (callerCell : Option Addr) : Except String Addr :=
  match strField args "parent_cell" with
  | none => .ok (callerCell.getD Addr.root)
  | some s =>
    match Addr.parse s with
    | some a => .ok a
    | none => .error s!"'{s}' is not a cell address (like 0 or 0.2.1)"

/-- `prepare_mandala_cells`. -/
def prepareMandalaCells (mandalas : Table ℕ MandalaRecord) (trees : Table ℕ Tree)
    (session : SessionId) (args : Json) (tasks : List TaskSpecItem) (inline : Bool)
    (callerCell : Option Addr) : Except String (Option CellsCtx) := do
  let join := ((strField args "join").map trim).filter fun s => !s.isEmpty
  let barrier := natField args "barrier_timeout_s"
  match natField args "mandala" with
  | none =>
    require (join.isNone && barrier.isNone)
      "join/barrier_timeout_s need a mandala — a plain batch already joins at TaskBatchDone"
    require (!tasks.any fun t => t.measure.isSome || t.voucher)
      "measure/voucher are mandala-cell properties — open a mandala to use them"
    return none
  | some mid =>
    match mandalas.get? mid with
    | none => .error s!"no mandala {mid} — mandala_create first, or mandala_status to list"
    | some m =>
      require (callerCell.isSome || m.conductor = session)
        (s!"mandala {mid} belongs to session {m.conductor} — only its conductor (or a vouchered " ++
          "cell inside it) grows it")
      require (m.state ≠ "closed") s!"mandala {mid} is closed — open a new one to grow"
      require (!(inline && (join.isSome || barrier.isSome)))
        ("a join/barrier batch is async by nature — a gate can outlive any short inline window")
      require (!(barrier.isSome && join.isNone && tasks.length ≠ 1))
        (s!"barrier_timeout_s with {tasks.length} tasks is ambiguous — a bare gate is exactly " ++
          "one task (the join), or pass join:\"…\" and let tasks be the ring")
      let tree := (trees.get? mid).getD Table.empty
      let parentAddr ← parentCell args callerCell
      require (callerCell.elim true fun own => voucherScopeOk own parentAddr)
        (s!"your voucher covers your own subtree ({(callerCell.getD Addr.root).text}) — cell " ++
          s!"{parentAddr.text} is outside it")
      match tree.get? parentAddr with
      | none => .error (s!"mandala {mid} has no cell {parentAddr.text} — mandala_status shows " ++
          "the tree")
      | some parent =>
        checkComposition m tree parentAddr parent tasks join.isSome barrier.isSome
        let bare := join.isNone && barrier.isSome
        let gateTask := join.or (if bare then tasks.head?.map TaskSpecItem.prompt else none)
        let ringTasks := if bare then [] else tasks
        (if bare then tasks.take 1 else []).forM fun t =>
          match t.node.bind fun _ =>
            remoteCellVeto true t.measure.isSome t.voucher m.repo.isSome with
          | some msg => .error msg
          | none => .ok ()
        ringTasks.forM fun t =>
          match t.node.bind fun _ =>
            remoteCellVeto false t.measure.isSome t.voucher m.repo.isSome with
          | some msg => .error msg
          | none => .ok ()
        let needed := ringTasks.length + if gateTask.isSome then 1 else 0
        require (openCells tree + needed ≤ m.budget.cells)
          (s!"geometry budget exhausted: {openCells tree} open cells + {needed} new > " ++
            s!"{m.budget.cells} — integrate or cancel before growing")
        match gateTask with
        | some task =>
          some <$> planGate m tree parentAddr parent args tasks ringTasks task bare barrier
        | none => some <$> planRing m tree parentAddr parent ringTasks

end ApexOS.Fabrica
