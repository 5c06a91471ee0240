import ApexOS.Fabrica.Growth

/-!
# The mirror rows of a conductor

A task on a peer has a row here. Three channels write it: the answer to its assignment, the answers
to polls, and the peer's own reports, each in its own time; and a cancel marks it. Where a row has
ended its evidence is mirrored, once, and its cell is closed.

A wire row is applied as it comes, also to a row that has ended, and an accepted assignment makes a
row `queued`, whatever has become of it. So an answer that was under way when a later one came, or a
cancel that was asked for while the row was being assigned, undoes what was settled. `orderly` is
what the answers handled have to be for that not to happen.

## Main definitions

* `Driver.orderly`: an answer undoes nothing
* `Driver.Agrees`: a row, its mirror and its cell say the same
* `Node.Converges`: what holds between two points of a run

## Main results

* `Driver.Law.react`: what a turn of the loop preserves of the rows
* `Node.converges_of_orderly`: rows converge, over every run whose answers are orderly
-/

namespace ApexOS.Fabrica

open ApexOS.Agentd (SessionId ActionId WorkerState GoalState)

/-! ### Rows and answers -/

namespace RemoteWorker

/-- The row as a wire row leaves it, its evidence aside. -/
def told (r : RemoteWorker) (wire : WireRow) : RemoteWorker :=
  { r with stateRaw := wire.state, summary := wire.summary.or r.summary }

/-- The wire rows say nothing new of the row once it has ended. -/
def steady (r : RemoteWorker) : List WireRow → Bool
  | [] => true
  | wire :: rows =>
    (!r.isTerminal || (wire.state = r.stateRaw && (wire.summary.or r.summary) = r.summary)) &&
      (r.told wire).steady rows

/-- A cancel was asked for, and the peer has not accepted the row. -/
def awaitsCancel (r : RemoteWorker) : Bool :=
  r.stateRaw = stateCancelRequested && r.remoteWorker.isNone

/-- The peer has not accepted the row, and is not to: it was cancelled, or it has ended. -/
def shelved (r : RemoteWorker) : Bool := (r.isTerminal || r.awaitsCancel) && r.remoteWorker.isNone

end RemoteWorker

/-- The rows mirrored for an id. -/
def mirrorsOf (id : ℕ) (effs : List Effect) : List RemoteWorker :=
  effs.filterMap fun
    | .mirror id' r _ => if id' = id then some r else none
    | _ => none

namespace Driver

/-- The row that a wire row is about. -/
def hit (d : Driver) (batch : ℕ) (node : String) (worker : ℕ) : Option (ℕ × RemoteWorker) :=
  d.remotes.find? fun _ r => r.batch = batch && r.node = node && r.remoteWorker = some worker

/-- The wire rows say nothing new of rows that have ended. -/
def steady (d : Driver) (batch : ℕ) (node : String) (rows : List WireRow) : Bool :=
  rows.all fun wire => (d.hit batch node wire.worker).all fun x =>
    x.2.steady (rows.filter fun wire' => wire'.worker = wire.worker)

/-- An answer undoes nothing: an accepted row has not ended, and no cancel was asked for before it
was accepted; and what a peer says of a row that has ended is what the row says. -/
def orderly (d : Driver) : Input → Bool
  | .assigned _ _ wids (.ok (_, rows)) => rows.all fun ar =>
    ((wids[ar.index]?).bind fun id => d.remotes.get? id).all fun r =>
      !r.isTerminal && !r.awaitsCancel
  | .polled batch node (.ok rows) => (d.polls.get? (batch, node)).isNone || d.steady batch node rows
  | .mesh (.report sender (some batch) rows) => d.steady batch sender rows
  | _ => true

/-- The input asks for a cancel of a row: by its id, by its batch, or with its conductor. -/
def asksCancel (d : Driver) (id : ℕ) : Input → Bool
  | .request _ _ tool args =>
    tool = "worker_cancel" && (d.cancelTargets args).any fun x => id ∈ x.2
  | .goalEnded .cancelled parent =>
    (d.remotes.get? id).any fun r => r.parent = parent && !r.isTerminal
  | _ => false

/-- What is mirrored for a row: once it has ended, one document of the state and the summary it has;
before, nothing. -/
structure Mirrored (cfg : Config) (mirrors : List RemoteWorker) (id : ℕ) (r : RemoteWorker) :
    Prop where
  ended : r.isTerminal = true → r.evidence = some (evidencePath cfg.agentsDir id) ∧
    ∃ r₀, mirrors = [r₀] ∧ r₀.stateRaw = r.stateRaw ∧ r₀.summary = r.summary
  atWork : r.isTerminal = false → r.evidence = none ∧ mirrors = []

/-- A cell of this state and evidence shows the row: it is closed with the row, as the row has
ended. -/
structure Shows (face : String × Option String) (r : RemoteWorker) : Prop where
  evidence : face.2 = r.evidence
  opened : isOpenState face.1 = !r.isTerminal
  state : r.isTerminal = true → face.1 = r.stateRaw

/-- A row, its mirror and its cell say the same. -/
structure Agrees (cfg : Config) (effs : List Effect) (d : Driver) (id : ℕ) (r : RemoteWorker) :
    Prop where
  mirrored : Mirrored cfg (mirrorsOf id effs) id r
  cell : ∀ mid a, d.cellByWorker.get? id = some (mid, a) →
    ∃ c, d.cell? mid a = some c ∧ Shows (c.state, c.evidence) r

/-! ### Slates -/

/-- What the account is of: the rows, what was mirrored, and the faces of cells. -/
structure Slate where
  remotes : Remotes
  mirrored : ℕ → List RemoteWorker
  bound : Table ℕ (ℕ × Addr)
  face : ℕ → Addr → Option (String × Option String)

/-- What of a cell is of account. -/
def faceOf (c : CellRecord) : String × Option String := (c.state, c.evidence)

/-- The slate of a driver. -/
def slate (d : Driver) : Slate :=
  ⟨d.remotes, fun id => mirrorsOf id d.out, d.cellByWorker, fun mid a => (d.cell? mid a).map faceOf⟩

variable {cfg : Config} {w : World} {i : Input} {d₀ d d' d'' : Driver} {id mid : ℕ} {a : Addr}
  {wk : Worker} {r r' : RemoteWorker} {effs : List Effect}

theorem mirrorsOf_append (effs effs' : List Effect) :
    mirrorsOf id (effs ++ effs') = mirrorsOf id effs ++ mirrorsOf id effs' :=
  List.filterMap_append

theorem mirrorsOf_of_idle (h : ∀ e ∈ effs, e.idle = true) : mirrorsOf id effs = [] := by
  refine List.filterMap_eq_nil_iff.mpr fun e he => ?_
  have hidle := h e he
  cases e <;> simp_all [Effect.idle]

theorem slate_emit {e : Effect} (he : ∀ id, mirrorsOf id [e] = []) :
    (d.emit e).slate = d.slate := by
  have h : (fun id => mirrorsOf id (d.out ++ [e])) = fun id => mirrorsOf id d.out :=
    funext fun id => by rw [mirrorsOf_append, he, List.append_nil]
  exact congrArg (Slate.mk d.remotes · d.cellByWorker fun mid a => (d.cell? mid a).map faceOf) h

@[simp] theorem slate_send (e : Event) : (d.send e).slate = d.slate := slate_emit fun _ => rfl

@[simp] theorem slate_put : (d.put id wk).slate = d.slate := rfl

@[simp] theorem slate_emitState (detail : String) : (d.emitState id wk detail).slate = d.slate :=
  slate_emit fun _ => rfl

@[simp] theorem slate_emitRemoteState (detail : String) :
    (d.emitRemoteState id r detail).slate = d.slate := slate_emit fun _ => rfl

@[simp] theorem slate_armWorker : (d.armWorker wk).slate = d.slate := rfl

@[simp] theorem slate_disarmWorker (s : SessionId) : (d.disarmWorker s).slate = d.slate := rfl

@[simp] theorem slate_finalizeTerminal : (d.finalizeTerminal id wk).slate = d.slate := by
  unfold finalizeTerminal
  cases wk.episode with
  | none => exact slate_emit fun _ => rfl
  | some ep => exact (slate_emit fun _ => rfl).trans (slate_emit fun _ => rfl)

theorem slate_setCell {f : CellRecord → CellRecord} (hf : ∀ c, faceOf (f c) = faceOf c) :
    (d.setCell w mid a f).slate = d.slate := by
  have hremotes : (d.setCell w mid a f).remotes = d.remotes :=
    congrArg Core.remotes (core_setCell ..)
  have hmirrored : (fun id => mirrorsOf id (d.setCell w mid a f).out) =
      fun id => mirrorsOf id d.out := by
    funext id
    rw [setCell]
    split
    · rfl
    · exact (mirrorsOf_append ..).trans (List.append_nil _)
  have hface : (fun mid' a' => ((d.setCell w mid a f).cell? mid' a').map faceOf) =
      fun mid' a' => (d.cell? mid' a').map faceOf := by
    funext mid' a'
    rw [cell?_setCell]
    split
    · rw [Option.map_map, show faceOf ∘ f = faceOf from funext hf]
    · rfl
  rw [slate, slate, hremotes, hmirrored, cellByWorker_setCell, hface]

theorem slate_of_side (hremotes : d'.remotes = d.remotes) (hside : d'.side = d.side)
    (hout : d'.out = d.out ++ effs) (h : ∀ id, mirrorsOf id effs = []) : d'.slate = d.slate := by
  have hmirrored : (fun id => mirrorsOf id d'.out) = fun id => mirrorsOf id d.out := by
    funext id
    rw [hout, mirrorsOf_append, h, List.append_nil]
  have hbound : d'.cellByWorker = d.cellByWorker := congrArg Side.cellByWorker hside
  have hface : (fun mid a => (d'.cell? mid a).map faceOf) =
      fun mid a => (d.cell? mid a).map faceOf := by
    funext mid a
    rw [cell?_congr (woods_of_side hside)]
  rw [slate, slate, hremotes, hmirrored, hbound, hface]

theorem slate_of_idle (h : Idle d d') : d'.slate = d.slate := by
  obtain ⟨effs, hout, hidle⟩ := h.out
  exact slate_of_side (congrArg Core.remotes h.core) h.side hout fun _ => mirrorsOf_of_idle hidle

@[simp] theorem slate_saveWorkerState : (d.saveWorkerState w).slate = d.slate := by
  unfold saveWorkerState persistWorkerTxn
  extract_lets ok txn d₁
  have h₁ : d₁.slate = d.slate :=
    (slate_emit fun _ => rfl).trans
      (show ({ d with txnSeq := txn.seq } : Driver).slate = _ from rfl)
  split
  · exact ((slate_emit fun _ => rfl).trans (slate_emit fun _ => rfl)).trans h₁
  · exact h₁

theorem slate_reportBatch (cfg : Config) (batch : ℕ) :
    (reportBatch cfg d batch).slate = d.slate := by
  unfold reportBatch
  split
  · rfl
  · rename_i b _
    extract_lets d₁ rows d₂ d₃
    have h₂ : d₂.slate = d.slate := slate_send _
    have h₃ : d₃.slate = d.slate := by
      unfold d₃
      split
      · exact (slate_send _).trans h₂
      · exact h₂
    cases b.inlineAck with
    | none => exact h₃
    | some ack => exact (slate_send _).trans h₃

theorem slate_admitOne (cfg : Config) : (d.admitOne cfg w id wk).slate = d.slate := by
  unfold admitOne
  extract_lets d₁ wk'
  have h₁ : d₁.slate = d.slate := by
    unfold d₁
    split
    · exact slate_emit fun _ => rfl
    · rfl
  exact ((slate_send _).trans (slate_emitState _)).trans h₁

theorem slate_recordLap (parent : SessionId) (ctx : CellCtx) (v : Verdicted) :
    (d.recordLap w parent ctx v).slate = d.slate := by
  unfold recordLap
  extract_lets d₁ d₂ tail
  have h₁ : d₁.slate = d.slate := by
    unfold d₁
    split
    · cases v.lap with
      | none => rfl
      | some m => exact slate_setCell fun _ => rfl
    · rfl
  have h₂ : d₂.slate = d₁.slate := by
    unfold d₂
    split
    · refine (slate_setCell ?_).trans (slate_setCell ?_)
      · exact fun _ => rfl
      · exact fun _ => rfl
    · rfl
  split
  · exact ((slate_send _).trans h₂).trans h₁
  · exact h₂.trans h₁

theorem slate_endTurn : (d.endTurn w id wk).slate = d.slate := by
  unfold endTurn
  split
  · exact slate_finalizeTerminal.trans (slate_disarmWorker wk.session)
  · rfl

theorem slate_advance {session : SessionId} (h : d.advance cfg w session = some d') :
    d'.slate = d.slate := by
  unfold advance at h
  split at h
  · cases h
  · extract_lets ctx v d₁ d₂ d₃ at h
    obtain rfl := Option.some.inj h
    have h₂ : d₂.slate = d.slate := by
      unfold d₂
      cases ctx with
      | none => rfl
      | some ctx => exact slate_recordLap ..
    have h₃ : d₃.slate = d.slate := (slate_endTurn.trans (slate_emitState _)).trans h₂
    cases v.next with
    | none => exact h₃
    | some text => exact (slate_send _).trans h₃

theorem slate_wakeOnSend {session : SessionId} (h : d.wakeOnSend cfg w session = some d') :
    d'.slate = d.slate := by
  obtain ⟨x, -, rfl⟩ := Option.map_eq_some_iff.mp h
  exact slate_emitState _

theorem slate_afterWake (session : SessionId) : (d.afterWake w session).slate = d.slate := by
  unfold afterWake
  split
  · rfl
  · extract_lets d₁
    have h₁ : d₁.slate = d.slate := by
      unfold d₁
      split
      · split
        · exact slate_setCell fun _ => rfl
        · rfl
      · rfl
    split
    · exact h₁
    · split
      · exact (slate_emit fun _ => rfl).trans h₁
      · exact h₁

theorem slate_cancelOne : (cancelOne w d id).slate = d.slate := by
  unfold cancelOne
  split
  · rfl
  · split
    · rfl
    · extract_lets wk' d₁ d₂
      have h₂ : d₂.slate = d.slate := by
        unfold d₂
        split
        · exact slate_send _
        · rfl
      exact (slate_finalizeTerminal.trans (slate_emitState _)).trans h₂

theorem slate_openGate (x : Driver × Bool) (id : ℕ) : (openGate w x id).1.slate = x.1.slate := by
  unfold openGate
  extract_lets d
  split
  · extract_lets isSettled timedOut
    split
    · exact (slate_emitState _).trans (slate_setCell fun _ => rfl)
    · rfl
  · rfl

theorem slate_turnErrored (session : SessionId) : (d.turnErrored session).slate = d.slate := by
  unfold turnErrored
  split <;> rfl

theorem slate_reviewOne (cfg : Config) (s : Sweep) :
    (reviewOne cfg w s id).driver.slate = s.driver.slate := by
  unfold reviewOne
  split
  · rfl
  · rename_i wk _
    extract_lets seen
    change (remediate w s id wk (review seen.1 seen.2.1)).driver.slate = s.driver.slate
    cases review seen.1 seen.2.1 with
    | healthy => rfl
    | fail => exact slate_finalizeTerminal.trans (slate_emitState _)
    | park =>
      unfold remediate
      dsimp only
      split
      · rfl
      · exact slate_emitState _
    | reap => rfl
    | openBarrier => rfl
    | cancel => exact slate_cancelOne

/-! ### What an act does to the slate -/

/-- What an act does to the slate, unless the input is an answer. -/
inductive Inscribes (cfg : Config) (w : World) (i : Input) (d₀ d d' : Driver) : Prop
  | still (h : d'.slate = d.slate)
  | cellSynced {x : ℕ × ℕ × Addr} (hx : x ∈ d.cellByWorker.entries) (h : d' = syncCell cfg w d x)
  | remoteCellSynced {x : ℕ × ℕ × Addr} (hx : x ∈ d.cellByWorker.entries)
      (h : d' = syncRemoteCell w d x)
  | rowRelayed {x : Driver × CancelGroups} {id : ℕ} (hd : d = x.1) (h : d' = (relayOne x id).1)
  | rowMinted {batch : ℕ} {parent : SessionId} {node prompt : String} {model : Option String}
      (h : d' = d.mintRemoteRow w batch parent node prompt model)
  | bound {ctx : CellsCtx} {wids : List ℕ} (hb : Binds cfg w i d₀ d ctx wids)
      (h : d' = d.bindCells w ctx wids)
  | opened {session : SessionId} {args : Json} {m : MandalaRecord}
      (hm : d.mandalaRecord cfg w session args = .ok m)
      (h : d' = { d.write w (.cellFile m.id (rootCell m)) with
        nextMandalaId := m.id + 1
        trees := d.trees.insert m.id
          (((d.trees.get? m.id).getD Table.empty).insert Addr.root (rootCell m))
        mandalas := d.mandalas.insert m.id m })
  | closed {mid : ℕ} (h : d' = closeMandala w d mid)

theorem Act.inscribes (h : Act cfg w i d₀ d d') (hi : i.answers = false) :
    Inscribes cfg w i d₀ d d' := by
  cases h with
  | idle h => exact .still (slate_of_idle h)
  | card hget => exact .still (slate_emitState _)
  | save => exact .still slate_saveWorkerState
  | reported => exact .still (slate_reportBatch ..)
  | admission hnext hget => exact .still (slate_admitOne _)
  | verdict hget hstep => exact .still rfl
  | advanced hi h => exact .still (slate_advance h)
  | sent hi h => exact .still ((slate_afterWake _).trans (slate_wakeOnSend h))
  | suspended h =>
    obtain ⟨x, -, rfl⟩ := Option.map_eq_some_iff.mp h
    exact .still (slate_emitState _)
  | resumed hi h =>
    obtain ⟨x, -, rfl⟩ := Option.map_eq_some_iff.mp h
    exact .still (slate_emitState _)
  | errored => exact .still (slate_turnErrored _)
  | cancelled => exact .still slate_cancelOne
  | gateOpened hget hheld hqueued => exact .still (slate_openGate ..)
  | reviewed hi hdue => exact .still (slate_reviewOne ..)
  | cellSynced hx => exact .cellSynced hx rfl
  | remoteCellSynced hx => exact .remoteCellSynced hx rfl
  | rowFailed hi' => exact absurd hi' (by simp [hi])
  | rowAccepted hi' har =>
    subst hi'
    cases hi
  | rowReported hi' => exact absurd hi' (by simp [hi])
  | rowRelayed => exact .rowRelayed rfl rfl
  | cancelPosted => exact .still (slate_emit fun _ => rfl)
  | batchOpened h => exact .still rfl
  | workerMinted h hitem hnode hopen => exact .still rfl
  | rowMinted h hitem hnode hopen => exact .rowMinted rfl
  | lost h hsid hside =>
    obtain ⟨txn, hout⟩ := h.out
    exact .still (slate_of_side (congrArg Core.remotes h.core) hside hout fun _ => rfl)
  | bound h => exact .bound h rfl
  | mandalaOpened h => exact .opened h rfl
  | mandalaClosed hget hclosable => exact .closed rfl
  | armed hi => exact .still rfl
  | disarmed => exact .still rfl

/-! ### The law of the rows -/

/-- No id is a worker's here and a row's. -/
def Kinds (d : Driver) : Prop := ∀ id, (d.remotes.get? id).isSome = true → d.workers.get? id = none

/-- The law of the rows, their mirrors and their cells, `E` being what was done before this turn.
The cells of the ids in `lag` may be behind rows that have ended. -/
structure Law (cfg : Config) (E : List Effect) (lag : Set ℕ) (d : Driver) : Prop where
  mirrored : ∀ id r, d.remotes.get? id = some r → Mirrored cfg (mirrorsOf id (E ++ d.out)) id r
  unborn : ∀ id, d.remotes.get? id = none → mirrorsOf id (E ++ d.out) = []
  known : ∀ id x, d.cellByWorker.get? id = some x → id < d.nextWorkerId
  apart : ∀ id id' x, d.cellByWorker.get? id = some x → d.cellByWorker.get? id' = some x → id = id'
  branch : ∀ id mid a, d.cellByWorker.get? id = some (mid, a) → a ≠ Addr.root
  shown : ∀ id mid a, d.cellByWorker.get? id = some (mid, a) →
    ∃ f, (d.cell? mid a).map faceOf = some f ∧
      ∀ r, d.remotes.get? id = some r → Shows f r ∨ id ∈ lag ∧ r.isTerminal = true

/-- A row goes on: once it has ended it stays as it ended, and while its cancel waits for the peer
to accept it, it goes on waiting. -/
def Abides (d d' : Driver) : Prop :=
  ∀ id r, d.remotes.get? id = some r → ∃ r', d'.remotes.get? id = some r' ∧
    (r.isTerminal = true → r'.stateRaw = r.stateRaw) ∧ (r.shelved = true → r'.shelved = true)

variable {E : List Effect} {lag : Set ℕ}

theorem Abides.refl (d : Driver) : Abides d d := fun _ r hr => ⟨r, hr, fun _ => rfl, fun h => h⟩

theorem Abides.trans (h : Abides d d') (h' : Abides d' d'') : Abides d d'' := by
  intro id r hr
  obtain ⟨r', hr', hended, hshelved⟩ := h id r hr
  obtain ⟨r'', hr'', hended', hshelved'⟩ := h' id r' hr'
  refine ⟨r'', hr'', fun ht => ?_, fun hs => hshelved' (hshelved hs)⟩
  have ht' : r'.isTerminal = true := by
    rw [RemoteWorker.isTerminal, hended ht]
    exact ht
  rw [hended' ht', hended ht]

theorem Abides.of_remotes (h : d'.remotes = d.remotes) : Abides d d' := by
  intro id r hr
  exact ⟨r, by rw [h]; exact hr, fun _ => rfl, fun h => h⟩

theorem mirrorsOf_out (h : d'.slate = d.slate) (id : ℕ) :
    mirrorsOf id (E ++ d'.out) = mirrorsOf id (E ++ d.out) := by
  rw [mirrorsOf_append, mirrorsOf_append]
  exact congrArg (mirrorsOf id E ++ ·) (congrFun (congrArg Slate.mirrored h) id)

theorem Law.of_slate (h : Law cfg E lag d) (hslate : d'.slate = d.slate)
    (hnext : d.nextWorkerId ≤ d'.nextWorkerId) : Law cfg E lag d' := by
  have hremotes : d'.remotes = d.remotes := congrArg Slate.remotes hslate
  have hbound : d'.cellByWorker = d.cellByWorker := congrArg Slate.bound hslate
  have hface (mid : ℕ) (a : Addr) : (d'.cell? mid a).map faceOf = (d.cell? mid a).map faceOf :=
    congrFun (congrFun (congrArg Slate.face hslate) mid) a
  refine ⟨fun id r hr => ?_, fun id hr => ?_, fun id x hx => ?_, ?_, ?_, fun id mid a hx => ?_⟩
  · rw [mirrorsOf_out hslate]
    exact h.mirrored id r (hremotes ▸ hr)
  · rw [mirrorsOf_out hslate]
    exact h.unborn id (hremotes ▸ hr)
  · exact (h.known id x (hbound ▸ hx)).trans_le hnext
  · rw [hbound]
    exact h.apart
  · rw [hbound]
    exact h.branch
  · rw [hface, hremotes]
    exact h.shown id mid a (hbound ▸ hx)

/-- The id of a bound cell's entry. -/
theorem bound_of_mem {x : ℕ × ℕ × Addr} (hx : x ∈ d.cellByWorker.entries) :
    d.cellByWorker.get? x.1 = some x.2 := Table.mem_iff_get?.mp hx

theorem face_setCell (f : CellRecord → CellRecord) (mid' : ℕ) (a' : Addr) :
    ((d.setCell w mid a f).cell? mid' a').map faceOf =
      if mid' = mid ∧ a' = a then (d.cell? mid' a').map (faceOf ∘ f)
      else (d.cell? mid' a').map faceOf := by
  rw [cell?_setCell]
  split
  · rw [Option.map_map]
  · rfl

theorem mirrorsOf_setCell (f : CellRecord → CellRecord) (id : ℕ) :
    mirrorsOf id (E ++ (d.setCell w mid a f).out) = mirrorsOf id (E ++ d.out) := by
  rw [setCell]
  split
  · rfl
  · rw [mirrorsOf_append, mirrorsOf_append]
    exact congrArg (mirrorsOf id E ++ ·) ((mirrorsOf_append ..).trans (List.append_nil _))

theorem remotes_setCell (f : CellRecord → CellRecord) :
    (d.setCell w mid a f).remotes = d.remotes := congrArg Core.remotes (core_setCell ..)

/-- A cell is written anew: it is nobody's, or shows the row of the one it is bound to. -/
theorem Law.setCell {f : CellRecord → CellRecord} {lag' : Set ℕ} (h : Law cfg E lag d)
    (hcell : ∀ id c, d.cellByWorker.get? id = some (mid, a) → d.cell? mid a = some c →
      ∀ r, d.remotes.get? id = some r → Shows (faceOf (f c)) r ∨ id ∈ lag' ∧ r.isTerminal = true)
    (hlag : ∀ id mid' a', d.cellByWorker.get? id = some (mid', a') → ¬ (mid' = mid ∧ a' = a) →
      id ∈ lag → id ∈ lag') : Law cfg E lag' (d.setCell w mid a f) := by
  have hnext : (d.setCell w mid a f).nextWorkerId = d.nextWorkerId :=
    congrArg Core.nextWorkerId (core_setCell ..)
  refine ⟨fun id r hr => ?_, fun id hr => ?_, fun id x hx => ?_, ?_, ?_, fun id mid' a' hx => ?_⟩
  · rw [mirrorsOf_setCell]
    exact h.mirrored id r (remotes_setCell (d := d) f ▸ hr)
  · rw [mirrorsOf_setCell]
    exact h.unborn id (remotes_setCell (d := d) f ▸ hr)
  · rw [hnext]
    exact h.known id x (cellByWorker_setCell d w mid a f ▸ hx)
  · rw [cellByWorker_setCell]
    exact h.apart
  · rw [cellByWorker_setCell]
    exact h.branch
  · rw [cellByWorker_setCell] at hx
    rw [face_setCell, remotes_setCell]
    obtain ⟨c, hc⟩ : ∃ c, d.cell? mid' a' = some c := by
      obtain ⟨f', hf', -⟩ := h.shown id mid' a' hx
      obtain ⟨c, hc, -⟩ := Option.map_eq_some_iff.mp hf'
      exact ⟨c, hc⟩
    split
    · rename_i heq
      obtain ⟨rfl, rfl⟩ := heq
      exact ⟨faceOf (f c), by rw [hc]; rfl, hcell id c hx hc⟩
    · rename_i hne
      obtain ⟨f', hf', hshown⟩ := h.shown id mid' a' hx
      refine ⟨f', hf', fun r hr => (hshown r hr).imp_right ?_⟩
      exact fun hl => ⟨hlag id mid' a' hx hne hl.1, hl.2⟩

theorem Law.syncCell (h : Law cfg E lag d) (hkinds : d.Kinds) {x : ℕ × ℕ × Addr}
    (hx : x ∈ d.cellByWorker.entries) : Law cfg E lag (syncCell cfg w d x) := by
  unfold Driver.syncCell
  split
  · rename_i wk c hget hc
    split
    · refine h.setCell (fun id c hid hc r hr => ?_) fun _ _ _ _ _ hl => hl
      obtain rfl := h.apart _ _ _ (bound_of_mem hx) hid
      rw [hkinds x.1 (by rw [hr]; rfl)] at hget
      cases hget
    · exact h
  · exact h

theorem shows_of_terminal (hr : r.isTerminal = true) : Shows (r.stateRaw, r.evidence) r :=
  ⟨rfl, by rw [isOpenState_of_terminalStr hr, hr]; rfl, fun _ => rfl⟩

/-- A round of `sync_remote_cells` brings one cell up to its row. -/
theorem Law.syncRemoteCell (h : Law cfg E lag d) {x : ℕ × ℕ × Addr}
    (hx : x ∈ d.cellByWorker.entries) : Law cfg E (lag \ {x.1}) (syncRemoteCell w d x) := by
  have hbound := bound_of_mem hx
  have hother {id mid' : ℕ} {a' : Addr} (hid : d.cellByWorker.get? id = some (mid', a'))
      (hne : ¬ (mid' = x.2.1 ∧ a' = x.2.2)) : id ≠ x.1 := by
    rintro rfl
    rw [hid] at hbound
    obtain ⟨rfl, rfl⟩ := Prod.mk.inj (Option.some.inj hbound)
    exact hne ⟨rfl, rfl⟩
  -- Where nothing is written the cell shows its row already.
  have hkeep (hshows : ∀ r f, d.remotes.get? x.1 = some r →
      (d.cell? x.2.1 x.2.2).map faceOf = some f → r.isTerminal = true → Shows f r) :
      Law cfg E (lag \ {x.1}) d := by
    refine ⟨h.mirrored, h.unborn, h.known, h.apart, h.branch, fun id mid a hid => ?_⟩
    obtain ⟨f, hf, hshown⟩ := h.shown id mid a hid
    refine ⟨f, hf, fun r hr => ?_⟩
    rcases hshown r hr with hs | ⟨hl, ht⟩
    · exact Or.inl hs
    · by_cases hid' : id = x.1
      · subst hid'
        have hx : (mid, a) = x.2 := Option.some.inj (hid.symm.trans hbound)
        rw [show mid = x.2.1 from congrArg Prod.fst hx,
          show a = x.2.2 from congrArg Prod.snd hx] at hf
        exact Or.inl (hshows r f hr hf ht)
      · exact Or.inr ⟨⟨hl, hid'⟩, ht⟩
  unfold Driver.syncRemoteCell
  split
  · rename_i r c hget hc
    split
    · rename_i hcond
      simp only [Bool.and_eq_true] at hcond
      refine h.setCell (fun id c hid hc r' hr' => ?_) fun id mid' a' hid hne hl => ?_
      · obtain rfl := h.apart _ _ _ hbound hid
        obtain rfl := Option.some.inj (hget.symm.trans hr')
        exact Or.inl (shows_of_terminal hcond.1)
      · exact ⟨hl, hother hid hne⟩
    · rename_i hcond
      refine hkeep fun r' f hr' hf ht => ?_
      obtain rfl := Option.some.inj (hget.symm.trans hr')
      rw [hc] at hf
      obtain rfl := Option.some.inj hf
      obtain ⟨hstate, hevidence⟩ : c.state = r.stateRaw ∧ c.evidence = r.evidence := by
        simpa [ht] using hcond
      rw [faceOf, hstate, hevidence]
      exact shows_of_terminal ht
  · rename_i hnone
    refine hkeep fun r f hr hf _ => ?_
    obtain ⟨c, hc, -⟩ := Option.map_eq_some_iff.mp hf
    exact (hnone r c hr hc).elim

/-! ### What an act preserves -/

theorem Act.kinds (h : Act cfg w i d₀ d d') (hk : d.Kinds) (hd : d.Fresh) : d'.Kinds := by
  intro id hrow
  obtain ⟨r', hr'⟩ := Option.isSome_iff_exists.mp hrow
  refine Option.eq_none_iff_forall_ne_some.mpr fun wk' hwk' => ?_
  -- A row that was there is no worker; a new id is above all that there are.
  have hold (hr : (d.remotes.get? id).isSome = true) : False := by
    obtain ⟨r, hr'⟩ := Option.isSome_iff_exists.mp hr
    have hlt : id < d.nextWorkerId := hd.remote _ (Table.mem_of_get? hr')
    rcases h.arms with harms | ⟨b, items, yolo, item, hm⟩
    · obtain ⟨y, hy, hid⟩ := ids_of_arming harms (Table.mem_of_get? hwk')
      obtain rfl : y.1 = id := hid
      have hget : d.workers.get? y.1 = some y.2 := Table.mem_iff_get?.mp hy
      rw [hk y.1 hr] at hget
      cases hget
    · rw [hm.workers, Table.get?_insert, if_neg hlt.ne, hk id hr] at hwk'
      cases hwk'
  rcases h.posts.rows with hsame | ⟨hget, hrows⟩ | ⟨hrows, hnext⟩
  · exact hold (hsame ▸ hrow)
  · rw [hrows, Table.get?_modify] at hr'
    split at hr'
    · rename_i hid
      exact hold (by rw [hid, hget]; rfl)
    · exact hold (by rw [hr']; rfl)
  · rw [hrows, Table.get?_insert] at hr'
    split at hr'
    · rename_i hid
      subst hid
      rcases h.arms with harms | ⟨b, items, yolo, item, hm⟩
      · obtain ⟨y, hy, hid⟩ := ids_of_arming harms (Table.mem_of_get? hwk')
        exact absurd (hd.worker y hy) (by omega)
      · have hsame : d'.remotes = d.remotes := congrArg Ledger.remotes hm.ledger
        exact hold (hsame ▸ hrow)
    · exact hold (by rw [hr']; rfl)

/-- One row is rewritten, and with it goes what is mirrored of it. -/
structure Rewrites (d d' : Driver) (id : ℕ) (r' : RemoteWorker) (mirrors : List RemoteWorker) :
    Prop where
  core : d'.core = { d.core with remotes := d.remotes.modify id fun _ => r' }
  side : d'.side = d.side
  mirrored : ∀ k, mirrorsOf k d'.out = mirrorsOf k d.out ++ if k = id then mirrors else []

variable {mirrors : List RemoteWorker}

theorem Law.rewrite {lag' : Set ℕ} (h : Law cfg E lag d) (hw : Rewrites d d' id r' mirrors)
    (hget : d.remotes.get? id = some r)
    (hm : Mirrored cfg (mirrorsOf id (E ++ d.out) ++ mirrors) id r') (hlag : lag ⊆ lag')
    (hs : ∀ f, Shows f r ∨ id ∈ lag ∧ r.isTerminal = true →
      Shows f r' ∨ id ∈ lag' ∧ r'.isTerminal = true) : Law cfg E lag' d' := by
  have hremotes : d'.remotes = d.remotes.modify id fun _ => r' := congrArg Core.remotes hw.core
  have hnext : d'.nextWorkerId = d.nextWorkerId := congrArg Core.nextWorkerId hw.core
  have hbound : d'.cellByWorker = d.cellByWorker := congrArg Side.cellByWorker hw.side
  have hrow (k : ℕ) : d'.remotes.get? k = if k = id then some r' else d.remotes.get? k := by
    rw [hremotes, Table.get?_modify]
    split
    · rename_i hk
      rw [hk, hget, Option.map_some]
    · rfl
  have hmirrors (k : ℕ) : mirrorsOf k (E ++ d'.out) =
      mirrorsOf k (E ++ d.out) ++ if k = id then mirrors else [] := by
    rw [mirrorsOf_append, mirrorsOf_append, hw.mirrored, List.append_assoc]
  refine ⟨fun k x hx => ?_, fun k hx => ?_, ?_, ?_, ?_, fun k mid a hk => ?_⟩
  · rw [hrow] at hx
    rw [hmirrors]
    split at hx
    · rename_i hk
      subst hk
      obtain rfl := Option.some.inj hx
      rw [if_pos rfl]
      exact hm
    · rename_i hk
      rw [if_neg hk, List.append_nil]
      exact h.mirrored k x hx
  · rw [hrow] at hx
    split at hx
    · cases hx
    · rename_i hk
      rw [hmirrors, if_neg hk, List.append_nil]
      exact h.unborn k hx
  · rw [hbound, hnext]
    exact h.known
  · rw [hbound]
    exact h.apart
  · rw [hbound]
    exact h.branch
  · rw [hbound] at hk
    rw [cell?_congr (woods_of_side hw.side)]
    obtain ⟨f, hf, hshown⟩ := h.shown k mid a hk
    refine ⟨f, hf, fun x hx => ?_⟩
    rw [hrow] at hx
    split at hx
    · rename_i hk'
      subst hk'
      obtain rfl := Option.some.inj hx
      exact hs f (hshown r hget)
    · exact (hshown x hx).imp_right fun hl => ⟨hlag hl.1, hl.2⟩

theorem Abides.of_rewrites (hw : Rewrites d d' id r' mirrors) (hget : d.remotes.get? id = some r)
    (hended : r.isTerminal = true → r'.stateRaw = r.stateRaw)
    (hshelved : r.shelved = true → r'.shelved = true) : Abides d d' := by
  have hremotes : d'.remotes = d.remotes.modify id fun _ => r' := congrArg Core.remotes hw.core
  intro k x hx
  by_cases hk : k = id
  · subst hk
    obtain rfl := Option.some.inj (hget.symm.trans hx)
    exact ⟨r', by rw [hremotes, Table.get?_modify, if_pos rfl, hx]; rfl, hended, hshelved⟩
  · exact ⟨x, by rw [hremotes, Table.get?_modify, if_neg hk, hx], fun _ => rfl, fun h => h⟩

/-- A row at work is marked: nothing is mirrored for it, and its cell stays open. -/
theorem rewrites_relayOne {x : Driver × CancelGroups} (hget : x.1.remotes.get? id = some r)
    (hlive : r.isTerminal = false) : Rewrites x.1 (relayOne x id).1 id
      { r with stateRaw := stateCancelRequested } [] := by
  unfold relayOne
  rw [hget]
  dsimp only
  rw [if_neg (by simp [hlive])]
  refine ⟨rfl, rfl, fun k => ?_⟩
  rw [ite_self]
  exact mirrorsOf_append ..

/-- A relay leaves what is not there, or has ended. -/
theorem relayOne_of_rest {x : Driver × CancelGroups}
    (h : ∀ r, x.1.remotes.get? id = some r → r.isTerminal = true) : relayOne x id = x := by
  unfold relayOne
  split
  · rfl
  · rename_i r hget
    exact if_pos (h r hget)

theorem abides_relayOne (x : Driver × CancelGroups) (id : ℕ) : Abides x.1 (relayOne x id).1 := by
  by_cases hrest : ∀ r, x.1.remotes.get? id = some r → r.isTerminal = true
  · rw [relayOne_of_rest hrest]
    exact .refl _
  · push Not at hrest
    obtain ⟨r, hget, hlive⟩ := hrest
    have hlive : r.isTerminal = false := by simpa using hlive
    refine .of_rewrites (rewrites_relayOne hget hlive) hget (fun ht => ?_) fun hs => ?_
    · rw [hlive] at ht
      cases ht
    · simp_all [RemoteWorker.shelved, RemoteWorker.awaitsCancel]

theorem Law.relayOne (h : Law cfg E lag d) {x : Driver × CancelGroups} (hd : d = x.1) (id : ℕ) :
    Law cfg E lag (relayOne x id).1 := by
  subst hd
  by_cases hrest : ∀ r, x.1.remotes.get? id = some r → r.isTerminal = true
  · rw [relayOne_of_rest hrest]
    exact h
  · push Not at hrest
    obtain ⟨r, hget, hlive⟩ := hrest
    have hlive : r.isTerminal = false := by simpa using hlive
    obtain ⟨hevidence, hmirrors⟩ := (h.mirrored id r hget).atWork hlive
    refine h.rewrite (rewrites_relayOne hget hlive) hget ⟨nofun, fun _ => ⟨hevidence, ?_⟩⟩
      (Set.Subset.refl _) ?_
    · rw [hmirrors, List.append_nil]
    · rintro f (hs | ⟨-, ht⟩)
      · exact Or.inl ⟨hs.evidence, by rw [hs.opened, hlive]; rfl, nofun⟩
      · rw [hlive] at ht
        cases ht

/-- **A relayed cancel** shelves a row that the peer has not accepted. -/
theorem shelved_relayOne {x : Driver × CancelGroups} (hget : x.1.remotes.get? id = some r)
    (hnone : r.remoteWorker = none) :
    ∃ r', (relayOne x id).1.remotes.get? id = some r' ∧ r'.shelved = true := by
  cases hlive : r.isTerminal with
  | true =>
    refine ⟨r, ?_, by simp [RemoteWorker.shelved, hlive, hnone]⟩
    rw [relayOne_of_rest fun r' hr' => ?_, hget]
    rwa [← Option.some.inj (hget.symm.trans hr')]
  | false =>
    refine ⟨{ r with stateRaw := stateCancelRequested }, ?_, by
      simp [RemoteWorker.shelved, RemoteWorker.awaitsCancel, hnone]⟩
    rw [show (relayOne x id).1.remotes = _ from
      congrArg Core.remotes (rewrites_relayOne hget hlive).core, Table.get?_modify,
        if_pos rfl, hget]
    rfl

theorem remotes_relayOne_of_ne {x : Driver × CancelGroups} {k : ℕ} (hk : k ≠ id) :
    (relayOne x id).1.remotes.get? k = x.1.remotes.get? k := by
  by_cases hrest : ∀ r, x.1.remotes.get? id = some r → r.isTerminal = true
  · rw [relayOne_of_rest hrest]
  · push Not at hrest
    obtain ⟨r, hget, hlive⟩ := hrest
    have hlive : r.isTerminal = false := by simpa using hlive
    rw [show (relayOne x id).1.remotes = _ from
      congrArg Core.remotes (rewrites_relayOne hget hlive).core, Table.get?_modify, if_neg hk]

theorem Law.rowMinted (h : Law cfg E lag d) (hd : d.Fresh) (batch : ℕ) (parent : SessionId)
    (node prompt : String) (model : Option String) :
    Law cfg E lag (d.mintRemoteRow w batch parent node prompt model) ∧
      Abides d (d.mintRemoteRow w batch parent node prompt model) := by
  have hnone : d.remotes.get? d.nextWorkerId = none :=
    Table.get?_eq_none_of_forall fun x hx => (hd.remote x hx).ne
  have hrow (k : ℕ) : (d.mintRemoteRow w batch parent node prompt model).remotes.get? k =
      if k = d.nextWorkerId then some (mintedRow w batch parent node prompt model)
      else d.remotes.get? k := Table.get?_insert
  refine ⟨⟨fun k x hx => ?_, fun k hx => ?_, fun k x hx => ?_, h.apart, h.branch,
    fun k mid a hk => ?_⟩, fun k x hx => ?_⟩
  · rw [hrow] at hx
    split at hx
    · rename_i hk
      subst hk
      obtain rfl := Option.some.inj hx
      exact ⟨nofun, fun _ => ⟨rfl, h.unborn _ hnone⟩⟩
    · exact h.mirrored k x hx
  · rw [hrow] at hx
    split at hx
    · cases hx
    · exact h.unborn k hx
  · exact (h.known k x hx).trans (Nat.lt_succ_self _)
  · obtain ⟨f, hf, hshown⟩ := h.shown k mid a hk
    refine ⟨f, hf, fun x hx => hshown x ?_⟩
    rwa [hrow, if_neg (h.known k _ hk).ne] at hx
  · refine ⟨x, ?_, fun _ => rfl, fun hs => hs⟩
    rw [hrow, if_neg, hx]
    rintro rfl
    rw [hnone] at hx
    cases hx

theorem Law.opened (h : Law cfg E lag d) (hgroves : d.Groves) {session : SessionId} {args : Json}
    {m : MandalaRecord} (hm : d.mandalaRecord cfg w session args = .ok m) :
    Law cfg E lag { d.write w (.cellFile m.id (rootCell m)) with
      nextMandalaId := m.id + 1
      trees := d.trees.insert m.id
        (((d.trees.get? m.id).getD Table.empty).insert Addr.root (rootCell m))
      mandalas := d.mandalas.insert m.id m } := by
  obtain ⟨hid, -⟩ := mandalaRecord_ok hm
  have htree : d.trees.get? m.id = none := by
    cases hget : d.trees.get? m.id with
    | none => rfl
    | some t =>
      obtain ⟨m', hm'⟩ := hgroves.owned _ _ hget
      exact absurd (hgroves.record _ _ hm').2.1 (by omega)
  have hout (k : ℕ) : mirrorsOf k (E ++ (d.out ++
      [.cellFile m.id (rootCell m) (w.written d.out.length)])) = mirrorsOf k (E ++ d.out) := by
    rw [← List.append_assoc, mirrorsOf_append]
    exact List.append_nil _
  refine ⟨fun k x hx => ?_, fun k hx => ?_, h.known, h.apart, h.branch, fun k mid a hk => ?_⟩
  · exact (hout k).symm ▸ h.mirrored k x hx
  · exact (hout k).trans (h.unborn k hx)
  · obtain ⟨f, hf, hshown⟩ := h.shown k mid a hk
    refine ⟨f, ?_, hshown⟩
    rw [← hf, cell?, cell?]
    change (((d.trees.insert m.id _).get? mid).bind fun t => t.get? a).map faceOf = _
    rw [Table.get?_insert, if_neg]
    rintro rfl
    rw [cell?, htree] at hf
    cases hf

theorem Law.close (h : Law cfg E lag d) (mid : ℕ) : Law cfg E lag (closeMandala w d mid) := by
  unfold closeMandala
  extract_lets d₁
  have h₁ : Law cfg E lag d₁ := h.of_slate rfl (Nat.le_refl _)
  split
  · refine h₁.setCell (fun id c hid => ?_) fun _ _ _ _ _ hl => hl
    exact absurd rfl (h₁.branch id mid Addr.root hid)
  · exact h₁

/-! ### Binding -/

theorem cellByWorker_foldl_bindCell {ctx : CellsCtx} (xs : List (CellPlan × ℕ)) {y : ℕ × Addr}
    (h : (xs.foldl (bindCell w ctx) d).cellByWorker.get? id = some y) :
    d.cellByWorker.get? id = some y ∨ ∃ q, (q, id) ∈ xs ∧ y = (ctx.mandala, q.addr) := by
  induction xs generalizing d with
  | nil => exact Or.inl h
  | cons x xs ih =>
    rcases ih h with hy | ⟨q, hq, hy⟩
    · rw [show (bindCell w ctx d x).cellByWorker = d.cellByWorker.insert x.2 (ctx.mandala, x.1.addr)
        from rfl, Table.get?_insert] at hy
      split at hy
      · rename_i hid
        subst hid
        exact Or.inr ⟨x.1, List.mem_cons_self, (Option.some.inj hy).symm⟩
      · exact Or.inl hy
    · exact Or.inr ⟨q, List.mem_cons_of_mem _ hq, hy⟩

theorem out_foldl_bindCell {ctx : CellsCtx} (xs : List (CellPlan × ℕ)) (k : ℕ) :
    mirrorsOf k (E ++ (xs.foldl (bindCell w ctx) d).out) = mirrorsOf k (E ++ d.out) := by
  induction xs generalizing d with
  | nil => rfl
  | cons x xs ih =>
    refine ih.trans ?_
    rw [mirrorsOf_append, mirrorsOf_append]
    exact congrArg (mirrorsOf k E ++ ·) ((mirrorsOf_append ..).trans (List.append_nil _))

section Binding

variable {m : MandalaRecord} {t : Tree} {session : SessionId} {args : Json} {caller : Option Addr}
  {parent : CellRecord} {ctx : CellsCtx} {wids : List ℕ}

/-- A cell of a fan-out, once it is put in. -/
theorem face_planted (hr : Roots d session args m t caller parent ctx) {xs : List (CellPlan × ℕ)}
    {q : CellPlan} (hq : (q, id) ∈ xs) (hplan : q ∈ ctx.plans) :
    ((plant t (plannedCells w ctx xs)).get? q.addr).map faceOf = some ("open", none) := by
  obtain ⟨c, hc⟩ := exists_get?_plant (t := t) (a := q.addr) (Or.inl
    ⟨_, List.mem_map_of_mem (f := fun x : CellPlan × ℕ => plannedCell w ctx x.1 x.2) hq, rfl⟩)
  rcases mem_of_get?_plant hc with hold | ⟨hmem, -⟩
  · rw [(hr.planned.fresh hr.law hplan).1] at hold
    cases hold
  · obtain ⟨q', id', -, rfl⟩ := mem_plannedCells hmem
    exact (congrArg (Option.map faceOf) hc).trans rfl

/-- What was there keeps its cell. -/
theorem get?_plant_of_there (hr : Roots d session args m t caller parent ctx) {c : CellRecord}
    (hc : t.get? a = some c) :
    (plant t (plannedCells w ctx (ctx.plans.zip wids))).get? a = some c := by
  rw [get?_plant_of_notMem, hc]
  rintro x hx rfl
  obtain ⟨q, id, hq, rfl⟩ := mem_plannedCells hx
  have hfresh := (hr.planned.fresh hr.law (List.of_mem_zip hq).1).1
  rw [show (plannedCell w ctx q id).addr = q.addr from rfl, hfresh] at hc
  cases hc

/-- Among plans of different addresses an id is that of its address. -/
theorem id_inj_of_zip {ps : List CellPlan} (hps : (ps.map CellPlan.addr).Nodup) {q q' : CellPlan}
    {k k' : ℕ} (hq : (q, k) ∈ ps.zip wids) (hq' : (q', k') ∈ ps.zip wids) (h : q.addr = q'.addr) :
    k = k' := by
  obtain ⟨j, hj, hqk⟩ := List.mem_iff_getElem.mp hq
  obtain ⟨j', hj', hqk'⟩ := List.mem_iff_getElem.mp hq'
  rw [List.length_zip] at hj hj'
  rw [List.getElem_zip] at hqk hqk'
  obtain ⟨rfl, rfl⟩ := Prod.mk.inj hqk
  obtain ⟨rfl, rfl⟩ := Prod.mk.inj hqk'
  have hj₁ : j < (ps.map CellPlan.addr).length := by simp; omega
  have hj₂ : j' < (ps.map CellPlan.addr).length := by simp; omega
  have heq : j = j' := hps.getElem_inj_iff.mp
    (show (ps.map CellPlan.addr)[j] = (ps.map CellPlan.addr)[j'] by simpa using h)
  subst heq
  rfl

/-- A fan-out binds its own ids: they are in use, and what row they have is being assigned. -/
theorem Binds.row (hb : Binds cfg w i d₀ d ctx wids) (hkinds : d.Kinds) (hd : d.Fresh)
    {q : CellPlan} (hq : (q, id) ∈ ctx.plans.zip wids) : id < d.nextWorkerId ∧
      ∀ r, d.remotes.get? id = some r → r.stateRaw = stateAssigning ∧ r.evidence = none := by
  cases hnode : q.node with
  | none =>
    obtain ⟨session, call, args, plan, -, -, -, hunbound⟩ := hb.planned
    obtain ⟨wk, hget⟩ : ∃ wk, d.workers.get? id = some wk := by
      obtain ⟨sid, hget | ⟨-, hget⟩⟩ := hunbound _ hq hnode
      · exact ⟨_, hget⟩
      · exact ⟨_, hget⟩
    refine ⟨hd.worker _ (Table.mem_of_get? hget), fun r hr => ?_⟩
    rw [hkinds id (by rw [hr]; rfl)] at hget
    cases hget
  | some node =>
    obtain ⟨r, hr, hstate, -, hevidence⟩ := hb.rows _ hq node hnode
    refine ⟨hd.remote _ (Table.mem_of_get? hr), fun r' hr' => ?_⟩
    obtain rfl := Option.some.inj (hr.symm.trans hr')
    exact ⟨hstate, hevidence⟩

theorem shows_of_assigning (hstate : r.stateRaw = stateAssigning) (hevidence : r.evidence = none) :
    Shows ("open", none) r := by
  have hlive : r.isTerminal = false := by
    rw [RemoteWorker.isTerminal, hstate]
    rfl
  exact ⟨hevidence.symm, by rw [hlive]; rfl, fun ht => by rw [hlive] at ht; cases ht⟩

/-- The cells of a fan-out are put in open, beside what is there, each for an id of its own. -/
theorem Law.bindCells (h : Law cfg E lag d) (hkinds : d.Kinds) (hd : d.Fresh) (hd₀ : d₀.Groves)
    (hb : Binds cfg w i d₀ d ctx wids) : Law cfg E lag (d.bindCells w ctx wids) := by
  obtain ⟨session, call, args, plan, m, t, caller, parent, -, -, -, -, -, hr, -⟩ := hb.roots hd₀
  obtain ⟨-, -, htrees⟩ := foldl_bindCell (w := w) (d := d) (ctx.plans.zip wids) hr.tree
  have hcell (mid : ℕ) (a : Addr) : ((ctx.plans.zip wids).foldl (bindCell w ctx) d).cell? mid a =
      if mid = ctx.mandala then (plant t (plannedCells w ctx (ctx.plans.zip wids))).get? a
      else d.cell? mid a := by
    rw [cell?, htrees]
    split <;> rfl
  have hthere (a : Addr) : d.cell? ctx.mandala a = t.get? a := by
    rw [cell?, hr.tree, Option.bind_some]
  have hcore := core_foldl (fun _ _ => rfl) (ctx.plans.zip wids) d (f := bindCell w ctx)
  have hremotes : ((ctx.plans.zip wids).foldl (bindCell w ctx) d).remotes = d.remotes :=
    congrArg Core.remotes hcore
  -- An address that is bound already is that of a cell that is there.
  have hnot {k : ℕ} {q : CellPlan} (hk : d.cellByWorker.get? k = some (ctx.mandala, q.addr))
      (hq : q ∈ ctx.plans) : False := by
    obtain ⟨f, hf, -⟩ := h.shown _ _ _ hk
    rw [hthere, (hr.planned.fresh hr.law hq).1] at hf
    cases hf
  have hfold : Law cfg E lag ((ctx.plans.zip wids).foldl (bindCell w ctx) d) := by
    refine ⟨fun k x hx => ?_, fun k hx => ?_, fun k x hk => ?_, fun k k' x hk hk' => ?_,
      fun k mid a hk => ?_, fun k mid a hk => ?_⟩
    · rw [out_foldl_bindCell]
      exact h.mirrored k x (hremotes ▸ hx)
    · rw [out_foldl_bindCell]
      exact h.unborn k (hremotes ▸ hx)
    · rw [show ((ctx.plans.zip wids).foldl (bindCell w ctx) d).nextWorkerId = d.nextWorkerId
        from congrArg Core.nextWorkerId hcore]
      rcases cellByWorker_foldl_bindCell _ hk with hk | ⟨q, hq, -⟩
      · exact h.known k x hk
      · exact (hb.row hkinds hd hq).1
    · rcases cellByWorker_foldl_bindCell _ hk with hk | ⟨q, hq, rfl⟩
      · rcases cellByWorker_foldl_bindCell _ hk' with hk' | ⟨q', hq', rfl⟩
        · exact h.apart k k' x hk hk'
        · exact (hnot hk (List.of_mem_zip hq').1).elim
      · rcases cellByWorker_foldl_bindCell _ hk' with hk' | ⟨q', hq', haddr⟩
        · exact (hnot hk' (List.of_mem_zip hq).1).elim
        · exact id_inj_of_zip (hr.planned.nodup hr.law) hq hq' (Prod.mk.inj haddr).2
    · rcases cellByWorker_foldl_bindCell _ hk with hk | ⟨q, hq, haddr⟩
      · exact h.branch k mid a hk
      · obtain ⟨rfl, rfl⟩ := Prod.mk.inj haddr
        intro hroot
        obtain ⟨c, hc⟩ := Table.contains_iff.mp hr.law.root
        rw [← hroot, (hr.planned.fresh hr.law (List.of_mem_zip hq).1).1] at hc
        cases hc
    · rw [hcell, hremotes]
      rcases cellByWorker_foldl_bindCell _ hk with hk | ⟨q, hq, haddr⟩
      · obtain ⟨f, hf, hshown⟩ := h.shown k mid a hk
        refine ⟨f, ?_, hshown⟩
        split
        · rename_i hmid
          subst hmid
          rw [hthere] at hf
          obtain ⟨c, hc, rfl⟩ := Option.map_eq_some_iff.mp hf
          rw [get?_plant_of_there hr hc]
          rfl
        · exact hf
      · obtain ⟨rfl, rfl⟩ := Prod.mk.inj haddr
        rw [if_pos rfl, face_planted hr hq (List.of_mem_zip hq).1]
        refine ⟨_, rfl, fun r' hr' => Or.inl ?_⟩
        obtain ⟨hstate, hevidence⟩ := (hb.row hkinds hd hq).2 r' hr'
        exact shows_of_assigning hstate hevidence
  rw [bindCells_eq]
  unfold Driver.armParent
  split
  · refine hfold.of_slate (slate_setCell fun _ => rfl) (Nat.le_of_eq ?_)
    exact (congrArg Core.nextWorkerId (core_setCell ..)).symm
  · exact hfold

end Binding

/-! ### Turns without answers -/

/-- What a turn of the loop keeps of the rows, and what it needs for that. -/
structure Whole (cfg : Config) (E : List Effect) (lag : Set ℕ) (d : Driver) : Prop where
  fresh : d.Fresh
  kinds : d.Kinds
  groves : d.Groves
  law : Law cfg E lag d

theorem Law.mono {lag' : Set ℕ} (h : Law cfg E lag d)
    (hlag : ∀ id x, d.cellByWorker.get? id = some x → id ∈ lag → id ∈ lag') :
    Law cfg E lag' d := by
  refine ⟨h.mirrored, h.unborn, h.known, h.apart, h.branch, fun id mid a hid => ?_⟩
  obtain ⟨f, hf, hshown⟩ := h.shown id mid a hid
  exact ⟨f, hf, fun r hr => (hshown r hr).imp_right fun hl => ⟨hlag id _ hid hl.1, hl.2⟩⟩

theorem remotes_syncCell (x : ℕ × ℕ × Addr) : (syncCell cfg w d x).remotes = d.remotes := by
  unfold syncCell
  split
  · split
    · exact remotes_setCell _
    · rfl
  · rfl

theorem remotes_syncRemoteCell (x : ℕ × ℕ × Addr) :
    (syncRemoteCell w d x).remotes = d.remotes := by
  unfold syncRemoteCell
  split
  · split
    · exact remotes_setCell _
    · rfl
  · rfl

theorem remotes_closeMandala (mid : ℕ) : (closeMandala w d mid).remotes = d.remotes := by
  unfold closeMandala
  extract_lets d₁
  split
  · exact remotes_setCell (d := d₁) _
  · rfl

theorem remotes_bindCells (ctx : CellsCtx) (wids : List ℕ) :
    (d.bindCells w ctx wids).remotes = d.remotes :=
  congrArg Core.remotes (aside_bindCells ctx wids).core

/-- **What an act preserves of the rows**, unless the input is an answer. -/
theorem Whole.act (h : Whole cfg E lag d) (hact : Act cfg w i d₀ d d') (hi : i.answers = false)
    (hd₀ : d₀.Groves) : Law cfg E lag d' ∧ Abides d d' := by
  cases hact.inscribes hi with
  | still hslate =>
    exact ⟨h.law.of_slate hslate hact.posts.counters.1, .of_remotes (congrArg Slate.remotes hslate)⟩
  | cellSynced hx hd' =>
    subst hd'
    exact ⟨h.law.syncCell h.kinds hx, .of_remotes (remotes_syncCell _)⟩
  | remoteCellSynced hx hd' =>
    subst hd'
    exact ⟨(h.law.syncRemoteCell hx).mono fun _ _ _ hl => hl.1,
      .of_remotes (remotes_syncRemoteCell _)⟩
  | rowRelayed hd hd' =>
    subst hd hd'
    exact ⟨h.law.relayOne rfl _, abides_relayOne _ _⟩
  | rowMinted hd' =>
    subst hd'
    exact h.law.rowMinted h.fresh ..
  | bound hb hd' =>
    subst hd'
    exact ⟨h.law.bindCells h.kinds h.fresh hd₀ hb, .of_remotes (remotes_bindCells ..)⟩
  | opened hm hd' =>
    subst hd'
    exact ⟨h.law.opened h.groves hm, .of_remotes rfl⟩
  | closed hd' =>
    subst hd'
    exact ⟨h.law.close _, .of_remotes (remotes_closeMandala _)⟩

/-- What a number of acts preserves of the rows. -/
theorem Whole.acts (h : Whole cfg E lag d₀) (hacts : Acts cfg w i d₀ d₀ d)
    (hi : i.answers = false) : Whole cfg E lag d ∧ Abides d₀ d := by
  have hall : Whole cfg E lag d ∧ Abides d₀ d ∧ Grown cfg w i d₀ d ∧
      d₀.nextMandalaId ≤ d.nextMandalaId := by
    induction hacts with
    | refl => exact ⟨h, .refl _, .refl _, Nat.le_refl _⟩
    | tail _ hlast ih =>
      obtain ⟨hwhole, habides, hgrown, hnext⟩ := ih
      obtain ⟨hlaw, habides'⟩ := hwhole.act hlast hi h.groves
      obtain ⟨hgroves, hgrown', hnext'⟩ :=
        groves_acts h.groves hlast.grows hwhole.groves hgrown hnext
      exact ⟨⟨hlast.fresh hwhole.fresh, hlast.kinds hwhole.kinds hwhole.fresh, hgroves, hlaw⟩,
        habides.trans habides', hgrown', hnext'⟩
  exact ⟨hall.1, hall.2.1⟩

/-! ### Answers -/

/-- One row is rewritten: everything else stands. -/
theorem Whole.rewrite {lag' : Set ℕ} (h : Whole cfg E lag d)
    (hw : Rewrites d d' id r' mirrors) (hlaw : Law cfg E lag' d') : Whole cfg E lag' d' := by
  have hremotes : d'.remotes = d.remotes.modify id fun _ => r' := congrArg Core.remotes hw.core
  have hworkers : d'.workers = d.workers := congrArg Core.workers hw.core
  have hbatches : d'.batches = d.batches := congrArg Core.batches hw.core
  have hnext : d'.nextWorkerId = d.nextWorkerId := congrArg Core.nextWorkerId hw.core
  have hbatch : d'.nextBatchId = d.nextBatchId := congrArg Core.nextBatchId hw.core
  refine ⟨⟨?_, fun x hx => ?_, ?_⟩, fun k hk => ?_, h.groves.of_woods (woods_of_side hw.side), hlaw⟩
  · rw [hworkers, hnext]
    exact h.fresh.worker
  · rw [hremotes] at hx
    rw [hnext]
    obtain ⟨y, hy, hxy⟩ := entries_modify_fst hx
    exact hxy ▸ h.fresh.remote y hy
  · rw [hbatches, hbatch]
    exact h.fresh.batch
  · rw [hworkers]
    refine h.kinds k ?_
    rw [hremotes, Table.get?_modify] at hk
    split at hk
    · simpa using hk
    · exact hk

theorem rewrites_failRemoteRow (cfg : Config) (cause : String) (hget : d.remotes.get? id = some r)
    (hlive : r.isTerminal = false) : Rewrites d (failRemoteRow cfg cause d id) id
      { r with
        stateRaw := "failed"
        summary := some s!"remote assignment failed: {cause}"
        evidence := some (evidencePath cfg.agentsDir id) }
      [{ r with
        stateRaw := "failed", summary := some s!"remote assignment failed: {cause}" }] := by
  unfold failRemoteRow
  rw [hget]
  dsimp only
  rw [if_neg (by simp [hlive])]
  refine ⟨rfl, rfl, fun k => ?_⟩
  refine ((mirrorsOf_append ..).trans (List.append_nil _)).trans ((mirrorsOf_append ..).trans ?_)
  congr 1
  by_cases hk : k = id
  · simp [mirrorsOf, hk]
  · simp [mirrorsOf, hk, Ne.symm hk]

/-- A failed assignment ends a row that is at work. -/
theorem Whole.failRemoteRow (h : Whole cfg E Set.univ d) (cause : String) (id : ℕ) :
    Whole cfg E Set.univ (failRemoteRow cfg cause d id) ∧
      Abides d (failRemoteRow cfg cause d id) := by
  cases hget : d.remotes.get? id with
  | none =>
    rw [show Driver.failRemoteRow cfg cause d id = d by rw [Driver.failRemoteRow, hget]]
    exact ⟨h, .refl d⟩
  | some r =>
    cases hlive : r.isTerminal with
    | true =>
      rw [show Driver.failRemoteRow cfg cause d id = d by
        rw [Driver.failRemoteRow, hget]; exact if_pos hlive]
      exact ⟨h, .refl d⟩
    | false =>
      have hw := rewrites_failRemoteRow cfg cause hget hlive
      obtain ⟨-, hmirrors⟩ := (h.law.mirrored id r hget).atWork hlive
      refine ⟨h.rewrite hw (h.law.rewrite hw hget
        ⟨fun _ => ⟨rfl, _, congrArg (· ++ [_]) hmirrors, rfl, rfl⟩, nofun⟩
        (Set.Subset.refl _) fun _ _ => Or.inr ⟨Set.mem_univ _, rfl⟩), .of_rewrites hw hget ?_ ?_⟩
      · intro ht
        rw [hlive] at ht
        cases ht
      · intro hs
        simp_all [RemoteWorker.shelved, RemoteWorker.awaitsCancel, RemoteWorker.isTerminal,
          isTerminalStateStr]

/-- The row that a peer's accept is about. -/
def accepted (d : Driver) (wids : List ℕ) (ar : AcceptedRow) : Option (ℕ × RemoteWorker) :=
  (wids[ar.index]?).bind fun id => (d.remotes.get? id).map fun r => (id, r)

theorem rewrites_acceptRow (node : String) {wids : List ℕ} (peerBatch : ℕ) {ar : AcceptedRow}
    (hrow : d.accepted wids ar = some (id, r)) : Rewrites d (acceptRow node wids peerBatch d ar) id
      { r with
        remoteBatch := some peerBatch
        remoteWorker := some ar.worker
        remoteSession := some ar.session
        stateRaw := "queued" } [] := by
  unfold acceptRow
  rw [show (wids[ar.index]?).bind (fun id => (d.remotes.get? id).map fun r => (id, r)) =
    some (id, r) from hrow]
  refine ⟨rfl, rfl, fun k => ?_⟩
  rw [ite_self]
  exact mirrorsOf_append ..

/-- What the rows of an accept have to be: at work, and not waiting with a cancel. -/
def Acceptable (d : Driver) (wids : List ℕ) (rows : List AcceptedRow) : Prop :=
  ∀ ar ∈ rows, ∀ id r, d.accepted wids ar = some (id, r) →
    r.isTerminal = false ∧ r.awaitsCancel = false

theorem get?_of_accepted {wids : List ℕ} {ar : AcceptedRow}
    (hrow : d.accepted wids ar = some (id, r)) : wids[ar.index]? = some id ∧
      d.remotes.get? id = some r := by
  obtain ⟨k, hk, hget⟩ := Option.bind_eq_some_iff.mp hrow
  obtain ⟨r', hr', heq⟩ := Option.map_eq_some_iff.mp hget
  obtain ⟨rfl, rfl⟩ := Prod.mk.inj heq
  exact ⟨hk, hr'⟩

theorem Whole.acceptRow (h : Whole cfg E lag d) (node : String) {wids : List ℕ} (peerBatch : ℕ)
    {ar : AcceptedRow} (hrow : d.accepted wids ar = some (id, r)) (hlive : r.isTerminal = false)
    (hwaits : r.awaitsCancel = false) : Whole cfg E lag (acceptRow node wids peerBatch d ar) ∧
      Abides d (acceptRow node wids peerBatch d ar) := by
  have hw := rewrites_acceptRow node peerBatch hrow
  have hget := (get?_of_accepted hrow).2
  obtain ⟨hevidence, hmirrors⟩ := (h.law.mirrored id r hget).atWork hlive
  refine ⟨h.rewrite hw (h.law.rewrite hw hget ⟨nofun, fun _ => ⟨hevidence, ?_⟩⟩
    (Set.Subset.refl _) ?_), .of_rewrites hw hget ?_ ?_⟩
  · rw [hmirrors, List.append_nil]
  · rintro f (hs | ⟨-, ht⟩)
    · exact Or.inl ⟨hs.evidence, by rw [hs.opened, hlive]; rfl, nofun⟩
    · rw [hlive] at ht
      cases ht
  · intro ht
    rw [hlive] at ht
    cases ht
  · intro hs
    simp [RemoteWorker.shelved, hlive, hwaits] at hs

/-- An accept takes its rows on, one by one. -/
theorem Whole.acceptRows (node : String) {wids : List ℕ} (peerBatch : ℕ) (rows : List AcceptedRow)
    (h : Whole cfg E lag d) (hrows : d.Acceptable wids rows) :
    Whole cfg E lag (rows.foldl (Driver.acceptRow node wids peerBatch) d) ∧
      Abides d (rows.foldl (Driver.acceptRow node wids peerBatch) d) := by
  induction rows generalizing d with
  | nil => exact ⟨h, .refl d⟩
  | cons ar rows ih =>
    have htail : d.Acceptable wids rows := fun x hx => hrows x (List.mem_cons_of_mem _ hx)
    cases hrow : d.accepted wids ar with
    | none =>
      rw [List.foldl_cons, show Driver.acceptRow node wids peerBatch d ar = d by
        rw [Driver.acceptRow]
        rw [show (wids[ar.index]?).bind (fun id => (d.remotes.get? id).map fun r => (id, r)) =
          none from hrow]]
      exact ih h htail
    | some x =>
      obtain ⟨id, r⟩ := x
      obtain ⟨hlive, hwaits⟩ := hrows ar List.mem_cons_self id r hrow
      obtain ⟨hwhole, habides⟩ := h.acceptRow node peerBatch hrow hlive hwaits
      have hw := rewrites_acceptRow node peerBatch hrow
      -- A row that was taken on before is at work, and no other has changed.
      have hrest : (Driver.acceptRow node wids peerBatch d ar).Acceptable wids rows := by
        intro ar' har' k x hx
        obtain ⟨hk, hgetk⟩ := get?_of_accepted hx
        rw [show (Driver.acceptRow node wids peerBatch d ar).remotes = _ from
          congrArg Core.remotes hw.core, Table.get?_modify] at hgetk
        split at hgetk
        · obtain ⟨-, -, rfl⟩ := Option.map_eq_some_iff.mp hgetk
          exact ⟨rfl, by simp [RemoteWorker.awaitsCancel]⟩
        · refine htail ar' har' k x ?_
          rw [accepted, hk, Option.bind_some, hgetk]
          rfl
      obtain ⟨hwhole', habides'⟩ := ih hwhole hrest
      exact ⟨hwhole', habides.trans habides'⟩

/-- The row is mirrored with this wire row. -/
def mirrorsWith (r : RemoteWorker) (wire : WireRow) : Bool :=
  (r.told wire).isTerminal && r.evidence.isNone

/-- The row as an applied wire row leaves it. -/
def applied (cfg : Config) (id : ℕ) (r : RemoteWorker) (wire : WireRow) : RemoteWorker :=
  if mirrorsWith r wire then
    { r.told wire with evidence := some (evidencePath cfg.agentsDir id) }
  else r.told wire

theorem told_eq (r : RemoteWorker) (wire : WireRow) : r.told wire = { r with
    stateRaw := wire.state
    summary := if wire.summary.isSome && r.summary ≠ wire.summary then wire.summary
      else r.summary } := by
  unfold RemoteWorker.told
  congr 1
  cases wire.summary with
  | none => rfl
  | some s =>
    by_cases hs : r.summary = some s
    · simp [hs]
    · simp [hs]

/-- What an applied wire row makes of its row: it tells it, and where that ends the row it is
mirrored. -/
theorem applyWireRow_of_hit (cfg : Config) {batch : ℕ} {node : String} {x : Driver × Bool}
    {wire : WireRow}
    (hhit : x.1.hit batch node wire.worker = some (id, r)) :
    Rewrites x.1 (applyWireRow cfg batch node x wire).1 id (applied cfg id r wire)
      (if mirrorsWith r wire then [r.told wire] else []) ∧
    ((x.2 || mirrorsWith r wire) = true → (applyWireRow cfg batch node x wire).2 = true) := by
  unfold applyWireRow
  split
  · rename_i hnone
    rw [hit, hnone] at hhit
    cases hhit
  · rename_i id' r' hfind
    obtain ⟨rfl, rfl⟩ := Prod.mk.inj (Option.some.inj (hfind.symm.trans hhit))
    extract_lets stateChanged summaryChanged r₁ mirrored d₁ r₂ d₂
    have hr₁ : r₁ = r'.told wire := (told_eq r' wire).symm
    have hmirrored : mirrored = mirrorsWith r' wire := by
      unfold mirrored mirrorsWith
      rw [hr₁]
      rfl
    have hr₂ : r₂ = applied cfg id' r' wire := by
      unfold r₂ applied
      rw [hmirrored, hr₁]
    have hd₁ : d₁.core = x.1.core ∧ d₁.side = x.1.side ∧ ∀ k, mirrorsOf k d₁.out =
        mirrorsOf k x.1.out ++ if k = id' then (if mirrorsWith r' wire then [r'.told wire] else [])
          else [] := by
      unfold d₁
      rw [hmirrored, hr₁]
      split
      · refine ⟨rfl, rfl, fun k => (mirrorsOf_append ..).trans ?_⟩
        congr 1
        by_cases hk : k = id'
        · simp [mirrorsOf, hk]
        · simp [mirrorsOf, hk, Ne.symm hk]
      · exact ⟨rfl, rfl, fun k => by simp⟩
    have hd₂ : Rewrites x.1 d₂ id' r₂ (if mirrorsWith r' wire then [r'.told wire] else []) := by
      refine ⟨?_, hd₁.2.1, hd₁.2.2⟩
      rw [core_putRemote, hd₁.1, show d₁.remotes = x.1.remotes from congrArg Core.remotes hd₁.1]
    rw [← hr₂]
    refine ⟨?_, fun hflag => ?_⟩
    · dsimp only
      split
      · exact ⟨hd₂.core, hd₂.side, fun k => by
          rw [← hd₂.mirrored]; exact congrFun (congrArg Slate.mirrored (slate_emitRemoteState _)) k⟩
      · exact hd₂
    · rcases Bool.or_eq_true_iff.mp hflag with hx | hm
      · simp [hx]
      · simp [hmirrored, hm]

/-- The same for a wire row that is about no row here: nothing happens. -/
theorem applyWireRow_of_none {batch : ℕ} {node : String} {x : Driver × Bool} {wire : WireRow}
    (hhit : x.1.hit batch node wire.worker = none) : applyWireRow cfg batch node x wire = x := by
  unfold applyWireRow
  rw [show (x.1.remotes.find? fun _ r => r.batch = batch && r.node = node &&
    r.remoteWorker = some wire.worker) = none from hhit]

theorem steady_congr {rows : List WireRow} {r r' : RemoteWorker} (hstate : r'.stateRaw = r.stateRaw)
    (hsummary : r'.summary = r.summary) : r'.steady rows = r.steady rows := by
  induction rows generalizing r r' with
  | nil => rfl
  | cons wire rows ih =>
    have htold : (r'.told wire).steady rows = (r.told wire).steady rows :=
      ih rfl (by rw [RemoteWorker.told, RemoteWorker.told, hsummary])
    rw [RemoteWorker.steady, RemoteWorker.steady, RemoteWorker.isTerminal, RemoteWorker.isTerminal,
      hstate, hsummary, htold]

/-- What the wire rows of a payload have to be: no news of the rows that have ended. -/
def Steady (d : Driver) (batch : ℕ) (node : String) (rows : List WireRow) : Prop :=
  ∀ wire ∈ rows, ∀ id r, d.hit batch node wire.worker = some (id, r) →
    r.steady (rows.filter fun wire' => wire'.worker = wire.worker) = true

theorem hit_eq_some {batch worker : ℕ} {node : String}
    (h : d.hit batch node worker = some (id, r)) : d.remotes.get? id = some r ∧
      r.batch = batch ∧ r.node = node ∧ r.remoteWorker = some worker := by
  obtain ⟨hget, hp⟩ := Table.find?_eq_some h
  simp only [Bool.and_eq_true, decide_eq_true_eq] at hp
  exact ⟨hget, hp.1.1, hp.1.2, hp.2⟩

/-- A row that is rewritten under its own name is found as before. -/
theorem hit_of_rewrites {batch worker : ℕ} {node : String} (hw : Rewrites d d' id r' mirrors)
    (hget : d.remotes.get? id = some r) (hbatch : r'.batch = r.batch) (hnode : r'.node = r.node)
    (hworker : r'.remoteWorker = r.remoteWorker) : d'.hit batch node worker =
      (d.hit batch node worker).map fun x => if x.1 = id then (x.1, r') else x := by
  rw [hit, show d'.remotes = _ from congrArg Core.remotes hw.core]
  refine Table.find?_modify_const fun v hv => ?_
  obtain rfl := Option.some.inj (hget.symm.trans hv)
  rw [hbatch, hnode, hworker]

theorem told_of_quiet {wire : WireRow} (hstate : wire.state = r.stateRaw)
    (hsummary : wire.summary.or r.summary = r.summary) : r.told wire = r := by
  rw [RemoteWorker.told, hstate, hsummary]

/-- A wire row is applied. What it says of a row that has ended is no news; of another it may be the
end, and then the flag is up. -/
theorem Whole.applyWireRow {batch : ℕ} {node : String} {x : Driver × Bool} {wire : WireRow}
    (h : Whole cfg E {_k | x.2 = true} x.1)
    (hhit : x.1.hit batch node wire.worker = some (id, r))
    (hquiet : r.isTerminal = true →
      wire.state = r.stateRaw ∧ wire.summary.or r.summary = r.summary) :
    Whole cfg E {_k | (applyWireRow cfg batch node x wire).2 = true}
        (applyWireRow cfg batch node x wire).1 ∧
      Abides x.1 (applyWireRow cfg batch node x wire).1 := by
  obtain ⟨hw, hflag⟩ := applyWireRow_of_hit cfg hhit
  obtain ⟨hget, -, -, hworker⟩ := hit_eq_some hhit
  generalize Driver.applyWireRow cfg batch node x wire = y at hw hflag ⊢
  have hlag : {_k : ℕ | x.2 = true} ⊆ {_k | y.2 = true} := by
    intro k hk
    exact hflag (Bool.or_eq_true_iff.mpr (Or.inl hk))
  have hmirrored := h.law.mirrored id r hget
  have hshelved : r.shelved = true → (applied cfg id r wire).shelved = true := by
    simp [RemoteWorker.shelved, hworker]
  cases hlive : r.isTerminal with
  | true =>
    obtain ⟨hevidence, -⟩ := hmirrored.ended hlive
    have hwith : mirrorsWith r wire = false := by simp [mirrorsWith, hevidence]
    have happlied : applied cfg id r wire = r := by
      rw [applied, hwith, told_of_quiet (hquiet hlive).1 (hquiet hlive).2]
      rfl
    rw [happlied, hwith] at hw
    refine ⟨h.rewrite hw (h.law.rewrite hw hget ?_ hlag fun f hf => ?_), .of_rewrites hw hget
      (fun _ => rfl) fun hs => hs⟩
    · exact (List.append_nil _).symm ▸ hmirrored
    · exact hf.imp_right fun hl => ⟨hlag hl.1, hl.2⟩
  | false =>
    obtain ⟨hevidence, hmirrors⟩ := hmirrored.atWork hlive
    refine ⟨?_, .of_rewrites hw hget (fun ht => ?_) hshelved⟩
    · cases hends : (r.told wire).isTerminal with
      | true =>
        have hwith : mirrorsWith r wire = true := by simp [mirrorsWith, hends, hevidence]
        rw [applied, hwith, if_pos rfl] at hw
        refine h.rewrite hw (h.law.rewrite hw hget ⟨fun _ => ⟨rfl, _,
          congrArg (· ++ [_]) hmirrors, rfl, rfl⟩, fun hends' => ?_⟩ hlag fun _ _ => Or.inr ?_)
        · exact absurd (hends.symm.trans hends') (by decide)
        · exact ⟨hflag (by simp [hwith]), hends⟩
      | false =>
        have hwith : mirrorsWith r wire = false := by simp [mirrorsWith, hends]
        rw [applied, hwith] at hw
        refine h.rewrite hw (h.law.rewrite hw hget ⟨fun hends' => ?_, fun _ => ⟨hevidence, ?_⟩⟩
          hlag ?_)
        · exact absurd (hends.symm.trans hends') (by decide)
        · exact (List.append_nil _).trans hmirrors
        · rintro f (hs | ⟨-, ht⟩)
          · refine Or.inl ⟨hs.evidence, ?_, fun hends' => ?_⟩
            · rw [hs.opened, hlive]
              exact congrArg Bool.not hends.symm
            · exact absurd (hends.symm.trans hends') (by decide)
          · rw [hlive] at ht
            cases ht
    · rw [hlive] at ht
      cases ht

/-- A payload is applied, row by row. -/
theorem Whole.applyWireRows {batch : ℕ} {node : String} (rows : List WireRow)
    (x : Driver × Bool) (h : Whole cfg E {_k | x.2 = true} x.1)
    (hsteady : x.1.Steady batch node rows) :
    Whole cfg E {_k | (rows.foldl (Driver.applyWireRow cfg batch node) x).2 = true}
        (rows.foldl (Driver.applyWireRow cfg batch node) x).1 ∧
      Abides x.1 (rows.foldl (Driver.applyWireRow cfg batch node) x).1 := by
  induction rows generalizing x with
  | nil => exact ⟨h, .refl _⟩
  | cons wire rows ih =>
    -- What the rest says of a row is part of what the whole payload says of it.
    have hrest {worker id : ℕ} {r : RemoteWorker} (hne : worker ≠ wire.worker)
        (hsaid : ∃ wire' ∈ rows, wire'.worker = worker)
        (hhit : x.1.hit batch node worker = some (id, r)) :
        r.steady (rows.filter fun wire' => wire'.worker = worker) = true := by
      obtain ⟨wire', hwire', rfl⟩ := hsaid
      have hs := hsteady wire' (List.mem_cons_of_mem _ hwire') id r hhit
      rwa [List.filter_cons_of_neg (by simpa using hne.symm)] at hs
    cases hhit : x.1.hit batch node wire.worker with
    | none =>
      rw [List.foldl_cons, applyWireRow_of_none hhit]
      refine ih x h fun wire' hwire' id r hr => ?_
      refine hrest (fun heq => ?_) ⟨wire', hwire', rfl⟩ hr
      rw [heq, hhit] at hr
      cases hr
    | some found =>
      obtain ⟨id, r⟩ := found
      have hsaid := hsteady wire List.mem_cons_self id r hhit
      rw [List.filter_cons_of_pos (by simp), RemoteWorker.steady, Bool.and_eq_true] at hsaid
      obtain ⟨hnews, hlater⟩ := hsaid
      have hquiet (ht : r.isTerminal = true) :
          wire.state = r.stateRaw ∧ wire.summary.or r.summary = r.summary := by
        simpa [ht] using hnews
      obtain ⟨hwhole, habides⟩ := h.applyWireRow hhit hquiet
      obtain ⟨hw, -⟩ := applyWireRow_of_hit cfg hhit
      obtain ⟨hget, -, -, hworker⟩ := hit_eq_some hhit
      obtain ⟨hwhole', habides'⟩ := ih _ hwhole fun wire' hwire' k q hq => by
        have hfields : (applied cfg id r wire).batch = r.batch ∧
            (applied cfg id r wire).node = r.node ∧
            (applied cfg id r wire).remoteWorker = r.remoteWorker ∧
            (applied cfg id r wire).stateRaw = (r.told wire).stateRaw ∧
            (applied cfg id r wire).summary = (r.told wire).summary := by
          unfold applied
          split <;> exact ⟨rfl, rfl, rfl, rfl, rfl⟩
        rw [hit_of_rewrites hw hget hfields.1 hfields.2.1 hfields.2.2.1] at hq
        obtain ⟨⟨k', q'⟩, hq', heq⟩ := Option.map_eq_some_iff.mp hq
        by_cases hk : k' = id
        · subst hk
          rw [if_pos rfl] at heq
          obtain ⟨rfl, rfl⟩ := Prod.mk.inj heq
          obtain ⟨hget', -, -, hworker'⟩ := hit_eq_some hq'
          obtain rfl := Option.some.inj (hget.symm.trans hget')
          have hsame : wire'.worker = wire.worker :=
            Option.some.inj (hworker'.symm.trans hworker)
          rw [hsame, steady_congr hfields.2.2.2.1 hfields.2.2.2.2]
          exact hlater
        · rw [if_neg hk] at heq
          obtain ⟨rfl, rfl⟩ := Prod.mk.inj heq
          refine hrest (fun hsame => ?_) ⟨wire', hwire', rfl⟩ hq'
          rw [hsame, hhit] at hq'
          exact hk (Prod.mk.inj (Option.some.inj hq')).1.symm
      exact ⟨hwhole', habides.trans habides'⟩

/-! ### A turn of the loop -/

theorem Whole.syncRemoteCell (h : Whole cfg E lag d) {x : ℕ × ℕ × Addr}
    (hx : x ∈ d.cellByWorker.entries) : Whole cfg E (lag \ {x.1}) (syncRemoteCell w d x) := by
  have hact : Act cfg w .tick d d (Driver.syncRemoteCell w d x) := .remoteCellSynced hx
  exact ⟨hact.fresh h.fresh, hact.kinds h.kinds h.fresh,
    (groves_acts h.groves hact.grows h.groves (.refl _) (Nat.le_refl _)).1, h.law.syncRemoteCell hx⟩

/-- After `sync_remote_cells` no cell is behind. -/
theorem Whole.syncRemoteCells (h : Whole cfg E lag d) :
    Whole cfg E ∅ (d.syncRemoteCells w) ∧ Abides d (d.syncRemoteCells w) := by
  have hfold (l : List (ℕ × ℕ × Addr)) : ∀ {d : Driver} {lag : Set ℕ}, Whole cfg E lag d →
      (∀ x ∈ l, x ∈ d.cellByWorker.entries) →
      Whole cfg E {id ∈ lag | id ∉ l.map Prod.fst} (l.foldl (Driver.syncRemoteCell w) d) ∧
        (l.foldl (Driver.syncRemoteCell w) d).remotes = d.remotes ∧
        (l.foldl (Driver.syncRemoteCell w) d).cellByWorker = d.cellByWorker := by
    induction l with
    | nil => exact fun h _ => ⟨by simpa using h, rfl, rfl⟩
    | cons x l ih =>
      intro d lag h hl
      obtain ⟨hwhole, hremotes, hbound⟩ := ih (h.syncRemoteCell (w := w) (hl x List.mem_cons_self))
        fun y hy => by
          rw [cellByWorker_syncRemoteCell]
          exact hl y (List.mem_cons_of_mem _ hy)
      refine ⟨⟨hwhole.fresh, hwhole.kinds, hwhole.groves, hwhole.law.mono fun id _ _ hid => ?_⟩,
        hremotes.trans (remotes_syncRemoteCell x), hbound.trans (cellByWorker_syncRemoteCell ..)⟩
      obtain ⟨⟨hlag, hne⟩, hnot⟩ := hid
      refine ⟨hlag, ?_⟩
      rw [List.map_cons, List.mem_cons, not_or]
      exact ⟨hne, hnot⟩
  obtain ⟨hwhole, hremotes, hbound⟩ := hfold d.cellByWorker.entries h fun x hx => hx
  rw [syncRemoteCells_eq]
  refine ⟨⟨hwhole.fresh, hwhole.kinds, hwhole.groves, hwhole.law.mono fun id x hid hl => ?_⟩,
    .of_remotes hremotes⟩
  rw [hbound] at hid
  exact absurd (List.mem_map_of_mem (f := Prod.fst) (Table.mem_of_get? hid)) hl.2

/-- What follows a change of the rows leaves them alone, and the cells come up to them. -/
theorem Whole.remotesMoved (h : Whole cfg E lag d) :
    Whole cfg E ∅ (d.remotesMoved cfg w) ∧ Abides d (d.remotesMoved cfg w) := by
  obtain ⟨hsync, habides⟩ := h.syncRemoteCells (w := w)
  have hopen := @acts_barriersThen cfg w .tick (d.syncRemoteCells w)
    (fun d => (d.admitQueued cfg w).saveWorkerState w) (fun d => (acts_admitQueued d).tail .save)
    (d.syncRemoteCells w)
  have hacts : Acts cfg w .tick (d.syncRemoteCells w) (d.syncRemoteCells w)
      (d.remotesMoved cfg w) :=
    (hopen.trans (acts_checkBatches _)).tail (.idle (idle_saveRemotes ..))
  obtain ⟨hwhole, habides'⟩ := hsync.acts hacts rfl
  exact ⟨hwhole, habides.trans habides'⟩

theorem Whole.idle (w : World) (h : Whole cfg E lag d) (hidle : Idle d d') :
    Whole cfg E lag d' ∧ Abides d d' :=
  h.acts (.of_idle hidle : Acts cfg w .tick d d d') rfl

theorem Whole.polls (w : World) (h : Whole cfg E lag d) (polls : Table (ℕ × String) PollTarget) :
    Whole cfg E lag { d with polls := polls } ∧ Abides d { d with polls := polls } :=
  h.idle w (.of_eq rfl rfl rfl)

theorem Whole.behind (h : Whole cfg E ∅ d) (lag : Set ℕ) : Whole cfg E lag d :=
  ⟨h.fresh, h.kinds, h.groves, h.law.mono fun _ _ _ hl => hl.elim⟩

/-- The answer to an assignment. -/
theorem Whole.assigned (h : Whole cfg E ∅ d) {batch : ℕ} {node : String} {wids : List ℕ}
    {result : Except String (ℕ × List AcceptedRow)}
    (ho : d.orderly (.assigned batch node wids result) = true) :
    Whole cfg E ∅ (d.handle cfg w (.assigned batch node wids result)) ∧
      Abides d (d.handle cfg w (.assigned batch node wids result)) := by
  have hrows : Whole cfg E Set.univ (d.handleAssignOutcome cfg w batch node wids result) ∧
      Abides d (d.handleAssignOutcome cfg w batch node wids result) := by
    cases result with
    | error cause =>
      have hfold (l : List ℕ) : ∀ {d : Driver}, Whole cfg E Set.univ d →
          Whole cfg E Set.univ (l.foldl (Driver.failRemoteRow cfg cause) d) ∧
            Abides d (l.foldl (Driver.failRemoteRow cfg cause) d) := by
        induction l with
        | nil => exact fun h => ⟨h, .refl _⟩
        | cons id l ih =>
          intro d h
          obtain ⟨hwhole, habides⟩ := h.failRemoteRow cause id
          obtain ⟨hwhole', habides'⟩ := ih hwhole
          exact ⟨hwhole', habides.trans habides'⟩
      exact hfold wids (h.behind _)
    | ok accept =>
      obtain ⟨peerBatch, rows⟩ := accept
      have hacceptable : d.Acceptable wids rows := by
        intro ar har id r hr
        obtain ⟨hid, hget⟩ := get?_of_accepted hr
        have hone := List.all_eq_true.mp ho ar har
        simpa [hid, hget] using hone
      obtain ⟨hwhole, habides⟩ := h.acceptRows node peerBatch rows hacceptable
      obtain ⟨hwhole', habides'⟩ := hwhole.polls w _
      exact ⟨hwhole'.behind _, habides.trans habides'⟩
  obtain ⟨hwhole, habides⟩ := hrows.1.remotesMoved (w := w)
  exact ⟨hwhole, hrows.2.trans habides⟩

theorem steady_of_all {batch : ℕ} {node : String} {rows : List WireRow}
    (h : d.steady batch node rows = true) : d.Steady batch node rows := by
  intro wire hwire id r hr
  have hone := List.all_eq_true.mp h wire hwire
  rwa [hr] at hone

/-- The answer to a poll. -/
theorem Whole.polled (h : Whole cfg E ∅ d) {batch : ℕ} {node : String}
    {result : Except String (List WireRow)} (ho : d.orderly (.polled batch node result) = true) :
    Whole cfg E ∅ (d.handle cfg w (.polled batch node result)) ∧
      Abides d (d.handle cfg w (.polled batch node result)) := by
  have hrows : Whole cfg E {_k | (d.handlePollOutcome cfg w batch node result).2 = true}
        (d.handlePollOutcome cfg w batch node result).1 ∧
      Abides d (d.handlePollOutcome cfg w batch node result).1 := by
    unfold handlePollOutcome
    split
    · exact ⟨h.behind _, .refl d⟩
    · rename_i t hpoll
      cases result with
      | error cause =>
        obtain ⟨hwhole, habides⟩ := h.polls w _
        exact ⟨hwhole.behind _, habides⟩
      | ok rows =>
        have hsteady : d.steady batch node rows = true := by
          simpa [orderly, hpoll] using ho
        obtain ⟨hwhole, habides⟩ := Whole.applyWireRows rows (d, false)
          (h.behind _) (steady_of_all hsteady)
        obtain ⟨hwhole', habides'⟩ := hwhole.polls w _
        exact ⟨hwhole', habides.trans habides'⟩
  unfold handle
  dsimp only
  generalize d.handlePollOutcome cfg w batch node result = y at hrows
  obtain ⟨d₁, changed⟩ := y
  cases changed with
  | true =>
    obtain ⟨hwhole, habides⟩ := hrows.1.remotesMoved (w := w)
    exact ⟨hwhole, hrows.2.trans habides⟩
  | false => exact ⟨by simpa using hrows.1, hrows.2⟩

/-- A peer's report home. -/
theorem Whole.report (h : Whole cfg E ∅ d) {sender : String} {originBatch : Option ℕ}
    {rows : List WireRow} (ho : d.orderly (.mesh (.report sender originBatch rows)) = true) :
    Whole cfg E ∅ (d.handle cfg w (.mesh (.report sender originBatch rows))) ∧
      Abides d (d.handle cfg w (.mesh (.report sender originBatch rows))) := by
  have hrows : Whole cfg E
        {_k | (d.handleMeshReq cfg w (.report sender originBatch rows)).2 = true}
        (d.handleMeshReq cfg w (.report sender originBatch rows)).1 ∧
      Abides d (d.handleMeshReq cfg w (.report sender originBatch rows)).1 := by
    unfold handleMeshReq
    cases originBatch with
    | none =>
      obtain ⟨hwhole, habides⟩ := h.idle w
        (.emit (e := .reply (.refused "missing origin_batch")) rfl)
      exact ⟨hwhole.behind _, habides⟩
    | some batch =>
      dsimp only
      split
      · obtain ⟨hwhole, habides⟩ := h.idle w
          (.emit (e := .reply (.refused "no such remote batch here")) rfl)
        exact ⟨hwhole.behind _, habides⟩
      · obtain ⟨hwhole, habides⟩ := Whole.applyWireRows rows (d, false)
          (h.behind _) (steady_of_all ho)
        obtain ⟨hwhole', habides'⟩ := hwhole.polls w _
        obtain ⟨hwhole'', habides''⟩ := hwhole'.idle w
          (.emit (e := .reply (.applied rows.length)) rfl)
        exact ⟨hwhole'', (habides.trans habides').trans habides''⟩
  change Whole cfg E ∅ (d.meshRequest cfg w (.report sender originBatch rows)) ∧
    Abides d (d.meshRequest cfg w (.report sender originBatch rows))
  unfold meshRequest
  generalize d.handleMeshReq cfg w (.report sender originBatch rows) = y at hrows
  obtain ⟨d₁, saved⟩ := y
  cases saved with
  | false => exact ⟨by simpa using hrows.1, hrows.2⟩
  | true =>
    obtain ⟨hsync, habides⟩ := hrows.1.syncRemoteCells (w := w)
    have hopen := @acts_barriersThen cfg w .tick (d₁.syncRemoteCells w)
      (fun d => d.admitQueued cfg w) acts_admitQueued (d₁.syncRemoteCells w)
    have hacts := (((hopen.tail .save).tail .save).tail (.idle (idle_saveRemotes w _))).trans
      (acts_checkBatches _)
    obtain ⟨hwhole, habides'⟩ := hsync.acts hacts rfl
    exact ⟨hwhole, (hrows.2.trans habides).trans habides'⟩

/-- **What a turn of the loop preserves of the rows**, if its answer is orderly. -/
theorem Whole.react (h : Whole cfg E ∅ { d with out := [] }) (ho : d.orderly i = true) :
    Whole cfg E ∅ (d.react cfg w i) ∧ Abides d (d.react cfg w i) := by
  by_cases hi : i.answers = true
  · cases i with
    | assigned batch node wids result => exact h.assigned ho
    | polled batch node result => exact h.polled ho
    | mesh req =>
      cases req with
      | report sender originBatch rows => exact h.report ho
      | fanout => cases hi
      | query => cases hi
      | cancel => cases hi
    | _ => cases hi
  · exact h.acts (acts_handle h.fresh i) (by simpa using hi)

/-! ### Cancels -/

theorem abides_foldl_relayOne (ids : List ℕ) (x : Driver × CancelGroups) :
    Abides x.1 (ids.foldl relayOne x).1 := by
  induction ids generalizing x with
  | nil => exact .refl _
  | cons id ids ih => exact (abides_relayOne x id).trans (ih _)

/-- What is to be cancelled and was not accepted is shelved. -/
theorem shelved_relayRemoteCancels {ids : List ℕ} (hid : id ∈ ids)
    (hget : d.remotes.get? id = some r) (hnone : r.remoteWorker = none) :
    ∃ r', (d.relayRemoteCancels w ids).remotes.get? id = some r' ∧ r'.shelved = true := by
  have hfold (l : List ℕ) : ∀ x : Driver × CancelGroups, x.1.remotes.get? id = some r → id ∈ l →
      ∃ r', (l.foldl relayOne x).1.remotes.get? id = some r' ∧ r'.shelved = true := by
    induction l with
    | nil => exact fun _ _ h => absurd h List.not_mem_nil
    | cons k l ih =>
      intro x hx hl
      by_cases hk : id = k
      · subst hk
        obtain ⟨r', hr', hshelved⟩ := shelved_relayOne hx hnone
        obtain ⟨r'', hr'', -, hkeeps⟩ := abides_foldl_relayOne l (relayOne x id) id r' hr'
        exact ⟨r'', hr'', hkeeps hshelved⟩
      · exact ih _ ((remotes_relayOne_of_ne hk).trans hx) ((List.mem_cons.mp hl).resolve_left hk)
  have hposts (l : List ((ℕ × String) × Option ℕ × List ℕ)) (d₁ : Driver) :
      (l.foldl (fun d g => g.2.1.elim d fun rb =>
        if w.registered g.1.2 then d.emit (.post g.1.2 (.cancel rb g.2.2)) else d) d₁).remotes =
      d₁.remotes := by
    induction l generalizing d₁ with
    | nil => rfl
    | cons g l ih =>
      obtain ⟨key, peerBatch, ids⟩ := g
      refine (ih _).trans ?_
      cases peerBatch with
      | none => rfl
      | some rb =>
        dsimp only [Option.elim_some]
        split <;> rfl
  unfold relayRemoteCancels
  split
  rename_i d₁ groups heq
  rw [hposts]
  obtain ⟨r', hr', hshelved⟩ := hfold ids (d, Table.empty) hget hid
  rw [heq] at hr'
  exact ⟨r', hr', hshelved⟩

theorem remotes_cancelWorkers (ids : List ℕ) : (d.cancelWorkers w ids).remotes = d.remotes := by
  unfold cancelWorkers
  induction ids generalizing d with
  | nil => rfl
  | cons id ids ih => exact ih.trans (congrArg Slate.remotes slate_cancelOne)

/-- The workers and the rows of a cancel go, and what follows keeps what was shelved. -/
theorem Whole.shelves_of_relay (w : World) (h : Whole cfg E ∅ d) (ids : List ℕ)
    {remoteIds : List ℕ} (hid : id ∈ remoteIds) (hget : d.remotes.get? id = some r)
    (hnone : r.remoteWorker = none)
    (hrest : Acts cfg w .tick ((d.cancelWorkers w ids).relayRemoteCancels w remoteIds)
      ((d.cancelWorkers w ids).relayRemoteCancels w remoteIds) d') :
    ∃ r', d'.remotes.get? id = some r' ∧ r'.shelved = true := by
  have hwhole := (h.acts (w := w) (i := .tick)
    ((acts_cancelWorkers ids).trans (acts_relayRemoteCancels remoteIds)) rfl).1
  obtain ⟨r', hr', hshelved⟩ := shelved_relayRemoteCancels (w := w) (d := d.cancelWorkers w ids) hid
    ((congrArg (Table.get? · id) (remotes_cancelWorkers ids)).trans hget) hnone
  obtain ⟨r'', hr'', -, hkeeps⟩ := (hwhole.acts hrest rfl).2 id r' hr'
  exact ⟨r'', hr'', hkeeps hshelved⟩

/-- **A cancel of a row that is being assigned** shelves it. -/
theorem Whole.shelves (h : Whole cfg E ∅ { d with out := [] }) (hasks : d.asksCancel id i = true)
    (hget : d.remotes.get? id = some r) (hnone : r.remoteWorker = none) :
    ∃ r', (d.react cfg w i).remotes.get? id = some r' ∧ r'.shelved = true := by
  cases i with
  | request session call tool args =>
    simp only [asksCancel, Bool.and_eq_true, decide_eq_true_eq] at hasks
    obtain ⟨rfl, htargets⟩ := hasks
    obtain ⟨⟨ids, remoteIds⟩, htarget⟩ : ∃ x, d.cancelTargets args = some x := by
      cases htarget : d.cancelTargets args with
      | none => simp [htarget] at htargets
      | some x => exact ⟨x, rfl⟩
    have hid : id ∈ remoteIds := by simpa [htarget] using htargets
    have hhandle : d.react cfg w (.request session call "worker_cancel" args) =
        ({ d with out := [] } : Driver).workerCancel cfg w session call args := by
      unfold Driver.react Driver.handle
      dsimp only
      rw [if_neg (by decide), if_neg (by decide), if_neg (by decide),
        if_neg (by decide), if_pos rfl]
    rw [hhandle]
    unfold workerCancel
    rw [show ({ d with out := [] } : Driver).cancelTargets args = some (ids, remoteIds)
      from htarget]
    dsimp only
    rw [if_neg (by simp [List.ne_nil_of_mem hid])]
    refine h.shelves_of_relay w ids hid hget hnone ?_
    refine Relation.ReflTransGen.tail ?_ (.idle (idle_saveRemotes w _))
    refine Relation.ReflTransGen.tail ?_ .save
    refine (Relation.ReflTransGen.trans ?_ (acts_admitQueued _)).trans (acts_checkBatches _)
    refine Relation.ReflTransGen.trans ?_ (acts_checkBarriers _)
    exact (Acts.emit rfl).trans (acts_syncCells cfg w _)
  | goalEnded state parent =>
    cases state with
    | cancelled =>
      have hrow : id ∈ d.remotes.keysWhere fun _ r => r.parent = parent && !r.isTerminal :=
        Table.mem_keysWhere.mpr ⟨r, hget, by simpa [asksCancel, hget] using hasks⟩
      change ∃ r', ((({ d with out := [] } : Driver).cascade cfg w parent).tryCloseForConductor w
        parent).remotes.get? id = some r' ∧ r'.shelved = true
      unfold cascade
      extract_lets ids remoteIds
      rw [if_neg (by simp [List.ne_nil_of_mem (show id ∈ remoteIds from hrow)])]
      refine h.shelves_of_relay w ids hrow hget hnone ?_
      refine Relation.ReflTransGen.trans ?_ (acts_tryCloseForConductor parent)
      refine Relation.ReflTransGen.tail ?_ (.idle (idle_saveRemotes w _))
      refine Relation.ReflTransGen.tail ?_ .save
      exact ((acts_admitQueued _).trans (acts_checkBatches _)).trans (acts_syncCells cfg w _)
    | _ => cases hasks
  | _ => cases hasks

end Driver

/-! ### Runs -/

namespace Node

open Driver (Input)

/-- The happenings of a process that handles these inputs, each in its world. -/
def handledAll (inputs : List (World × Input)) : List Happening :=
  inputs.map fun x => .handled x.1 x.2

/-- An answer that is handled undoes nothing. -/
def Orderly (n : Node) : Happening → Prop
  | .handled _ i => n.driver.orderly i = true
  | _ => True

/-- What holds of the rows between two points of a run of a new process: after the inputs of `past`,
and after those of `next` as well. A row that has ended stays as it ended; a row, its mirror and its
cell say the same; and if the first of the next inputs asks for a cancel of a row that the peer has
not accepted, then when it is accepted it has ended, or a cancel for it was sent. -/
structure Converges (cfg : Config) (w : World) (past next : List (World × Input)) : Prop where
  ended : ∀ id r,
    (Run.final (step cfg) (fresh cfg w) (handledAll past)).driver.remotes.get? id = some r →
    r.isTerminal = true → ∃ r',
      (Run.final (step cfg) (fresh cfg w) (handledAll (past ++ next))).driver.remotes.get? id =
        some r' ∧ r'.stateRaw = r.stateRaw
  agrees : ∀ id r, (Run.final (step cfg) (fresh cfg w)
      (handledAll (past ++ next))).driver.remotes.get? id = some r →
    (Run.final (step cfg) (fresh cfg w) (handledAll (past ++ next))).driver.Agrees cfg
      (effects (Run.log (step cfg) (fresh cfg w) (handledAll (past ++ next)))) id r
  cancelled : ∀ id r,
    (Run.final (step cfg) (fresh cfg w) (handledAll past)).driver.remotes.get? id = some r →
    r.remoteWorker = none → ∀ x ∈ next.head?,
    (Run.final (step cfg) (fresh cfg w) (handledAll past)).driver.asksCancel id x.2 = true →
    ∀ r' worker, (Run.final (step cfg) (fresh cfg w)
      (handledAll (past ++ next))).driver.remotes.get? id = some r' →
    r'.remoteWorker = some worker → r'.isTerminal = true ∨ ∃ node peerBatch workers,
      .post node (.cancel peerBatch workers) ∈ effects (Run.log (step cfg)
        (Run.final (step cfg) (fresh cfg w) (handledAll past)) (handledAll next)) ∧
      worker ∈ workers

variable {cfg : Config} {w : World} {n : Node} {past : List (Happening × List Effect)}

/-- What a process keeps of its rows. -/
def Keeping (cfg : Config) (past : List (Happening × List Effect)) (n : Node) : Prop :=
  Driver.Whole cfg (effects past) ∅ { n.driver with out := [] }

theorem keeping_fresh (cfg : Config) (w : World) : Keeping cfg [] (fresh cfg w) := by
  have hplanted := planted_fresh cfg w
  refine ⟨hplanted.fresh.blankOut, ?_, hplanted.groves.of_woods rfl, ?_⟩
  · exact fun _ h => nomatch h
  · exact ⟨(fun _ _ h => nomatch h), (fun _ _ => rfl), (fun _ _ h => nomatch h),
      (fun _ _ _ h => nomatch h), (fun _ _ _ h => nomatch h), (fun _ _ _ h => nomatch h)⟩

/-- **One turn of the loop** keeps the rows, and each row goes on as it must. -/
theorem Keeping.handled (h : Keeping cfg past n) {w : World} {i : Input}
    (ho : n.driver.orderly i = true) :
    Keeping cfg (past ++ [(.handled w i, (n.step cfg (.handled w i)).2)])
      (n.step cfg (.handled w i)).1 ∧ n.driver.Abides (n.step cfg (.handled w i)).1.driver := by
  obtain ⟨hwhole, habides⟩ := Driver.Whole.react (w := w) h ho
  refine ⟨⟨hwhole.fresh.blankOut, hwhole.kinds, hwhole.groves.of_woods rfl, ?_⟩, habides⟩
  have hlaw := hwhole.law
  have hdone : effects (past ++ [(.handled w i, (n.step cfg (.handled w i)).2)]) ++ [] =
      effects past ++ (n.driver.react cfg w i).out := by
    rw [effects, List.flatMap_append, List.append_nil, List.flatMap_singleton]
    rfl
  refine ⟨fun id r hr => ?_, fun id hr => ?_, hlaw.known, hlaw.apart, hlaw.branch, hlaw.shown⟩
  · rw [hdone]
    exact hlaw.mirrored id r hr
  · rw [hdone]
    exact hlaw.unborn id hr

/-- What a run of orderly answers keeps. -/
theorem keeping_run {n : Node} (h : Keeping cfg past n) (inputs : List (World × Input))
    (ho : Run.Always (step cfg) n (fun _ n e => n.Orderly e) (handledAll inputs)) :
    Keeping cfg (past ++ Run.log (step cfg) n (handledAll inputs))
        (Run.final (step cfg) n (handledAll inputs)) ∧
      n.driver.Abides (Run.final (step cfg) n (handledAll inputs)).driver := by
  induction inputs generalizing n past with
  | nil => exact ⟨(List.append_nil past).symm ▸ h, .refl _⟩
  | cons x inputs ih =>
    obtain ⟨hnow, hlater⟩ := Run.always_cons.mp ho
    obtain ⟨hkeeping, habides⟩ := h.handled (w := x.1) hnow
    obtain ⟨hkeeping', habides'⟩ := ih hkeeping hlater
    refine ⟨?_, habides.trans habides'⟩
    rw [List.append_assoc] at hkeeping'
    exact hkeeping'

theorem Keeping.agrees (h : Keeping cfg past n) {id : ℕ} {r : RemoteWorker}
    (hget : n.driver.remotes.get? id = some r) : n.driver.Agrees cfg (effects past) id r := by
  refine ⟨?_, fun mid a hbound => ?_⟩
  · have hmirrored := h.law.mirrored id r hget
    rwa [show effects past ++ ({ n.driver with out := [] } : Driver).out = effects past from
      List.append_nil _] at hmirrored
  · obtain ⟨f, hf, hshown⟩ := h.law.shown id mid a hbound
    obtain ⟨c, hc, rfl⟩ := Option.map_eq_some_iff.mp hf
    exact ⟨c, hc, (hshown r hget).resolve_right fun hl => hl.1⟩

/-- **Rows converge**, over every run of a new process whose answers are orderly: whatever inputs it
handles in whatever order, a row that has ended stays as it ended, rows, mirrors and cells agree,
and a cancel of a row that is being assigned is not forgotten. -/
theorem converges_of_orderly (cfg : Config) (w : World) (past next : List (World × Input))
    (ho : Run.Always (step cfg) (fresh cfg w) (fun _ n e => n.Orderly e)
      (handledAll (past ++ next))) : Converges cfg w past next := by
  have happend : handledAll (past ++ next) = handledAll past ++ handledAll next := List.map_append
  have hall := keeping_run (keeping_fresh cfg w) (past ++ next) ho
  rw [happend] at ho
  have hpast := keeping_run (keeping_fresh cfg w) past ho.of_append
  have hfinal : Run.final (step cfg) (fresh cfg w) (handledAll (past ++ next)) =
      Run.final (step cfg) (Run.final (step cfg) (fresh cfg w) (handledAll past))
        (handledAll next) := by
    rw [happend, Run.final_append]
  refine ⟨fun id r hr hends => ?_, fun id r hr => hall.1.agrees hr,
    fun id r hr hnone x hx hasks r' worker hr' hworker => ?_⟩
  · obtain ⟨r', hr', hended, -⟩ := (keeping_run hpast.1 next ho.drop).2 id r hr
    exact ⟨r', hfinal ▸ hr', hended hends⟩
  · -- The row is shelved by the first of the next inputs, and is never accepted.
    obtain ⟨rest, rfl⟩ : ∃ rest, next = x :: rest := List.head?_eq_some_iff.mp hx
    obtain ⟨hnow, hlater⟩ := Run.always_cons.mp ho.drop
    obtain ⟨r₁, hr₁, hshelved⟩ := hpast.1.shelves (w := x.1) hasks hr hnone
    have hkeeping := (Keeping.handled (w := x.1) hpast.1 hnow).1
    obtain ⟨r₂, hr₂, -, hkeeps⟩ := (keeping_run hkeeping rest hlater).2 id r₁ hr₁
    rw [hfinal] at hr'
    obtain rfl : r₂ = r' := Option.some.inj (hr₂.symm.trans hr')
    have hs := hkeeps hshelved
    simp [RemoteWorker.shelved, hworker] at hs

/-- A fan-out of one task for a peer. -/
def peerFan : Input :=
  .request 7 1 "task_fanout" (.object [("tasks", .array [.object
    [("prompt", .string "two"), ("node", .string "peer")]])])

/-- The peer accepts it. -/
def peerAccept : Input := .assigned 1 "peer" [1] (.ok (5, [⟨0, 9, 3⟩]))

/-- The peer's worker in a state. -/
def peerRow (state : String) (summary : Option String) : WireRow :=
  ⟨9, 3, state, false, summary, summary.isSome⟩

/-- The task is done, by the peer's own report. -/
def peerReport : Input := .mesh (.report "peer" (some 1) [peerRow "done" (some "it is there")])

/-- A cancel of the row. -/
def rowCancel : Input :=
  .request 7 2 "worker_cancel" (.object [("worker", .number (.posInt 1))])

instance (n : Node) : DecidablePred n.Orderly
  | .handled _ i => inferInstanceAs (Decidable (n.driver.orderly i = true))
  | .crashed .. => isTrue trivial
  | .restarted _ => isTrue trivial

/-- The peer reports, and says the same once more when it is polled. -/
theorem converges_peerReport :
    Converges .small (.calm 0)
      [(.calm 1, peerFan), (.calm 2, peerAccept), (.calm 3, peerReport)]
      [(.calm 4, .polled 1 "peer" (.ok [peerRow "done" (some "it is there")]))] ∧
    ((Run.final (step .small) (fresh .small (.calm 0)) (handledAll [(.calm 1, peerFan),
      (.calm 2, peerAccept), (.calm 3, peerReport), (.calm 4, .polled 1 "peer"
        (.ok [peerRow "done" (some "it is there")]))])).driver.remotes.get? 1).map
      RemoteWorker.stateRaw = some "done" :=
  ⟨converges_of_orderly .small (.calm 0) _ _ (by decide +kernel), by decide +kernel⟩

/-- A peer is told to stop. -/
def tellsCancel : Effect → Bool
  | .post _ (.cancel ..) => true
  | _ => false

/-- An answer to a poll that was under way when the report came takes the row back to work; and a
row that was cancelled while it was being assigned is queued when the peer accepts it, and nobody
tells the peer. -/
theorem not_converges :
    ¬ Converges .small (.calm 0)
        [(.calm 1, peerFan), (.calm 2, peerAccept), (.calm 3, peerReport)]
        [(.calm 4, .polled 1 "peer" (.ok [peerRow "running" none]))] ∧
      ¬ Converges .small (.calm 0) [(.calm 1, peerFan)]
        [(.calm 2, rowCancel), (.calm 3, peerAccept)] := by
  constructor
  · intro h
    have hdone : ((Run.final (step .small) (fresh .small (.calm 0)) (handledAll [(.calm 1, peerFan),
        (.calm 2, peerAccept), (.calm 3, peerReport)])).driver.remotes.get? 1).map
        (fun r => (r.stateRaw, r.isTerminal)) = some ("done", true) := by decide +kernel
    have hrunning : ((Run.final (step .small) (fresh .small (.calm 0)) (handledAll
        ([(.calm 1, peerFan), (.calm 2, peerAccept), (.calm 3, peerReport)] ++ [(.calm 4,
          .polled 1 "peer" (.ok [peerRow "running" none]))]))).driver.remotes.get? 1).map
        RemoteWorker.stateRaw = some "running" := by decide +kernel
    obtain ⟨r, hr, hstate⟩ := Option.map_eq_some_iff.mp hdone
    obtain ⟨hword, hends⟩ := Prod.mk.inj hstate
    obtain ⟨r', hr', hsame⟩ := h.ended 1 r hr hends
    rw [hr', Option.map_some, hsame, hword] at hrunning
    exact absurd hrunning (by decide)
  · intro h
    have hasked : ((Run.final (step .small) (fresh .small (.calm 0)) (handledAll
        [(.calm 1, peerFan)])).driver.remotes.get? 1).map RemoteWorker.remoteWorker = some none ∧
        (Run.final (step .small) (fresh .small (.calm 0)) (handledAll
          [(.calm 1, peerFan)])).driver.asksCancel 1 rowCancel = true := by decide +kernel
    have hqueued : ((Run.final (step .small) (fresh .small (.calm 0)) (handledAll
        ([(.calm 1, peerFan)] ++
          [(.calm 2, rowCancel), (.calm 3, peerAccept)]))).driver.remotes.get?
        1).map (fun r => (r.remoteWorker, r.isTerminal)) = some (some 9, false) := by decide +kernel
    have hsilent : ∀ e ∈ effects (Run.log (step .small) (Run.final (step .small)
        (fresh .small (.calm 0)) (handledAll [(.calm 1, peerFan)])) (handledAll
          [(.calm 2, rowCancel), (.calm 3, peerAccept)])),
        tellsCancel e = false := by decide +kernel
    obtain ⟨r, hr, hnone⟩ := Option.map_eq_some_iff.mp hasked.1
    obtain ⟨r', hr', hstate⟩ := Option.map_eq_some_iff.mp hqueued
    obtain ⟨hworker, hlive⟩ := Prod.mk.inj hstate
    rcases h.cancelled 1 r hr hnone _ rfl hasked.2 r' 9 hr' hworker with
      hends | ⟨node, peerBatch, workers, hpost, -⟩
    · rw [hlive] at hends
      cases hends
    · exact Bool.noConfusion (hsilent _ hpost)

end Node

end ApexOS.Fabrica
