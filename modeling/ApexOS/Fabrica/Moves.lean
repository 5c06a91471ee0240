import ApexOS.Fabrica.Loop
import Mathlib.Logic.Relation

/-!
# What the worker driver can do

The handlers of the loop are long and share their parts. This module says once what they are made
of: `Life` is everything that can happen to one worker, with what has to be the case for it, and
`Move` everything that can happen to the driver's books, the effects included. `Fabrica.Handling`
has the link: whatever the driver handles, it makes a number of moves. What holds of every move then
holds of every handler, and the results about whole runs are proved from there.

What a move does to the trees, the polls and the shared maps is left open; the books are the
workers, the batches, the mirror rows and the counters.

## Main definitions

* `Effect.plain`: an effect that is no part of any trail
* `Driver.Life`: what can happen to a worker
* `Driver.Trail`: the effects that come with it
* `Driver.Move`: what can happen to the books
* `Driver.Fresh`: the counters are ahead of every id in use

## Main results

* `Driver.Move.workers`, `Driver.Move.batches`, `Driver.Move.remotes`: what a move does to each of
  the books
* `Driver.Move.keeps`: a worker stays, as the one it was
* `Driver.Move.fresh`: the counters stay ahead
-/

namespace ApexOS.Fabrica

open ApexOS.Agentd (SessionId ActionId WorkerState GoalState)

/-! ### Effects -/

namespace Effect

/-- The work order of a worker's first step. -/
def isOrder (id : ℕ) : Effect → Bool
  | .event (.userPrompt _ (.first id' ..)) => id' = id
  | _ => false

/-- A worker's evidence file. -/
def isEvidence (id : ℕ) : Effect → Bool
  | .evidence id' _ => id' = id
  | _ => false

/-- The end of a worker's episode. -/
def isEpisodeEnd (id : ℕ) : Effect → Bool
  | .episodeEnd id' .. => id' = id
  | _ => false

/-- The report of a batch. -/
def isReport (batch : ℕ) : Effect → Bool
  | .event (.taskBatchDone batch' ..) => batch' = batch
  | _ => false

/-- The card of a worker of this batch, with this conductor. -/
def isCard (batch : ℕ) (parent : SessionId) : Effect → Bool
  | .event (.workerStateChanged _ batch' parent' ..) => batch' = batch && parent' = parent
  | _ => false

/-- One of the older files that mirror a transaction. -/
def isMirror : Effect → Bool
  | .workersFile .. | .batchesFile .. => true
  | _ => false

/-- Nothing of a trail: no transaction and none of its mirrors, no file of the mirror rows, no
evidence, no episode's end, no report, no card, no first work order, and no result that names
workers. -/
def plain : Effect → Bool
  | .mandalasFile .. | .cellFile .. | .mirror .. | .episodeStart .. | .post .. => true
  | .event (.userPrompt _ (.first ..)) => false
  | .event (.userPrompt ..) | .event (.userCancel _) => true
  | .event (.toolResult _ _ (.fanned _)) | .event (.toolResult _ _ (.reported ..)) => false
  | .event (.toolResult ..) => true
  | .reply (.accepted ..) => false
  | .reply _ => true
  | _ => false

end Effect

namespace Driver

/-! ### The books -/

/-- The books: workers, batches, mirror rows and the counters. -/
structure Core where
  workers : Workers
  batches : Batches
  remotes : Remotes
  nextWorkerId : ℕ
  nextBatchId : ℕ
  nextWorkerSid : SessionId
  txnSeq : ℕ

/-- The books of a driver. -/
def core (d : Driver) : Core :=
  ⟨d.workers, d.batches, d.remotes, d.nextWorkerId, d.nextBatchId, d.nextWorkerSid, d.txnSeq⟩

section Core

variable (d : Driver) (w : World) (id : ℕ) (wk : Worker)

@[simp] theorem core_workers : d.core.workers = d.workers := rfl

@[simp] theorem core_batches : d.core.batches = d.batches := rfl

@[simp] theorem core_remotes : d.core.remotes = d.remotes := rfl

@[simp] theorem core_emit (e : Effect) : (d.emit e).core = d.core := rfl

@[simp] theorem core_send (e : Event) : (d.send e).core = d.core := rfl

@[simp] theorem core_write (e : Bool → Effect) : (d.write w e).core = d.core := rfl

@[simp] theorem core_refuse (s : SessionId) (c : ActionId) (m : String) :
    (d.refuse s c m).core = d.core := rfl

@[simp] theorem core_emitState (detail : String) : (d.emitState id wk detail).core = d.core := rfl

@[simp] theorem core_emitRemoteState (r : RemoteWorker) (detail : String) :
    (d.emitRemoteState id r detail).core = d.core := rfl

@[simp] theorem core_armWorker : (d.armWorker wk).core = d.core := rfl

@[simp] theorem core_disarmWorker (s : SessionId) : (d.disarmWorker s).core = d.core := rfl

@[simp] theorem core_finalizeTerminal : (d.finalizeTerminal id wk).core = d.core := by
  unfold finalizeTerminal
  cases wk.episode <;> rfl

@[simp] theorem core_setCell (mandala : ℕ) (addr : Addr) (f : CellRecord → CellRecord) :
    (d.setCell w mandala addr f).core = d.core := by
  rw [setCell]
  split <;> rfl

@[simp] theorem core_put :
    (d.put id wk).core = { d.core with workers := d.workers.modify id fun _ => wk } := rfl

@[simp] theorem core_putRemote (r : RemoteWorker) :
    (d.putRemote id r).core = { d.core with remotes := d.remotes.modify id fun _ => r } := rfl

@[simp] theorem out_emit (e : Effect) : (d.emit e).out = d.out ++ [e] := rfl

@[simp] theorem out_send (e : Event) : (d.send e).out = d.out ++ [.event e] := rfl

@[simp] theorem out_put : (d.put id wk).out = d.out := rfl

@[simp] theorem out_putRemote (r : RemoteWorker) : (d.putRemote id r).out = d.out := rfl

@[simp] theorem out_armWorker : (d.armWorker wk).out = d.out := rfl

@[simp] theorem out_disarmWorker (s : SessionId) : (d.disarmWorker s).out = d.out := rfl

end Core

/-- From `d` to `d'` only plain things are done, and the books stay. -/
structure Aside (d d' : Driver) : Prop where
  core : d'.core = d.core
  out : ∃ effs, d'.out = d.out ++ effs ∧ ∀ e ∈ effs, e.plain = true

variable {cfg : Config} {w : World} {d d' d'' : Driver}

theorem Aside.refl (d : Driver) : Aside d d := ⟨rfl, [], by simp⟩

theorem Aside.trans (h : Aside d d') (h' : Aside d' d'') : Aside d d'' := by
  obtain ⟨effs, hout, hplain⟩ := h.out
  obtain ⟨effs', hout', hplain'⟩ := h'.out
  refine ⟨h'.core.trans h.core, effs ++ effs', by rw [hout', hout, List.append_assoc], ?_⟩
  intro e he
  exact (List.mem_append.mp he).elim (hplain e) (hplain' e)

theorem Aside.of_eq (hcore : d'.core = d.core) (hout : d'.out = d.out) : Aside d d' :=
  ⟨hcore, [], by simp [hout]⟩

theorem Aside.emit {e : Effect} (he : e.plain = true) : Aside d (d.emit e) :=
  ⟨rfl, [e], rfl, by simpa using he⟩

theorem Aside.foldl {α : Type*} {f : Driver → α → Driver} (h : ∀ d a, Aside d (f d a)) (l : List α)
    (d : Driver) : Aside d (l.foldl f d) := by
  induction l generalizing d with
  | nil => exact Aside.refl d
  | cons a l ih => exact (h d a).trans (ih _)

theorem aside_setCell (d : Driver) (w : World) (mandala : ℕ) (addr : Addr)
    (f : CellRecord → CellRecord) : Aside d (d.setCell w mandala addr f) := by
  refine ⟨core_setCell .., ?_⟩
  rw [setCell]
  split
  · exact ⟨[], by simp⟩
  · exact ⟨[_], rfl, by simp [Effect.plain]⟩

/-! ### A worker's life -/

/-- What is going on: the sweep of a review, the handling of an input, or the closing of it, when
batches report. -/
inductive Cause
  | review
  | handling (i : Input)
  | closing

/-- The input cancels this worker: by its id, by its batch, or with its conductor's goal. -/
def Input.Cancels (id : ℕ) (wk : Worker) : Input → Prop
  | .request _ _ tool args => tool = "worker_cancel" ∧
      (natField args "worker" = some id ∨ natField args "batch" = some wk.batch)
  | .mesh (.cancel _ batch _) => batch = some wk.batch
  | .goalEnded state session => state = .cancelled ∧ session = wk.parent
  | _ => False

/-- A step of the worker is under way, as the handlers of a turn see it. -/
def Worker.stepping (wk : Worker) : Bool := wk.state = .running || wk.state = .blocked

/-- What a completed turn can come to: the worker rests, or goes on with its next step. -/
inductive Turned (w : World) (wk : Worker) : Worker → Option Prompt → Prop
  | rests {state : WorkerState} {started : ℕ} {summary : Option String} {artifacts : List String}
      (h : state = .done ∨ state = .failed ∨ state = .blocked ∨ state = .idle) :
      Turned w wk { wk with
        state := state, started := started, summary := summary, artifacts := artifacts
        turnInflight := false, pending := none } none
  | goesOn {id batch step ceiling shown : ℕ} {task : Task} {steer : Option String} :
      Turned w wk { wk with
        step := step, stepCeiling := ceiling, started := w.now, turnInflight := true
        pending := none } (some (.next id batch step shown task steer))

/-- What can happen to a worker other than its admission. -/
inductive Life (cfg : Config) (w : World) (id : ℕ) : Cause → Worker → Worker → Prop
  | reported {i : Input} {wk : Worker} {verdict : Verdict} (h : Worker.stepping wk = true) :
      Life cfg w id (.handling i) wk { wk with pending := some verdict }
  | turned {wk wk' : Worker} {next : Option Prompt} (h : Worker.stepping wk = true)
      (hturn : Turned w wk wk' next) : Life cfg w id (.handling (.turnComplete wk.session)) wk wk'
  | lastReview {i : Input} {wk : Worker} (h : wk.isTerminal = true) :
      Life cfg w id (.handling i) wk { wk with nextReview := some w.now }
  | woken {wk : Worker} (h : wakes wk = true) :
      Life cfg w id (.handling (.userPrompt wk.session)) wk (woken cfg w id wk)
  | episode {i : Input} {wk : Worker} (h : wk.episode = none) :
      Life cfg w id (.handling i) wk { wk with episode := w.episode id }
  | suspended {tool : String} {wk : Worker} (h : wk.state = .running) :
      Life cfg w id (.handling (.approvalPending wk.session tool)) wk { wk with state := .blocked }
  | resumed {wk : Worker} (h : wk.state = .blocked) :
      Life cfg w id (.handling (.userApproval wk.session)) wk
        { wk with state := .running, started := w.now }
  | errored {wk : Worker} :
      Life cfg w id (.handling (.turnError wk.session)) wk { wk with errored := true }
  | cancelled {i : Input} {wk : Worker} (h : wk.isTerminal = false) (hi : i.Cancels id wk) :
      Life cfg w id (.handling i) wk { wk with
        state := .cancelled, turnInflight := false, pending := none, barrierHeld := false
        nextReview := some w.now }
  | opened {i : Input} {wk : Worker} {block : BarrierBlock} (hheld : wk.barrierHeld = true)
      (hqueued : wk.state = .queued) :
      Life cfg w id (.handling i) wk { wk with
        task := { wk.task with blocks := wk.task.blocks ++ [block] }, barrierHeld := false }
  | stalled {wk : Worker} {t : Option ℕ} {key : Option String} {n : ℕ} (h : wk.posture = .live)
      (hstate : wk.state = .running) (helapsed : cfg.stepTimeout < wk.elapsed w.now) :
      Life cfg w id .review wk { wk with
        state := .failed, turnInflight := false, nextReview := t, lastReviewKey := key
        reviewAttempt := n }
  | parked {wk : Worker} {t : ℕ} {key : Option String} {n : ℕ} (h : wk.posture = .waiting)
      (hdue : wk.nextReview.any (· ≤ w.now) = true) (helapsed : cfg.idleTtl < wk.elapsed w.now)
      (ht : w.now < t) :
      Life cfg w id .review wk { wk with
        state := .parked, nextReview := some t, lastReviewKey := key, reviewAttempt := n }
  | looked {wk : Worker} {t : Option ℕ} {key : Option String} {n : ℕ}
      (ht : wk.isTerminal = false → ∀ s, t = some s → w.now < s) :
      Life cfg w id .review wk { wk with nextReview := t, lastReviewKey := key, reviewAttempt := n }

/-- The effects that come with a worker's step: plain ones, its cards, and its trail exactly if it
ends. -/
structure Trail (id : ℕ) (wk wk' : Worker) (effs : List Effect) : Prop where
  kinds : ∀ e ∈ effs, e.plain = true ∨ e.isCard wk'.batch wk'.parent = true ∨
    e.isEvidence id = true ∨ e.isEpisodeEnd id = true
  evidence : effs.countP (Effect.isEvidence id) = if !wk.isTerminal && wk'.isTerminal then 1 else 0
  episodeEnd : effs.countP (Effect.isEpisodeEnd id) ≤ effs.countP (Effect.isEvidence id)

/-! ### Moves -/

/-- What a fan-out adds to the books: a batch, its workers here and its rows, under new ids. -/
structure Fanned (d d' : Driver) (b : BatchMeta) (locals : List (ℕ × Worker))
    (rows : List (ℕ × RemoteWorker)) : Prop where
  workers : d'.workers.entries = d.workers.entries ++ locals
  remotes : d'.remotes.entries = d.remotes.entries ++ rows
  batches : d'.batches = d.batches.insert d.nextBatchId b
  unreported : b.reported = false
  batchId : d'.nextBatchId = d.nextBatchId + 1
  nextId : d.nextWorkerId ≤ d'.nextWorkerId
  localIds : ∀ x ∈ locals, d.nextWorkerId ≤ x.1 ∧ x.1 < d'.nextWorkerId
  rowIds : ∀ x ∈ rows, d.nextWorkerId ≤ x.1 ∧ x.1 < d'.nextWorkerId
  disjoint : ∀ x ∈ locals, ∀ y ∈ rows, x.1 ≠ y.1
  minted : ∀ x ∈ locals, x.2.batch = d.nextBatchId ∧ x.2.parent = b.parent ∧
    x.2.state = .queued ∧ x.2.turnInflight = false
  rowed : ∀ x ∈ rows, x.2.batch = d.nextBatchId ∧ x.2.parent = b.parent
  out : d'.out = d.out

/-- What can happen to the books. -/
inductive Move (cfg : Config) (w : World) (c : Cause) : Driver → Driver → Prop
  | aside {d d' : Driver} (h : Aside d d') : Move cfg w c d d'
  | admission {d : Driver} {id : ℕ} {wk : Worker} (hc : c ≠ .closing)
      (hcap : slotsUsed d.workers < cfg.cap) (hnext : nextQueued d.workers = some id)
      (hget : d.workers.get? id = some wk) : Move cfg w c d (d.admitOne cfg w id wk)
  | life {d d' : Driver} {id : ℕ} {wk wk' : Worker} {effs : List Effect}
      (hget : d.workers.get? id = some wk) (hlife : Life cfg w id c wk wk')
      (hcore : d'.core = { d.core with workers := d.workers.modify id fun _ => wk' })
      (hout : d'.out = d.out ++ effs) (htrail : Trail id wk wk' effs) : Move cfg w c d d'
  | card {d : Driver} {id : ℕ} {wk : Worker} {detail : String}
      (hget : d.workers.get? id = some wk) : Move cfg w c d (d.emitState id wk detail)
  | remoteCard {d : Driver} {id : ℕ} {r : RemoteWorker} {detail : String}
      (hget : d.remotes.get? id = some r) : Move cfg w c d (d.emitRemoteState id r detail)
  | remote {d d' : Driver} {id : ℕ} {r r' : RemoteWorker} {effs : List Effect} (hc : c ≠ .closing)
      (hget : d.remotes.get? id = some r)
      (hsame : r'.batch = r.batch ∧ r'.parent = r.parent ∧ r'.node = r.node)
      (hcore : d'.core = { d.core with remotes := d.remotes.modify id fun _ => r' })
      (hout : d'.out = d.out ++ effs)
      (heffs : ∀ e ∈ effs, e.plain = true ∨ e.isCard r.batch r.parent = true) : Move cfg w c d d'
  | fan {d d' : Driver} {b : BatchMeta} {locals : List (ℕ × Worker)}
      {rows : List (ℕ × RemoteWorker)} (hc : c ≠ .closing) (h : Fanned d d' b locals rows)
      (hok : w.written d'.out.length = true) : Move cfg w c d (d'.saveWorkerState w)
  | lost {d d' : Driver} {txn : WorkerTxn} {n m seq : ℕ} {sid : SessionId}
      (hn : d.nextWorkerId ≤ n) (hm : d.nextBatchId ≤ m)
      (hcore : d'.core = { d.core with
        nextWorkerId := n, nextBatchId := m, nextWorkerSid := sid, txnSeq := seq })
      (hout : d'.out = d.out ++ [.txn txn false]) : Move cfg w c d d'
  | save {d : Driver} : Move cfg w c d (d.saveWorkerState w)
  | saveRemotes {d : Driver} : Move cfg w c d (d.saveRemotes w)
  | report {d : Driver} {batch : ℕ} {b : BatchMeta} (hc : c = .closing)
      (hget : d.batches.get? batch = some b)
      (hdue : due d.workers d.remotes w.epoch batch b = true) :
      Move cfg w c d (reportBatch cfg d batch)
  | fanned {d : Driver} {session : SessionId} {call : ActionId} {ack : FanAck}
      (hlocal : ∀ x ∈ ack.workers, ∃ wk, d.workers.get? x.1 = some wk ∧ wk.session = x.2 ∧
        wk.batch = ack.batch)
      (hremote : ∀ x ∈ ack.remote, ∃ r, d.remotes.get? x.1 = some r ∧ r.node = x.2 ∧
        r.batch = ack.batch) :
      Move cfg w c d (d.send (.toolResult session call (.fanned ack)))
  | accepted {d : Driver} {batch cap admitted : ℕ} {rows : List AcceptedRow}
      (hlocal : ∀ a ∈ rows, ∃ wk, d.workers.get? a.worker = some wk ∧ wk.session = a.session ∧
        wk.batch = batch) :
      Move cfg w c d (d.emit (.reply (.accepted batch rows cap admitted)))

/-- A number of moves. -/
abbrev Moves (cfg : Config) (w : World) (c : Cause) : Driver → Driver → Prop :=
  Relation.ReflTransGen (Move cfg w c)

/-! ### Sequences of moves -/

variable {c : Cause} {i : Input}

theorem Moves.of_aside (h : Aside d d') : Moves cfg w c d d' := .single (.aside h)

theorem Moves.emit {e : Effect} (he : e.plain = true) : Moves cfg w c d (d.emit e) :=
  .of_aside (.emit he)

/-- A fold over distinct things: what licenses a step outlasts the steps for the others. -/
theorem Moves.foldl {σ α : Type*} (π : σ → Driver) {f : σ → α → σ} {Q : Driver → α → Prop}
    (hmove : ∀ s a, Q (π s) a → Moves cfg w c (π s) (π (f s a)))
    (hkeep : ∀ s a b, Q (π s) a → Q (π s) b → b ≠ a → Q (π (f s a)) b) {l : List α} (hl : l.Nodup)
    {s : σ} (hQ : ∀ a ∈ l, Q (π s) a) : Moves cfg w c (π s) (π (l.foldl f s)) := by
  induction l generalizing s with
  | nil => exact .refl
  | cons a l ih =>
    obtain ⟨ha, hl⟩ := List.nodup_cons.mp hl
    have hQa := hQ a (by simp)
    refine (hmove s a hQa).trans (ih hl fun b hb => ?_)
    exact hkeep s a b hQa (hQ b (by simp [hb])) (fun h => ha (h ▸ hb))

/-! ### Trails -/

theorem isEvidence_of_plain {e : Effect} {id : ℕ} (h : e.plain = true) :
    e.isEvidence id = false := by
  cases e <;> simp_all [Effect.plain, Effect.isEvidence]

theorem isEpisodeEnd_of_plain {e : Effect} {id : ℕ} (h : e.plain = true) :
    e.isEpisodeEnd id = false := by
  cases e <;> simp_all [Effect.plain, Effect.isEpisodeEnd]

theorem isEvidence_of_isCard {e : Effect} {id b : ℕ} {p : SessionId} (h : e.isCard b p = true) :
    e.isEvidence id = false := by
  cases e <;> simp_all [Effect.isCard, Effect.isEvidence]

theorem isEpisodeEnd_of_isCard {e : Effect} {id b : ℕ} {p : SessionId} (h : e.isCard b p = true) :
    e.isEpisodeEnd id = false := by
  cases e <;> simp_all [Effect.isCard, Effect.isEpisodeEnd]

/-- Plain effects and cards. -/
def Quiet (batch : ℕ) (parent : SessionId) (effs : List Effect) : Prop :=
  ∀ e ∈ effs, e.plain = true ∨ e.isCard batch parent = true

variable {id : ℕ} {wk wk' : Worker} {effs effs' : List Effect} {batch : ℕ} {parent : SessionId}

theorem isTerminal_of_stepping (h : Worker.stepping wk = true) : wk.isTerminal = false := by
  cases hs : wk.state <;> simp_all [Worker.stepping, Worker.isTerminal, terminal]

theorem Quiet.nil : Quiet batch parent [] := by simp [Quiet]

theorem Quiet.append (h : Quiet batch parent effs) (h' : Quiet batch parent effs') :
    Quiet batch parent (effs ++ effs') := by
  intro e he
  exact (List.mem_append.mp he).elim (h e) (h' e)

theorem Quiet.of_plain (h : ∀ e ∈ effs, e.plain = true) : Quiet batch parent effs :=
  fun e he => Or.inl (h e he)

theorem quiet_card (id : ℕ) (session : SessionId) (task : String) (state : WorkerState)
    (detail : String) (yolo : Bool) (node : Option String) : Quiet batch parent
      [.event (.workerStateChanged id batch parent session task state detail yolo node)] := by
  intro e he
  rw [List.mem_singleton.mp he]
  simp [Effect.isCard]

/-- The card of a worker. -/
def cardOf (id : ℕ) (wk : Worker) (detail : String) : Effect :=
  .event (.workerStateChanged id wk.batch wk.parent wk.session (clip 80 wk.task.render) wk.state
    detail wk.yolo none)

theorem quiet_cardOf (detail : String) : Quiet wk.batch wk.parent [cardOf id wk detail] :=
  quiet_card _ _ _ _ _ _ _

theorem Quiet.countP_evidence (h : Quiet batch parent effs) :
    effs.countP (Effect.isEvidence id) = 0 := by
  refine List.countP_eq_zero.mpr fun e he => ?_
  rcases h e he with he | he
  · simp [isEvidence_of_plain he]
  · simp [isEvidence_of_isCard he]

theorem Quiet.countP_episodeEnd (h : Quiet batch parent effs) :
    effs.countP (Effect.isEpisodeEnd id) = 0 := by
  refine List.countP_eq_zero.mpr fun e he => ?_
  rcases h e he with he | he
  · simp [isEpisodeEnd_of_plain he]
  · simp [isEpisodeEnd_of_isCard he]

/-- A worker that does not end leaves no trail. -/
theorem Trail.quiet (h : Quiet wk'.batch wk'.parent effs)
    (hend : wk'.isTerminal = true → wk.isTerminal = true) : Trail id wk wk' effs := by
  refine ⟨fun e he => (h e he).imp_right Or.inl, ?_, ?_⟩
  · rw [h.countP_evidence]
    cases hw : wk.isTerminal <;> cases hw' : wk'.isTerminal <;> simp_all
  · rw [h.countP_evidence, h.countP_episodeEnd]

/-- What `finalize_terminal` does. -/
def finalEffects (id : ℕ) (wk : Worker) : List Effect :=
  .evidence id wk :: wk.episode.toList.map fun ep => .episodeEnd id ep wk

theorem out_finalizeTerminal (d : Driver) (id : ℕ) (wk : Worker) :
    (d.finalizeTerminal id wk).out = d.out ++ finalEffects id wk := by
  unfold finalizeTerminal finalEffects
  cases wk.episode <;> simp

/-- A worker that ends leaves its trail. -/
theorem Trail.ended {rec' : Worker} (h : Quiet wk'.batch wk'.parent effs)
    (hwk : wk.isTerminal = false) (hwk' : wk'.isTerminal = true) :
    Trail id wk wk' (effs ++ finalEffects id rec') := by
  have hevidence : (finalEffects id rec').countP (Effect.isEvidence id) = 1 := by
    cases hep : rec'.episode <;> simp [finalEffects, hep, Effect.isEvidence]
  have hepisode : (finalEffects id rec').countP (Effect.isEpisodeEnd id) ≤ 1 := by
    cases hep : rec'.episode <;> simp [finalEffects, hep, Effect.isEpisodeEnd]
  refine ⟨fun e he => ?_, ?_, ?_⟩
  · rcases List.mem_append.mp he with he | he
    · exact (h e he).imp_right Or.inl
    · rcases List.mem_cons.mp he with rfl | he
      · simp [Effect.isEvidence]
      · obtain ⟨ep, -, rfl⟩ := List.mem_map.mp he
        simp [Effect.isEpisodeEnd]
  · rw [List.countP_append, h.countP_evidence, hevidence, hwk, hwk']
    simp
  · rw [List.countP_append, List.countP_append, h.countP_evidence, h.countP_episodeEnd, hevidence]
    omega

/-! ### Transactions -/

/-- The transaction the driver would write now. -/
def nextTxn (d : Driver) : WorkerTxn :=
  ⟨workerTxnVersion, saturatingAdd d.txnSeq 1, snapshotWorkers d.workers, snapshotBatches d.batches⟩

theorem persistWorkerTxn_snd : (d.persistWorkerTxn w).2 = w.written d.out.length := by
  unfold persistWorkerTxn
  extract_lets ok txn d₁
  split
  · exact Eq.symm ‹_›
  · exact (Bool.eq_false_iff.mpr ‹_›).symm

theorem persistWorkerTxn_fst_of_not (h : w.written d.out.length = false) :
    (d.persistWorkerTxn w).1 =
    { d with txnSeq := d.nextTxn.seq }.emit (.txn d.nextTxn false) := by
  simp only [persistWorkerTxn, h]
  rfl

theorem core_saveWorkerState (d : Driver) (w : World) :
    (d.saveWorkerState w).core = { d.core with txnSeq := d.nextTxn.seq } := by
  unfold saveWorkerState persistWorkerTxn
  extract_lets ok txn d₁
  split <;> rfl

theorem out_saveWorkerState (d : Driver) (w : World) : ∃ effs, (d.saveWorkerState w).out =
    d.out ++ .txn d.nextTxn (w.written d.out.length) :: effs ∧ (∀ e ∈ effs, e.isMirror = true) ∧
      (w.written d.out.length = false → effs = []) := by
  unfold saveWorkerState persistWorkerTxn
  extract_lets ok txn d₁
  split
  · rename_i hok
    refine ⟨[.workersFile txn.workers (w.written d₁.out.length),
      .batchesFile txn.batches (w.written (d₁.write w (.workersFile txn.workers)).out.length)],
      ?_, ?_, fun h => absurd (hok.symm.trans h) (by simp)⟩
    · change d₁.out ++ [_] ++ [_] = _
      rw [List.append_assoc]
      exact List.append_assoc ..
    · simp [Effect.isMirror]
  · exact ⟨[], rfl, by simp, fun _ => rfl⟩

/-! ### Admission -/

theorem admissible_of_nextQueued (hnext : nextQueued d.workers = some id)
    (hget : d.workers.get? id = some wk) : wk.admissible = true := by
  obtain ⟨wk', hget', hadm⟩ := Table.mem_keysWhere.mp (List.min?_mem hnext)
  obtain rfl : wk' = wk := Option.some.inj (hget'.symm.trans hget)
  exact hadm

theorem admitOne_spec (d : Driver) (cfg : Config) (w : World) (id : ℕ) (wk : Worker) :
    (d.admitOne cfg w id wk).core =
      { d.core with workers := d.workers.modify id fun _ => admitted cfg w id wk } ∧
    ∃ effs, (d.admitOne cfg w id wk).out = d.out ++ (effs ++ [cardOf id (admitted cfg w id wk) "",
        .event (.userPrompt wk.session (.first id wk.batch cfg.maxSteps wk.task))]) ∧
      ∀ e ∈ effs, e.plain = true := by
  unfold admitOne
  extract_lets d₁ wk'
  have h₁ : Aside d d₁ := by
    unfold d₁
    split
    · exact .emit rfl
    · exact .refl d
  obtain ⟨effs, hout, hplain⟩ := h₁.out
  refine ⟨?_, effs, ?_, hplain⟩
  · rw [core_send, core_emitState, core_armWorker, core_put, h₁.core,
      show d₁.workers = d.workers from congrArg Core.workers h₁.core]
  · change d₁.out ++ [_] ++ [_] = _
    rw [hout, List.append_assoc, List.append_assoc]
    rfl

/-! ### The report of a batch -/

/-- What a report says beside the event: the prompt of a parent that is a worker, and the result of
a call that waits, which names the same rows. -/
def Follows (batch : ℕ) (rows : List Row) (e : Effect) : Prop :=
  e.plain = true ∨ ∃ session call d,
    e = .event (.toolResult session call (inlineResult d batch rows))

theorem reportBatch_spec {batch : ℕ} {b : BatchMeta} (hget : d.batches.get? batch = some b) :
    (reportBatch cfg d batch).core = { d.core with
      batches := d.batches.modify batch fun b => { b with reported := true, inlineAck := none } } ∧
    ∃ tail, (reportBatch cfg d batch).out = d.out ++ .event (.taskBatchDone batch b.parent
        (batchRows d.workers d.remotes batch cfg.agentsDir)) :: tail ∧
      ∀ e ∈ tail, Follows batch (batchRows d.workers d.remotes batch cfg.agentsDir) e := by
  unfold reportBatch
  split
  · simp_all
  · rename_i b' hget'
    obtain rfl : b = b' := Option.some.inj (hget.symm.trans hget')
    extract_lets d₁ rows d₂ d₃
    have hcore : d₃.core = d₁.core := by
      unfold d₃
      split <;> rfl
    obtain ⟨tail, hout, htail⟩ : ∃ tail, d₃.out = d.out ++
        .event (.taskBatchDone batch b.parent rows) :: tail ∧ ∀ e ∈ tail, e.plain = true := by
      unfold d₃
      split
      · exact ⟨[_], List.append_assoc .., by simp [Effect.plain]⟩
      · exact ⟨[], rfl, by simp⟩
    cases b.inlineAck with
    | none => exact ⟨hcore, tail, hout, fun e he => Or.inl (htail e he)⟩
    | some ack =>
      refine ⟨hcore,
        tail ++ [.event (.toolResult ack.1 ack.2 (d₃.inlineResult batch rows))], ?_, ?_⟩
      · change d₃.out ++ [_] = _
        rw [hout, List.append_assoc]
        rfl
      · intro e he
        rcases List.mem_append.mp he with he | he
        · exact Or.inl (htail e he)
        · exact Or.inr ⟨_, _, _, List.mem_singleton.mp he⟩

theorem reportBatch_of_none {batch : ℕ} (hget : d.batches.get? batch = none) :
    reportBatch cfg d batch = d := by
  unfold reportBatch
  rw [hget]

/-! ### What a move does to each of the books -/

/-- The worker keeps its batch, its conductor and its session. -/
structure Same (wk wk' : Worker) : Prop where
  batch : wk'.batch = wk.batch
  parent : wk'.parent = wk.parent
  session : wk'.session = wk.session

theorem Same.refl (wk : Worker) : Same wk wk := ⟨rfl, rfl, rfl⟩

theorem Same.trans {wk'' : Worker} (h : Same wk wk') (h' : Same wk' wk'') : Same wk wk'' :=
  ⟨h'.batch.trans h.batch, h'.parent.trans h.parent, h'.session.trans h.session⟩

theorem Life.same (h : Life cfg w id c wk wk') : Same wk wk' := by
  cases h with
  | turned hstep hturn => cases hturn <;> exact ⟨rfl, rfl, rfl⟩
  | _ => exact ⟨rfl, rfl, rfl⟩

/-- What a move does to the workers. -/
inductive MovesWorkers (cfg : Config) (w : World) (c : Cause) (d d' : Driver) : Prop
  | same (h : d'.workers = d.workers)
  | life {id : ℕ} {wk wk' : Worker} (hget : d.workers.get? id = some wk)
      (hlife : Life cfg w id c wk wk') (h : d'.workers = d.workers.modify id fun _ => wk')
  | admission {id : ℕ} {wk : Worker} (hget : d.workers.get? id = some wk)
      (hqueued : wk.admissible = true) (hcap : slotsUsed d.workers < cfg.cap)
      (h : d'.workers = d.workers.modify id fun _ => admitted cfg w id wk)
      (horder : ∃ e ∈ d'.out, e.isOrder id = true)
  | fan {locals : List (ℕ × Worker)} (h : d'.workers.entries = d.workers.entries ++ locals)
      (hids : ∀ x ∈ locals, d.nextWorkerId ≤ x.1 ∧ x.1 < d'.nextWorkerId)
      (hminted : ∀ x ∈ locals, x.2.batch = d.nextBatchId ∧ x.2.state = .queued ∧
        x.2.turnInflight = false)

/-- What a move does to the books, without the effects. -/
inductive CoreMove (cfg : Config) (w : World) (c : Cause) (d d' : Driver) : Prop
  | same (seq : ℕ) (h : d'.core = { d.core with txnSeq := seq })
  | life {id : ℕ} {wk wk' : Worker} (hget : d.workers.get? id = some wk)
      (hlife : Life cfg w id c wk wk')
      (h : d'.core = { d.core with workers := d.workers.modify id fun _ => wk' })
  | admission {id : ℕ} {wk : Worker} (hget : d.workers.get? id = some wk)
      (hqueued : wk.admissible = true) (hcap : slotsUsed d.workers < cfg.cap)
      (h : d'.core = { d.core with workers := d.workers.modify id fun _ => admitted cfg w id wk })
      (horder : ∃ e ∈ d'.out, e.isOrder id = true)
  | row {id : ℕ} {r r' : RemoteWorker} (hget : d.remotes.get? id = some r)
      (hsame : r'.batch = r.batch ∧ r'.parent = r.parent ∧ r'.node = r.node)
      (h : d'.core = { d.core with remotes := d.remotes.modify id fun _ => r' })
  | report {batch : ℕ} {b : BatchMeta} (hc : c = .closing) (hget : d.batches.get? batch = some b)
      (hdue : due d.workers d.remotes w.epoch batch b = true)
      (h : d'.core = { d.core with
        batches := d.batches.modify batch fun b => { b with reported := true, inlineAck := none } })
  | fan {d₁ : Driver} {b : BatchMeta} {locals : List (ℕ × Worker)} {rows : List (ℕ × RemoteWorker)}
      {seq : ℕ} (hc : c ≠ .closing) (hfan : Fanned d d₁ b locals rows)
      (h : d'.core = { d₁.core with txnSeq := seq })
  | lost {n m seq : ℕ} {sid : SessionId} (hn : d.nextWorkerId ≤ n) (hm : d.nextBatchId ≤ m)
      (h : d'.core = { d.core with
        nextWorkerId := n, nextBatchId := m, nextWorkerSid := sid, txnSeq := seq })

theorem Move.coreMove (h : Move cfg w c d d') : CoreMove cfg w c d d' := by
  cases h with
  | aside h => exact .same d.txnSeq h.core
  | admission hc hcap hnext hget =>
    rename_i id wk
    obtain ⟨hcore, effs, hout, -⟩ := admitOne_spec d cfg w id wk
    refine .admission hget (admissible_of_nextQueued hnext hget) hcap hcore
      ⟨.event (.userPrompt wk.session (.first id wk.batch cfg.maxSteps wk.task)), ?_, ?_⟩
    · simp [hout]
    · simp [Effect.isOrder]
  | life hget hlife hcore hout htrail => exact .life hget hlife hcore
  | card hget => exact .same d.txnSeq rfl
  | remoteCard hget => exact .same d.txnSeq rfl
  | remote hc hget hsame hcore hout heffs => exact .row hget hsame hcore
  | fan hc h hok => exact .fan hc h (core_saveWorkerState ..)
  | lost hn hm hcore hout => exact .lost hn hm hcore
  | save => exact .same _ (core_saveWorkerState ..)
  | saveRemotes => exact .same d.txnSeq rfl
  | report hc hget hdue => exact .report hc hget hdue (reportBatch_spec hget).1
  | fanned hlocal hremote => exact .same d.txnSeq rfl
  | accepted hlocal => exact .same d.txnSeq rfl

theorem Move.workers (h : Move cfg w c d d') : MovesWorkers cfg w c d d' := by
  cases h.coreMove with
  | same seq h => exact .same (congrArg Core.workers h)
  | life hget hlife h => exact .life hget hlife (congrArg Core.workers h)
  | admission hget hqueued hcap h horder =>
    exact .admission hget hqueued hcap (congrArg Core.workers h) horder
  | row hget hsame h => exact .same (congrArg Core.workers h)
  | report hc hget hdue h => exact .same (congrArg Core.workers h)
  | fan hc hfan h =>
    rename_i d₁ b locals rows seq
    have hworkers : d'.workers = d₁.workers := congrArg Core.workers h
    have hnext : d'.nextWorkerId = d₁.nextWorkerId := congrArg Core.nextWorkerId h
    refine .fan (hworkers ▸ hfan.workers) (hnext ▸ hfan.localIds) fun x hx => ?_
    exact ⟨(hfan.minted x hx).1, (hfan.minted x hx).2.2⟩
  | lost hn hm h => exact .same (congrArg Core.workers h)

theorem same_admitted : Same wk (admitted cfg w id wk) := ⟨rfl, rfl, rfl⟩

/-- What a move makes of one worker. -/
inductive Next (cfg : Config) (w : World) (c : Cause) (d' : Driver) (id : ℕ) :
    Worker → Worker → Prop
  | same {wk : Worker} : Next cfg w c d' id wk wk
  | life {wk wk' : Worker} (h : Life cfg w id c wk wk') : Next cfg w c d' id wk wk'
  | admission {wk : Worker} (hqueued : wk.admissible = true)
      (horder : ∃ e ∈ d'.out, e.isOrder id = true) : Next cfg w c d' id wk (admitted cfg w id wk)

/-- A worker stays in the books, and this is what becomes of it. -/
theorem Move.next (h : Move cfg w c d d') (hget : d.workers.get? id = some wk) :
    ∃ wk', d'.workers.get? id = some wk' ∧ Next cfg w c d' id wk wk' := by
  cases h.workers with
  | same h =>
    rw [h]
    exact ⟨wk, hget, .same⟩
  | life hget' hlife h =>
    rw [h, Table.get?_modify, hget]
    split
    · rename_i hid
      subst hid
      obtain rfl := Option.some.inj (hget'.symm.trans hget)
      exact ⟨_, rfl, .life hlife⟩
    · exact ⟨wk, rfl, .same⟩
  | admission hget' hqueued hcap h horder =>
    rw [h, Table.get?_modify, hget]
    split
    · rename_i hid
      subst hid
      obtain rfl := Option.some.inj (hget'.symm.trans hget)
      exact ⟨_, rfl, .admission hqueued horder⟩
    · exact ⟨wk, rfl, .same⟩
  | fan h _ _ =>
    refine ⟨wk, ?_, .same⟩
    rw [← Table.mem_iff_get?, h]
    exact List.mem_append_left _ (Table.mem_of_get? hget)

/-- A worker that is in the books after a move was there before, or has just been minted. -/
theorem Move.prev (h : Move cfg w c d d') (hget : d'.workers.get? id = some wk') :
    (∃ wk, d.workers.get? id = some wk ∧ Next cfg w c d' id wk wk') ∨
      (d.nextWorkerId ≤ id ∧ wk'.batch = d.nextBatchId ∧ wk'.state = .queued ∧
        wk'.turnInflight = false) := by
  cases hget₀ : d.workers.get? id with
  | some wk =>
    obtain ⟨wk'', hget'', hnext⟩ := h.next hget₀
    obtain rfl : wk'' = wk' := Option.some.inj (hget''.symm.trans hget)
    exact Or.inl ⟨wk, rfl, hnext⟩
  | none =>
    cases h.workers with
    | same h => simp_all
    | life hget' hlife h =>
      rw [h, Table.get?_modify, hget₀] at hget
      simp at hget
    | admission hget' hqueued hcap h horder =>
      rw [h, Table.get?_modify, hget₀] at hget
      simp at hget
    | fan h hids hminted =>
      rw [← Table.mem_iff_get?, h] at hget
      rcases List.mem_append.mp hget with hget | hget
      · rw [Table.mem_iff_get?.mp hget] at hget₀
        cases hget₀
      · exact Or.inr ⟨(hids _ hget).1, hminted _ hget⟩

theorem Next.keeps (h : Next cfg w c d' id wk wk') : Same wk wk' := by
  cases h with
  | same => exact .refl wk
  | life h => exact h.same
  | admission _ _ => exact same_admitted

/-- A worker stays in the books, as the one it was. -/
theorem Move.keeps (h : Move cfg w c d d') (hget : d.workers.get? id = some wk) :
    ∃ wk', d'.workers.get? id = some wk' ∧ Same wk wk' := by
  obtain ⟨wk', hget', hnext⟩ := h.next hget
  exact ⟨wk', hget', hnext.keeps⟩

theorem Moves.keeps (h : Moves cfg w c d d') (hget : d.workers.get? id = some wk) :
    ∃ wk', d'.workers.get? id = some wk' ∧ Same wk wk' := by
  induction h with
  | refl => exact ⟨wk, hget, .refl wk⟩
  | tail _ hmove ih =>
    obtain ⟨wk', hget', hsame⟩ := ih
    obtain ⟨wk'', hget'', hsame'⟩ := hmove.keeps hget'
    exact ⟨wk'', hget'', hsame.trans hsame'⟩

/-- What a move does to the batches. -/
inductive MovesBatches (w : World) (c : Cause) (d d' : Driver) : Prop
  | same (h : d'.batches = d.batches)
  | report {batch : ℕ} {b : BatchMeta} (hc : c = .closing) (hget : d.batches.get? batch = some b)
      (hdue : due d.workers d.remotes w.epoch batch b = true)
      (h :
        d'.batches = d.batches.modify batch fun b => { b with reported := true, inlineAck := none })
  | fan {b : BatchMeta} (hb : b.reported = false)
      (h : d'.batches = d.batches.insert d.nextBatchId b)
      (hnext : d'.nextBatchId = d.nextBatchId + 1)

theorem Move.batches (h : Move cfg w c d d') : MovesBatches w c d d' := by
  cases h.coreMove with
  | same seq h => exact .same (congrArg Core.batches h)
  | life hget hlife h => exact .same (congrArg Core.batches h)
  | admission hget hqueued hcap h horder => exact .same (congrArg Core.batches h)
  | row hget hsame h => exact .same (congrArg Core.batches h)
  | report hc hget hdue h => exact .report hc hget hdue (congrArg Core.batches h)
  | fan hc hfan h =>
    exact .fan hfan.unreported ((congrArg Core.batches h).trans hfan.batches)
      ((congrArg Core.nextBatchId h).trans hfan.batchId)
  | lost hn hm h => exact .same (congrArg Core.batches h)

/-- What a move does to the mirror rows. -/
inductive MovesRemotes (d d' : Driver) : Prop
  | same (h : d'.remotes = d.remotes)
  | row {id : ℕ} {r r' : RemoteWorker} (hget : d.remotes.get? id = some r)
      (hsame : r'.batch = r.batch ∧ r'.parent = r.parent ∧ r'.node = r.node)
      (h : d'.remotes = d.remotes.modify id fun _ => r')
  | fan {rows : List (ℕ × RemoteWorker)} (h : d'.remotes.entries = d.remotes.entries ++ rows)
      (hids : ∀ x ∈ rows, d.nextWorkerId ≤ x.1 ∧ x.1 < d'.nextWorkerId)
      (hbatch : ∀ x ∈ rows, x.2.batch = d.nextBatchId)

theorem Move.remotes (h : Move cfg w c d d') : MovesRemotes d d' := by
  cases h.coreMove with
  | same seq h => exact .same (congrArg Core.remotes h)
  | life hget hlife h => exact .same (congrArg Core.remotes h)
  | admission hget hqueued hcap h horder => exact .same (congrArg Core.remotes h)
  | row hget hsame h => exact .row hget hsame (congrArg Core.remotes h)
  | report hc hget hdue h => exact .same (congrArg Core.remotes h)
  | fan hc hfan h =>
    rename_i d₁ b locals rows seq
    have hremotes : d'.remotes = d₁.remotes := congrArg Core.remotes h
    have hnext : d'.nextWorkerId = d₁.nextWorkerId := congrArg Core.nextWorkerId h
    exact .fan (hremotes ▸ hfan.remotes) (hnext ▸ hfan.rowIds) fun x hx => (hfan.rowed x hx).1
  | lost hn hm h => exact .same (congrArg Core.remotes h)

/-- A mirror row stays in the books, as the one it was. -/
theorem Move.keepsRow (h : Move cfg w c d d') {r : RemoteWorker}
    (hget : d.remotes.get? id = some r) :
    ∃ r', d'.remotes.get? id = some r' ∧ r'.batch = r.batch ∧ r'.parent = r.parent ∧
      r'.node = r.node := by
  cases h.remotes with
  | same h =>
    rw [h]
    exact ⟨r, hget, rfl, rfl, rfl⟩
  | row hget' hsame h =>
    rename_i id' r₁ r₂
    rw [h]
    by_cases hid : id = id'
    · subst hid
      obtain rfl : r₁ = r := Option.some.inj (hget'.symm.trans hget)
      exact ⟨r₂, by rw [Table.get?_modify_self, hget']; rfl, hsame⟩
    · exact ⟨r, (Table.get?_modify_of_ne hid).trans hget, rfl, rfl, rfl⟩
  | fan h _ _ =>
    refine ⟨r, ?_, rfl, rfl, rfl⟩
    rw [← Table.mem_iff_get?, h]
    exact List.mem_append_left _ (Table.mem_of_get? hget)

/-- What has been done stays done. -/
theorem Move.out_append (h : Move cfg w c d d') : ∃ effs, d'.out = d.out ++ effs := by
  cases h with
  | aside h =>
    obtain ⟨effs, hout, -⟩ := h.out
    exact ⟨effs, hout⟩
  | admission hc hcap hnext hget =>
    obtain ⟨-, effs, hout, -⟩ := admitOne_spec d cfg w _ _
    exact ⟨_, hout⟩
  | life hget hlife hcore hout htrail => exact ⟨_, hout⟩
  | card hget => exact ⟨_, rfl⟩
  | remoteCard hget => exact ⟨_, rfl⟩
  | remote hc hget hsame hcore hout heffs => exact ⟨_, hout⟩
  | fan hc h hok =>
    obtain ⟨effs, hout, -⟩ := out_saveWorkerState _ w
    exact ⟨_, h.out ▸ hout⟩
  | lost hn hm hcore hout => exact ⟨_, hout⟩
  | save =>
    obtain ⟨effs, hout, -⟩ := out_saveWorkerState d w
    exact ⟨_, hout⟩
  | saveRemotes => exact ⟨_, rfl⟩
  | report hc hget hdue =>
    obtain ⟨-, tail, hout, -⟩ := reportBatch_spec hget
    exact ⟨_, hout⟩
  | fanned hlocal hremote => exact ⟨_, rfl⟩
  | accepted hlocal => exact ⟨_, rfl⟩

theorem Moves.out_append (h : Moves cfg w c d d') : ∃ effs, d'.out = d.out ++ effs := by
  induction h with
  | refl => exact ⟨[], (List.append_nil _).symm⟩
  | tail _ hmove ih =>
    obtain ⟨effs, hout⟩ := ih
    obtain ⟨effs', hout'⟩ := hmove.out_append
    exact ⟨effs ++ effs', by rw [hout', hout, List.append_assoc]⟩

/-- A worker that has ended stays as it ended. -/
theorem Life.ended (h : Life cfg w id c wk wk') (hwk : wk.isTerminal = true) :
    wk'.state = wk.state := by
  cases h with
  | turned hstep _ => simp [isTerminal_of_stepping hstep] at hwk
  | woken hwakes => cases hs : wk.state <;> simp_all [wakes, Worker.isTerminal, terminal]
  | suspended hstate => simp [Worker.isTerminal, terminal, hstate] at hwk
  | resumed hstate => simp [Worker.isTerminal, terminal, hstate] at hwk
  | cancelled hlive _ => simp [hlive] at hwk
  | stalled _ hstate _ => simp [Worker.isTerminal, terminal, hstate] at hwk
  | parked hpost _ _ _ => simp [Worker.posture, hwk] at hpost
  | _ => rfl

theorem Next.ended (h : Next cfg w c d' id wk wk') (hwk : wk.isTerminal = true) :
    wk'.state = wk.state := by
  cases h with
  | same => rfl
  | life h => exact h.ended hwk
  | admission hqueued _ =>
    obtain ⟨hstate, -⟩ : wk.state = .queued ∧ _ := by simpa [Worker.admissible] using hqueued
    simp [Worker.isTerminal, terminal, hstate] at hwk

/-! ### The counters -/

/-- Everything in the books has an id below the counters. -/
structure Fresh (d : Driver) : Prop where
  worker : ∀ x ∈ d.workers.entries, x.1 < d.nextWorkerId
  remote : ∀ x ∈ d.remotes.entries, x.1 < d.nextWorkerId
  batch : ∀ x ∈ d.batches.entries, x.1 < d.nextBatchId

theorem Move.counters (h : Move cfg w c d d') :
    d.nextWorkerId ≤ d'.nextWorkerId ∧ d.nextBatchId ≤ d'.nextBatchId := by
  have of_eq (h : d'.core.nextWorkerId = d.nextWorkerId)
      (h' : d'.core.nextBatchId = d.nextBatchId) :
      d.nextWorkerId ≤ d'.nextWorkerId ∧ d.nextBatchId ≤ d'.nextBatchId := ⟨h.ge, h'.ge⟩
  cases h.coreMove with
  | same seq h => exact of_eq (h ▸ rfl) (h ▸ rfl)
  | life hget hlife h => exact of_eq (h ▸ rfl) (h ▸ rfl)
  | admission hget hqueued hcap h horder => exact of_eq (h ▸ rfl) (h ▸ rfl)
  | row hget hsame h => exact of_eq (h ▸ rfl) (h ▸ rfl)
  | report hc hget hdue h => exact of_eq (h ▸ rfl) (h ▸ rfl)
  | fan hc hfan h =>
    have hworker : d'.nextWorkerId = _ := congrArg Core.nextWorkerId h
    have hbatch : d'.nextBatchId = _ := congrArg Core.nextBatchId h
    rw [hworker, hbatch]
    exact ⟨hfan.nextId, (Nat.le_succ _).trans hfan.batchId.ge⟩
  | lost hn hm h =>
    have hworker : d'.nextWorkerId = _ := congrArg Core.nextWorkerId h
    have hbatch : d'.nextBatchId = _ := congrArg Core.nextBatchId h
    rw [hworker, hbatch]
    exact ⟨hn, hm⟩

theorem entries_modify_fst {α : Type*} {t : Table ℕ α} {f : α → α} {x : ℕ × α}
    (hx : x ∈ (t.modify id f).entries) : ∃ y ∈ t.entries, y.1 = x.1 := by
  obtain ⟨y, hy, rfl⟩ := List.mem_map.mp hx
  refine ⟨y, hy, ?_⟩
  split <;> rfl

/-- **The counters stay ahead.** -/
theorem Move.fresh (h : Move cfg w c d d') (hd : d.Fresh) : d'.Fresh := by
  obtain ⟨hworker, hbatch⟩ := h.counters
  constructor
  · intro x hx
    have old {y : ℕ × Worker} (hy : y ∈ d.workers.entries) : y.1 < d'.nextWorkerId :=
      Nat.lt_of_lt_of_le (hd.worker y hy) hworker
    cases h.workers with
    | same h => exact old (h ▸ hx)
    | life hget hlife h =>
      obtain ⟨y, hy, hxy⟩ := entries_modify_fst (h ▸ hx)
      exact hxy ▸ old hy
    | admission hget hqueued hcap h horder =>
      obtain ⟨y, hy, hxy⟩ := entries_modify_fst (h ▸ hx)
      exact hxy ▸ old hy
    | fan h hids hminted =>
      rw [h] at hx
      exact (List.mem_append.mp hx).elim old fun hx => (hids x hx).2
  · intro x hx
    have old {y : ℕ × RemoteWorker} (hy : y ∈ d.remotes.entries) : y.1 < d'.nextWorkerId :=
      Nat.lt_of_lt_of_le (hd.remote y hy) hworker
    cases h.remotes with
    | same h => exact old (h ▸ hx)
    | row hget hsame h =>
      obtain ⟨y, hy, hxy⟩ := entries_modify_fst (h ▸ hx)
      exact hxy ▸ old hy
    | fan h hids hrowed =>
      rw [h] at hx
      exact (List.mem_append.mp hx).elim old fun hx => (hids x hx).2
  · intro x hx
    have old {y : ℕ × BatchMeta} (hy : y ∈ d.batches.entries) : y.1 < d'.nextBatchId :=
      Nat.lt_of_lt_of_le (hd.batch y hy) hbatch
    cases h.batches with
    | same h => exact old (h ▸ hx)
    | report hc hget hdue h =>
      obtain ⟨y, hy, hxy⟩ := entries_modify_fst (h ▸ hx)
      exact hxy ▸ old hy
    | fan hb h hnext =>
      rw [h] at hx
      rcases List.mem_append.mp hx with hx | hx
      · exact old (List.mem_filter.mp hx).1
      · rw [List.mem_singleton.mp hx, hnext]
        exact Nat.lt_succ_self _

theorem Moves.fresh (h : Moves cfg w c d d') (hd : d.Fresh) : d'.Fresh := by
  induction h with
  | refl => exact hd
  | tail _ hmove ih => exact hmove.fresh ih

end Driver

end ApexOS.Fabrica
