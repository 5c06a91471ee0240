import ApexOS.Fabrica.Acts
import ApexOS.Fabrica.Boot
import ApexOS.Lib.Run

/-!
# Inherited auto-approval and model pins

Two things follow a worker's residency: its session is in the auto-approve set, if its batch was
fanned out with `yolo: "inherit"` by a session that was in the set then, and its model is pinned.
The worker is armed when it is admitted and disarmed when it is parked or ends; a send that revives
it brings the pin back and not the approval.

The driver shares the set with the goal driver, which arms and disarms the sessions of goals. Those
are not worker sessions.

`Arms` says what an act does to the workers as far as this matters, and to the two maps. A worker
that was admitted and has not rested since is found in what was done: its work order went out, and
no card since says that it is parked or has ended.

## Main definitions

* `Worker.resident`: admitted or woken, and neither parked nor ended
* `Resides`: admitted, and not parked or ended since
* `Driver.Arms`: what an act does to workers and to what they are armed with

## Main results

* `Driver.Act.arms`: every act arms and disarms as it should
-/

namespace ApexOS.Fabrica

open ApexOS.Agentd (SessionId ActionId WorkerState)

/-- Admitted or woken, and neither parked nor ended. -/
def Worker.resident (wk : Worker) : Bool :=
  wk.state = .running || wk.state = .idle || wk.state = .blocked

/-- The card of a worker here that is parked or has ended. -/
def Effect.rests (id : ℕ) : Effect → Bool
  | .event (.workerStateChanged id' _ _ _ _ state _ _ none) =>
    id' = id && (state = .parked || terminal state)
  | _ => false

/-- The worker was admitted, and since then no card of it says that it was parked or ended. -/
def Resides (id : ℕ) (effs : List Effect) : Prop :=
  ∃ before order after, effs = before ++ order :: after ∧ order.isOrder id = true ∧
    ∀ e ∈ after, e.rests id = false

theorem Resides.append {id : ℕ} {effs effs' : List Effect} (h : Resides id effs)
    (h' : ∀ e ∈ effs', e.rests id = false) : Resides id (effs ++ effs') := by
  obtain ⟨before, order, after, rfl, horder, hafter⟩ := h
  refine ⟨before, order, after ++ effs', by simp, horder, fun e he => ?_⟩
  exact (List.mem_append.mp he).elim (hafter e) (h' e)

theorem Resides.after {id : ℕ} {effs : List Effect} (h : Resides id effs) (effs' : List Effect) :
    Resides id (effs' ++ effs) := by
  obtain ⟨before, order, after, rfl, hrest⟩ := h
  exact ⟨effs' ++ before, order, after, by simp, hrest⟩

theorem rests_of_idle {e : Effect} (h : e.idle = true) (id : ℕ) : e.rests id = false := by
  unfold Effect.rests
  split
  · cases h
  · rfl

theorem rests_of_plain {e : Effect} (h : e.plain = true) (id : ℕ) : e.rests id = false := by
  unfold Effect.rests
  split
  · cases h
  · rfl

namespace Driver

variable {cfg : Config} {w : World} {i : Input} {d₀ d d' d'' : Driver} {id : ℕ} {wk wk' : Worker}
  {effs : List Effect}

/-- The worker keeps who it is and what it was minted with. -/
structure Kin (wk wk' : Worker) : Prop where
  batch : wk'.batch = wk.batch
  parent : wk'.parent = wk.parent
  session : wk'.session = wk.session
  yolo : wk'.yolo = wk.yolo
  model : wk'.model = wk.model
  queued : wk'.state = .queued → wk.state = .queued

theorem Kin.refl (wk : Worker) : Kin wk wk := ⟨rfl, rfl, rfl, rfl, rfl, id⟩

/-- A card that goes out and says that a worker rests is right. -/
def Honest (d d' : Driver) : Prop :=
  ∃ effs, d'.out = d.out ++ effs ∧ ∀ e ∈ effs, ∀ id, e.rests id = true →
    ∃ wk, d'.workers.get? id = some wk ∧ wk.resident = false

/-- What an act does to the workers, and to the set and the pins. -/
inductive Arms (cfg : Config) (w : World) (i : Input) (d d' : Driver) : Prop
  | still (hworkers : d'.workers = d.workers) (hyolo : d'.yolo = d.yolo)
      (hmodels : d'.models = d.models)
  | stays {id : ℕ} {wk wk' : Worker} (hget : d.workers.get? id = some wk)
      (hworkers : d'.workers = d.workers.modify id fun _ => wk') (hkin : Kin wk wk')
      (hresident : wk'.resident = wk.resident) (hyolo : d'.yolo = d.yolo)
      (hmodels : d'.models = d.models)
  | rests {id : ℕ} {wk wk' : Worker} (hget : d.workers.get? id = some wk)
      (hworkers : d'.workers = d.workers.modify id fun _ => wk') (hkin : Kin wk wk')
      (hresident : wk'.resident = false) (hyolo : d'.yolo = d.yolo.erase wk.session)
      (hmodels : d'.models = d.models.erase wk.session)
  | wakes {id : ℕ} {wk wk' : Worker} (hget : d.workers.get? id = some wk)
      (hworkers : d'.workers = d.workers.modify id fun _ => wk') (hkin : Kin wk wk')
      (hresident : wk'.resident = true) (hyolo : d'.yolo = d.yolo)
      (hmodels : d'.models = wk.model.elim d.models fun m => d.models.insert wk.session m)
  | admission {id : ℕ} {wk : Worker} (hget : d.workers.get? id = some wk)
      (hqueued : wk.state = .queued)
      (hworkers : d'.workers = d.workers.modify id fun _ => admitted cfg w id wk)
      (hyolo : d'.yolo = if wk.yolo then insert wk.session d.yolo else d.yolo)
      (hmodels : d'.models = wk.model.elim d.models fun m => d.models.insert wk.session m)
      (horder : ∃ effs, d'.out = d.out ++ effs ∧ Resides id effs)
  | armed {session : SessionId} (hi : i = .goalArmed session) (hworkers : d'.workers = d.workers)
      (hyolo : d'.yolo = insert session d.yolo) (hmodels : d'.models = d.models)
  | disarmed {session : SessionId} (hworkers : d'.workers = d.workers)
      (hyolo : d'.yolo = d.yolo.erase session) (hmodels : d'.models = d.models)

/-- A worker is minted, and nothing else happens. -/
structure MintsOne (cfg : Config) (w : World) (i : Input) (d₀ d d' : Driver) (b : BatchMeta)
    (items : List MintItem) (yolo : Bool) (item : MintItem) : Prop where
  mints : Mints cfg w i d₀ b items yolo
  opened : d₀.nextBatchId < d.nextBatchId
  workers : d'.workers = d.workers.insert d.nextWorkerId (mintedWorker cfg w d.nextWorkerId
    d₀.nextBatchId b.parent d.nextWorkerSid item.prompt item.model yolo item.held item.ceiling)
  nextId : d'.nextWorkerId = d.nextWorkerId + 1
  nextSid : d'.nextWorkerSid = d.nextWorkerSid + 1
  ledger : d'.core.ledger =
    { d.core.ledger with nextWorkerId := d'.nextWorkerId, nextWorkerSid := d'.nextWorkerSid }
  yolo : d'.yolo = d.yolo
  models : d'.models = d.models
  out : d'.out = d.out

/-! ### Cards -/

theorem Honest.of_none (effs : List Effect) (hout : d'.out = d.out ++ effs)
    (h : ∀ e ∈ effs, ∀ id, e.rests id = false) : Honest d d' := by
  refine ⟨effs, hout, fun e he id hrests => ?_⟩
  rw [h e he id] at hrests
  cases hrests

theorem rests_cardOf {wk : Worker} {detail : String} {k : ℕ}
    (h : (cardOf id wk detail).rests k = true) : id = k ∧ wk.resident = false := by
  obtain ⟨hid, hstate⟩ : id = k ∧ (wk.state = .parked ∨ terminal wk.state = true) := by
    simpa [cardOf, Effect.rests] using h
  refine ⟨hid, ?_⟩
  rcases hstate with hstate | hstate
  · simp [Worker.resident, hstate]
  · cases hs : wk.state <;> simp_all [Worker.resident, terminal]

/-- The card of a worker as it is, among effects that are no cards. -/
theorem Honest.of_card (before after : List Effect) (detail : String)
    (hout : d'.out = d.out ++ (before ++ cardOf id wk detail :: after))
    (hbefore : ∀ e ∈ before, ∀ k, e.rests k = false) (hafter : ∀ e ∈ after, ∀ k, e.rests k = false)
    (hget : ∃ wk', d'.workers.get? id = some wk' ∧ wk'.resident = wk.resident) : Honest d d' := by
  refine ⟨_, hout, fun e he k hrests => ?_⟩
  rcases List.mem_append.mp he with he | he
  · simp [hbefore e he k] at hrests
  · rcases List.mem_cons.mp he with rfl | he
    · obtain ⟨rfl, hresident⟩ := rests_cardOf hrests
      obtain ⟨wk', hget', hsame⟩ := hget
      exact ⟨wk', hget', hsame.trans hresident⟩
    · simp [hafter e he k] at hrests

theorem rests_finalEffects {e : Effect} (he : e ∈ finalEffects id wk) (k : ℕ) :
    e.rests k = false := by
  rcases List.mem_cons.mp he with rfl | he
  · rfl
  · obtain ⟨ep, -, rfl⟩ := List.mem_map.mp he
    rfl

/-- Workers, set and pins stay, and no card of a worker goes out. -/
structure Aloof (d d' : Driver) : Prop where
  workers : d'.workers = d.workers
  yolo : d'.yolo = d.yolo
  models : d'.models = d.models
  out : ∃ effs, d'.out = d.out ++ effs ∧ ∀ e ∈ effs, ∀ id, e.rests id = false

theorem Aloof.refl (d : Driver) : Aloof d d := ⟨rfl, rfl, rfl, [], by simp⟩

theorem Aloof.trans (h : Aloof d d') (h' : Aloof d' d'') : Aloof d d'' := by
  obtain ⟨effs, hout, heffs⟩ := h.out
  obtain ⟨effs', hout', heffs'⟩ := h'.out
  refine ⟨h'.workers.trans h.workers, h'.yolo.trans h.yolo, h'.models.trans h.models, effs ++ effs',
    by rw [hout', hout, List.append_assoc], fun e he => ?_⟩
  exact (List.mem_append.mp he).elim (heffs e) (heffs' e)

theorem Idle.aloof (h : Idle d d') : Aloof d d' := by
  obtain ⟨effs, hout, hidle⟩ := h.out
  exact ⟨congrArg Core.workers h.core, congrArg Side.yolo h.side, congrArg Side.models h.side, effs,
    hout, fun e he id => rests_of_idle (hidle e he) id⟩

theorem Aloof.emit {e : Effect} (he : ∀ id, e.rests id = false) : Aloof d (d.emit e) :=
  ⟨rfl, rfl, rfl, [e], rfl, by simpa using he⟩

theorem aloof_setCell (d : Driver) (w : World) (mandala : ℕ) (addr : Addr)
    (f : CellRecord → CellRecord) : Aloof d (d.setCell w mandala addr f) := by
  rw [setCell]
  split
  · exact .refl d
  · exact ⟨rfl, rfl, rfl, [_], rfl, by simp [Effect.rests]⟩

theorem Aloof.foldl {α : Type*} {f : Driver → α → Driver} (h : ∀ d a, Aloof d (f d a)) (l : List α)
    (d : Driver) : Aloof d (l.foldl f d) := by
  induction l generalizing d with
  | nil => exact .refl d
  | cons a l ih => exact (h d a).trans (ih _)

theorem aloof_saveWorkerState (d : Driver) (w : World) : Aloof d (d.saveWorkerState w) := by
  obtain ⟨effs, hout, hmirror, -⟩ := out_saveWorkerState d w
  refine ⟨congrArg Core.workers (core_saveWorkerState d w), congrArg Side.yolo
    (side_saveWorkerState d w), congrArg Side.models (side_saveWorkerState d w), _, hout,
    fun e he id => ?_⟩
  rcases List.mem_cons.mp he with rfl | he
  · rfl
  · have := hmirror e he
    cases e <;> first | rfl | cases this

theorem aloof_reportBatch (cfg : Config) (d : Driver) (batch : ℕ) :
    Aloof d (reportBatch cfg d batch) := by
  unfold reportBatch
  split
  · exact .refl d
  · rename_i b _
    extract_lets d₁ rows d₂ d₃
    have h₃ : Aloof d d₃ := by
      have h₂ : Aloof d d₂ := ⟨rfl, rfl, rfl, [_], rfl, by simp [Effect.rests]⟩
      refine h₂.trans ?_
      unfold d₃
      split
      · exact .emit fun _ => rfl
      · exact .refl d₂
    refine h₃.trans ?_
    cases b.inlineAck with
    | none => exact .refl d₃
    | some ack => exact .emit fun _ => rfl

theorem aloof_syncCell (cfg : Config) (w : World) (d : Driver) (x : ℕ × ℕ × Addr) :
    Aloof d (syncCell cfg w d x) := by
  unfold syncCell
  split
  · split
    · exact aloof_setCell ..
    · exact .refl d
  · exact .refl d

theorem aloof_syncRemoteCell (w : World) (d : Driver) (x : ℕ × ℕ × Addr) :
    Aloof d (syncRemoteCell w d x) := by
  unfold syncRemoteCell
  split
  · split
    · exact aloof_setCell ..
    · exact .refl d
  · exact .refl d

theorem aloof_remoteCard (d : Driver) (id : ℕ) (r r' : RemoteWorker) (detail : String) :
    Aloof d ((d.putRemote id r).emitRemoteState id r' detail) :=
  ⟨rfl, rfl, rfl, [_], rfl, by simp [Effect.rests]⟩

theorem aloof_failRemoteRow (cfg : Config) (cause : String) (d : Driver) (id : ℕ) :
    Aloof d (failRemoteRow cfg cause d id) := by
  unfold failRemoteRow
  split
  · exact .refl d
  · split
    · exact .refl d
    · exact Aloof.trans (.emit fun _ => rfl) (aloof_remoteCard ..)

theorem aloof_acceptRow (node : String) (wids : List ℕ) (peerBatch : ℕ) (d : Driver)
    (ar : AcceptedRow) : Aloof d (acceptRow node wids peerBatch d ar) := by
  unfold acceptRow
  split
  · exact .refl d
  · exact aloof_remoteCard ..

theorem aloof_applyWireRow (cfg : Config) (batch : ℕ) (node : String) (x : Driver × Bool)
    (wire : WireRow) : Aloof x.1 (applyWireRow cfg batch node x wire).1 := by
  unfold applyWireRow
  split
  · exact .refl x.1
  · extract_lets stateChanged summaryChanged r₁ mirrored d₁ r₂ d₂
    have h₁ : Aloof x.1 d₁ := by
      unfold d₁
      split
      · exact .emit fun _ => rfl
      · exact .refl x.1
    have h₂ : Aloof x.1 d₂ := ⟨h₁.workers, h₁.yolo, h₁.models, h₁.out⟩
    change Aloof x.1 (if stateChanged then d₂.emitRemoteState _ r₂ "" else d₂)
    split
    · exact h₂.trans (.emit fun _ => rfl)
    · exact h₂

theorem aloof_relayOne (x : Driver × CancelGroups) (id : ℕ) : Aloof x.1 (relayOne x id).1 := by
  unfold relayOne
  split
  · exact .refl x.1
  · split
    · exact .refl x.1
    · exact aloof_remoteCard ..

theorem aloof_bindCells (d : Driver) (w : World) (ctx : CellsCtx) (wids : List ℕ) :
    Aloof d (d.bindCells w ctx wids) := by
  rw [bindCells_eq]
  have hcell (d : Driver) (x : CellPlan × ℕ) : Aloof d (bindCell w ctx d x) :=
    ⟨rfl, rfl, rfl, [_], rfl, by simp [Effect.rests]⟩
  have hcells : Aloof d ((ctx.plans.zip wids).foldl (bindCell w ctx) d) := .foldl hcell _ d
  refine hcells.trans ?_
  unfold armParent
  split
  · exact aloof_setCell ..
  · exact .refl _

theorem aloof_closeMandala (w : World) (d : Driver) (mid : ℕ) : Aloof d (closeMandala w d mid) := by
  unfold closeMandala
  extract_lets d₁
  have h₁ : Aloof d d₁ := ⟨rfl, rfl, rfl, [], by simp [d₁], by simp⟩
  split
  · exact h₁.trans (aloof_setCell ..)
  · exact h₁

theorem TakenBack.aloof (h : TakenBack d d') (hside : d'.side = d.side) : Aloof d d' := by
  obtain ⟨txn, hout⟩ := h.out
  exact ⟨congrArg Core.workers h.core, congrArg Side.yolo hside,
    congrArg Side.models hside, _, hout,
    by simp [Effect.rests]⟩

/-! ### The acts of a worker -/

/-- An act as the workers see it. -/
abbrev Arming (cfg : Config) (w : World) (i : Input) (d d' : Driver) : Prop :=
  Arms cfg w i d d' ∧ Honest d d'

theorem Aloof.arming (h : Aloof d d') : Arming cfg w i d d' := by
  obtain ⟨effs, hout, hrests⟩ := h.out
  exact ⟨.still h.workers h.yolo h.models, .of_none effs hout hrests⟩

theorem get?_modified {wk' : Worker} (hget : d.workers.get? id = some wk)
    (hworkers : d'.workers = d.workers.modify id fun _ => wk') : d'.workers.get? id = some wk' := by
  rw [hworkers, Table.get?_modify_self, hget]
  rfl

theorem arming_admitOne (hget : d.workers.get? id = some wk) (hadm : wk.admissible = true) :
    Arming cfg w i d (d.admitOne cfg w id wk) := by
  obtain ⟨hcore, effs, hout, hplain⟩ := admitOne_spec d cfg w id wk
  have hworkers : (d.admitOne cfg w id wk).workers = _ := congrArg Core.workers hcore
  obtain ⟨hqueued, -⟩ : wk.state = .queued ∧ _ := by simpa [Worker.admissible] using hadm
  refine ⟨.admission hget hqueued hworkers ?_ ?_ ⟨_, hout,
    effs ++ [cardOf id (admitted cfg w id wk) ""],
    .event (.userPrompt wk.session (.first id wk.batch cfg.maxSteps wk.task)), [], ?_, ?_, by simp⟩,
    .of_card effs [_] "" hout (fun e he k => rests_of_plain (hplain e he) k) ?_
      ⟨_, get?_modified hget hworkers, rfl⟩⟩
  · unfold admitOne
    cases wk.episode <;> rfl
  · unfold admitOne
    cases wk.episode <;> rfl
  · rw [List.append_assoc]
    rfl
  · simp [Effect.isOrder]
  · intro e he k
    rw [List.mem_singleton.mp he]
    rfl

/-- A worker changes where it lives, and its card goes out. -/
theorem arming_stays {d₁ : Driver} {detail : String} (hget : d.workers.get? id = some wk)
    (hkin : Kin wk wk') (hresident : wk'.resident = wk.resident) (h : Aloof (d.put id wk') d₁) :
    Arming cfg w i d (d₁.emitState id wk' detail) := by
  obtain ⟨effs, hout, hrests⟩ := h.out
  refine ⟨.stays hget h.workers hkin hresident h.yolo h.models,
    .of_card effs [] detail ?_ hrests (by simp)
      ⟨wk', get?_modified hget h.workers, rfl⟩⟩
  change d₁.out ++ [_] = _
  rw [hout, List.append_assoc]
  rfl

theorem arming_wakeOnSend {session : SessionId} (h : d.wakeOnSend cfg w session = some d') :
    Arming cfg w i d d' := by
  obtain ⟨⟨id, wk⟩, hfind, rfl⟩ := Option.map_eq_some_iff.mp h
  obtain ⟨hget, -⟩ := Table.find?_eq_some hfind
  have hkin : Kin wk (woken cfg w id wk) := ⟨rfl, rfl, rfl, rfl, rfl, fun h => nomatch h⟩
  refine ⟨.wakes hget rfl hkin rfl rfl rfl, ?_⟩
  exact .of_card [] [] (wakeDetail wk) rfl (by simp) (by simp)
    ⟨_, get?_modified hget rfl, rfl⟩

theorem arming_afterWake (session : SessionId) : Arming cfg w i d (d.afterWake w session) := by
  unfold afterWake
  split
  · exact (Aloof.refl d).arming
  · rename_i id _ _
    extract_lets d₁
    have hopen : Aloof d d₁ := by
      unfold d₁
      split
      · split
        · exact aloof_setCell ..
        · exact .refl d
      · exact .refl d
    split
    · exact hopen.arming
    · rename_i wk hget
      split
      · obtain ⟨effs, hout, hrests⟩ := hopen.out
        have hkin : Kin wk { wk with episode := w.episode id } :=
          ⟨rfl, rfl, rfl, rfl, rfl, fun h => h⟩
        have hget : d.workers.get? id = some wk := hopen.workers ▸ hget
        refine ⟨.stays hget ?_ hkin rfl hopen.yolo hopen.models, .of_none
          (effs ++ [.episodeStart id wk.batch wk.task]) ?_ fun e he k => ?_⟩
        · rw [← hopen.workers]
          rfl
        · change d₁.out ++ [_] = _
          rw [hout, List.append_assoc]
        · rcases List.mem_append.mp he with he | he
          · exact hrests e he k
          · rw [List.mem_singleton.mp he]
            rfl
      · exact hopen.arming

theorem arming_blockOnApproval {session : SessionId} {tool : String}
    (h : d.blockOnApproval session tool = some d') : Arming cfg w i d d' := by
  obtain ⟨⟨id, wk⟩, hfind, rfl⟩ := Option.map_eq_some_iff.mp h
  obtain ⟨hget, hp⟩ := Table.find?_eq_some hfind
  obtain ⟨-, hstate⟩ : wk.session = session ∧ wk.state = .running := by simp_all
  refine arming_stays hget ⟨rfl, rfl, rfl, rfl, rfl, fun h => nomatch h⟩ ?_ (.refl _)
  simp [Worker.resident, hstate]

theorem arming_resumeFromApproval {session : SessionId}
    (h : d.resumeFromApproval w session = some d') : Arming cfg w i d d' := by
  obtain ⟨⟨id, wk⟩, hfind, rfl⟩ := Option.map_eq_some_iff.mp h
  obtain ⟨hget, hp⟩ := Table.find?_eq_some hfind
  obtain ⟨-, hstate⟩ : wk.session = session ∧ wk.state = .blocked := by simp_all
  refine arming_stays hget ⟨rfl, rfl, rfl, rfl, rfl, fun h => nomatch h⟩ ?_ (.refl _)
  simp [Worker.resident, hstate]

theorem arming_put (hget : d.workers.get? id = some wk) (hkin : Kin wk wk')
    (hresident : wk'.resident = wk.resident) : Arming cfg w i d (d.put id wk') :=
  ⟨.stays hget rfl hkin hresident rfl rfl, .of_none [] (by simp) (by simp)⟩

theorem arming_turnErrored (session : SessionId) : Arming cfg w i d (d.turnErrored session) := by
  unfold turnErrored
  split
  · exact (Aloof.refl d).arming
  · rename_i id wk hfind
    obtain ⟨hget, -⟩ := Table.find?_eq_some hfind
    exact arming_put hget ⟨rfl, rfl, rfl, rfl, rfl, fun h => h⟩ rfl

theorem arming_cancelOne (d : Driver) (id : ℕ) : Arming cfg w i d (cancelOne w d id) := by
  unfold cancelOne
  split
  · exact (Aloof.refl d).arming
  · rename_i wk hget
    split
    · exact (Aloof.refl d).arming
    · extract_lets wk' d₁ d₂
      have h₂ : Aloof d₁ d₂ := by
        unfold d₂
        split
        · exact .emit fun _ => rfl
        · exact .refl d₁
      obtain ⟨effs, hout, hrests⟩ := h₂.out
      have hcore : (((d₂.disarmWorker wk.session).emitState id wk' "cancelled").finalizeTerminal id
          wk').core = d₂.core := core_finalizeTerminal ..
      have hside : (((d₂.disarmWorker wk.session).emitState id wk' "cancelled").finalizeTerminal id
          wk').side = (d₂.disarmWorker wk.session).side := side_finalizeTerminal ..
      have hworkers := (congrArg Core.workers hcore).trans h₂.workers
      refine ⟨.rests hget hworkers ⟨rfl, rfl, rfl, rfl, rfl, fun h => nomatch h⟩ rfl
        ((congrArg Side.yolo hside).trans ?_) ((congrArg Side.models hside).trans ?_),
        .of_card effs (finalEffects id wk') "cancelled" ?_ hrests
          (fun e he k => rests_finalEffects he k) ⟨wk', get?_modified hget hworkers, rfl⟩⟩
      · change d₂.yolo.erase _ = _
        rw [h₂.yolo]
        rfl
      · change d₂.models.erase _ = _
        rw [h₂.models]
        rfl
      · rw [out_finalizeTerminal]
        change d₂.out ++ [_] ++ _ = _
        rw [hout, List.append_assoc, List.append_assoc]
        rfl

theorem arming_openGate {x : Driver × Bool} (hget : x.1.workers.get? id = some wk)
    (hqueued : wk.state = .queued) : Arming cfg w i x.1 (openGate w x id).1 := by
  unfold openGate
  extract_lets d
  split
  · rename_i wk' mandala addr c t hget' _ _
    obtain rfl : wk' = wk := Option.some.inj (hget'.symm.trans hget)
    extract_lets isSettled timedOut repo block task wk₁ d₁
    split
    · exact arming_stays hget ⟨rfl, rfl, rfl, rfl, rfl, fun _ => hqueued⟩ rfl (aloof_setCell ..)
    · exact (Aloof.refl x.1).arming
  · exact (Aloof.refl x.1).arming

/-- A review schedules the next one, whatever else it does. -/
theorem kin_schedule (wk : Worker) (posture : Posture) (word : Word) (stepTimeout idleTtl now : ℕ)
    (deadlineIn : Option ℕ) : Kin wk (scheduleNextReview wk posture word stepTimeout idleTtl now
      deadlineIn) ∧
      (scheduleNextReview wk posture word stepTimeout idleTtl now deadlineIn).resident =
        wk.resident := by
  cases hterm : wk.isTerminal with
  | true =>
    obtain ⟨t, ht⟩ := schedule_of_terminal hterm
    rw [ht]
    exact ⟨⟨rfl, rfl, rfl, rfl, rfl, fun h => h⟩, rfl⟩
  | false =>
    obtain ⟨t, key, n, -, ht⟩ := schedule_of_live hterm
    rw [ht]
    exact ⟨⟨rfl, rfl, rfl, rfl, rfl, fun h => h⟩, rfl⟩

theorem aloof_recordLap (d : Driver) (w : World) (parent : SessionId) (ctx : CellCtx)
    (v : Verdicted) : Aloof d (d.recordLap w parent ctx v) := by
  unfold recordLap
  extract_lets d₁ d₂ tail
  have h₁ : Aloof d d₁ := by
    unfold d₁
    split
    · cases v.lap with
      | none => exact .refl d
      | some m => exact aloof_setCell ..
    · exact .refl d
  have h₂ : Aloof d₁ d₂ := by
    unfold d₂
    split
    · exact (aloof_setCell ..).trans (aloof_setCell ..)
    · exact .refl d₁
  refine (h₁.trans h₂).trans ?_
  split
  · exact .emit fun _ => rfl
  · exact .refl d₂

/-- What a turn leaves of a worker: itself, in a place it had or at rest for good. -/
theorem Turned.kin {next : Option Prompt} (h : Turned w wk wk' next)
    (hstep : Worker.stepping wk = true) : Kin wk wk' ∧ (wk'.resident = wk.resident ∨
      wk'.isTerminal = true ∧ wk'.resident = false) ∧
      (wk'.isTerminal = true → wk'.resident = false) := by
  have hresident : wk.resident = true := by
    cases hs : wk.state <;> simp_all [Worker.stepping, Worker.resident]
  cases h with
  | rests h =>
    refine ⟨⟨rfl, rfl, rfl, rfl, rfl, fun hq => ?_⟩, ?_⟩
    · rcases h with rfl | rfl | rfl | rfl <;> cases hq
    · rw [hresident]
      rcases h with rfl | rfl | rfl | rfl <;> simp [Worker.resident, Worker.isTerminal, terminal]
  | goesOn =>
    refine ⟨⟨rfl, rfl, rfl, rfl, rfl, fun hq => hq⟩, Or.inl rfl, fun hterm => ?_⟩
    have hlive : wk.isTerminal = false := isTerminal_of_stepping hstep
    exact absurd (hlive.symm.trans hterm) (by simp)

/-- The end of a turn: the worker goes on where it lives, or is disarmed. -/
theorem arming_endTurn {d₁ : Driver} {detail : String} (hget : d.workers.get? id = some wk)
    (hkin : Kin wk wk') (hstays : wk'.isTerminal = false → wk'.resident = wk.resident)
    (hends : wk'.isTerminal = true → wk'.resident = false) (h : Aloof (d.put id wk') d₁) :
    Arming cfg w i d ((d₁.emitState id wk' detail).endTurn w id wk') := by
  unfold endTurn
  split
  · rename_i hterm
    obtain ⟨effs, hout, hrests⟩ := h.out
    have hcore : (((d₁.emitState id wk' detail).disarmWorker wk'.session).finalizeTerminal id
        wk').core = d₁.core := core_finalizeTerminal ..
    have hside : (((d₁.emitState id wk' detail).disarmWorker wk'.session).finalizeTerminal id
        wk').side = (d₁.disarmWorker wk'.session).side := side_finalizeTerminal ..
    have hworkers : ((((d₁.emitState id wk' detail).disarmWorker wk'.session).finalizeTerminal id
        wk').put id { wk' with nextReview := some w.now }).workers = d.workers.modify id fun _ =>
          { wk' with nextReview := some w.now } := by
      have hbefore := (congrArg Core.workers hcore).trans h.workers
      refine (congrArg (fun t : Workers => t.modify id fun _ =>
        { wk' with nextReview := some w.now }) hbefore).trans ?_
      change (d.workers.modify id fun _ => wk').modify id _ = _
      rw [Table.modify_modify]
      rfl
    refine ⟨.rests hget hworkers ⟨hkin.batch, hkin.parent, hkin.session, hkin.yolo, hkin.model,
      hkin.queued⟩ (hends hterm) ?_ ?_, .of_card effs (finalEffects id wk') detail ?_ hrests
        (fun e he k => rests_finalEffects he k) ⟨_, get?_modified hget hworkers, rfl⟩⟩
    · refine (congrArg Side.yolo hside).trans ?_
      change d₁.yolo.erase wk'.session = _
      rw [h.yolo, hkin.session]
      rfl
    · refine (congrArg Side.models hside).trans ?_
      change d₁.models.erase wk'.session = _
      rw [h.models, hkin.session]
      rfl
    · rw [out_put, out_finalizeTerminal]
      change d₁.out ++ [_] ++ _ = _
      rw [hout, List.append_assoc, List.append_assoc]
      rfl
  · rename_i hterm
    exact arming_stays hget hkin (hstays (by simpa using hterm)) h

theorem Arming.emit {e : Effect} (h : Arming cfg w i d d') (he : ∀ k, e.rests k = false) :
    Arming cfg w i d (d'.emit e) := by
  obtain ⟨harms, effs, hout, hhonest⟩ := h
  refine ⟨?_, effs ++ [e], by rw [out_emit, hout, List.append_assoc], fun e' he' k hrests => ?_⟩
  · cases harms with
    | still hworkers hyolo hmodels => exact .still hworkers hyolo hmodels
    | stays hget hworkers hkin hresident hyolo hmodels =>
      exact .stays hget hworkers hkin hresident hyolo hmodels
    | rests hget hworkers hkin hresident hyolo hmodels =>
      exact .rests hget hworkers hkin hresident hyolo hmodels
    | wakes hget hworkers hkin hresident hyolo hmodels =>
      exact .wakes hget hworkers hkin hresident hyolo hmodels
    | admission hget hqueued hworkers hyolo hmodels horder =>
      obtain ⟨effs', hout', hresides⟩ := horder
      refine .admission hget hqueued hworkers hyolo hmodels ⟨effs' ++ [e], ?_, hresides.append ?_⟩
      · rw [out_emit, hout', List.append_assoc]
      · simpa using he _
    | armed hi hworkers hyolo hmodels => exact .armed hi hworkers hyolo hmodels
    | disarmed hworkers hyolo hmodels => exact .disarmed hworkers hyolo hmodels
  · rcases List.mem_append.mp he' with he' | he'
    · exact hhonest e' he' k hrests
    · rw [List.mem_singleton.mp he', he k] at hrests
      cases hrests

theorem arming_advance {session : SessionId} (h : d.advance cfg w session = some d') :
    Arming cfg w i d d' := by
  unfold advance at h
  split at h
  · cases h
  · rename_i id wk hfind
    obtain ⟨hget, hp⟩ := Table.find?_eq_some hfind
    have hstep : Worker.stepping wk = true := by simp_all [Worker.stepping]
    extract_lets ctx v d₁ d₂ d₃ at h
    obtain rfl := Option.some.inj h
    have hlap : Aloof d₁ d₂ := by
      unfold d₂
      cases ctx with
      | none => exact .refl d₁
      | some ctx => exact aloof_recordLap ..
    have hturn : Turned w wk v.worker v.next := turned_applyVerdict ..
    obtain ⟨hkin, hresident, hends⟩ := hturn.kin hstep
    have hend : Arming cfg w i d d₃ := by
      refine arming_endTurn hget hkin (fun hlive => ?_) hends hlap
      exact hresident.resolve_right fun h => absurd (hlive.symm.trans h.1) (by simp)
    cases hnext : v.next with
    | none => exact hend
    | some text => exact hend.emit fun k => rests_of_plain (Turned.plain_next (hnext ▸ hturn)) k

/-- The next review of a worker that is what it was. -/
theorem arming_schedule {s s' : Sweep} {posture : Posture} {word : Word} {deadlineIn : Option ℕ}
    (hget : s.driver.workers.get? id = some wk) (h : s'.driver = s.driver) :
    Arming cfg w i s.driver (s'.schedule id fun wk' =>
      scheduleNextReview wk' posture word cfg.stepTimeout cfg.idleTtl w.now deadlineIn).driver := by
  obtain ⟨hkin, hresident⟩ :=
    kin_schedule wk posture word cfg.stepTimeout cfg.idleTtl w.now deadlineIn
  have hcore := core_schedule_same (f := fun wk' =>
    scheduleNextReview wk' posture word cfg.stepTimeout cfg.idleTtl w.now deadlineIn) hget h
  refine ⟨.stays hget (congrArg Core.workers hcore) hkin hresident ?_ ?_, .of_none [] ?_ (by simp)⟩
  · exact (congrArg Driver.yolo h :)
  · exact (congrArg Driver.models h :)
  · change s'.driver.out = _
    rw [h, List.append_nil]

/-- The next review of a worker that was put to rest. -/
theorem arming_put_to_rest {s s' : Sweep} {posture : Posture} {word : Word} {deadlineIn : Option ℕ}
    (wk' : Worker) (detail : String) (after : List Effect)
    (hget : s.driver.workers.get? id = some wk)
    (hkin : Kin wk wk') (hresident : wk'.resident = false)
    (hcore : s'.driver.core = { s.driver.core with
      workers := s.driver.workers.modify id fun _ => wk' })
    (hyolo : s'.driver.yolo = s.driver.yolo.erase wk.session)
    (hmodels : s'.driver.models = s.driver.models.erase wk.session)
    (hout : s'.driver.out = s.driver.out ++ cardOf id wk' detail :: after)
    (hafter : ∀ e ∈ after, ∀ k, e.rests k = false) :
    Arming cfg w i s.driver (s'.schedule id fun wk' =>
      scheduleNextReview wk' posture word cfg.stepTimeout cfg.idleTtl w.now deadlineIn).driver := by
  obtain ⟨hkin', hresident'⟩ :=
    kin_schedule wk' posture word cfg.stepTimeout cfg.idleTtl w.now deadlineIn
  have hworkers := congrArg Core.workers (core_schedule_put (f := fun wk' =>
    scheduleNextReview wk' posture word cfg.stepTimeout cfg.idleTtl w.now deadlineIn) hcore)
  refine ⟨.rests hget hworkers ⟨hkin'.batch.trans hkin.batch, hkin'.parent.trans hkin.parent,
    hkin'.session.trans hkin.session, hkin'.yolo.trans hkin.yolo, hkin'.model.trans hkin.model,
    fun h => hkin.queued (hkin'.queued h)⟩ (hresident'.trans hresident) hyolo hmodels,
    .of_card [] after detail hout (by simp) hafter ⟨_, get?_modified hget hworkers, hresident'⟩⟩

theorem arming_reviewOne {s : Sweep} (hdue : Reviewable w s.driver id) :
    Arming cfg w i s.driver (reviewOne cfg w s id).driver := by
  obtain ⟨wk, hget, -⟩ := hdue
  unfold reviewOne
  rw [hget]
  dsimp only
  have hr := review_observe s.driver cfg w id wk
  generalize s.driver.observe cfg w id wk = seen at hr ⊢
  obtain ⟨posture, word, deadlineIn⟩ := seen
  dsimp only at hr ⊢
  rcases hr with ⟨hr, -, hstate, -⟩ | ⟨hr, -, -⟩ | hr
  · rw [hr]
    refine arming_put_to_rest { wk with state := .failed, turnInflight := false }
      "step stalled — no completion"
      (finalEffects id { wk with state := .failed, turnInflight := false }) hget
      ⟨rfl, rfl, rfl, rfl, rfl, fun h => nomatch h⟩ rfl (core_finalizeTerminal ..) ?_ ?_ ?_
      fun e he k => rests_finalEffects he k
    · exact congrArg Side.yolo (side_finalizeTerminal ..)
    · exact congrArg Side.models (side_finalizeTerminal ..)
    · exact (out_finalizeTerminal ..).trans (List.append_assoc ..)
  · rw [hr]
    by_cases hparked : wk.state = .parked
    · rw [remediate_parked hparked]
      exact arming_schedule hget rfl
    · refine arming_put_to_rest { wk with state := .parked } "idle TTL — parked (a send revives)" []
        hget ⟨rfl, rfl, rfl, rfl, rfl, fun h => nomatch h⟩ rfl ?_ ?_ ?_ ?_ (by simp)
      all_goals
        unfold remediate
        dsimp only
        rw [if_neg hparked]
        rfl
  · exact arming_schedule hget (remediate_quiet w s id wk hr).1

/-- **Every act arms and disarms as it should**, the wake of a send in two parts, unless it
mints. -/
theorem Act.arms (h : Act cfg w i d₀ d d') : Relation.ReflTransGen (Arming cfg w i) d d' ∨
    ∃ b items yolo item, MintsOne cfg w i d₀ d d' b items yolo item := by
  cases h with
  | workerMinted h hitem hnode hopen =>
    exact Or.inr ⟨_, _, _, _, h, hopen, rfl, rfl, rfl, rfl, rfl, rfl, rfl⟩
  | idle h => exact Or.inl (.single h.aloof.arming)
  | card hget =>
    exact Or.inl (.single ⟨.still rfl rfl rfl, .of_card [] [] _ rfl (by simp) (by simp)
      ⟨_, hget, rfl⟩⟩)
  | save => exact Or.inl (.single (aloof_saveWorkerState ..).arming)
  | reported => exact Or.inl (.single (aloof_reportBatch ..).arming)
  | admission hnext hget =>
    exact Or.inl (.single (arming_admitOne hget (admissible_of_nextQueued hnext hget)))
  | verdict hget hstep =>
    exact Or.inl (.single (arming_put hget ⟨rfl, rfl, rfl, rfl, rfl, fun h => h⟩ rfl))
  | advanced hi h => exact Or.inl (.single (arming_advance h))
  | sent hi h =>
    exact Or.inl ((Relation.ReflTransGen.single (arming_wakeOnSend h)).tail (arming_afterWake _))
  | suspended h => exact Or.inl (.single (arming_blockOnApproval h))
  | resumed hi h => exact Or.inl (.single (arming_resumeFromApproval h))
  | errored => exact Or.inl (.single (arming_turnErrored _))
  | cancelled => exact Or.inl (.single (arming_cancelOne ..))
  | gateOpened hget hheld hqueued => exact Or.inl (.single (arming_openGate hget hqueued))
  | reviewed hi hdue => exact Or.inl (.single (arming_reviewOne hdue))
  | cellSynced hx => exact Or.inl (.single (aloof_syncCell ..).arming)
  | remoteCellSynced hx => exact Or.inl (.single (aloof_syncRemoteCell ..).arming)
  | rowFailed hi => exact Or.inl (.single (aloof_failRemoteRow ..).arming)
  | rowAccepted hi har => exact Or.inl (.single (aloof_acceptRow ..).arming)
  | rowReported hi => exact Or.inl (.single (aloof_applyWireRow ..).arming)
  | rowRelayed => exact Or.inl (.single (aloof_relayOne ..).arming)
  | cancelPosted => exact Or.inl (.single (Aloof.emit fun _ => rfl).arming)
  | batchOpened h =>
    exact Or.inl (.single (Aloof.arming ⟨rfl, rfl, rfl, [], (List.append_nil _).symm, by simp⟩))
  | rowMinted h hitem hnode hopen =>
    exact Or.inl (.single (Aloof.arming ⟨rfl, rfl, rfl, [], (List.append_nil _).symm, by simp⟩))
  | lost h hsid hside => exact Or.inl (.single (h.aloof hside).arming)
  | bound h => exact Or.inl (.single (aloof_bindCells ..).arming)
  | mandalaOpened h =>
    exact Or.inl (.single (Aloof.arming ⟨rfl, rfl, rfl, [_], rfl, by simp [Effect.rests]⟩))
  | mandalaClosed hget hclosable => exact Or.inl (.single (aloof_closeMandala ..).arming)
  | armed hi =>
    exact Or.inl (.single ⟨.armed hi rfl rfl rfl, .of_none [] (List.append_nil _).symm (by simp)⟩)
  | disarmed =>
    exact Or.inl (.single ⟨.disarmed rfl rfl rfl, .of_none [] (List.append_nil _).symm (by simp)⟩)

end Driver

end ApexOS.Fabrica
