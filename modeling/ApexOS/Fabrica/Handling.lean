import ApexOS.Fabrica.Moves

/-!
# Every handler is a number of moves

One lemma for each part of the handlers of the worker driver, that it makes moves, and from them
`Driver.handled`: a handler sweeps if it is the tick's, then does its work, and closes with the
batches that are due.

## Main definitions

* `Driver.Stroke`: something happens to one worker, or nothing
* `Driver.Minted`: what the minting loops have added
* `Driver.FanOutcome`: what a fan-out comes to
* `Driver.Handles`: the handling of an input, and its close

## Main results

* `Driver.reviewOne_spec`: what the review of a worker comes to
* `Driver.handled`: a handler's work, in moves
-/

namespace ApexOS.Fabrica

open ApexOS.Agentd (SessionId ActionId WorkerState GoalState)

namespace Driver

variable {cfg : Config} {w : World} {d d' : Driver} {c : Cause} {i : Input}
  {id : ℕ} {wk wk' : Worker} {effs : List Effect}

/-! ### Admission, refusals and reports of a worker -/

theorem moves_admitLoop (hc : c ≠ .closing) (n : ℕ) (d : Driver) :
    Moves cfg w c d (admitLoop cfg w n d) := by
  induction n generalizing d with
  | zero => exact .refl
  | succ n ih =>
    rw [admitLoop]
    split
    · rename_i hcap
      split
      · exact .refl
      · rename_i x hx
        obtain ⟨id, hnext, hid⟩ := Option.bind_eq_some_iff.mp hx
        obtain ⟨wk, hget, hx⟩ := Option.map_eq_some_iff.mp hid
        obtain ⟨rfl, rfl⟩ := Prod.mk.inj hx
        exact (Relation.ReflTransGen.single (.admission hc hcap hnext hget)).trans (ih _)
    · exact .refl

theorem moves_admitQueued (hc : c ≠ .closing) (d : Driver) :
    Moves cfg w c d (d.admitQueued cfg w) :=
  moves_admitLoop hc _ d

theorem moves_refuse (session : SessionId) (call : ActionId) (msg : String) :
    Moves cfg w c d (d.refuse session call msg) := .emit rfl

theorem moves_recordReport (session : SessionId) (call : ActionId) (args : Json) :
    Moves cfg w (.handling i) d (d.recordReport cfg session call args) := by
  unfold recordReport
  dsimp only
  split
  · exact moves_refuse ..
  · split
    · exact moves_refuse ..
    · split
      · exact moves_refuse ..
      · rename_i id wk hfind
        obtain ⟨hget, hp⟩ := Table.find?_eq_some hfind
        have hstep : Worker.stepping wk = true := by simp_all [Worker.stepping]
        refine .single (.life hget (.reported hstep) rfl rfl ?_)
        exact .quiet (.of_plain (by simp [Effect.plain])) (fun h => h)

/-! ### A turn's end -/

theorem aside_recordLap (parent : SessionId) (ctx : CellCtx) (v : Verdicted) :
    Aside d (d.recordLap w parent ctx v) := by
  unfold recordLap
  extract_lets d₁ d₂ tail
  have h₁ : Aside d d₁ := by
    unfold d₁
    split
    · cases v.lap with
      | none => exact .refl d
      | some m => exact aside_setCell ..
    · exact .refl d
  have h₂ : Aside d₁ d₂ := by
    unfold d₂
    split
    · exact (aside_setCell ..).trans (aside_setCell ..)
    · exact .refl d₁
  refine (h₁.trans h₂).trans ?_
  split
  · exact .emit rfl
  · exact .refl d₂

theorem turned_applyContinue (cfg : Config) (w : World) (ctx : Option CellCtx)
    (id : ℕ) (wk : Worker)
    (steer : Option String) (measure : Option ℕ) (v : Verdicted)
    (hv :
    applyContinue cfg w ctx id { wk with turnInflight := false, pending := none } steer measure =
      v) : Turned w wk v.worker v.next := by
  unfold applyContinue at hv
  extract_lets isR ceiling projected at hv
  split at hv
  · subst hv
    exact .rests (by simp)
  · split at hv
    · split at hv
      · subst hv
        exact .goesOn
      · subst hv
        exact .rests (by simp)
    · subst hv
      exact .goesOn

/-- What `advance` makes of the reported verdict. -/
theorem turned_applyVerdict (cfg : Config) (w : World) (ctx : Option CellCtx) (id : ℕ)
    (wk : Worker) :
    Turned w wk (applyVerdict cfg w ctx id wk).worker (applyVerdict cfg w ctx id wk).next := by
  unfold applyVerdict
  cases wk.pending with
  | none => exact .rests (by split <;> simp)
  | some verdict =>
    cases verdict with
    | done summary artifacts measure => exact .rests (by simp)
    | blocked reason => exact .rests (by simp)
    | yield => exact .rests (by simp)
    | proceed steer measure => exact turned_applyContinue cfg w ctx id wk steer measure _ rfl

theorem out_emitState (h : d'.out = d.out ++ effs) (detail : String) :
    (d'.emitState id wk detail).out = d.out ++ (effs ++ [cardOf id wk detail]) := by
  rw [← List.append_assoc, ← h]
  rfl

/-- An end is put on record: the card, and the trail. -/
theorem trail_ended (hwk : wk.isTerminal = false) (hwk' : wk'.isTerminal = true) (detail : String)
    (h : ∀ e ∈ effs, e.plain = true) :
    Trail id wk wk' (effs ++ [cardOf id wk' detail] ++ finalEffects id wk') :=
  .ended ((Quiet.of_plain h).append (quiet_cardOf detail)) hwk hwk'

/-- The next step's order is not a first one. -/
theorem Turned.plain_next {text : Prompt} {session : SessionId} (h : Turned w wk wk' (some text)) :
    (Effect.event (.userPrompt session text)).plain = true := by
  cases h
  rfl

theorem moves_endTurn {d₃ : Driver} {detail : String} (hget : d.workers.get? id = some wk)
    (hlife : Life cfg w id (.handling i) wk wk') (hlive : wk.isTerminal = false)
    (hcore : d₃.core = { d.core with workers := d.workers.modify id fun _ => wk' })
    (hout : d₃.out = d.out ++ effs) (hplain : ∀ e ∈ effs, e.plain = true) :
    Moves cfg w (.handling i) d ((d₃.emitState id wk' detail).endTurn w id wk') := by
  have hcard : (d₃.emitState id wk' detail).out = _ := out_emitState hout detail
  unfold endTurn
  split
  · rename_i hterm
    generalize hd :
      ((d₃.emitState id wk' detail).disarmWorker wk'.session).finalizeTerminal id wk' =
      d₄
    have hcore₄ : d₄.core = { d.core with workers := d.workers.modify id fun _ => wk' } := by
      rw [← hd, ← hcore]
      exact core_finalizeTerminal ..
    have hmove : Move cfg w (.handling i) d d₄ := by
      refine .life hget hlife hcore₄ ?_ (trail_ended hlive hterm detail hplain)
      rw [← hd, out_finalizeTerminal, out_disarmWorker, hcard, List.append_assoc]
    have hget₄ : d₄.workers.get? id = some wk' := by
      have : d₄.workers = d.workers.modify id fun _ => wk' := congrArg Core.workers hcore₄
      rw [this, Table.get?_modify_self, hget]
      rfl
    refine (Relation.ReflTransGen.single hmove).tail (.life hget₄ (.lastReview hterm) rfl ?_
      (.quiet .nil fun h => h))
    simp
  · rename_i hterm
    refine .single (.life hget hlife hcore hcard (.quiet ?_ fun h => absurd h hterm))
    exact (Quiet.of_plain hplain).append (quiet_cardOf detail)

theorem moves_advance {session : SessionId} (h : d.advance cfg w session = some d') :
    Moves cfg w (.handling (.turnComplete session)) d d' := by
  unfold advance at h
  split at h
  · cases h
  · rename_i id wk hfind
    obtain ⟨hget, hp⟩ := Table.find?_eq_some hfind
    obtain ⟨rfl, hstep⟩ : wk.session = session ∧ Worker.stepping wk = true := by
      simp_all [Worker.stepping]
    extract_lets ctx v d₁ d₂ d₃ at h
    obtain rfl := Option.some.inj h
    have hlap : Aside d₁ d₂ := by
      unfold d₂
      cases ctx with
      | none => exact .refl d₁
      | some ctx => exact aside_recordLap ..
    obtain ⟨effs, hout, hplain⟩ := hlap.out
    have hturn : Turned w wk v.worker v.next := turned_applyVerdict ..
    have hend : Moves cfg w (.handling (.turnComplete wk.session)) d d₃ :=
      moves_endTurn hget (.turned hstep hturn) (isTerminal_of_stepping hstep) hlap.core hout hplain
    refine hend.trans ?_
    cases hnext : v.next with
    | none => exact .refl
    | some text => exact Moves.emit (Turned.plain_next (hnext ▸ hturn))

/-! ### Sends and approvals -/

theorem moves_wakeOnSend {session : SessionId} (h : d.wakeOnSend cfg w session = some d') :
    Moves cfg w (.handling (.userPrompt session)) d d' := by
  obtain ⟨⟨id, wk⟩, hfind, rfl⟩ := Option.map_eq_some_iff.mp h
  obtain ⟨hget, hp⟩ := Table.find?_eq_some hfind
  obtain ⟨rfl, hwakes⟩ : wk.session = session ∧ wakes wk = true := by simp_all
  refine .single (.life hget (.woken hwakes) rfl rfl ?_)
  exact .quiet (quiet_cardOf _) (fun h => by simp [woken, Worker.isTerminal, terminal] at h)

theorem moves_afterWake (session : SessionId) :
    Moves cfg w (.handling i) d (d.afterWake w session) := by
  unfold afterWake
  split
  · exact .refl
  · rename_i id _ _
    extract_lets d₁
    have hopen : Aside d d₁ := by
      unfold d₁
      split
      · split
        · exact aside_setCell ..
        · exact .refl d
      · exact .refl d
    refine (Moves.of_aside hopen).trans ?_
    split
    · exact .refl
    · rename_i wk hget
      split
      · rename_i hnone
        refine .single (.life hget (.episode (Option.isNone_iff_eq_none.mp hnone)) rfl rfl ?_)
        exact .quiet (.of_plain (by simp [Effect.plain])) (fun h => h)
      · exact .refl

theorem moves_blockOnApproval {session : SessionId} {tool : String}
    (h : d.blockOnApproval session tool = some d') :
    Moves cfg w (.handling (.approvalPending session tool)) d d' := by
  obtain ⟨⟨id, wk⟩, hfind, rfl⟩ := Option.map_eq_some_iff.mp h
  obtain ⟨hget, hp⟩ := Table.find?_eq_some hfind
  obtain ⟨rfl, hstate⟩ : wk.session = session ∧ wk.state = .running := by simp_all
  refine .single (.life hget (.suspended hstate) rfl rfl ?_)
  exact .quiet (quiet_cardOf _) (fun h => by simp [Worker.isTerminal, terminal] at h)

theorem moves_resumeFromApproval {session : SessionId}
    (h : d.resumeFromApproval w session = some d') :
    Moves cfg w (.handling (.userApproval session)) d d' := by
  obtain ⟨⟨id, wk⟩, hfind, rfl⟩ := Option.map_eq_some_iff.mp h
  obtain ⟨hget, hp⟩ := Table.find?_eq_some hfind
  obtain ⟨rfl, hstate⟩ : wk.session = session ∧ wk.state = .blocked := by simp_all
  refine .single (.life hget (.resumed hstate) rfl rfl ?_)
  exact .quiet (quiet_cardOf _) (fun h => by simp [Worker.isTerminal, terminal] at h)

theorem moves_turnErrored (session : SessionId) :
    Moves cfg w (.handling (.turnError session)) d (d.turnErrored session) := by
  unfold turnErrored
  split
  · exact .refl
  · rename_i id wk hfind
    obtain ⟨hget, hp⟩ := Table.find?_eq_some hfind
    obtain rfl : wk.session = session := by simpa using hp
    exact .single (.life hget .errored rfl (List.append_nil _).symm (.quiet .nil fun h => h))

/-! ### Cancellation -/

/-- Something happens to one worker, or nothing. -/
inductive Stroke (cfg : Config) (w : World) (c : Cause) (id : ℕ) (d d' : Driver) : Prop
  | none (h : d' = d)
  | life {wk wk' : Worker} {effs : List Effect} (hget : d.workers.get? id = some wk)
      (hlife : Life cfg w id c wk wk')
      (hcore : d'.core = { d.core with workers := d.workers.modify id fun _ => wk' })
      (hout : d'.out = d.out ++ effs) (htrail : Trail id wk wk' effs)

theorem Stroke.moves (h : Stroke cfg w c id d d') : Moves cfg w c d d' := by
  cases h with
  | none h => rw [h]
  | life hget hlife hcore hout htrail => exact .single (.life hget hlife hcore hout htrail)

theorem Stroke.get?_of_ne {id' : ℕ} (h : Stroke cfg w c id d d') (hne : id' ≠ id) :
    d'.workers.get? id' = d.workers.get? id' := by
  cases h with
  | none h => rw [h]
  | life hget hlife hcore hout htrail =>
    change d'.core.workers.get? id' = _
    rw [hcore]
    exact Table.get?_modify_of_ne hne

theorem stroke_cancelOne (hi : ∀ wk, d.workers.get? id = some wk → i.Cancels id wk) :
    Stroke cfg w (.handling i) id d (cancelOne w d id) := by
  unfold cancelOne
  split
  · exact .none rfl
  · rename_i wk hget
    split
    · exact .none rfl
    · rename_i hlive
      rw [Bool.not_eq_true] at hlive
      extract_lets wk' d₁ d₂
      obtain ⟨effs, hout, hplain⟩ : ∃ effs, d₂.out = d.out ++ effs ∧ ∀ e ∈ effs,
          e.plain = true := by
        unfold d₂
        split
        · exact ⟨[_], rfl, by simp [Effect.plain]⟩
        · exact ⟨[], by simp [d₁]⟩
      have hcore : d₂.core = d₁.core := by
        unfold d₂
        split <;> rfl
      refine .life hget (.cancelled hlive (hi wk hget)) ?_ ?_
        (trail_ended hlive rfl "cancelled" hplain)
      · rw [core_finalizeTerminal, core_emitState, core_disarmWorker, hcore]
        rfl
      · rw [out_finalizeTerminal,
          out_emitState (show (d₂.disarmWorker wk.session).out = _ from hout),
          List.append_assoc]

theorem moves_cancelWorkers {ids : List ℕ} (hids : ids.Nodup)
    (hi : ∀ id ∈ ids, ∀ wk, d.workers.get? id = some wk → i.Cancels id wk) :
    Moves cfg w (.handling i) d (d.cancelWorkers w ids) := by
  refine Moves.foldl (fun d => d)
    (Q := fun d id => ∀ wk, d.workers.get? id = some wk → i.Cancels id wk) ?_ ?_ hids hi
  · intro d id hQ
    exact (stroke_cancelOne hQ).moves
  · intro d a b ha hb hne wk hget
    have hstroke : Stroke cfg w (.handling i) a d (cancelOne w d a) := stroke_cancelOne ha
    rw [hstroke.get?_of_ne hne] at hget
    exact hb wk hget

/-! ### Mirror rows -/

/-- A row changes, and its card may go out. -/
theorem moves_putRemote {d₁ : Driver} {r r' : RemoteWorker} (hc : c ≠ .closing)
    (hget : d.remotes.get? id = some r)
    (hsame : r'.batch = r.batch ∧ r'.parent = r.parent ∧ r'.node = r.node) (h : Aside d d₁) :
    Moves cfg w c d (d₁.putRemote id r') := by
  obtain ⟨effs, hout, hplain⟩ := h.out
  refine .single (.remote hc hget hsame ?_ hout (Quiet.of_plain hplain))
  rw [core_putRemote, h.core, show d₁.remotes = d.remotes from congrArg Core.remotes h.core]

theorem moves_putRemote_card {d₁ : Driver} {r r' : RemoteWorker} (hc : c ≠ .closing)
    (hget : d.remotes.get? id = some r)
    (hsame : r'.batch = r.batch ∧ r'.parent = r.parent ∧ r'.node = r.node) (h : Aside d d₁)
    (detail : String) : Moves cfg w c d ((d₁.putRemote id r').emitRemoteState id r' detail) := by
  refine (moves_putRemote hc hget hsame h).tail (.remoteCard ?_)
  have : d₁.remotes = d.remotes := congrArg Core.remotes h.core
  change (d₁.remotes.modify id fun _ => r').get? id = some r'
  rw [this, Table.get?_modify_self, hget, Option.map_some]

theorem moves_relayOne (hc : c ≠ .closing) (x : Driver × CancelGroups) (id : ℕ) :
    Moves cfg w c x.1 (relayOne x id).1 := by
  unfold relayOne
  split
  · exact .refl
  · rename_i r hget
    split
    · exact .refl
    · refine moves_putRemote_card hc hget ?_ (.refl _) _
      exact ⟨rfl, rfl, rfl⟩

/-- A fold of moves over anything. -/
theorem Moves.foldl_any {σ α : Type*} (π : σ → Driver) {f : σ → α → σ}
    (hmove : ∀ s a, Moves cfg w c (π s) (π (f s a))) (l : List α) (s : σ) :
    Moves cfg w c (π s) (π (l.foldl f s)) := by
  induction l generalizing s with
  | nil => exact .refl
  | cons a l ih => exact (hmove s a).trans (ih _)

theorem moves_relayRemoteCancels (hc : c ≠ .closing) (ids : List ℕ) :
    Moves cfg w c d (d.relayRemoteCancels w ids) := by
  have hrelay : Moves cfg w c d (ids.foldl relayOne (d, Table.empty)).1 :=
    .foldl_any Prod.fst (moves_relayOne hc) ids (d, Table.empty)
  have hpost (groups : CancelGroups) (d : Driver) : Aside d (groups.entries.foldl (fun d g =>
      g.2.1.elim d fun rb =>
        if w.registered g.1.2 then d.emit (.post g.1.2 (.cancel rb g.2.2)) else d) d) := by
    refine .foldl (fun d g => ?_) _ d
    cases g.2.1 with
    | none => exact .refl d
    | some rb =>
      change Aside d (if w.registered g.1.2 then _ else d)
      split
      · exact .emit rfl
      · exact .refl d
  exact hrelay.trans (Moves.of_aside (hpost ..))

theorem moves_failRemoteRow (hc : c ≠ .closing) (cause : String) (d : Driver) (id : ℕ) :
    Moves cfg w c d (failRemoteRow cfg cause d id) := by
  unfold failRemoteRow
  split
  · exact .refl
  · rename_i r hget
    split
    · exact .refl
    · refine moves_putRemote_card hc hget ?_ (.emit ?_) _
      · exact ⟨rfl, rfl, rfl⟩
      · rfl

theorem moves_acceptRow (hc : c ≠ .closing) (node : String) (wids : List ℕ) (peerBatch : ℕ)
    (d : Driver) (ar : AcceptedRow) : Moves cfg w c d (acceptRow node wids peerBatch d ar) := by
  unfold acceptRow
  split
  · exact .refl
  · rename_i id r hx
    obtain ⟨id', -, hid⟩ := Option.bind_eq_some_iff.mp hx
    obtain ⟨r', hget, hx⟩ := Option.map_eq_some_iff.mp hid
    obtain ⟨rfl, rfl⟩ := Prod.mk.inj hx
    refine moves_putRemote_card hc hget ?_ (.refl d) _
    exact ⟨rfl, rfl, rfl⟩

theorem moves_handleAssignOutcome (hc : c ≠ .closing) (batch : ℕ) (node : String) (wids : List ℕ)
    (result : Except String (ℕ × List AcceptedRow)) :
    Moves cfg w c d (d.handleAssignOutcome cfg w batch node wids result) := by
  unfold handleAssignOutcome
  split
  · exact .foldl_any (fun d => d) (moves_failRemoteRow hc _) wids d
  · extract_lets d₁ target
    have h₁ : Moves cfg w c d d₁ := .foldl_any (fun d => d) (moves_acceptRow hc node wids _) _ d
    exact h₁.trans (Moves.of_aside (.of_eq rfl rfl))

theorem moves_applyWireRow (hc : c ≠ .closing) (batch : ℕ) (node : String) (x : Driver × Bool)
    (wire : WireRow) : Moves cfg w c x.1 (applyWireRow cfg batch node x wire).1 := by
  unfold applyWireRow
  split
  · exact .refl
  · rename_i id r hfind
    obtain ⟨hget, -⟩ := Table.find?_eq_some hfind
    extract_lets stateChanged summaryChanged r₁ mirrored d₁ r₂ d₂
    have haside : Aside x.1 d₁ := by
      unfold d₁
      split
      · exact .emit rfl
      · exact .refl _
    have hsame : r₂.batch = r.batch ∧ r₂.parent = r.parent ∧ r₂.node = r.node := by
      unfold r₂
      split <;> exact ⟨rfl, rfl, rfl⟩
    change Moves cfg w c x.1 (if stateChanged then d₂.emitRemoteState id r₂ "" else d₂)
    split
    · exact moves_putRemote_card hc hget hsame haside _
    · exact moves_putRemote hc hget hsame haside

theorem moves_applyWireRows (hc : c ≠ .closing) (batch : ℕ) (node : String) (rows : List WireRow) :
    Moves cfg w c d (d.applyWireRows cfg batch node rows).1 :=
  .foldl_any Prod.fst (moves_applyWireRow hc batch node) rows (d, false)

theorem moves_handlePollOutcome (hc : c ≠ .closing) (batch : ℕ) (node : String)
    (result : Except String (List WireRow)) :
    Moves cfg w c d (d.handlePollOutcome cfg w batch node result).1 := by
  unfold handlePollOutcome
  split
  · exact .refl
  · cases result with
    | error cause => exact .of_aside (.of_eq rfl rfl)
    | ok rows =>
        exact (moves_applyWireRows hc batch node rows).trans (Moves.of_aside (.of_eq rfl rfl))

/-! ### Cells and gates -/

theorem aside_syncCells (cfg : Config) (w : World) (d : Driver) : Aside d (d.syncCells cfg w) := by
  refine .foldl (fun d x => ?_) _ d
  split
  · split
    · exact aside_setCell ..
    · exact .refl d
  · exact .refl d

theorem aside_syncRemoteCells (w : World) (d : Driver) : Aside d (d.syncRemoteCells w) := by
  refine .foldl (fun d x => ?_) _ d
  split
  · split
    · exact aside_setCell ..
    · exact .refl d
  · exact .refl d

theorem stroke_openGate {x : Driver × Bool}
    (h : ∀ wk, x.1.workers.get? id = some wk → wk.barrierHeld = true ∧ wk.state = .queued) :
    Stroke cfg w (.handling i) id x.1 (openGate w x id).1 := by
  unfold openGate
  extract_lets d
  split
  · rename_i wk mandala addr cell tree hget _ _
    obtain ⟨hheld, hqueued⟩ := h wk hget
    extract_lets isSettled timedOut repo block task wk' d₁
    split
    · have hcell : Aside (d.put id wk') d₁ := aside_setCell ..
      obtain ⟨effs, hout, hplain⟩ := hcell.out
      refine .life hget (.opened hheld hqueued) hcell.core (out_emitState hout _) ?_
      exact .quiet ((Quiet.of_plain hplain).append (quiet_cardOf _)) fun h => h
    · exact .none rfl
  · exact .none rfl

theorem moves_checkBarriers (d : Driver) :
    Moves cfg w (.handling i) d (d.checkBarriers w).1 := by
  change Moves cfg w (.handling i) (d, false).1 (d.checkBarriers w).1
  refine Moves.foldl Prod.fst (Q := fun d id => ∀ wk, d.workers.get? id = some wk →
    wk.barrierHeld = true ∧ wk.state = .queued) ?_ ?_ (Table.nodup_keysWhere ..) ?_
  · intro x id hQ
    exact (stroke_openGate hQ).moves
  · intro x a b ha hb hne wk hget
    have hstroke : Stroke cfg w (.handling i) a x.1 (openGate w x a).1 := stroke_openGate ha
    rw [hstroke.get?_of_ne hne] at hget
    exact hb wk hget
  · intro id hid wk hget
    obtain ⟨wk', hget', hp⟩ := Table.mem_keysWhere.mp hid
    obtain rfl : wk' = wk := Option.some.inj (hget'.symm.trans hget)
    simpa using hp

/-! ### The report of batches -/

/-- The batch is there, and due. -/
def IsDue (w : World) (d : Driver) (batch : ℕ) : Prop :=
  ∃ b, d.batches.get? batch = some b ∧ due d.workers d.remotes w.epoch batch b = true

theorem isDue_of_mem {batch : ℕ} (h : batch ∈ d.dueBatches w) : IsDue w d batch :=
  Table.mem_keysWhere.mp h

theorem IsDue.of_reportBatch {a b : ℕ} (hb : IsDue w d b) (hne : b ≠ a) :
    IsDue w (reportBatch cfg d a) b := by
  obtain ⟨meta', hget, hdue⟩ := hb
  cases ha : d.batches.get? a with
  | none =>
    rw [reportBatch_of_none ha]
    exact ⟨meta', hget, hdue⟩
  | some m =>
    have hcore : (reportBatch cfg d a).core = _ := (reportBatch_spec ha).1
    refine ⟨meta', ?_, ?_⟩
    · change (reportBatch cfg d a).core.batches.get? b = some meta'
      rw [hcore]
      exact (Table.get?_modify_of_ne hne).trans hget
    · change due (reportBatch cfg d a).core.workers (reportBatch cfg d a).core.remotes _ _ _ = true
      rw [hcore]
      exact hdue

/-- The posts home of hosted batches. -/
theorem aside_homes (w : World) (homes : List (String × ℕ × ℕ × List WireRow)) (d : Driver) :
    Aside d (homes.foldl (fun d x => if w.registered x.1 then
      d.emit (.post x.1 (.report x.2.1 x.2.2.1 x.2.2.2)) else d) d) := by
  refine .foldl (fun d x => ?_) homes d
  split
  · exact .emit rfl
  · exact .refl d

theorem moves_checkBatches (d : Driver) : Moves cfg w .closing d (d.checkBatches cfg w) := by
  unfold checkBatches
  extract_lets dueNow homes d₁ d₂
  have h₁ : Moves cfg w .closing d d₁ := by
    refine Moves.foldl (fun d => d) (Q := IsDue w) ?_ ?_ (Table.nodup_keysWhere ..)
      fun b hb => isDue_of_mem hb
    · rintro d b ⟨m, hget, hdue⟩
      exact .single (.report rfl hget hdue)
    · intro d a b ha hb hne
      exact hb.of_reportBatch hne
  have h₂ : Moves cfg w .closing d₁ d₂ := by
    unfold d₂
    split
    · exact .refl
    · exact .single .save
  exact (h₁.trans h₂).trans (Moves.of_aside (aside_homes w homes d₂))

/-! ### The review -/

theorem schedule_of_live {posture : Posture} {word : Word} {stepTimeout idleTtl now : ℕ}
    {deadlineIn : Option ℕ} (h : wk.isTerminal = false) : ∃ t key n, now < t ∧
      scheduleNextReview wk posture word stepTimeout idleTtl now deadlineIn =
        { wk with nextReview := some t, lastReviewKey := key, reviewAttempt := n } := by
  unfold scheduleNextReview
  rw [if_neg (by simp [h])]
  extract_lets key attempt interval deadline
  refine ⟨_, _, _, ?_, rfl⟩
  have hinterval : 0 < interval := by
    unfold interval
    split
    · decide
    · exact fibBackoff_pos attempt (by decide)
  have hperiod : 0 < tickPeriod := by decide
  cases deadline with
  | none => exact Nat.lt_add_of_pos_right hinterval
  | some s =>
    change now < now + min interval (s + tickPeriod)
    omega

theorem schedule_of_terminal {posture : Posture} {word : Word} {stepTimeout idleTtl now : ℕ}
    {deadlineIn : Option ℕ} (h : wk.isTerminal = true) : ∃ t,
      scheduleNextReview wk posture word stepTimeout idleTtl now deadlineIn =
        { wk with nextReview := t } := by
  unfold scheduleNextReview
  rw [if_pos h]
  exact ⟨_, rfl⟩

/-- What a review can prescribe, and when. -/
theorem review_observe (d : Driver) (cfg : Config) (w : World) (id : ℕ) (wk : Worker) :
    (review (d.observe cfg w id wk).1 (d.observe cfg w id wk).2.1 = .fail ∧ wk.posture = .live ∧
      wk.state = .running ∧ cfg.stepTimeout < wk.elapsed w.now) ∨
    (review (d.observe cfg w id wk).1 (d.observe cfg w id wk).2.1 = .park ∧
      wk.posture = .waiting ∧ cfg.idleTtl < wk.elapsed w.now) ∨
    review (d.observe cfg w id wk).1 (d.observe cfg w id wk).2.1 ∈
      [.healthy, .reap, .openBarrier] := by
  have hreview : review (d.observe cfg w id wk).1 (d.observe cfg w id wk).2.1 = _ :=
    review_eq_of_demand rfl
  have hfst : (d.observe cfg w id wk).1 = wk.posture := rfl
  rw [hreview, hfst]
  cases hpost : wk.posture with
  | terminal => simp
  | barrierWait =>
    dsimp only
    split <;> simp
  | live =>
    dsimp only
    split
    · simp
    · rename_i hprogress
      simp only [observe, buildReview, hpost] at hprogress
      have hstate : wk.state = .running := by
        simp only [Worker.posture] at hpost
        grind
      simp_all
  | waiting =>
    dsimp only
    split
    · simp
    · rename_i hprogress
      simp only [observe, buildReview, hpost] at hprogress
      simp_all

theorem life_schedule {posture : Posture} {word : Word} {deadlineIn : Option ℕ} :
    Life cfg w id .review wk
      (scheduleNextReview wk posture word cfg.stepTimeout cfg.idleTtl w.now deadlineIn) := by
  cases hterm : wk.isTerminal with
  | true =>
    obtain ⟨t, ht⟩ := schedule_of_terminal hterm
    rw [ht]
    exact .looked (fun h => by simp [hterm] at h)
  | false =>
    obtain ⟨t, key, n, hlt, ht⟩ := schedule_of_live hterm
    rw [ht]
    exact .looked (fun _ s hs => Option.some.inj hs ▸ hlt)

/-- The next review of a worker that was changed. -/
theorem core_schedule_put {s s' : Sweep} {f : Worker → Worker}
    (h :
    s'.driver.core = { s.driver.core with workers := s.driver.workers.modify id fun _ => wk }) :
    (s'.schedule id f).driver.core =
      { s.driver.core with workers := s.driver.workers.modify id fun _ => f wk } := by
  have hworkers : s'.driver.workers = s.driver.workers.modify id fun _ => wk :=
    congrArg Core.workers h
  change { s'.driver.core with workers := s'.driver.workers.modify id f } = _
  rw [h, hworkers, Table.modify_modify]
  rfl

/-- The next review of a worker that was not. -/
theorem core_schedule_same {s s' : Sweep} {f : Worker → Worker}
    (hget : s.driver.workers.get? id = some wk) (h : s'.driver = s.driver) :
    (s'.schedule id f).driver.core =
      { s.driver.core with workers := s.driver.workers.modify id fun _ => f wk } := by
  change { s'.driver.core with workers := s'.driver.workers.modify id f } = _
  rw [h, Table.modify_eq_of_get? hget]

/-- A worker without effects, and without an end. -/
theorem remediate_quiet (w : World) (s : Sweep) (id : ℕ) (wk : Worker) {r : Remediation}
    (h : r ∈ [.healthy, .reap, .openBarrier]) :
    (remediate w s id wk r).driver = s.driver ∧ (remediate w s id wk r).failed = s.failed := by
  rcases List.mem_cons.mp h with rfl | h
  · exact ⟨rfl, rfl⟩
  · rcases List.mem_cons.mp h with rfl | h
    · exact ⟨rfl, rfl⟩
    · obtain rfl := List.mem_singleton.mp h
      exact ⟨rfl, rfl⟩

/-- A stalled worker: its card, and its trail. -/
theorem remediate_fail (w : World) (s : Sweep) (id : ℕ) (wk wk' : Worker)
    (hwk : wk.isTerminal = false)
    (hwk' : wk'.isTerminal = true) (hbatch : wk'.batch = wk.batch)
    (hparent : wk'.parent = wk.parent) :
    (remediate w s id wk .fail).driver.core = { s.driver.core with
      workers := s.driver.workers.modify id fun _ =>
        { wk with state := .failed, turnInflight := false } } ∧
    ∃ effs,
        (remediate w s id wk .fail).driver.out = s.driver.out ++ effs ∧ Trail id wk wk' effs := by
  refine ⟨core_finalizeTerminal .., _, (out_finalizeTerminal ..).trans (List.append_assoc ..), ?_⟩
  refine .ended ?_ hwk hwk'
  rw [hbatch, hparent]
  exact quiet_card _ _ _ _ _ _ _

/-- A worker that is parked now: its card. -/
theorem remediate_park (w : World) (s : Sweep) (id : ℕ) (wk wk' : Worker)
    (hstate : wk.state ≠ .parked)
    (hwk' : wk'.isTerminal = false) (hbatch : wk'.batch = wk.batch)
    (hparent : wk'.parent = wk.parent) :
    (remediate w s id wk .park).driver.core = { s.driver.core with
      workers := s.driver.workers.modify id fun _ => { wk with state := .parked } } ∧
    (remediate w s id wk .park).failed = s.failed ∧
    ∃ effs,
        (remediate w s id wk .park).driver.out = s.driver.out ++ effs ∧ Trail id wk wk' effs := by
  unfold remediate
  dsimp only
  rw [if_neg hstate]
  refine ⟨rfl, rfl, _, rfl, .quiet ?_ (fun h => by simp [hwk'] at h)⟩
  rw [hbatch, hparent]
  exact quiet_card _ _ _ _ _ _ _

theorem remediate_parked {s : Sweep} (hstate : wk.state = .parked) :
    remediate w s id wk .park = s := by
  unfold remediate
  dsimp only
  rw [if_pos hstate]

theorem isTerminal_schedule (posture : Posture) (word : Word) (stepTimeout idleTtl now : ℕ)
    (deadlineIn : Option ℕ) : (scheduleNextReview wk posture word stepTimeout idleTtl now
      deadlineIn).isTerminal = wk.isTerminal := by
  cases hterm : wk.isTerminal with
  | true =>
    obtain ⟨t, ht⟩ := schedule_of_terminal hterm
    rw [ht]
    exact hterm
  | false =>
    obtain ⟨t, key, n, -, ht⟩ := schedule_of_live hterm
    rw [ht]
    exact hterm

/-- A review with nothing to do for it. -/
theorem reviewed_quiet {s s' : Sweep} {posture : Posture} {word : Word} {deadlineIn : Option ℕ}
    (hget : s.driver.workers.get? id = some wk) (hdriver : s'.driver = s.driver)
    (hfailed : s'.failed = s.failed) {s'' : Sweep} (hs : s'' = s'.schedule id fun wk =>
      scheduleNextReview wk posture word cfg.stepTimeout cfg.idleTtl w.now deadlineIn) :
    ∃ wk' effs, Life cfg w id .review wk wk' ∧
      s''.driver.core = { s.driver.core with workers := s.driver.workers.modify id fun _ => wk' } ∧
      s''.driver.out = s.driver.out ++ effs ∧ Trail id wk wk' effs ∧
      s''.failed = (s.failed || (!wk.isTerminal && wk'.isTerminal)) := by
  subst hs
  refine ⟨_, [], life_schedule, core_schedule_same hget hdriver, ?_, .quiet .nil ?_, ?_⟩
  · change s'.driver.out = s.driver.out ++ []
    rw [hdriver, List.append_nil]
  · intro h
    rwa [isTerminal_schedule] at h
  · rw [isTerminal_schedule]
    exact hfailed.trans (by simp)

/-- **The review of a worker**: it has stalled, it is parked, or it is looked at again later; the
sweep knows whether it ended. -/
theorem reviewOne_spec {s : Sweep} (hget : s.driver.workers.get? id = some wk)
    (hdue : wk.nextReview.any (· ≤ w.now) = true) : ∃ wk' effs, Life cfg w id .review wk wk' ∧
      (reviewOne cfg w s id).driver.core =
        { s.driver.core with workers := s.driver.workers.modify id fun _ => wk' } ∧
      (reviewOne cfg w s id).driver.out = s.driver.out ++ effs ∧ Trail id wk wk' effs ∧
      (reviewOne cfg w s id).failed = (s.failed || (!wk.isTerminal && wk'.isTerminal)) := by
  obtain ⟨posture, word, deadlineIn, heq, hr⟩ : ∃ posture word deadlineIn,
      reviewOne cfg w s id = (remediate w s id wk (review posture word)).schedule id (fun wk' =>
        scheduleNextReview wk' posture word cfg.stepTimeout cfg.idleTtl w.now deadlineIn) ∧
      ((review posture word = .fail ∧ wk.posture = .live ∧ wk.state = .running ∧
          cfg.stepTimeout < wk.elapsed w.now) ∨
        (review posture word = .park ∧ wk.posture = .waiting ∧ cfg.idleTtl < wk.elapsed w.now) ∨
        review posture word ∈ [.healthy, .reap, .openBarrier]) := by
    refine ⟨_, _, (s.driver.observe cfg w id wk).2.2, ?_, review_observe s.driver cfg w id wk⟩
    unfold reviewOne
    rw [hget]
  rcases hr with ⟨hr, hpost, hstate, helapsed⟩ | ⟨hr, hpost, helapsed⟩ | hr
  · have hlive : wk.isTerminal = false := by simp [Worker.isTerminal, terminal, hstate]
    obtain ⟨t, ht⟩ : ∃ t, scheduleNextReview { wk with state := .failed, turnInflight := false }
        posture word cfg.stepTimeout cfg.idleTtl w.now deadlineIn =
          { wk with state := .failed, turnInflight := false, nextReview := t } :=
      schedule_of_terminal rfl
    obtain ⟨hcore, effs, hout, htrail⟩ := remediate_fail w s id wk { wk with
      state := .failed, turnInflight := false, nextReview := t } hlive rfl rfl rfl
    rw [heq, hr]
    refine ⟨_, effs, .stalled hpost hstate helapsed, ?_, hout, htrail, ?_⟩
    · rw [core_schedule_put hcore, ht]
    · rw [hlive]
      exact (Bool.or_true _).symm
  · by_cases hstate : wk.state = .parked
    · rw [hr, remediate_parked hstate] at heq
      exact reviewed_quiet hget rfl rfl heq
    · obtain ⟨t, key, n, hlt, ht⟩ : ∃ t key n, w.now < t ∧ scheduleNextReview
          { wk with state := .parked } posture word cfg.stepTimeout cfg.idleTtl w.now deadlineIn =
            { wk with
              state := .parked, nextReview := some t, lastReviewKey := key, reviewAttempt := n } :=
        schedule_of_live rfl
      obtain ⟨hcore, hfailed, effs, hout, htrail⟩ := remediate_park w s id wk { wk with
        state := .parked, nextReview := some t, lastReviewKey := key, reviewAttempt := n }
          hstate rfl rfl rfl
      rw [heq, hr]
      refine ⟨_, effs, .parked hpost hdue helapsed hlt, ?_, hout, htrail, ?_⟩
      · rw [core_schedule_put hcore, ht]
      · exact hfailed.trans (by simp [Worker.isTerminal, terminal])
  · obtain ⟨hdriver, hfailed⟩ := remediate_quiet w s id wk hr
    exact reviewed_quiet hget hdriver hfailed heq

/-- The worker is there, and due for its review. -/
def Reviewable (w : World) (d : Driver) (id : ℕ) : Prop :=
  ∃ wk, d.workers.get? id = some wk ∧ wk.nextReview.any (· ≤ w.now) = true

theorem stroke_reviewOne {s : Sweep} (h : Reviewable w s.driver id) :
    Stroke cfg w .review id s.driver (reviewOne cfg w s id).driver := by
  obtain ⟨wk, hget, hdue⟩ := h
  obtain ⟨wk', effs, hlife, hcore, hout, htrail, -⟩ := reviewOne_spec hget hdue
  exact .life hget hlife hcore hout htrail

theorem Reviewable.of_reviewOne {s : Sweep} {a b : ℕ} (ha : Reviewable w s.driver a)
    (hb : Reviewable w s.driver b) (hne : b ≠ a) :
    Reviewable w (reviewOne cfg w s a).driver b := by
  obtain ⟨wk, hget, hdue⟩ := hb
  have hstroke : Stroke cfg w .review a s.driver (reviewOne cfg w s a).driver := stroke_reviewOne ha
  exact ⟨wk, (hstroke.get?_of_ne hne).trans hget, hdue⟩

theorem moves_swept (d : Driver) : Moves cfg w .review d (d.swept cfg w).driver :=
  Moves.foldl Sweep.driver (fun _ _ h => (stroke_reviewOne h).moves)
    (fun _ _ _ ha hb hne => ha.of_reviewOne hb hne) (Table.nodup_keysWhere ..)
    (s := ⟨d, false, false, false, false⟩) fun _ hid => Table.mem_keysWhere.mp hid

/-! ### Polls and mandalas -/

theorem aside_runDuePolls : Aside d (d.runDuePolls w) := by
  refine .foldl (fun d key => ?_) _ d
  unfold pollOne
  extract_lets group reported
  split
  · exact .of_eq rfl rfl
  · split
    · exact .of_eq rfl rfl
    · split
      · exact .of_eq rfl rfl
      · exact ⟨rfl, [_], rfl, by simp [Effect.plain]⟩

theorem aside_saveMandalas : Aside d (d.saveMandalas w) := .emit rfl

theorem aside_closeMandala (d : Driver) (mid : ℕ) : Aside d (closeMandala w d mid) := by
  unfold closeMandala
  extract_lets d₁
  have h₁ : Aside d d₁ := .of_eq rfl rfl
  split
  · exact h₁.trans (aside_setCell ..)
  · exact h₁

theorem aside_tryCloseForConductor (conductor : SessionId) :
    Aside d (d.tryCloseForConductor w conductor) := by
  unfold tryCloseForConductor
  extract_lets ids
  split
  · exact .refl d
  · exact (Aside.foldl aside_closeMandala ids d).trans aside_saveMandalas

theorem aside_mandalaClose (session : SessionId) (call : ActionId) (args : Json) :
    Aside d (d.mandalaClose w session call args) := by
  unfold mandalaClose
  split
  · exact .emit rfl
  · split
    · exact .emit rfl
    · split
      · exact .emit rfl
      · split
        · exact .emit rfl
        · extract_lets still sorted
          split
          · exact .emit rfl
          · exact ((aside_closeMandala d _).trans (.emit rfl)).trans aside_saveMandalas

theorem aside_mandalaCreate (session : SessionId) (call : ActionId) (args : Json) :
    Aside d (d.mandalaCreate cfg w session call args) := by
  unfold mandalaCreate
  split
  · exact (Aside.emit rfl).trans aside_saveMandalas
  · extract_lets tree src d₁
    have h₁ : Aside d d₁ := ⟨rfl, [_], rfl, by simp [Effect.plain]⟩
    exact (h₁.trans (.emit rfl)).trans aside_saveMandalas

theorem aside_bindCells (ctx : CellsCtx) (wids : List ℕ) : Aside d (d.bindCells w ctx wids) := by
  unfold bindCells
  extract_lets d₁
  have h₁ : Aside d d₁ := by
    refine .foldl (fun d x => ?_) _ d
    exact ⟨rfl, [_], rfl, by simp [Effect.plain]⟩
  split
  · exact h₁.trans (aside_setCell ..)
  · exact h₁

/-! ### Minting -/

theorem mem_pairs_join (gs : Groups) (node : String) (id : ℕ) (item : RemoteTaskItem)
    (x : ℕ × String) : x ∈ (gs.join node id item).pairs ↔ x = (id, node) ∨ x ∈ gs.pairs := by
  induction gs with
  | nil => simp [Groups.join, Groups.pairs]
  | cons g gs ih =>
    rw [Groups.join]
    split
    · rename_i hnode
      simp only [Groups.pairs, List.flatMap_cons, List.map_append, List.map_cons, List.map_nil,
        List.mem_append, List.mem_singleton, hnode]
      tauto
    · simp only [Groups.pairs, List.flatMap_cons, List.mem_append] at ih ⊢
      rw [ih]
      tauto

theorem mem_ids_iff {gs : Groups} : id ∈ gs.ids ↔ ∃ node, (id, node) ∈ gs.pairs := by
  simp [Groups.ids, Groups.pairs]

/-- What the minting loops have added so far. -/
structure Minted (d : Driver) (batch : ℕ) (parent : SessionId) (m : Minting)
    (locals : List (ℕ × Worker)) (rows : List (ℕ × RemoteWorker)) : Prop where
  workers : m.driver.workers.entries = d.workers.entries ++ locals
  remotes : m.driver.remotes.entries = d.remotes.entries ++ rows
  batches : m.driver.batches = d.batches
  nextBatchId : m.driver.nextBatchId = d.nextBatchId
  txnSeq : m.driver.txnSeq = d.txnSeq
  out : m.driver.out = d.out
  nextId : d.nextWorkerId ≤ m.driver.nextWorkerId
  localIds : ∀ x ∈ locals, d.nextWorkerId ≤ x.1 ∧ x.1 < m.driver.nextWorkerId
  rowIds : ∀ x ∈ rows, d.nextWorkerId ≤ x.1 ∧ x.1 < m.driver.nextWorkerId
  disjoint : ∀ x ∈ locals, ∀ y ∈ rows, x.1 ≠ y.1
  minted : ∀ x ∈ locals, x.2.batch = batch ∧ x.2.parent = parent ∧ x.2.state = .queued ∧
    x.2.turnInflight = false
  rowed : ∀ x ∈ rows, x.2.batch = batch ∧ x.2.parent = parent
  listed : m.locals = locals.map fun x => (x.1, x.2.session)
  grouped : ∀ x, x ∈ m.groups.pairs ↔ ∃ r, (x.1, r) ∈ rows ∧ r.node = x.2

variable {batch : ℕ} {parent : SessionId} {m : Minting} {locals : List (ℕ × Worker)}
  {rows : List (ℕ × RemoteWorker)}

theorem Minted.start (d : Driver) : Minted d batch parent ⟨d, [], [], []⟩ [] [] := by
  constructor <;> simp [Groups.pairs]

theorem Minted.get?_worker (h : Minted d batch parent m locals rows) (hd : d.Fresh) :
    m.driver.workers.get? m.driver.nextWorkerId = none := by
  refine Table.get?_eq_none_of_forall fun x hx => ?_
  rw [h.workers] at hx
  have hnext := h.nextId
  rcases List.mem_append.mp hx with hx | hx
  · have := hd.worker x hx
    omega
  · have := (h.localIds x hx).2
    omega

theorem Minted.get?_remote (h : Minted d batch parent m locals rows) (hd : d.Fresh) :
    m.driver.remotes.get? m.driver.nextWorkerId = none := by
  refine Table.get?_eq_none_of_forall fun x hx => ?_
  rw [h.remotes] at hx
  have hnext := h.nextId
  rcases List.mem_append.mp hx with hx | hx
  · have := hd.remote x hx
    omega
  · have := (h.rowIds x hx).2
    omega

theorem Minted.mintRow (h : Minted d batch parent m locals rows) (hd : d.Fresh)
    (node prompt : String)
    (model : Option String) (item : RemoteTaskItem) (wids : List ℕ) :
    Minted d batch parent ⟨m.driver.mintRemoteRow w batch parent node prompt model, m.locals, wids,
        m.groups.join node m.driver.nextWorkerId item⟩ locals
      (rows ++ [(m.driver.nextWorkerId, mintedRow w batch parent node prompt model)]) := by
  have hnext := h.nextId
  constructor
  case workers => exact h.workers
  case remotes =>
    refine (Table.entries_insert_of_fresh (h.get?_remote hd)).trans ?_
    rw [h.remotes, List.append_assoc]
  case batches => exact h.batches
  case nextBatchId => exact h.nextBatchId
  case txnSeq => exact h.txnSeq
  case out => exact h.out
  case nextId => exact Nat.le_succ_of_le hnext
  case localIds =>
    intro x hx
    exact ⟨(h.localIds x hx).1, Nat.lt_succ_of_lt (h.localIds x hx).2⟩
  case rowIds =>
    intro x hx
    rcases List.mem_append.mp hx with hx | hx
    · exact ⟨(h.rowIds x hx).1, Nat.lt_succ_of_lt (h.rowIds x hx).2⟩
    · rw [List.mem_singleton.mp hx]
      exact ⟨hnext, Nat.lt_succ_self _⟩
  case disjoint =>
    intro x hx y hy
    rcases List.mem_append.mp hy with hy | hy
    · exact h.disjoint x hx y hy
    · rw [List.mem_singleton.mp hy]
      exact Nat.ne_of_lt (h.localIds x hx).2
  case minted => exact h.minted
  case rowed =>
    intro x hx
    rcases List.mem_append.mp hx with hx | hx
    · exact h.rowed x hx
    · rw [List.mem_singleton.mp hx]
      exact ⟨rfl, rfl⟩
  case listed => exact h.listed
  case grouped =>
    intro x
    rw [mem_pairs_join, h.grouped]
    constructor
    · rintro (rfl | ⟨r, hr, hnode⟩)
      · exact ⟨_, List.mem_append_right _ (List.mem_singleton_self _), rfl⟩
      · exact ⟨r, List.mem_append_left _ hr, hnode⟩
    · rintro ⟨r, hr, hnode⟩
      rcases List.mem_append.mp hr with hr | hr
      · exact Or.inr ⟨r, hr, hnode⟩
      · obtain ⟨hid, rfl⟩ := Prod.mk.inj (List.mem_singleton.mp hr)
        exact Or.inl (Prod.ext hid hnode.symm)

theorem Minted.mintLocal (h : Minted d batch parent m locals rows) (hd : d.Fresh) (task : String)
    (model : Option String) (yolo held : Bool) (ceiling : ℕ) (wids : List ℕ) :
    Minted d batch parent
      ⟨m.driver.mintLocalWorker cfg w batch parent task model yolo held ceiling,
        m.locals ++ [(m.driver.nextWorkerId, m.driver.nextWorkerSid)], wids, m.groups⟩
      (locals ++ [(m.driver.nextWorkerId, mintedWorker cfg w m.driver.nextWorkerId batch parent
        m.driver.nextWorkerSid task model yolo held ceiling)]) rows := by
  have hnext := h.nextId
  constructor
  case workers =>
    refine (Table.entries_insert_of_fresh (h.get?_worker hd)).trans ?_
    rw [h.workers, List.append_assoc]
  case remotes => exact h.remotes
  case batches => exact h.batches
  case nextBatchId => exact h.nextBatchId
  case txnSeq => exact h.txnSeq
  case out => exact h.out
  case nextId => exact Nat.le_succ_of_le hnext
  case localIds =>
    intro x hx
    rcases List.mem_append.mp hx with hx | hx
    · exact ⟨(h.localIds x hx).1, Nat.lt_succ_of_lt (h.localIds x hx).2⟩
    · rw [List.mem_singleton.mp hx]
      exact ⟨hnext, Nat.lt_succ_self _⟩
  case rowIds =>
    intro x hx
    exact ⟨(h.rowIds x hx).1, Nat.lt_succ_of_lt (h.rowIds x hx).2⟩
  case disjoint =>
    intro x hx y hy
    rcases List.mem_append.mp hx with hx | hx
    · exact h.disjoint x hx y hy
    · rw [List.mem_singleton.mp hx]
      exact (Nat.ne_of_lt (h.rowIds y hy).2).symm
  case minted =>
    intro x hx
    rcases List.mem_append.mp hx with hx | hx
    · exact h.minted x hx
    · rw [List.mem_singleton.mp hx]
      exact ⟨rfl, rfl, rfl, rfl⟩
  case rowed => exact h.rowed
  case listed =>
    rw [h.listed, List.map_append]
    rfl
  case grouped => exact h.grouped

theorem Minted.item (h : Minted d batch parent m locals rows) (hd : d.Fresh) (cfg : Config)
    (w : World) (yolo : Bool) (item : MintItem) : ∃ locals rows,
      Minted d batch parent (mintItem cfg w batch parent yolo m item) locals rows := by
  unfold mintItem
  split
  · exact ⟨_, _, h.mintRow hd ..⟩
  · exact ⟨_, _, h.mintLocal hd ..⟩

/-- The minting loop. -/
theorem Minted.items (h : Minted d batch parent m locals rows) (hd : d.Fresh) (yolo : Bool)
    (items : List MintItem) : ∃ locals rows,
      Minted d batch parent (items.foldl (mintItem cfg w batch parent yolo) m) locals rows := by
  induction items generalizing m locals rows with
  | nil => exact ⟨locals, rows, h⟩
  | cons item items ih =>
    obtain ⟨locals', rows', h'⟩ := h.item hd cfg w yolo item
    exact ih h'

/-- The batch and what was minted for it. -/
theorem Minted.fanned {b : BatchMeta} (hb : b.reported = false)
    (h :
    Minted { d with nextBatchId := d.nextBatchId + 1, batches := d.batches.insert d.nextBatchId b }
      d.nextBatchId b.parent m locals rows) : Fanned d m.driver b locals rows where
  workers := h.workers
  remotes := h.remotes
  batches := h.batches
  unreported := hb
  batchId := h.nextBatchId
  nextId := h.nextId
  localIds := h.localIds
  rowIds := h.rowIds
  disjoint := h.disjoint
  minted := h.minted
  rowed := h.rowed
  out := h.out

theorem Fresh.withBatch (h : d.Fresh) (b : BatchMeta) : Fresh
    { d with nextBatchId := d.nextBatchId + 1, batches := d.batches.insert d.nextBatchId b } := by
  refine ⟨h.worker, h.remote, fun x hx => ?_⟩
  rcases List.mem_append.mp hx with hx | hx
  · exact Nat.lt_succ_of_lt (h.batch x (List.mem_filter.mp hx).1)
  · rw [List.mem_singleton.mp hx]
    exact Nat.lt_succ_self _

/-! ### Fan-outs -/

theorem Minted.mem_locals (h : Minted d batch parent m locals rows) :
    id ∈ m.locals.map Prod.fst ↔ ∃ wk, (id, wk) ∈ locals := by
  rw [h.listed]
  simp

theorem Minted.mem_groups (h : Minted d batch parent m locals rows) :
    id ∈ m.groups.ids ↔ ∃ r, (id, r) ∈ rows := by
  rw [mem_ids_iff]
  simp [h.grouped]

/-- A fan-out that was taken back: the counters have moved, and a write has failed. -/
structure TakenBack (d d' : Driver) : Prop where
  nextId : d.nextWorkerId ≤ d'.nextWorkerId
  batchId : d.nextBatchId ≤ d'.nextBatchId
  core : d'.core = { d.core with
    nextWorkerId := d'.nextWorkerId, nextBatchId := d'.nextBatchId
    nextWorkerSid := d'.nextWorkerSid, txnSeq := d'.txnSeq }
  out : ∃ txn, d'.out = d.out ++ [.txn txn false]

theorem TakenBack.move (h : TakenBack d d') : Move cfg w c d d' := by
  obtain ⟨txn, hout⟩ := h.out
  exact .lost h.nextId h.batchId h.core hout

/-- A fan-out whose transaction is not written is taken back. -/
theorem Minted.takenBack {b : BatchMeta} {rs : List ℕ} (hd : d.Fresh) (hb : b.reported = false)
    (hm :
    Minted { d with nextBatchId := d.nextBatchId + 1, batches := d.batches.insert d.nextBatchId b }
      d.nextBatchId b.parent m locals rows) (hok : w.written m.driver.out.length = false)
    (hrs : ∀ k, k ∈ rs ↔ ∃ r, (k, r) ∈ rows) : TakenBack d
      ((m.driver.persistWorkerTxn w).1.rollback (m.locals.map Prod.fst) rs d.nextBatchId) := by
  have h : Fanned d m.driver b locals rows := hm.fanned hb
  rw [persistWorkerTxn_fst_of_not hok]
  have hworkers : m.driver.workers.eraseAll (m.locals.map Prod.fst) = d.workers := by
    refine Table.eraseAll_of_append h.workers (fun x hx => hm.mem_locals.mpr ⟨x.2, hx⟩)
      fun k hk => ?_
    refine Table.get?_eq_none_of_forall fun x hx => ?_
    obtain ⟨wk, hwk⟩ := hm.mem_locals.mp hk
    exact Nat.ne_of_lt (Nat.lt_of_lt_of_le (hd.worker x hx) (h.localIds _ hwk).1)
  have hremotes : m.driver.remotes.eraseAll rs = d.remotes := by
    refine Table.eraseAll_of_append h.remotes (fun x hx => (hrs _).mpr ⟨x.2, hx⟩) fun k hk => ?_
    refine Table.get?_eq_none_of_forall fun x hx => ?_
    obtain ⟨r, hr⟩ := (hrs k).mp hk
    exact Nat.ne_of_lt (Nat.lt_of_lt_of_le (hd.remote x hx) (h.rowIds _ hr).1)
  have hbatches : m.driver.batches.erase d.nextBatchId = d.batches := by
    rw [h.batches]
    refine Table.erase_insert_of_fresh (Table.get?_eq_none_of_forall fun x hx => ?_)
    exact Nat.ne_of_lt (hd.batch x hx)
  refine ⟨h.nextId, (Nat.le_succ _).trans h.batchId.ge, ?_, m.driver.nextTxn, ?_⟩
  · change Core.mk (m.driver.workers.eraseAll _) (m.driver.batches.erase d.nextBatchId)
      (m.driver.remotes.eraseAll rs) _ _ _ _ = _
    rw [hworkers, hremotes, hbatches]
    rfl
  · rw [← h.out]
    rfl

/-- What a fan-out comes to, and whether it went through: it is refused, or taken back, or the
transaction with everything minted is written before anything is said. -/
inductive FanOutcome (cfg : Config) (w : World) (c : Cause) (d : Driver) : Driver → Bool → Prop
  | refused {d' : Driver} (h : Aside d d') : FanOutcome cfg w c d d' false
  | lost {d₁ d' : Driver} (h : TakenBack d d₁) (h' : Aside d₁ d') : FanOutcome cfg w c d d' false
  | saved {d₁ d' : Driver} {b : BatchMeta} {locals : List (ℕ × Worker)}
      {rows : List (ℕ × RemoteWorker)} (h : Fanned d d₁ b locals rows)
      (hok : w.written d₁.out.length = true) (h' : Moves cfg w c (d₁.saveWorkerState w) d') :
      FanOutcome cfg w c d d' true

theorem FanOutcome.moves {went : Bool} (hc : c ≠ .closing) (h : FanOutcome cfg w c d d' went) :
    Moves cfg w c d d' := by
  cases h with
  | refused h => exact .of_aside h
  | lost h h' => exact (Relation.ReflTransGen.single h.move).trans (Moves.of_aside h')
  | saved h hok h' => exact (Relation.ReflTransGen.single (.fan hc h hok)).trans h'

theorem core_foldl {α : Type*} {f : Driver → α → Driver} (h : ∀ d a, (f d a).core = d.core)
    (l : List α) (d : Driver) : (l.foldl f d).core = d.core := by
  induction l generalizing d with
  | nil => rfl
  | cons a l ih => exact (ih _).trans (h d a)

/-- Cards of workers that are there. -/
theorem moves_cards (detail : Worker → String) (l : List (ℕ × SessionId)) :
    Moves cfg w c d (l.foldl (fun d x => (d.workers.get? x.1).elim d fun wk =>
      d.emitState x.1 wk (detail wk)) d) := by
  refine .foldl_any (fun d => d) (fun d x => ?_) l d
  cases hget : d.workers.get? x.1 with
  | none => exact .refl
  | some wk => exact .single (.card hget)

theorem core_cards (detail : Worker → String) (l : List (ℕ × SessionId)) (d : Driver) :
    (l.foldl (fun d x => (d.workers.get? x.1).elim d fun wk =>
      d.emitState x.1 wk (detail wk)) d).core = d.core := by
  refine core_foldl (fun d x => ?_) l d
  cases d.workers.get? x.1 <;> rfl

theorem moves_fanRemoteCards (gs : Groups) : Moves cfg w c d (d.fanRemoteCards gs) := by
  refine .foldl_any (fun d => d) (fun d id => ?_) gs.ids d
  cases hget : d.remotes.get? id with
  | none => exact .refl
  | some r => exact .single (.remoteCard hget)

theorem core_fanRemoteCards (gs : Groups) (d : Driver) : (d.fanRemoteCards gs).core = d.core := by
  refine core_foldl (fun d id => ?_) gs.ids d
  cases d.remotes.get? id <;> rfl

theorem aside_fanPosts (deadlineS : ℕ) (gs : Groups) :
    Aside d (d.fanPosts w batch deadlineS gs) := by
  refine .foldl (fun d g => ?_) gs d
  split
  · exact .emit rfl
  · split <;> exact .emit rfl

/-- A fan-out that is not refused mints. -/
theorem minted_fanMint (hd : d.Fresh) (session : SessionId) (call : ActionId) (args : Json)
    (plan : FanPlan) : ∃ locals rows, Minted { d with
      nextBatchId := d.nextBatchId + 1
      batches := d.batches.insert d.nextBatchId (fanBatch w session call args plan) }
      d.nextBatchId session (d.fanMint cfg w session call args plan) locals rows :=
  (Minted.start _).items (hd.withBatch _) ..

/-- What a fan-out names is in the books. -/
theorem Fanned.worker {b : BatchMeta} (h : Fanned d d' b locals rows) {x : ℕ × Worker}
    (hx : x ∈ locals) : d'.workers.get? x.1 = some x.2 := by
  rw [← Table.mem_iff_get?, h.workers]
  exact List.mem_append_right _ hx

theorem Fanned.row {b : BatchMeta} (h : Fanned d d' b locals rows) {x : ℕ × RemoteWorker}
    (hx : x ∈ rows) : d'.remotes.get? x.1 = some x.2 := by
  rw [← Table.mem_iff_get?, h.remotes]
  exact List.mem_append_right _ hx

theorem fanOutcome_fanout (hc : c ≠ .closing) (hd : d.Fresh) (session : SessionId) (call : ActionId)
    (args : Json) : FanOutcome cfg w c d (d.fanout cfg w session call args).1
      (d.fanout cfg w session call args).2.isSome := by
  unfold fanout
  split
  · exact .refused (.emit rfl)
  · rename_i plan _
    extract_lets batch yolo deadlineS m
    obtain ⟨locals, rows, hm⟩ : ∃ locals rows, Minted { d with
        nextBatchId := d.nextBatchId + 1
        batches := d.batches.insert d.nextBatchId (fanBatch w session call args plan) }
        batch session m locals rows := minted_fanMint hd session call args plan
    have hfan : Fanned d m.driver (fanBatch w session call args plan) locals rows :=
      Minted.fanned rfl hm
    split
    rename_i d₁ ok hpersist
    have hok : ok = w.written m.driver.out.length := by
      rw [← persistWorkerTxn_snd, hpersist]
    split
    · rename_i hfalse
      have hd₁ : d₁ = (m.driver.persistWorkerTxn w).1 := by rw [hpersist]
      have hlost : w.written m.driver.out.length = false := by
        rw [← hok]
        simpa using hfalse
      rw [hd₁]
      exact .lost (Minted.takenBack hd rfl hm hlost fun k => hm.mem_groups) (.emit rfl)
    · rename_i htrue
      have hd₁ : d₁ = m.driver.saveWorkerState w := by rw [saveWorkerState, hpersist]
      have hwritten : w.written m.driver.out.length = true := by
        rw [← hok]
        simpa using htrue
      extract_lets d₂ d₃ d₄
      have h₂ : Moves cfg w c d₁ d₂ :=
        (moves_cards _ m.locals).trans (moves_fanRemoteCards m.groups)
      have hcore : d₂.core = { m.driver.core with txnSeq := m.driver.nextTxn.seq } := by
        rw [← core_saveWorkerState m.driver w, ← hd₁]
        exact (core_fanRemoteCards ..).trans (core_cards ..)
      have h₃ : Moves cfg w c d₂ d₃ := by
        unfold d₃
        split
        · exact .refl
        · refine .single (.fanned ?_ ?_)
          · intro x hx
            have hx : x ∈ m.locals := hx
            rw [hm.listed] at hx
            obtain ⟨y, hy, rfl⟩ := List.mem_map.mp hx
            refine ⟨y.2, ?_, rfl, (hm.minted y hy).1⟩
            rw [show d₂.workers = m.driver.workers from congrArg Core.workers hcore]
            exact hfan.worker hy
          · intro x hx
            obtain ⟨r, hr, hnode⟩ := (hm.grouped x).mp hx
            refine ⟨r, ?_, hnode, (hm.rowed _ hr).1⟩
            rw [show d₂.remotes = m.driver.remotes from congrArg Core.remotes hcore]
            exact hfan.row hr
      rw [hd₁] at h₂
      exact .saved hfan hwritten (((h₂.trans h₃).trans (moves_admitQueued hc d₃)).trans
        (Moves.of_aside (aside_fanPosts ..)))

theorem taskFanout_of_none {session : SessionId} {call : ActionId} {args : Json}
    (h : (d.fanout cfg w session call args).2 = none) :
    d.taskFanout cfg w session call args = (d.fanout cfg w session call args).1 := by
  unfold taskFanout
  split
  · rename_i d₁ heq
    rw [heq]
  · rename_i d₁ ctx wids heq
    rw [heq] at h
    cases h

theorem moves_afterFanout (session : SessionId) (call : ActionId) (args : Json) :
    Moves cfg w c (d.fanout cfg w session call args).1 (d.taskFanout cfg w session call args) := by
  unfold taskFanout
  split
  · rename_i d₁ heq
    rw [heq]
  · rename_i d₁ ctx wids heq
    rw [heq]
    extract_lets d₂
    have h₂ : Aside d₁ d₂ := by
      unfold d₂
      cases ctx with
      | none => exact .refl d₁
      | some ctx => exact aside_bindCells ..
    exact (((Moves.of_aside h₂).tail .save).tail .save).tail .saveRemotes

theorem moves_taskFanout (hc : c ≠ .closing) (hd : d.Fresh) (session : SessionId) (call : ActionId)
    (args : Json) : Moves cfg w c d (d.taskFanout cfg w session call args) :=
  ((fanOutcome_fanout hc hd session call args).moves hc).trans (moves_afterFanout session call args)

/-- Tasks of a peer are all for this node. -/
theorem groups_hosted (yolo : Bool) (items : List MintItem) (h : ∀ x ∈ items, x.node = none)
    (m : Minting) : (items.foldl (mintItem cfg w batch parent yolo) m).groups = m.groups := by
  induction items generalizing m with
  | nil => rfl
  | cons item items ih =>
    refine (ih (fun x hx => h x (by simp [hx])) _).trans ?_
    unfold mintItem
    rw [h item (by simp)]

theorem fanOutcome_hostFanout (hc : c ≠ .closing) (hd : d.Fresh) (sender : String) (originBatch : ℕ)
    (parent : Option SessionId) (tasks : List HostedTask) (deadlineS : Option ℕ) :
    FanOutcome cfg w c d (d.hostFanout cfg w sender originBatch parent tasks deadlineS).1
      (d.hostFanout cfg w sender originBatch parent tasks deadlineS).2 := by
  unfold hostFanout
  split
  · exact .refused (.emit rfl)
  · rename_i parent
    split
    · exact .refused (.emit rfl)
    · split
      · exact .refused (.emit rfl)
      · extract_lets batch entry d₀ m
        obtain ⟨locals, rows, hm⟩ : ∃ locals rows, Minted d₀ batch parent m locals rows :=
          (Minted.start d₀).items (hd.withBatch entry) ..
        have hfan : Fanned d m.driver entry locals rows := Minted.fanned rfl hm
        have hrows (k : ℕ) : k ∈ ([] : List ℕ) ↔ ∃ r, (k, r) ∈ rows := by
          have hgroups : m.groups = [] := by
            refine groups_hosted false _ (fun x hx => ?_) _
            obtain ⟨t, -, rfl⟩ := List.mem_map.mp hx
            rfl
          rw [← hm.mem_groups, hgroups]
          rfl
        split
        rename_i d₁ ok hpersist
        have hok : ok = w.written m.driver.out.length := by
          rw [← persistWorkerTxn_snd, hpersist]
        split
        · rename_i hfalse
          have hd₁ : d₁ = (m.driver.persistWorkerTxn w).1 := by rw [hpersist]
          have hlost : w.written m.driver.out.length = false := by
            rw [← hok]
            simpa using hfalse
          rw [hd₁]
          exact .lost (Minted.takenBack hd rfl hm hlost hrows) (.emit rfl)
        · rename_i htrue
          have hd₁ : d₁ = m.driver.saveWorkerState w := by rw [saveWorkerState, hpersist]
          have hwritten : w.written m.driver.out.length = true := by
            rw [← hok]
            simpa using htrue
          extract_lets d₂ d₃ admitted
          have h₂ : Moves cfg w c d₁ d₂ := moves_cards (fun _ => "queued (mesh)") m.locals
          have h₃ : Moves cfg w c d₂ d₃ := moves_admitQueued hc d₂
          have hmoves : Moves cfg w c (m.driver.saveWorkerState w) d₃ := hd₁ ▸ h₂.trans h₃
          refine .saved hfan hwritten (hmoves.tail (.accepted ?_))
          intro a ha
          obtain ⟨x, hx, rfl⟩ := List.mem_map.mp ha
          have hmem : x.1 ∈ m.locals := (List.mem_zipIdx' hx).2 ▸ List.getElem_mem _
          rw [hm.listed] at hmem
          obtain ⟨y, hy, hxy⟩ := List.mem_map.mp hmem
          have hget : (m.driver.saveWorkerState w).workers.get? y.1 = some y.2 := by
            rw [show (m.driver.saveWorkerState w).workers = m.driver.workers from
              congrArg Core.workers (core_saveWorkerState ..)]
            exact hfan.worker hy
          obtain ⟨wk', hget', hsame⟩ := hmoves.keeps hget
          rw [← hxy]
          exact ⟨wk', hget', hsame.session, hsame.batch.trans (hm.minted y hy).1⟩

/-! ### The arms of the loop -/

theorem ne_closing : Cause.handling i ≠ .closing := nofun

theorem moves_handleMeshReq (hd : d.Fresh) (req : MeshReq) :
    Moves cfg w (.handling (.mesh req)) d (d.handleMeshReq cfg w req).1 := by
  cases req with
  | fanout sender originBatch parent tasks deadlineS =>
    exact (fanOutcome_hostFanout ne_closing hd ..).moves ne_closing
  | query sender batch =>
    cases batch with
    | none => exact .emit rfl
    | some batch =>
      unfold handleMeshReq
      dsimp only
      split <;> exact .emit rfl
  | cancel sender batch workers =>
    cases batch with
    | none => exact .emit rfl
    | some batch =>
      unfold handleMeshReq
      dsimp only
      split
      · exact .emit rfl
      · refine Relation.ReflTransGen.trans ?_ (Moves.emit rfl)
        split
        · exact .refl
        · refine (moves_cancelWorkers (Table.nodup_keysWhere ..) ?_).trans
            (moves_admitQueued ne_closing _)
          intro id hid wk hget
          obtain ⟨wk', hget', hp⟩ := Table.mem_keysWhere.mp hid
          obtain rfl : wk' = wk := Option.some.inj (hget'.symm.trans hget)
          simp only [Bool.and_eq_true, decide_eq_true_eq] at hp
          exact congrArg some hp.1.1.symm
  | report sender originBatch rows =>
    cases originBatch with
    | none => exact .emit rfl
    | some batch =>
      unfold handleMeshReq
      dsimp only
      split
      · exact .emit rfl
      · refine (moves_applyWireRows ne_closing batch sender rows).trans ?_
        exact Moves.of_aside ⟨rfl, [_], rfl, by simp [Effect.plain]⟩

/-- The handling of an input, and its close. -/
def Handles (cfg : Config) (w : World) (i : Input) (d d' : Driver) : Prop :=
  ∃ d₁, Moves cfg w (.handling i) d d₁ ∧ Moves cfg w .closing d₁ d'

theorem Handles.of_moves (h : Moves cfg w (.handling i) d d') : Handles cfg w i d d' :=
  ⟨d', h, .refl⟩

theorem Handles.after {d'' : Driver} (h : Moves cfg w (.handling i) d d')
    (h' : Handles cfg w i d' d'') :
    Handles cfg w i d d'' := by
  obtain ⟨d₁, hwork, hclose⟩ := h'
  exact ⟨d₁, h.trans hwork, hclose⟩

theorem Handles.out_append (h : Handles cfg w i d d') : ∃ effs, d'.out = d.out ++ effs := by
  obtain ⟨d₁, hwork, hclose⟩ := h
  obtain ⟨effs, hout⟩ := hwork.out_append
  obtain ⟨effs', hout'⟩ := hclose.out_append
  exact ⟨effs ++ effs', by rw [hout', hout, List.append_assoc]⟩

/-- The gates are looked after, and if one opened something follows. -/
theorem moves_barriersThen (i : Input) (f : Driver → Driver)
    (hf : ∀ d, Moves cfg w (.handling i) d (f d)) (d : Driver) :
    Moves cfg w (.handling i) d
      (if (d.checkBarriers w).2 then f (d.checkBarriers w).1 else (d.checkBarriers w).1) := by
  split
  · exact (moves_checkBarriers d).trans (hf _)
  · exact moves_checkBarriers d

theorem meshRequest_of_not {req : MeshReq} (h : (d.handleMeshReq cfg w req).2 = false) :
    d.meshRequest cfg w req = (d.handleMeshReq cfg w req).1 := by
  unfold meshRequest
  split
  rename_i d₁ saved heq
  obtain rfl : saved = false := by rw [← h, heq]
  rw [heq]
  rfl

theorem handles_afterMesh (req : MeshReq) :
    Handles cfg w (.mesh req) (d.handleMeshReq cfg w req).1 (d.meshRequest cfg w req) := by
  unfold meshRequest
  split
  rename_i d₁ saved heq
  rw [heq]
  split
  · exact .of_moves .refl
  · have hsync : Moves cfg w (.handling (.mesh req)) d₁ (d₁.syncRemoteCells w) :=
      .of_aside (aside_syncRemoteCells w d₁)
    have hopen := moves_barriersThen (.mesh req) (fun d => d.admitQueued cfg w)
      (fun d => moves_admitQueued ne_closing d) (d₁.syncRemoteCells w)
    exact ⟨_, (((hsync.trans hopen).tail .save).tail .save).tail .saveRemotes, moves_checkBatches _⟩

theorem handles_meshRequest (hd : d.Fresh) (req : MeshReq) :
    Handles cfg w (.mesh req) d (d.meshRequest cfg w req) :=
  .after (moves_handleMeshReq hd req) (handles_afterMesh req)

theorem handles_remotesMoved (d : Driver) : Handles cfg w i d (d.remotesMoved cfg w) := by
  have hopen := moves_barriersThen i (fun d => (d.admitQueued cfg w).saveWorkerState w)
    (fun d => (moves_admitQueued ne_closing d).tail .save) (d.syncRemoteCells w)
  exact ⟨_, (Moves.of_aside (aside_syncRemoteCells w d)).trans hopen,
    (moves_checkBatches _).tail .saveRemotes⟩

theorem handles_turnComplete (session : SessionId) :
    Handles cfg w (.turnComplete session) d (d.turnComplete cfg w session) := by
  unfold turnComplete
  split
  · exact .of_moves .refl
  · rename_i d₁ heq
    refine ⟨_, ?_, (moves_checkBatches _).tail .save⟩
    exact (((moves_advance heq).trans (Moves.of_aside (aside_syncCells ..))).trans
      (moves_checkBarriers _)).trans (moves_admitQueued ne_closing _)

theorem handles_workerCancel (session : SessionId) (call : ActionId) (args : Json) :
    Handles cfg w (.request session call "worker_cancel" args) d
      (d.workerCancel cfg w session call args) := by
  unfold workerCancel
  split
  · exact .of_moves (moves_refuse ..)
  · rename_i ids remoteIds htargets
    split
    · exact .of_moves (moves_refuse ..)
    · have hcancel : Moves cfg w (.handling (.request session call "worker_cancel" args)) d
          (d.cancelWorkers w ids) := by
        unfold cancelTargets at htargets
        split at htargets
        · rename_i id hworker hbatch
          obtain ⟨rfl, -⟩ := Prod.mk.inj (Option.some.inj htargets)
          refine moves_cancelWorkers (Table.nodup_keysWhere ..) fun id' hid wk hget => ?_
          obtain ⟨wk', -, hp⟩ := Table.mem_keysWhere.mp hid
          obtain ⟨rfl, -⟩ : id' = id ∧ _ := by simpa using hp
          exact ⟨rfl, Or.inl hworker⟩
        · rename_i batch hworker hbatch
          obtain ⟨rfl, -⟩ := Prod.mk.inj (Option.some.inj htargets)
          refine moves_cancelWorkers (Table.nodup_keysWhere ..) fun id' hid wk hget => ?_
          obtain ⟨wk', hget', hp⟩ := Table.mem_keysWhere.mp hid
          obtain rfl : wk' = wk := Option.some.inj (hget'.symm.trans hget)
          obtain ⟨rfl, -⟩ : wk'.batch = batch ∧ _ := by simpa using hp
          exact ⟨rfl, Or.inr hbatch⟩
        · cases htargets
      refine ⟨_, ?_, ((moves_checkBatches _).tail .save).tail .saveRemotes⟩
      refine Relation.ReflTransGen.trans ?_ (moves_admitQueued ne_closing _)
      refine Relation.ReflTransGen.trans ?_ (moves_checkBarriers _)
      refine Relation.ReflTransGen.trans ?_ (Moves.of_aside (aside_syncCells ..))
      exact (hcancel.trans (moves_relayRemoteCancels ne_closing _)).trans (Moves.emit rfl)

theorem handles_cascade (session : SessionId) :
    Handles cfg w (.goalEnded .cancelled session) d (d.cascade cfg w session) := by
  unfold cascade
  extract_lets ids remoteIds
  split
  · exact .of_moves .refl
  · have hcancel : Moves cfg w (.handling (.goalEnded .cancelled session)) d
        (d.cancelWorkers w ids) := by
      refine moves_cancelWorkers (Table.nodup_keysWhere ..) fun id hid wk hget => ?_
      obtain ⟨wk', hget', hp⟩ := Table.mem_keysWhere.mp hid
      obtain rfl : wk' = wk := Option.some.inj (hget'.symm.trans hget)
      obtain ⟨rfl, -⟩ : wk'.parent = session ∧ _ := by simpa using hp
      exact ⟨rfl, rfl⟩
    refine ⟨_, (hcancel.trans (moves_relayRemoteCancels ne_closing remoteIds)).trans
      (moves_admitQueued ne_closing _), ?_⟩
    exact (((moves_checkBatches _).tail (.aside (aside_syncCells ..))).tail .save).tail .saveRemotes

theorem handles_goalEnded (state : GoalState) (session : SessionId) :
    Handles cfg w (.goalEnded state session) d (d.goalEnded cfg w state session) := by
  unfold goalEnded
  split
  · rename_i hstate
    subst hstate
    have h : Handles cfg w (.goalEnded .cancelled session) d (d.cascade cfg w session) :=
      handles_cascade session
    obtain ⟨d₁, hwork, hclose⟩ := h
    exact ⟨d₁, hwork, hclose.tail (.aside (aside_tryCloseForConductor session))⟩
  · exact .of_moves (.of_aside (aside_tryCloseForConductor session))

theorem handles_follow (s : Sweep) : Handles cfg w .tick s.driver (s.follow cfg w) := by
  unfold Sweep.follow
  extract_lets d₀ d₁ d₂ d₃ d₄ d₅
  have h₁ : Moves cfg w (.handling .tick) d₀ d₁ := by
    unfold d₁
    split
    · exact moves_barriersThen .tick (fun d => d.admitQueued cfg w)
        (fun d => moves_admitQueued ne_closing d) d₀
    · exact .refl
  have h₂ : Moves cfg w (.handling .tick) d₁ d₂ := by
    unfold d₂
    split
    · exact moves_admitQueued ne_closing d₁
    · exact .refl
  have h₃ : Moves cfg w .closing d₂ d₃ := moves_checkBatches d₂
  have h₄ : Moves cfg w .closing d₃ d₄ := by
    unfold d₄
    split
    · exact .of_aside (aside_syncCells ..)
    · exact .refl
  have h₅ : Moves cfg w .closing d₄ d₅ := by
    unfold d₅
    split
    · exact .single .save
    · exact .refl
  exact ⟨d₂, h₁.trans h₂, ((h₃.trans h₄).trans h₅).tail (.aside aside_runDuePolls)⟩

theorem handles_request (hd : d.Fresh) (session : SessionId) (call : ActionId) (tool : String)
    (args : Json) : Handles cfg w (.request session call tool args) d
      (d.handle cfg w (.request session call tool args)) := by
  unfold handle
  dsimp only
  split
  · exact .of_moves (moves_taskFanout ne_closing hd ..)
  · split
    · exact .of_moves (.of_aside (aside_mandalaClose ..))
    · split
      · exact .of_moves (.of_aside (aside_mandalaCreate ..))
      · split
        · exact .of_moves (moves_recordReport ..)
        · split
          · rename_i htool
            rw [htool]
            exact handles_workerCancel ..
          · exact .of_moves .refl

/-- **A handler's work, in moves**: the tick sweeps, the input is handled, and the handling is
closed. -/
theorem handled (hd : d.Fresh) (i : Input) : ∃ d₁, Moves cfg w .review d d₁ ∧ (i ≠ .tick → d₁ = d) ∧
    Handles cfg w i d₁ (d.handle cfg w i) := by
  cases i with
  | tick => exact ⟨_, moves_swept d, by simp, handles_follow _⟩
  | request session call tool args =>
    exact ⟨d, .refl, fun _ => rfl, handles_request hd session call tool args⟩
  | mesh req => exact ⟨d, .refl, fun _ => rfl, handles_meshRequest hd req⟩
  | assigned batch node wids result =>
    exact ⟨d, .refl, fun _ => rfl,
      .after (moves_handleAssignOutcome ne_closing ..) (handles_remotesMoved _)⟩
  | polled batch node result =>
    refine ⟨d, .refl, fun _ => rfl, ?_⟩
    unfold handle
    dsimp only
    split
    · exact .after (moves_handlePollOutcome ne_closing ..) (handles_remotesMoved _)
    · exact .of_moves (moves_handlePollOutcome ne_closing ..)
  | turnComplete session =>
    refine ⟨d, .refl, fun _ => rfl, ?_⟩
    unfold handle
    dsimp only
    split
    · exact handles_turnComplete session
    · exact .of_moves .refl
  | approvalPending session tool =>
    refine ⟨d, .refl, fun _ => rfl, .of_moves ?_⟩
    unfold handle
    dsimp only
    split
    · cases hblock : d.blockOnApproval session tool with
      | none => exact .refl
      | some d₁ => exact (moves_blockOnApproval hblock).tail .save
    · exact .refl
  | userApproval session =>
    refine ⟨d, .refl, fun _ => rfl, .of_moves ?_⟩
    unfold handle
    dsimp only
    split
    · cases hresume : d.resumeFromApproval w session with
      | none => exact .refl
      | some d₁ => exact (moves_resumeFromApproval hresume).tail .save
    · exact .refl
  | userPrompt session =>
    refine ⟨d, .refl, fun _ => rfl, .of_moves ?_⟩
    unfold handle
    dsimp only
    split
    · unfold userPrompt
      split
      · exact .refl
      · rename_i hwake
        exact ((moves_wakeOnSend hwake).trans (moves_afterWake session)).tail .save
    · exact .refl
  | turnError session =>
    refine ⟨d, .refl, fun _ => rfl, .of_moves ?_⟩
    unfold handle
    dsimp only
    split
    · exact moves_turnErrored session
    · exact .refl
  | goalEnded state session =>
    refine ⟨d, .refl, fun _ => rfl, ?_⟩
    unfold handle
    dsimp only
    split
    · exact handles_goalEnded state session
    · exact .of_moves .refl
  | goalArmed session => exact ⟨d, .refl, fun _ => rfl, .of_moves (.of_aside (.of_eq rfl rfl))⟩
  | goalDisarmed session => exact ⟨d, .refl, fun _ => rfl, .of_moves (.of_aside (.of_eq rfl rfl))⟩

variable (cfg w) in
/-- One turn of the loop, in moves. -/
theorem reacted (hd : d.Fresh) (i : Input) : ∃ d₁, Moves cfg w .review { d with out := [] } d₁ ∧
    (i ≠ .tick → d₁ = { d with out := [] }) ∧ Handles cfg w i d₁ (d.react cfg w i) :=
  handled (d := { d with out := [] }) ⟨hd.worker, hd.remote, hd.batch⟩ i

/-- What every move keeps, a turn of the loop keeps. -/
theorem react_induction {P : Driver → Prop} (hd : d.Fresh) (h : P { d with out := [] }) (i : Input)
    (hmove : ∀ c d₁ d₂, (c = .review ∨ c = .handling i ∨ c = .closing) → Move cfg w c d₁ d₂ →
      d₁.Fresh → P d₁ → P d₂) : P (d.react cfg w i) ∧ (d.react cfg w i).Fresh := by
  have hmoves (c : Cause) (hc : c = .review ∨ c = .handling i ∨ c = .closing) {d₁ d₂ : Driver}
      (hmoves : Moves cfg w c d₁ d₂) (h₁ : P d₁ ∧ d₁.Fresh) : P d₂ ∧ d₂.Fresh := by
    induction hmoves with
    | refl => exact h₁
    | tail _ hlast ih => exact ⟨hmove c _ _ hc hlast ih.2 ih.1, hlast.fresh ih.2⟩
  obtain ⟨d₁, hreview, -, d₂, hwork, hclose⟩ := reacted cfg w hd i
  have h₁ := hmoves .review (by simp) hreview ⟨h, hd.worker, hd.remote, hd.batch⟩
  exact hmoves .closing (by simp) hclose (hmoves (.handling i) (by simp) hwork h₁)

theorem fresh_react (hd : d.Fresh) (i : Input) : (d.react cfg w i).Fresh :=
  (react_induction (P := fun _ => True) hd trivial i fun _ _ _ _ _ _ _ => trivial).2

end Driver

end ApexOS.Fabrica
