import ApexOS.Fabrica.Trees
import ApexOS.Fabrica.Inheritance

/-!
# How the trees of mandalas grow

Who may change a tree, and when. The driver changes a cell that is there, binds the cells of a
fan-out, opens a mandala with its root, or closes one; nothing else touches the trees. A turn of the
loop binds the cells of one fan-out at most, on the trees on which it was planned, so that what
`prepare_mandala_cells` checked still holds when the cells are put in.

## Main definitions

* `Driver.Woods`, `Driver.Grows`: the trees, and one change of them
* `Driver.Groves`: the laws of all trees
* `Driver.Grown`: what a turn of the loop adds, and to whom

## Main results

* `Driver.Act.grows`: the account of every act
* `Node.mandalas_lawful`: the trees of every mandala, over the runs of a process
-/

namespace ApexOS.Fabrica

open ApexOS.Agentd (SessionId ActionId WorkerState)

namespace Driver

variable {cfg : Config} {w : World} {i : Input} {d₀ d d' d'' : Driver} {id mid : ℕ} {a : Addr}

/-! ### The account -/

/-- The mandalas, their trees, and who runs which cell. -/
structure Woods where
  mandalas : Table ℕ MandalaRecord
  trees : Table ℕ Tree
  cellByWorker : Table ℕ (ℕ × Addr)
  nextMandalaId : ℕ

/-- The woods of a driver's side. -/
def Side.woods (s : Side) : Woods := ⟨s.mandalas, s.trees, s.cellByWorker, s.nextMandalaId⟩

/-- The woods of a driver. -/
def woods (d : Driver) : Woods := ⟨d.mandalas, d.trees, d.cellByWorker, d.nextMandalaId⟩

theorem woods_of_side (h : d'.side = d.side) : d'.woods = d.woods := congrArg Side.woods h

/-- One change of the woods, if any. -/
inductive Grows (cfg : Config) (w : World) (i : Input) (d₀ d d' : Driver) : Prop
  | still (h : d'.woods = d.woods)
  | cell {mid : ℕ} {a : Addr} {f : CellRecord → CellRecord}
      (hf : ∀ c, d.cell? mid a = some c → CellStep c (f c))
      (h : d'.woods = (d.setCell w mid a f).woods)
  | bound {ctx : CellsCtx} {wids : List ℕ} (h : Binds cfg w i d₀ d ctx wids)
      (hd' : d'.woods = (d.bindCells w ctx wids).woods)
  | opened {session : SessionId} {args : Json} {m : MandalaRecord}
      (h : d.mandalaRecord cfg w session args = .ok m)
      (hd' : d'.woods = ⟨d.mandalas.insert m.id m, d.trees.insert m.id
        (((d.trees.get? m.id).getD Table.empty).insert Addr.root (rootCell m)), d.cellByWorker,
        m.id + 1⟩)
  | closed {mid : ℕ} {m : MandalaRecord} (hget : d.mandalas.get? mid = some m)
      (hclosable : (d.trees.get? mid).elim true mandalaClosable = true)
      (hd' : d'.woods = (closeMandala w d mid).woods)

/-! ### What leaves the trees alone -/

section Woods

variable (d : Driver) (w : World) (id : ℕ) (wk : Worker)

@[simp] theorem woods_emit (e : Effect) : (d.emit e).woods = d.woods := rfl

@[simp] theorem woods_send (e : Event) : (d.send e).woods = d.woods := rfl

@[simp] theorem woods_put : (d.put id wk).woods = d.woods := rfl

@[simp] theorem woods_emitState (detail : String) :
    (d.emitState id wk detail).woods = d.woods := rfl

@[simp] theorem woods_armWorker : (d.armWorker wk).woods = d.woods := rfl

@[simp] theorem woods_disarmWorker (s : SessionId) : (d.disarmWorker s).woods = d.woods := rfl

@[simp] theorem woods_finalizeTerminal : (d.finalizeTerminal id wk).woods = d.woods :=
  woods_of_side (side_finalizeTerminal d id wk)

@[simp] theorem woods_saveWorkerState : (d.saveWorkerState w).woods = d.woods :=
  woods_of_side (side_saveWorkerState d w)

theorem woods_reportBatch (cfg : Config) (batch : ℕ) :
    (reportBatch cfg d batch).woods = d.woods := by
  unfold reportBatch
  split
  · rfl
  · rename_i b _
    extract_lets d₁ rows d₂ d₃
    have h₃ : d₃.woods = d.woods := by
      unfold d₃
      split <;> rfl
    cases b.inlineAck with
    | none => exact h₃
    | some ack => exact h₃

theorem woods_endTurn : (d.endTurn w id wk).woods = d.woods := by
  unfold endTurn
  split
  · exact woods_finalizeTerminal ..
  · rfl

theorem woods_cancelOne : (cancelOne w d id).woods = d.woods := by
  unfold cancelOne
  split
  · rfl
  · rename_i wk _
    split
    · rfl
    · extract_lets wk' d₁ d₂
      have h₂ : d₂.woods = d.woods := by
        unfold d₂
        split <;> rfl
      exact (woods_finalizeTerminal ..).trans h₂

theorem woods_admitOne (cfg : Config) : (d.admitOne cfg w id wk).woods = d.woods := by
  unfold admitOne
  extract_lets d₁ wk'
  change d₁.woods = d.woods
  unfold d₁
  split <;> rfl

theorem woods_turnErrored (session : SessionId) : (d.turnErrored session).woods = d.woods := by
  unfold turnErrored
  split <;> rfl

theorem woods_failRemoteRow (cfg : Config) (cause : String) :
    (failRemoteRow cfg cause d id).woods = d.woods := by
  unfold failRemoteRow
  split
  · rfl
  · split <;> rfl

theorem woods_acceptRow (node : String) (wids : List ℕ) (peerBatch : ℕ) (ar : AcceptedRow) :
    (acceptRow node wids peerBatch d ar).woods = d.woods := by
  unfold acceptRow
  split <;> rfl

theorem woods_relayOne (x : Driver × CancelGroups) : (relayOne x id).1.woods = x.1.woods := by
  unfold relayOne
  split
  · rfl
  · split <;> rfl

theorem woods_applyWireRow (cfg : Config) (batch : ℕ) (node : String) (x : Driver × Bool)
    (wire : WireRow) : (applyWireRow cfg batch node x wire).1.woods = x.1.woods := by
  unfold applyWireRow
  split
  · rfl
  · extract_lets stateChanged summaryChanged r₁ mirrored d₁ r₂ d₂
    have h₁ : d₁.woods = x.1.woods := by
      unfold d₁
      split <;> rfl
    change (if stateChanged then d₂.emitRemoteState _ r₂ "" else d₂).woods = x.1.woods
    split
    · exact h₁
    · exact h₁

theorem woods_reviewOne (cfg : Config) (s : Sweep) :
    (reviewOne cfg w s id).driver.woods = s.driver.woods := by
  unfold reviewOne
  split
  · rfl
  · rename_i wk _
    extract_lets seen
    change (remediate w s id wk (review seen.1 seen.2.1)).driver.woods = s.driver.woods
    cases review seen.1 seen.2.1 with
    | healthy => rfl
    | fail => exact woods_finalizeTerminal ..
    | park =>
      unfold remediate
      dsimp only
      split <;> rfl
    | reap => rfl
    | openBarrier => rfl
    | cancel => exact woods_cancelOne ..

end Woods

/-! ### Every act -/

variable {wk : Worker}

/-- A cell is changed, after and before what leaves the trees alone. -/
theorem growth_cell (d₁ : Driver) {f : CellRecord → CellRecord} (h₁ : d₁.woods = d.woods)
    (hf : ∀ c, d₁.cell? mid a = some c → CellStep c (f c))
    (h : d'.woods = (d₁.setCell w mid a f).woods) :
    Relation.ReflTransGen (Grows cfg w i d₀) d d' :=
  (Relation.ReflTransGen.single (.still h₁)).tail (.cell hf h)

theorem cell?_congr (h : d'.woods = d.woods) : d'.cell? mid a = d.cell? mid a := by
  rw [cell?, cell?, show d'.trees = d.trees from congrArg Woods.trees h]

/-- A worker that has ended leaves its state in its cell. -/
theorem growth_syncCell (cfg : Config) (d : Driver) (x : ℕ × ℕ × Addr) :
    Relation.ReflTransGen (Grows cfg w i d₀) d (syncCell cfg w d x) := by
  unfold syncCell
  split
  · rename_i wk c hget hc
    split
    · rename_i hcond
      simp only [Bool.and_eq_true] at hcond
      refine .single (.cell (fun c _ => .settled ?_) rfl)
      cases hs : wk.state <;> simp_all [Worker.isTerminal, terminal, stateStr, isOpenState]
    · exact .refl
  · exact .refl

theorem isOpenState_of_terminalStr {state : String} (h : isTerminalStateStr state = true) :
    isOpenState state = false := by
  simp only [isTerminalStateStr, isOpenState] at h ⊢
  simp [h]

theorem growth_syncRemoteCell (d : Driver) (x : ℕ × ℕ × Addr) :
    Relation.ReflTransGen (Grows cfg w i d₀) d (syncRemoteCell w d x) := by
  unfold syncRemoteCell
  split
  · rename_i r c hget hc
    split
    · rename_i hcond
      simp only [Bool.and_eq_true] at hcond
      exact .single (.cell (fun c _ => .settled (isOpenState_of_terminalStr hcond.1)) rfl)
    · exact .refl
  · exact .refl

theorem growth_recordLap (d : Driver) (parent : SessionId) (ctx : CellCtx) (v : Verdicted) :
    Relation.ReflTransGen (Grows cfg w i d₀) d (d.recordLap w parent ctx v) := by
  unfold recordLap
  extract_lets d₁ d₂ tail
  have h₁ : Relation.ReflTransGen (Grows cfg w i d₀) d d₁ := by
    unfold d₁
    split
    · cases v.lap with
      | none => exact .refl
      | some m => exact .single (.cell (fun _ _ => .lapped) rfl)
    · exact .refl
  have h₂ : Relation.ReflTransGen (Grows cfg w i d₀) d₁ d₂ := by
    unfold d₂
    split
    · refine Relation.ReflTransGen.tail (.single ?_) (.cell (fun _ _ => .budgeted) rfl)
      exact .cell (fun _ _ => .budgeted) rfl
    · exact .refl
  refine (h₁.trans h₂).trans ?_
  split
  · exact .single (.still rfl)
  · exact .refl

theorem growth_advance {session : SessionId} (h : d.advance cfg w session = some d') :
    Relation.ReflTransGen (Grows cfg w i d₀) d d' := by
  unfold advance at h
  split at h
  · cases h
  · rename_i id wk hfind
    extract_lets ctx v d₁ d₂ d₃ at h
    obtain rfl := Option.some.inj h
    have h₂ : Relation.ReflTransGen (Grows cfg w i d₀) d₁ d₂ := by
      unfold d₂
      cases ctx with
      | none => exact .refl
      | some ctx => exact growth_recordLap ..
    have h₃ : d₃.woods = d₂.woods := woods_endTurn ..
    refine ((Relation.ReflTransGen.single (.still rfl)).trans h₂).tail (.still ?_)
    cases v.next with
    | none => exact h₃
    | some text => exact h₃

theorem growth_afterWake (d : Driver) (session : SessionId) :
    Relation.ReflTransGen (Grows cfg w i d₀) d (d.afterWake w session) := by
  unfold afterWake
  split
  · exact .refl
  · rename_i id _ _
    extract_lets d₁
    have h₁ : Relation.ReflTransGen (Grows cfg w i d₀) d d₁ := by
      unfold d₁
      split
      · split
        · exact .single (.cell (fun _ _ => .opened) rfl)
        · exact .refl
      · exact .refl
    split
    · exact h₁
    · split
      · exact h₁.tail (.still rfl)
      · exact h₁

theorem growth_openGate (x : Driver × Bool) (id : ℕ) :
    Relation.ReflTransGen (Grows cfg w i d₀) x.1 (openGate w x id).1 := by
  unfold openGate
  extract_lets d
  split
  · rename_i wk mandala addr c t hget hcell htree
    extract_lets isSettled timedOut
    split
    · exact growth_cell (d.put id _) rfl (fun _ _ => .opened) rfl
    · exact .refl
  · exact .refl

theorem Act.grows (h : Act cfg w i d₀ d d') : Relation.ReflTransGen (Grows cfg w i d₀) d d' := by
  cases h with
  | idle h => exact .single (.still (woods_of_side h.side))
  | card hget => exact .single (.still rfl)
  | save => exact .single (.still (woods_saveWorkerState ..))
  | reported => exact .single (.still (woods_reportBatch ..))
  | admission hnext hget => exact .single (.still (woods_admitOne ..))
  | verdict hget hstep => exact .single (.still rfl)
  | advanced hi h => exact growth_advance h
  | @sent d d₁ session hi h =>
    have hwake : d₁.woods = d.woods := by
      obtain ⟨x, -, rfl⟩ := Option.map_eq_some_iff.mp h
      rfl
    exact (Relation.ReflTransGen.single (.still hwake)).trans (growth_afterWake ..)
  | suspended h =>
    obtain ⟨x, -, rfl⟩ := Option.map_eq_some_iff.mp h
    exact .single (.still rfl)
  | resumed hi h =>
    obtain ⟨x, -, rfl⟩ := Option.map_eq_some_iff.mp h
    exact .single (.still rfl)
  | errored => exact .single (.still (woods_turnErrored ..))
  | cancelled => exact .single (.still (woods_cancelOne ..))
  | gateOpened hget hheld hqueued => exact growth_openGate ..
  | reviewed hi hdue => exact .single (.still (woods_reviewOne ..))
  | cellSynced hx => exact growth_syncCell ..
  | remoteCellSynced hx => exact growth_syncRemoteCell ..
  | rowFailed hi => exact .single (.still (woods_failRemoteRow ..))
  | rowAccepted hi har => exact .single (.still (woods_acceptRow ..))
  | rowReported hi => exact .single (.still (woods_applyWireRow ..))
  | rowRelayed => exact .single (.still (woods_relayOne ..))
  | cancelPosted => exact .single (.still rfl)
  | batchOpened h => exact .single (.still rfl)
  | workerMinted h hitem hnode hopen => exact .single (.still rfl)
  | rowMinted h hitem hnode hopen => exact .single (.still rfl)
  | lost h hsid hside => exact .single (.still (woods_of_side hside))
  | bound h => exact .single (.bound h rfl)
  | mandalaOpened h => exact .single (.opened h rfl)
  | mandalaClosed hget hclosable => exact .single (.closed hget hclosable rfl)
  | armed hi => exact .single (.still rfl)
  | disarmed => exact .single (.still rfl)

/-! ### The laws of all trees -/

/-- The laws of all mandalas and their trees. -/
structure Groves (d : Driver) : Prop where
  record : ∀ mid m, d.mandalas.get? mid = some m → m.id = mid ∧ mid < d.nextMandalaId ∧
    m.budget.depth ≤ depthCeil ∧ m.budget.cells ≤ cellsCeil
  tree : ∀ mid m, d.mandalas.get? mid = some m → ∃ t, d.trees.get? mid = some t ∧ TreeLaw m t
  owned : ∀ mid t, d.trees.get? mid = some t → ∃ m, d.mandalas.get? mid = some m

variable {m : MandalaRecord} {t : Tree} {c : CellRecord}

theorem Groves.of_woods (h : d.Groves) (hwoods : d'.woods = d.woods) : d'.Groves := by
  have hmandalas : d'.mandalas = d.mandalas := congrArg Woods.mandalas hwoods
  have htrees : d'.trees = d.trees := congrArg Woods.trees hwoods
  have hnext : d'.nextMandalaId = d.nextMandalaId := congrArg Woods.nextMandalaId hwoods
  exact ⟨by rw [hmandalas, hnext]; exact h.record, by rw [hmandalas, htrees]; exact h.tree,
    by rw [hmandalas, htrees]; exact h.owned⟩

theorem nextMandalaId_setCell (d : Driver) (w : World) (mandala : ℕ) (addr : Addr)
    (f : CellRecord → CellRecord) :
    (d.setCell w mandala addr f).nextMandalaId = d.nextMandalaId := by
  rw [setCell]
  split <;> rfl

theorem Groves.setCell {f : CellRecord → CellRecord} (h : d.Groves)
    (hf : ∀ c, d.cell? mid a = some c → CellStep c (f c)) : (d.setCell w mid a f).Groves := by
  refine ⟨?_, fun mid' m hm => ?_, fun mid' t ht => ?_⟩
  · rw [mandalas_setCell, nextMandalaId_setCell]
    exact h.record
  · rw [mandalas_setCell] at hm
    obtain ⟨t, ht, hlaw⟩ := h.tree mid' m hm
    rw [trees_setCell, ht]
    split
    · rename_i hmid
      subst hmid
      refine ⟨_, rfl, ?_⟩
      change TreeLaw m (t.modify a f)
      cases hc : t.get? a with
      | none =>
        rw [Table.modify_of_none hc]
        exact hlaw
      | some c => exact hlaw.modify hc (hf c (by rw [cell?, ht, Option.bind_some, hc]))
    · exact ⟨t, rfl, hlaw⟩
  · rw [mandalas_setCell]
    rw [trees_setCell] at ht
    split at ht
    · obtain ⟨t', ht', -⟩ := Option.map_eq_some_iff.mp ht
      exact h.owned mid' t' ht'
    · exact h.owned mid' t ht

/-! ### Closing and opening -/

theorem openCells_eq_zero (h : ∀ a c, t.get? a = some c → isOpenState c.state = false) :
    openCells t = 0 := by
  refine List.countP_eq_zero.mpr fun x hx => ?_
  simp [h x.1 x.2 (Table.mem_iff_get?.mp hx)]

theorem get?_closed (d : Driver) (mid mid' : ℕ) :
    (d.mandalas.modify mid fun m => { m with state := "closed" }).get? mid' =
    (d.mandalas.get? mid').map
      fun m => if mid' = mid then { m with state := "closed" } else m := by
  rw [Table.get?_modify]
  split <;> simp

theorem mandalas_closeMandala (w : World) (d : Driver) (mid : ℕ) :
    (closeMandala w d mid).mandalas =
    d.mandalas.modify mid fun m => { m with state := "closed" } := by
  unfold closeMandala
  extract_lets d₁
  split
  · exact mandalas_setCell ..
  · rfl

theorem Groves.close (h : d.Groves) (hget : d.mandalas.get? mid = some m)
    (hclosable : (d.trees.get? mid).elim true mandalaClosable = true) :
    (closeMandala w d mid).Groves := by
  obtain ⟨t, ht, hlaw⟩ := h.tree mid m hget
  rw [ht] at hclosable
  have hsettled (a : Addr) (c : CellRecord) (hc : t.get? a = some c) (ha : a ≠ Addr.root) :
      isOpenState c.state = false := by
    have hone := List.all_eq_true.mp hclosable _ (Table.mem_of_get? hc)
    simpa [ha] using hone
  -- The tree of the mandala, once its root is settled.
  obtain ⟨t', ht', hlaw', hzero⟩ : ∃ t', (closeMandala w d mid).trees.get? mid = some t' ∧
      TreeLaw m t' ∧ openCells t' = 0 := by
    unfold closeMandala
    extract_lets d₁
    split
    · rename_i hany
      refine ⟨t.modify Addr.root fun c => { c with state := "done" }, ?_, ?_, ?_⟩
      · rw [trees_setCell, if_pos rfl]
        exact congrArg (Option.map _) ht
      · obtain ⟨r, hr⟩ := Table.contains_iff.mp hlaw.root
        exact hlaw.modify hr (.settled rfl)
      · refine openCells_eq_zero fun a c hc => ?_
        rw [Table.get?_modify] at hc
        split at hc
        · obtain ⟨c', -, rfl⟩ := Option.map_eq_some_iff.mp hc
          rfl
        · rename_i hne
          exact hsettled a c hc hne
    · rename_i hany
      refine ⟨t, ht, hlaw, openCells_eq_zero fun a c hc => ?_⟩
      by_cases ha : a = Addr.root
      · subst ha
        have hroot : d₁.cell? mid Addr.root = some c := by
          rw [cell?, show d₁.trees = d.trees from rfl, ht, Option.bind_some, hc]
        simpa [hroot] using hany
      · exact hsettled a c hc ha
  have hother {mid' : ℕ} (hne : mid' ≠ mid) :
      (closeMandala w d mid).trees.get? mid' = d.trees.get? mid' := (closeMandala_of_ne hne).2
  have hnext : (closeMandala w d mid).nextMandalaId = d.nextMandalaId := by
    unfold closeMandala
    extract_lets d₁
    split
    · exact nextMandalaId_setCell ..
    · rfl
  refine ⟨fun mid' m' hm => ?_, fun mid' m' hm => ?_, fun mid' t'' ht'' => ?_⟩
  · rw [mandalas_closeMandala, get?_closed] at hm
    obtain ⟨m₀, hm₀, rfl⟩ := Option.map_eq_some_iff.mp hm
    rw [hnext]
    split <;> exact h.record mid' m₀ hm₀
  · rw [mandalas_closeMandala, get?_closed] at hm
    obtain ⟨m₀, hm₀, rfl⟩ := Option.map_eq_some_iff.mp hm
    by_cases hmid : mid' = mid
    · subst hmid
      obtain rfl : m = m₀ := Option.some.inj (hget.symm.trans hm₀)
      rw [if_pos rfl]
      exact ⟨t', ht', hlaw'.close hzero⟩
    · rw [if_neg hmid, hother hmid]
      exact h.tree mid' m₀ hm₀
  · rw [mandalas_closeMandala, get?_closed]
    by_cases hmid : mid' = mid
    · subst hmid
      exact ⟨_, by rw [hget]; rfl⟩
    · rw [hother hmid] at ht''
      obtain ⟨m₀, hm₀⟩ := h.owned mid' t'' ht''
      exact ⟨_, by rw [hm₀]; rfl⟩

/-- What `mandala_create` opens a mandala with. -/
theorem mandalaRecord_ok {session : SessionId} {args : Json}
    (h : d.mandalaRecord cfg w session args = .ok m) : m.id = d.nextMandalaId ∧ m.state = "open" ∧
      m.conductor = session ∧ m.budget.depth ≤ depthCeil ∧ 1 ≤ m.budget.depth ∧
        m.budget.cells = cellsCeil := by
  obtain ⟨hid, hstate, hconductor, hdepth, hcells⟩ : m.id = d.nextMandalaId ∧ m.state = "open" ∧
      m.conductor = session ∧ m.budget.depth = (natField args "depth").elim depthCeil
        (fun n => max 1 (min (n % 2 ^ 8) depthCeil)) ∧ m.budget.cells = cellsCeil := by
    simp only [mandalaRecord, bind_ok] at h
    obtain ⟨-, -, -, -, h⟩ := h
    split at h
    · split at h
      · cases h
        exact ⟨rfl, rfl, rfl, rfl, rfl⟩
      · split at h
        · cases h
          exact ⟨rfl, rfl, rfl, rfl, rfl⟩
        · cases h
    · split at h
      · split at h
        · cases h
          exact ⟨rfl, rfl, rfl, rfl, rfl⟩
        · split at h
          · cases h
            exact ⟨rfl, rfl, rfl, rfl, rfl⟩
          · cases h
      · cases h
  rw [hdepth]
  cases natField args "depth" with
  | none => exact ⟨hid, hstate, hconductor, Nat.le_refl _, by decide, hcells⟩
  | some n =>
    exact ⟨hid, hstate, hconductor, Nat.max_le.mpr ⟨by decide, Nat.min_le_right ..⟩,
      Nat.le_max_left .., hcells⟩

theorem treeLaw_rootCell (hdepth : 1 ≤ m.budget.depth) (hcells : 1 ≤ m.budget.cells)
    (hstate : m.state ≠ "closed") : TreeLaw m (Table.empty.insert Addr.root (rootCell m)) := by
  have hget {a : Addr} {c : CellRecord}
      (hc : ((Table.empty : Tree).insert Addr.root (rootCell m)).get? a = some c) :
      a = Addr.root ∧ c = rootCell m := by
    rw [Table.get?_insert] at hc
    split at hc
    · rename_i ha
      exact ⟨ha, (Option.some.inj hc).symm⟩
    · cases hc
  refine ⟨?_, fun a c hc => ?_, fun ks k c hc => ?_, ?_, fun h => absurd h hstate⟩
  · exact Table.contains_iff.mpr ⟨rootCell m, by rw [Table.get?_insert, if_pos rfl]⟩
  · obtain ⟨rfl, rfl⟩ := hget hc
    exact ⟨[], Addr.root_eq_path, rfl, Nat.zero_add _, hdepth, rfl, rfl⟩
  · obtain ⟨hroot, -⟩ := hget hc
    exact absurd (Addr.path_injective (hroot.trans Addr.root_eq_path)) (by simp)
  · exact hcells

theorem Groves.opened (h : d.Groves) {session : SessionId} {args : Json}
    (hm : d.mandalaRecord cfg w session args = .ok m)
    (hwoods : d'.woods = ⟨d.mandalas.insert m.id m, d.trees.insert m.id
      (((d.trees.get? m.id).getD Table.empty).insert Addr.root (rootCell m)), d.cellByWorker,
      m.id + 1⟩) : d'.Groves := by
  obtain ⟨hid, hstate, -, hdepth, hpos, hcells⟩ := mandalaRecord_ok hm
  have hmandalas : d'.mandalas = d.mandalas.insert m.id m := congrArg Woods.mandalas hwoods
  have htrees : d'.trees = _ := congrArg Woods.trees hwoods
  have hnext : d'.nextMandalaId = m.id + 1 := congrArg Woods.nextMandalaId hwoods
  have hnone : d.mandalas.get? m.id = none := by
    cases hget : d.mandalas.get? m.id with
    | none => rfl
    | some m' => exact absurd (h.record _ _ hget).2.1 (by omega)
  have htree : d.trees.get? m.id = none := by
    cases hget : d.trees.get? m.id with
    | none => rfl
    | some t =>
      obtain ⟨m', hm'⟩ := h.owned _ _ hget
      rw [hnone] at hm'
      cases hm'
  rw [htree] at htrees
  refine ⟨fun mid m' hget => ?_, fun mid m' hget => ?_, fun mid t hget => ?_⟩
  · rw [hmandalas, Table.get?_insert] at hget
    rw [hnext]
    split at hget
    · obtain rfl := Option.some.inj hget
      exact ⟨by simp_all, by simp_all, hdepth, hcells.le⟩
    · obtain ⟨hid', hlt, hrest⟩ := h.record mid m' hget
      exact ⟨hid', by omega, hrest⟩
  · rw [hmandalas, Table.get?_insert] at hget
    rw [htrees, Table.get?_insert]
    split at hget
    · rename_i hmid
      obtain rfl := Option.some.inj hget
      rw [if_pos hmid]
      exact ⟨_, rfl, treeLaw_rootCell hpos (by rw [hcells]; decide) (by rw [hstate]; decide)⟩
    · rename_i hmid
      rw [if_neg hmid]
      exact h.tree mid m' hget
  · rw [htrees, Table.get?_insert] at hget
    rw [hmandalas, Table.get?_insert]
    split at hget
    · rename_i hmid
      rw [if_pos hmid]
      exact ⟨m, rfl⟩
    · rename_i hmid
      rw [if_neg hmid]
      exact h.owned mid t hget

/-! ### Binding -/

theorem fanPlan_ok {session : SessionId} {args : Json} {plan : FanPlan}
    (h : d.fanPlan cfg w session args = .ok plan) : ∃ caller,
      d.callerCell session args plan.inline = .ok caller ∧
      prepareMandalaCells d.mandalas d.trees session args plan.tasks plan.inline caller =
        .ok plan.ctx := by
  have hrest {inline : Bool} {tasks : List TaskSpecItem} {caller : Option Addr}
      (hcaller : d.callerCell session args inline = .ok caller)
      (h : ∃ ctx,
        prepareMandalaCells d.mandalas d.trees session args tasks inline caller = .ok ctx ∧
        (pure ⟨inline, tasks, ctx⟩ : Except String FanPlan) = .ok plan) : ∃ caller,
      d.callerCell session args plan.inline = .ok caller ∧
      prepareMandalaCells d.mandalas d.trees session args plan.tasks plan.inline caller =
        .ok plan.ctx := by
    obtain ⟨ctx, hctx, h⟩ := h
    obtain rfl := Except.ok.inj h
    exact ⟨caller, hcaller, hctx⟩
  unfold fanPlan at h
  repeat' split at h
  -- The unknown mode is refused; every other one goes on alike.
  case h_2.isFalse.isFalse => cases h
  all_goals
    simp only [bind_ok] at h
    obtain ⟨inline, -, tasks, -, -, -, caller, hcaller, h⟩ := h
    split at h
    · simp only [bind_ok] at h
      obtain ⟨-, -, -, -, -, -, h⟩ := h
      exact hrest hcaller h
    · exact hrest hcaller (bind_ok.mp h)

/-- Who fans out: no worker, or one whose cell carries a voucher. -/
theorem callerCell_ok {session : SessionId} {args : Json} {inline : Bool} {caller : Option Addr}
    (h : d.callerCell session args inline = .ok caller) :
    isWorkerSession session = false ∧ caller = none ∨
    isWorkerSession session = true ∧ ∃ id wk mid own c, d.workers.get? id = some wk ∧
      wk.session = session ∧ d.cellByWorker.get? id = some (mid, own) ∧
      d.cell? mid own = some c ∧ c.voucher = true ∧ natField args "mandala" = some mid ∧
      caller = some own := by
  unfold callerCell at h
  split at h
  · rename_i hs
    simp only [Bool.not_eq_true'] at hs
    exact Or.inl ⟨hs, (Except.ok.inj h).symm⟩
  · rename_i hs
    split at h
    · cases h
    · rename_i mid own hfind
      simp only [bind_ok, require_ok] at h
      obtain ⟨-, hvoucher, -, hmid, -, -, h⟩ := h
      obtain rfl := Except.ok.inj h
      obtain ⟨⟨id, wk⟩, hfind, hcell⟩ := Option.bind_eq_some_iff.mp hfind
      obtain ⟨hget, hsession⟩ := Table.find?_eq_some hfind
      refine Or.inr ⟨by simpa using hs, id, wk, mid, own, ?_⟩
      cases hc : d.cell? mid own with
      | none => simp [hc] at hvoucher
      | some c =>
        exact ⟨c, hget, of_decide_eq_true hsession, hcell, rfl, by simpa [hc] using hvoucher,
          of_decide_eq_true hmid, rfl⟩

/-- A fan-out under a mandala, as it was planned on a driver whose trees keep their laws. -/
structure Roots (d : Driver) (session : SessionId) (args : Json) (m : MandalaRecord) (t : Tree)
    (caller : Option Addr) (parent : CellRecord) (ctx : CellsCtx) : Prop where
  named : natField args "mandala" = some ctx.mandala
  mandala : d.mandalas.get? ctx.mandala = some m
  tree : d.trees.get? ctx.mandala = some t
  law : TreeLaw m t
  planned : Planned m t session caller parent ctx

theorem Groves.roots (h : d.Groves) {session : SessionId} {args : Json} {plan : FanPlan}
    {ctx : CellsCtx} (hplan : d.fanPlan cfg w session args = .ok plan)
    (hctx : plan.ctx = some ctx) :
    ∃ m t caller parent, d.callerCell session args plan.inline = .ok caller ∧
      Roots d session args m t caller parent ctx := by
  obtain ⟨caller, hcaller, hprepare⟩ := fanPlan_ok hplan
  rw [hctx] at hprepare
  obtain ⟨mid, m, parent, hmid, hm, hplanned⟩ := planned_of_prepare hprepare
  obtain rfl : ctx.mandala = mid := hplanned.mandala.trans (h.record mid m hm).1
  obtain ⟨t, ht, hlaw⟩ := h.tree _ m hm
  rw [ht] at hplanned
  exact ⟨m, t, caller, parent, hcaller, hmid, hm, ht, hlaw, hplanned⟩

theorem planted_plannedCell (w : World) (ctx : CellsCtx) (p : CellPlan) (id : ℕ) :
    Planted p (plannedCell w ctx p id) := by
  refine ⟨rfl, rfl, ?_, ?_, rfl, rfl⟩
  · unfold plannedCell
    cases p.barrierTimeoutS <;> cases p.measure <;> cases ctx.armGateBranch <;> rfl
  · unfold plannedCell
    cases p.barrierTimeoutS <;> cases p.measure <;> cases ctx.armGateBranch <;> rfl

/-- The cells of a fan-out. -/
def plannedCells (w : World) (ctx : CellsCtx) (xs : List (CellPlan × ℕ)) : List CellRecord :=
  xs.map fun x => plannedCell w ctx x.1 x.2

theorem forall₂_plannedCells (w : World) (ctx : CellsCtx) {ps : List CellPlan} {wids : List ℕ}
    (hlen : wids.length = ps.length) :
    List.Forall₂ Planted ps (plannedCells w ctx (ps.zip wids)) := by
  induction ps generalizing wids with
  | nil => exact .nil
  | cons p ps ih =>
    cases wids with
    | nil => cases hlen
    | cons id wids =>
      exact .cons (planted_plannedCell w ctx p id) (ih (Nat.succ.inj hlen))

/-- What binding a number of cells does to the woods. -/
theorem foldl_bindCell {ctx : CellsCtx} (xs : List (CellPlan × ℕ))
    (ht : d.trees.get? ctx.mandala = some t) :
    (xs.foldl (bindCell w ctx) d).mandalas = d.mandalas ∧
    (xs.foldl (bindCell w ctx) d).nextMandalaId = d.nextMandalaId ∧
    ∀ mid, (xs.foldl (bindCell w ctx) d).trees.get? mid =
      if mid = ctx.mandala then some (plant t (plannedCells w ctx xs)) else d.trees.get? mid := by
  induction xs generalizing d t with
  | nil =>
    refine ⟨rfl, rfl, fun mid => ?_⟩
    split
    · rename_i hmid
      rw [hmid]
      exact ht
    · rfl
  | cons x xs ih =>
    have htrees : (bindCell w ctx d x).trees = d.trees.insert ctx.mandala
        (t.insert x.1.addr (plannedCell w ctx x.1 x.2)) := by
      simp only [bindCell, ht]
      rfl
    obtain ⟨hmandalas, hnext, hget⟩ := ih (d := bindCell w ctx d x)
      (t := t.insert x.1.addr (plannedCell w ctx x.1 x.2))
      (by rw [htrees, Table.get?_insert, if_pos rfl])
    refine ⟨hmandalas, hnext, fun mid => ?_⟩
    rw [List.foldl_cons, hget]
    split
    · rfl
    · rename_i hmid
      rw [htrees, Table.get?_insert, if_neg hmid]

variable {session : SessionId} {args : Json} {caller : Option Addr} {parent : CellRecord}
  {ctx : CellsCtx} {wids : List ℕ}

theorem Groves.armParent (h : d.Groves) (ctx : CellsCtx) : (armParent w ctx d).Groves := by
  unfold Driver.armParent
  split
  · exact h.setCell fun _ _ => .armed
  · exact h

theorem Groves.bindCells (h : d.Groves) (hr : Roots d session args m t caller parent ctx)
    (hlen : wids.length = ctx.plans.length) : (d.bindCells w ctx wids).Groves := by
  rw [bindCells_eq]
  refine Groves.armParent ?_ ctx
  obtain ⟨hmandalas, hnext, htrees⟩ :=
    foldl_bindCell (w := w) (d := d) (ctx.plans.zip wids) hr.tree
  have hplant : TreeLaw m (plant t (plannedCells w ctx (ctx.plans.zip wids))) :=
    hr.planned.plant hr.law (forall₂_plannedCells w ctx hlen)
  refine ⟨?_, fun mid m' hm => ?_, fun mid t' ht' => ?_⟩
  · rw [hmandalas, hnext]
    exact h.record
  · rw [hmandalas] at hm
    rw [htrees]
    split
    · rename_i hmid
      subst hmid
      obtain rfl : m = m' := Option.some.inj (hr.mandala.symm.trans hm)
      exact ⟨_, rfl, hplant⟩
    · exact h.tree mid m' hm
  · rw [hmandalas]
    rw [htrees] at ht'
    split at ht'
    · rename_i hmid
      subst hmid
      exact ⟨m, hr.mandala⟩
    · exact h.owned mid t' ht'

/-- What is bound was planned on the trees it is put into. -/
theorem Binds.roots (h : Binds cfg w i d₀ d ctx wids) (hd₀ : d₀.Groves) :
    ∃ session call args plan m t caller parent, i = .request session call "task_fanout" args ∧
      d₀.fanPlan cfg w session args = .ok plan ∧ plan.ctx = some ctx ∧
      d₀.callerCell session args plan.inline = .ok caller ∧
      Roots d₀ session args m t caller parent ctx ∧ Roots d session args m t caller parent ctx ∧
      wids.length = ctx.plans.length := by
  obtain ⟨session, call, args, plan, hi, hplan, hctx, -⟩ := h.planned
  obtain ⟨m, t, caller, parent, hcaller, hr⟩ := hd₀.roots hplan hctx
  refine ⟨session, call, args, plan, m, t, caller, parent, hi, hplan, hctx, hcaller, hr, ?_, ?_⟩
  · exact ⟨hr.named, by rw [h.mandalas]; exact hr.mandala, by rw [h.trees]; exact hr.tree, hr.law,
      hr.planned⟩
  · rw [h.ids, List.length_range']

/-- **What one change preserves.** -/
theorem Groves.grows (h : d.Groves) (hd₀ : d₀.Groves) (hg : Grows cfg w i d₀ d d') : d'.Groves := by
  cases hg with
  | still hwoods => exact h.of_woods hwoods
  | cell hf hwoods => exact (h.setCell hf).of_woods hwoods
  | bound hb hwoods =>
    obtain ⟨session, call, args, plan, m, t, caller, parent, -, -, -, -, -, hr,
      hlen⟩ := hb.roots hd₀
    exact (h.bindCells hr hlen).of_woods hwoods
  | opened hm hwoods => exact h.opened hm hwoods
  | closed hget hclosable hwoods => exact (h.close hget hclosable).of_woods hwoods

/-! ### What grows -/

/-- What a cell keeps for good. -/
def seed (c : CellRecord) :
    Addr × Option ℕ × String × String × ℕ × Option ℕ × Option String × Bool ×
    Option String :=
  (c.addr, c.worker, c.task, c.invariantHash, c.createdEpoch, c.barrierTimeoutS,
    c.measure, c.voucher,
    c.node)

theorem seed_of_cellStep {c' : CellRecord} (h : CellStep c c') : seed c' = seed c := by
  cases h <;> rfl

/-- Who may grow a mandala at an address: its conductor, or a worker under its own vouchered
cell. -/
def MayGrow (d : Driver) (session : SessionId) (m : MandalaRecord) (mid : ℕ) (a : Addr) : Prop :=
  isWorkerSession session = false ∧ m.conductor = session ∨
  isWorkerSession session = true ∧ ∃ id wk own c, d.workers.get? id = some wk ∧
    wk.session = session ∧ d.cellByWorker.get? id = some (mid, own) ∧ d.cell? mid own = some c ∧
    c.voucher = true ∧ own.isAncestorOf a = true

/-- An address that a fan-out under a mandala mints: the mandala is not closed, the address is not
there, and the session may grow it there. -/
def Sprouts (cfg : Config) (w : World) (i : Input) (d : Driver) (mid : ℕ) (a : Addr) : Prop :=
  ∃ session call args plan ctx m, i = .request session call "task_fanout" args ∧
    d.fanPlan cfg w session args = .ok plan ∧ plan.ctx = some ctx ∧ ctx.mandala = mid ∧
    a ∈ ctx.plans.map CellPlan.addr ∧ d.mandalas.get? mid = some m ∧ m.state ≠ "closed" ∧
    d.cell? mid a = none ∧ MayGrow d session m mid a

/-- **What a turn of the loop adds to the trees**, from `d` to `d'`: no cell is lost or replaced, a
new cell is the root of a new mandala or was planned by the fan-out that is handled, and a mandala
stays as it is or is closed. -/
structure Grown (cfg : Config) (w : World) (i : Input) (d d' : Driver) : Prop where
  kept : ∀ mid a c, d.cell? mid a = some c → ∃ c', d'.cell? mid a = some c' ∧ seed c' = seed c
  new : ∀ mid a c, d'.cell? mid a = some c → d.cell? mid a = none →
    d.mandalas.get? mid = none ∧ a = Addr.root ∨ Sprouts cfg w i d mid a
  mandala : ∀ mid m, d.mandalas.get? mid = some m → ∃ m', d'.mandalas.get? mid = some m' ∧
    (m' = m ∨ m' = { m with state := "closed" })

theorem Addr.isAncestorOf_trans {a b c : Addr} (h : a.isAncestorOf b = true)
    (h' : b.isAncestorOf c = true) : a.isAncestorOf c = true := by
  simp only [Addr.isAncestorOf, Bool.and_eq_true, decide_eq_true_eq, List.isPrefixOf_iff_prefix]
    at h h' ⊢
  exact ⟨h.1.trans h'.1, h.2.trans h'.2⟩

/-- What is planned may be minted. -/
theorem Roots.sprouts (hr : Roots d session args m t caller parent ctx) {call : ActionId}
    {plan : FanPlan} (hi : i = .request session call "task_fanout" args)
    (hplan : d.fanPlan cfg w session args = .ok plan) (hctx : plan.ctx = some ctx)
    (hcaller : d.callerCell session args plan.inline = .ok caller) {q : CellPlan}
    (hq : q ∈ ctx.plans) : Sprouts cfg w i d ctx.mandala q.addr := by
  obtain ⟨hfresh, hunder⟩ := hr.planned.fresh hr.law hq
  refine ⟨session, call, args, plan, ctx, m, hi, hplan, hctx, rfl,
    List.mem_map_of_mem hq, hr.mandala,
    hr.planned.grows, by rw [cell?, hr.tree, Option.bind_some, hfresh], ?_⟩
  rcases callerCell_ok hcaller with ⟨hs, hnone⟩ |
    ⟨hs, id, wk, mid, own, c, hget, hsession, hcell, hc,
    hvoucher, hmid, hown⟩
  · exact Or.inl ⟨hs, hr.planned.conductor hnone⟩
  · obtain rfl : ctx.mandala = mid := Option.some.inj (hr.named.symm.trans hmid)
    refine Or.inr ⟨hs, id, wk, own, c, hget, hsession, hcell, hc, hvoucher, ?_⟩
    have hscope := hr.planned.voucher own hown
    simp only [voucherScopeOk, Bool.or_eq_true, decide_eq_true_eq] at hscope
    rcases hscope with hown | hown
    · rw [hown]
      exact hunder
    · exact Addr.isAncestorOf_trans hown hunder

theorem Grown.refl (d : Driver) : Grown cfg w i d d where
  kept _ _ c hc := ⟨c, hc, rfl⟩
  new mid a c hc hnone := by
    rw [hnone] at hc
    cases hc
  mandala _ m hm := ⟨m, hm, Or.inl rfl⟩

/-- A change that keeps the cells where they are. -/
theorem Grown.of_cells (h : Grown cfg w i d₀ d)
    (hkept : ∀ mid a c, d.cell? mid a = some c → ∃ c', d'.cell? mid a = some c' ∧ seed c' = seed c)
    (hback : ∀ mid a c', d'.cell? mid a = some c' → ∃ c, d.cell? mid a = some c)
    (hmandala : ∀ mid m, d.mandalas.get? mid = some m → ∃ m', d'.mandalas.get? mid = some m' ∧
      (m' = m ∨ m' = { m with state := "closed" })) : Grown cfg w i d₀ d' where
  kept mid a c hc := by
    obtain ⟨c₁, hc₁, hseed₁⟩ := h.kept mid a c hc
    obtain ⟨c₂, hc₂, hseed₂⟩ := hkept mid a c₁ hc₁
    exact ⟨c₂, hc₂, hseed₂.trans hseed₁⟩
  new mid a c' hc' hnone := by
    obtain ⟨c, hc⟩ := hback mid a c' hc'
    exact h.new mid a c hc hnone
  mandala mid m hm := by
    obtain ⟨m₁, hm₁, h₁⟩ := h.mandala mid m hm
    obtain ⟨m₂, hm₂, h₂⟩ := hmandala mid m₁ hm₁
    refine ⟨m₂, hm₂, ?_⟩
    rcases h₁ with rfl | rfl
    · exact h₂
    · rcases h₂ with rfl | rfl <;> exact Or.inr rfl

theorem cell?_setCell (d : Driver) (w : World) (mandala : ℕ) (addr : Addr)
    (f : CellRecord → CellRecord) (mid : ℕ) (a : Addr) : (d.setCell w mandala addr f).cell? mid a =
      if mid = mandala ∧ a = addr then (d.cell? mid a).map f else d.cell? mid a := by
  rw [cell?, cell?, trees_setCell]
  by_cases hmid : mid = mandala
  · subst hmid
    cases d.trees.get? mid with
    | none => simp
    | some t =>
      simp only [if_pos, true_and, Option.map_some, Option.bind_some]
      exact Table.get?_modify
  · simp [hmid]

/-- A change of one cell keeps the cells where they are. -/
theorem Grown.setCell {f : CellRecord → CellRecord} (h : Grown cfg w i d₀ d)
    (hf : ∀ c, d.cell? mid a = some c → CellStep c (f c)) :
    Grown cfg w i d₀ (d.setCell w mid a f) := by
  refine h.of_cells (fun mid' a' c hc => ?_) (fun mid' a' c' hc' => ?_) fun mid' m hm => ?_
  · rw [cell?_setCell]
    split
    · rename_i heq
      obtain ⟨rfl, rfl⟩ := heq
      exact ⟨f c, by rw [hc]; rfl, seed_of_cellStep (hf c hc)⟩
    · exact ⟨c, hc, rfl⟩
  · rw [cell?_setCell] at hc'
    split at hc'
    · obtain ⟨c, hc, -⟩ := Option.map_eq_some_iff.mp hc'
      exact ⟨c, hc⟩
    · exact ⟨c', hc'⟩
  · rw [mandalas_setCell]
    exact ⟨m, hm, Or.inl rfl⟩

theorem Grown.of_woods (h : Grown cfg w i d₀ d) (hwoods : d'.woods = d.woods) :
    Grown cfg w i d₀ d' := by
  refine h.of_cells (fun mid a c hc => ⟨c, (cell?_congr hwoods).trans hc, rfl⟩)
    (fun mid a c hc => ⟨c, (cell?_congr hwoods).symm.trans hc⟩) fun mid m hm => ?_
  have hmandalas : d'.mandalas = d.mandalas := congrArg Woods.mandalas hwoods
  rw [hmandalas]
  exact ⟨m, hm, Or.inl rfl⟩

theorem mem_plannedCells {xs : List (CellPlan × ℕ)} (h : c ∈ plannedCells w ctx xs) :
    ∃ q id, (q, id) ∈ xs ∧ c = plannedCell w ctx q id := by
  obtain ⟨⟨q, id⟩, hq, rfl⟩ := List.mem_map.mp h
  exact ⟨q, id, hq, rfl⟩

/-- The cells of a fan-out are put beside what is there. -/
theorem Grown.bindCells (h : Grown cfg w i d₀ d) (hb : Binds cfg w i d₀ d ctx wids)
    (hd₀ : d₀.Groves) : Grown cfg w i d₀ (d.bindCells w ctx wids) := by
  obtain ⟨session, call, args, plan, m, t, caller, parent, hi, hplan, hctx, hcaller, hr₀, hr, -⟩ :=
    hb.roots hd₀
  obtain ⟨hmandalas, -, htrees⟩ := foldl_bindCell (w := w) (d := d) (ctx.plans.zip wids) hr.tree
  have hfold : Grown cfg w i d₀ ((ctx.plans.zip wids).foldl (bindCell w ctx) d) := by
    have hcell (mid : ℕ) (a : Addr) : ((ctx.plans.zip wids).foldl (bindCell w ctx) d).cell? mid a =
        if mid = ctx.mandala then (plant t (plannedCells w ctx (ctx.plans.zip wids))).get? a
        else d.cell? mid a := by
      rw [cell?, htrees]
      split <;> rfl
    have htree (a : Addr) : d.cell? ctx.mandala a = t.get? a := by
      rw [cell?, hr.tree, Option.bind_some]
    refine ⟨fun mid a c hc => ?_, fun mid a c hc hnone => ?_, fun mid m' hm => ?_⟩
    · obtain ⟨c₁, hc₁, hseed⟩ := h.kept mid a c hc
      rw [hcell]
      split
      · rename_i hmid
        subst hmid
        rw [htree] at hc₁
        refine ⟨c₁, ?_, hseed⟩
        rw [get?_plant_of_notMem, hc₁]
        rintro x hx rfl
        obtain ⟨q, id, hq, rfl⟩ := mem_plannedCells hx
        have hfresh := (hr.planned.fresh hr.law (List.of_mem_zip hq).1).1
        rw [show (plannedCell w ctx q id).addr = q.addr from rfl, hfresh] at hc₁
        cases hc₁
      · exact ⟨c₁, hc₁, hseed⟩
    · rw [hcell] at hc
      split at hc
      · rename_i hmid
        subst hmid
        rcases mem_of_get?_plant hc with hc | ⟨hmem, rfl⟩
        · exact h.new _ a c ((htree a).trans hc) hnone
        · obtain ⟨q, id, hq, rfl⟩ := mem_plannedCells hmem
          exact Or.inr (hr₀.sprouts hi hplan hctx hcaller (List.of_mem_zip hq).1)
      · exact h.new mid a c hc hnone
    · rw [hmandalas]
      exact h.mandala mid m' hm
  rw [bindCells_eq]
  unfold Driver.armParent
  split
  · exact hfold.setCell fun _ _ => .armed
  · exact hfold

/-- **What one change adds.** -/
theorem Grown.grows (h : Grown cfg w i d₀ d) (hd₀ : d₀.Groves) (hd : d.Groves)
    (hnext : d₀.nextMandalaId ≤ d.nextMandalaId) (hg : Grows cfg w i d₀ d d') :
    Grown cfg w i d₀ d' ∧ d₀.nextMandalaId ≤ d'.nextMandalaId := by
  have hid (hwoods : d'.woods.nextMandalaId = d.nextMandalaId) :
      d₀.nextMandalaId ≤ d'.nextMandalaId := hnext.trans hwoods.ge
  cases hg with
  | still hwoods => exact ⟨h.of_woods hwoods, hid (congrArg Woods.nextMandalaId hwoods)⟩
  | cell hf hwoods =>
    refine ⟨(h.setCell hf).of_woods hwoods, hid ?_⟩
    exact (congrArg Woods.nextMandalaId hwoods).trans (nextMandalaId_setCell ..)
  | @bound ctx wids hb hwoods =>
    refine ⟨(h.bindCells hb hd₀).of_woods hwoods, hid ?_⟩
    refine (congrArg Woods.nextMandalaId hwoods).trans ?_
    obtain ⟨session, call, args, plan, m, t, caller, parent, -, -, -, -, -, hr, -⟩ := hb.roots hd₀
    change (d.bindCells w ctx wids).nextMandalaId = d.nextMandalaId
    rw [bindCells_eq]
    unfold Driver.armParent
    split
    · exact (nextMandalaId_setCell ..).trans (foldl_bindCell (ctx.plans.zip wids) hr.tree).2.1
    · exact (foldl_bindCell (ctx.plans.zip wids) hr.tree).2.1
  | @opened session args m hm hwoods =>
    obtain ⟨hmid, -⟩ := mandalaRecord_ok hm
    have hmandalas : d'.mandalas = d.mandalas.insert m.id m := congrArg Woods.mandalas hwoods
    have htrees : d'.trees = _ := congrArg Woods.trees hwoods
    have hnext' : d'.nextMandalaId = m.id + 1 := congrArg Woods.nextMandalaId hwoods
    have hnew {mid : ℕ} {m' : MandalaRecord} (hm' : d.mandalas.get? mid = some m') :
        mid ≠ m.id := by
      have hlt := (hd.record mid m' hm').2.1
      omega
    have htree : d.trees.get? m.id = none := by
      cases hget : d.trees.get? m.id with
      | none => rfl
      | some t =>
        obtain ⟨m', hm'⟩ := hd.owned _ _ hget
        exact absurd rfl (hnew hm')
    have hcell (mid : ℕ) (a : Addr) : d'.cell? mid a = if mid = m.id then
        (Table.empty.insert Addr.root (rootCell m)).get? a else d.cell? mid a := by
      rw [cell?, htrees, htree, Table.get?_insert]
      split <;> rfl
    refine ⟨⟨fun mid a c hc => ?_, fun mid a c hc hnone => ?_, fun mid m' hm' => ?_⟩, by omega⟩
    · obtain ⟨c₁, hc₁, hseed⟩ := h.kept mid a c hc
      refine ⟨c₁, ?_, hseed⟩
      rw [hcell, if_neg, hc₁]
      rintro rfl
      rw [cell?, htree] at hc₁
      cases hc₁
    · rw [hcell] at hc
      split at hc
      · rename_i hmid'
        subst hmid'
        rw [Table.get?_insert] at hc
        split at hc
        · rename_i ha
          refine Or.inl ⟨?_, ha⟩
          cases hget : d₀.mandalas.get? m.id with
          | none => rfl
          | some m₀ =>
            have hlt := (hd₀.record _ m₀ hget).2.1
            omega
        · cases hc
      · exact h.new mid a c hc hnone
    · obtain ⟨m₁, hm₁, hstate⟩ := h.mandala mid m' hm'
      refine ⟨m₁, ?_, hstate⟩
      rw [hmandalas, Table.get?_insert, if_neg (hnew hm₁), hm₁]
  | @closed mid m hget hclosable hwoods =>
    have hclose : Grown cfg w i d₀ { d with
        mandalas := d.mandalas.modify mid fun m => { m with state := "closed" } } := by
      refine h.of_cells (fun mid' a c hc => ⟨c, hc, rfl⟩) (fun mid' a c hc => ⟨c, hc⟩) ?_
      intro mid' m' hm'
      refine ⟨_, by rw [get?_closed, hm']; rfl, ?_⟩
      split
      · exact Or.inr rfl
      · exact Or.inl rfl
    have hgrown : Grown cfg w i d₀ (closeMandala w d mid) := by
      unfold closeMandala
      extract_lets d₁
      split
      · exact hclose.setCell fun _ _ => .settled rfl
      · exact hclose
    refine ⟨hgrown.of_woods hwoods, hid ?_⟩
    refine (congrArg Woods.nextMandalaId hwoods).trans ?_
    change (closeMandala w d mid).nextMandalaId = d.nextMandalaId
    unfold closeMandala
    extract_lets d₁
    split
    · exact nextMandalaId_setCell ..
    · rfl

/-! ### A turn of the loop -/

theorem groves_acts (hd₀ : d₀.Groves) (h : Relation.ReflTransGen (Grows cfg w i d₀) d d')
    (hd : d.Groves) (hg : Grown cfg w i d₀ d) (hnext : d₀.nextMandalaId ≤ d.nextMandalaId) :
    d'.Groves ∧ Grown cfg w i d₀ d' ∧ d₀.nextMandalaId ≤ d'.nextMandalaId := by
  induction h with
  | refl => exact ⟨hd, hg, hnext⟩
  | tail _ hlast ih =>
    obtain ⟨hgroves, hgrown, hle⟩ := ih
    obtain ⟨hgrown', hle'⟩ := hgrown.grows hd₀ hgroves hle hlast
    exact ⟨hgroves.grows hd₀ hlast, hgrown', hle'⟩

/-- **What a turn of the loop preserves of the trees, and what it adds.** -/
theorem Groves.react (hd : d.Fresh) (h : d.Groves) (i : Input) :
    (d.react cfg w i).Groves ∧ Grown cfg w i { d with out := [] } (d.react cfg w i) := by
  have h₀ : Groves { d with out := [] } := h.of_woods rfl
  obtain ⟨hgroves, hgrown, -⟩ := acts_induction cfg w (P := fun d' => d'.Groves ∧
    Grown cfg w i { d with out := [] } d' ∧ d.nextMandalaId ≤ d'.nextMandalaId) hd
    ⟨h₀, .refl _, Nat.le_refl _⟩ i fun d₁ d₂ _ hact hP =>
      groves_acts h₀ hact.grows hP.1 hP.2.1 hP.2.2
  exact ⟨hgroves, hgrown⟩

/-- What a turn of the loop does to the trees: what it adds; the addresses it mints are all
different, were not there and parse; and a closed mandala stays closed, with the cells it has. -/
structure Conducts (cfg : Config) (w : World) (i : Input) (d d' : Driver) : Prop where
  grown : Grown cfg w i d d'
  minted : ∀ session call args plan ctx, i = .request session call "task_fanout" args →
    d.fanPlan cfg w session args = .ok plan → plan.ctx = some ctx →
      (ctx.plans.map CellPlan.addr).Nodup ∧ ∀ q ∈ ctx.plans,
        d.cell? ctx.mandala q.addr = none ∧ Addr.parse q.addr.text = some q.addr
  closed : ∀ mid m, d.mandalas.get? mid = some m → m.state = "closed" →
    d'.mandalas.get? mid = some m ∧
      ∀ a, (∃ c, d'.cell? mid a = some c) ↔ ∃ c, d.cell? mid a = some c

theorem Grown.closed (h : Grown cfg w i d d') (hm : d.mandalas.get? mid = some m)
    (hclosed : m.state = "closed") : d'.mandalas.get? mid = some m ∧
      ∀ a, (∃ c, d'.cell? mid a = some c) ↔ ∃ c, d.cell? mid a = some c := by
  refine ⟨?_, fun a => ⟨?_, ?_⟩⟩
  · obtain ⟨m', hm', rfl | rfl⟩ := h.mandala mid m hm
    · exact hm'
    · rw [hm', ← hclosed]
  · rintro ⟨c, hc⟩
    by_contra hnone
    have hnone : d.cell? mid a = none := by
      cases hget : d.cell? mid a with
      | none => rfl
      | some c => exact absurd ⟨c, hget⟩ hnone
    rcases h.new mid a c hc hnone with ⟨hno, -⟩ | hsprout
    · rw [hm] at hno
      cases hno
    · obtain ⟨session, call, args, plan, ctx, m', -, -, -, -, -, hm', hopen, -⟩ := hsprout
      obtain rfl : m = m' := Option.some.inj (hm.symm.trans hm')
      exact hopen hclosed
  · rintro ⟨c, hc⟩
    obtain ⟨c', hc', -⟩ := h.kept mid a c hc
    exact ⟨c', hc'⟩

theorem Groves.minted (h : d.Groves) {plan : FanPlan}
    (hplan : d.fanPlan cfg w session args = .ok plan)
    (hctx : plan.ctx = some ctx) : (ctx.plans.map CellPlan.addr).Nodup ∧ ∀ q ∈ ctx.plans,
      d.cell? ctx.mandala q.addr = none ∧ Addr.parse q.addr.text = some q.addr := by
  obtain ⟨m, t, caller, parent, -, hr⟩ := h.roots hplan hctx
  obtain ⟨-, -, hdepth, hcells⟩ := h.record _ m hr.mandala
  refine ⟨hr.planned.nodup hr.law, fun q hq => ?_⟩
  obtain ⟨hfresh, -⟩ := hr.planned.fresh hr.law hq
  refine ⟨by rw [cell?, hr.tree, Option.bind_some, hfresh], ?_⟩
  -- Once the plan is planted, its addresses are addresses of a lawful tree.
  have hlen : (List.range ctx.plans.length).length = ctx.plans.length := List.length_range
  have hplant : TreeLaw m (plant t (plannedCells w ctx
      (ctx.plans.zip (List.range ctx.plans.length)))) :=
    hr.planned.plant hr.law (forall₂_plannedCells _ ctx hlen)
  obtain ⟨x, hx, hxq⟩ : ∃ x ∈ ctx.plans.zip (List.range ctx.plans.length), x.1 = q := by
    obtain ⟨j, hj, rfl⟩ := List.mem_iff_getElem.mp hq
    exact ⟨(ctx.plans[j], j), List.mem_iff_getElem.mpr ⟨j, by simpa using hj, by simp⟩, rfl⟩
  obtain ⟨c, hc⟩ := exists_get?_plant (t := t) (Or.inl
    ⟨_, List.mem_map_of_mem (f := fun x : CellPlan × ℕ => plannedCell w ctx x.1 x.2) hx, rfl⟩)
  rw [show (plannedCell w ctx x.1 x.2).addr = x.1.addr from rfl, hxq] at hc
  exact ((hplant.mandalaLaw hdepth hcells).parses _ c hc).2

theorem Groves.conducts (hd : d.Fresh) (h : d.Groves) (w : World) (i : Input) :
    Conducts cfg w i d (d.react cfg w i) := by
  have hgrown : Grown cfg w i d (d.react cfg w i) :=
    ⟨(h.react hd i).2.kept, (h.react hd i).2.new, (h.react hd i).2.mandala⟩
  refine ⟨hgrown, fun session call args plan ctx _ hplan hctx => h.minted hplan hctx, ?_⟩
  exact fun mid m hm hclosed => hgrown.closed hm hclosed

end Driver

/-! ### Runs -/

namespace Node

variable {cfg : Config}

/-- What a node's trees keep. -/
structure Planted (n : Node) : Prop where
  fresh : n.driver.Fresh
  groves : n.driver.Groves

/-- An input is handled by the laws of the trees. -/
def Conducts (cfg : Config) (n : Node) : Happening → Prop
  | .handled w i => Driver.Conducts cfg w i n.driver (n.driver.react cfg w i)
  | _ => True

theorem planted_fresh (cfg : Config) (w : World) : Planted (fresh cfg w) := by
  refine ⟨(seatedAt_fresh cfg w).fresh, ?_⟩
  have hwoods : (fresh cfg w).driver.woods = Driver.blank.woods := rfl
  have hblank : Driver.blank.Groves :=
    ⟨(fun _ _ h => nomatch h), (fun _ _ h => nomatch h), (fun _ _ h => nomatch h)⟩
  exact hblank.of_woods hwoods

theorem Planted.handled {n : Node} (h : Planted n) (w : World) (i : Driver.Input) :
    Planted (n.step cfg (.handled w i)).1 :=
  ⟨Driver.fresh_react h.fresh i, (h.groves.react h.fresh i).1⟩

/-- **The tree of every mandala keeps its laws**, over every run of a process from a new node,
whatever inputs it handles in whatever order; and every turn of the loop mints only fresh addresses
that parse, only where its caller may grow, and nothing in a closed mandala. -/
theorem mandalas_lawful (cfg : Config) (w : World) (inputs : List (World × Driver.Input)) :
    (∀ mid m, (Run.final (step cfg) (fresh cfg w)
        (inputs.map fun x => .handled x.1 x.2)).driver.mandalas.get? mid = some m →
      ∃ t, (Run.final (step cfg) (fresh cfg w)
        (inputs.map fun x => .handled x.1 x.2)).driver.trees.get? mid = some t ∧ MandalaLaw m t) ∧
    Run.Always (step cfg) (fresh cfg w) (fun _ n e => Conducts cfg n e)
      (inputs.map fun x => .handled x.1 x.2) := by
  have hhandled : Run.Always (step cfg) (fresh cfg w) (fun _ _ e => ∃ w i, e = .handled w i)
      (inputs.map fun x => .handled x.1 x.2) := by
    refine Run.Always.of_forall_mem fun e he => ?_
    obtain ⟨x, -, rfl⟩ := List.mem_map.mp he
    exact ⟨x.1, x.2, rfl⟩
  have hstep (past : List (Happening × List Effect)) (n : Node) (e : Happening) (hn : Planted n)
      (he : ∃ w i, e = .handled w i) : Planted (n.step cfg e).1 := by
    obtain ⟨w, i, rfl⟩ := he
    exact hn.handled w i
  refine ⟨fun mid m hm => ?_, ?_⟩
  · have hn := Run.invariant (I := fun _ n => Planted n) (planted_fresh cfg w) hstep hhandled
    obtain ⟨t, ht, hlaw⟩ := hn.groves.tree mid m hm
    obtain ⟨-, -, hdepth, hcells⟩ := hn.groves.record mid m hm
    exact ⟨t, ht, hlaw.mandalaLaw hdepth hcells⟩
  · refine Run.Always.of_invariant (I := fun _ n => Planted n) (planted_fresh cfg w)
      hstep ?_ hhandled
    rintro past n e hn ⟨w, i, rfl⟩
    exact hn.groves.conducts hn.fresh w i

end Node

end ApexOS.Fabrica
