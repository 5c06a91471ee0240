import ApexOS.Agentd.Goal
import Mathlib.Data.List.Nodup

/-!
# A goal that waits for a batch

The part of the goal driver that holds a goal while a batch of its workers is out. A goal that is
held is exempt from the stall watchdog, so whatever holds it has to end: the flag `awaiting_batch`
is set on a completed turn while a batch is pending, and the batch's report clears it, if the goal
is running at that moment.

`AwaitingBounded` says that a running goal is held only while a batch of its session has still to
report. Two things are taken from the rest of the daemon: a batch has one conductor, which all its
events name, and a new goal's session is nobody's else.

## Main definitions

* `GoalDriver.Input`, `GoalDriver.react`: everything the driver reacts to, as one machine
* `GoalDriver.AwaitingBounded`: a held goal has a batch out
* `GoalDriver.ResumesFree`: what a `goal_resume` must not do

## Main results

* `GoalDriver.awaitingBounded_iff`: the bound holds throughout a run exactly if no `goal_resume` of
  it revives a held goal whose batches have all reported
-/

namespace ApexOS.Agentd

namespace GoalDriver

/-- A goal tool's call, or anything else. -/
inductive Input
  | request (session : SessionId) (call : ToolCall) (world : World)
  | event (event : Event) (world : World)

/-- The driver's loop. -/
def react (d : GoalDriver) : Input → GoalDriver × List Emit
  | .request session call world => d.request session call world
  | .event event world => d.step event world

/-- A batch of the session that has not reported. -/
def Unreported (d : GoalDriver) (session : SessionId) : Prop :=
  ∃ batch ∈ d.pendingBatches session, batch ∉ d.doneBatches

/-- Running, and held for a batch: the stall watchdog passes it over. -/
def Held (g : Goal) : Prop := g.state = .acting ∧ g.awaitingBatch = true

/-- **A goal is held only while a batch has still to report.** -/
def AwaitingBounded (d : GoalDriver) : Prop :=
  ∀ x ∈ d.goals, Held x.2 → d.Unreported x.2.session

/-- A `goal_resume` revives a goal that is still held only if a batch of it is out. -/
def ResumesFree (d : GoalDriver) : Input → Prop
  | .request _ call _ => call.tool = "goal_resume" →
      ∀ x, d.goals.inState? call.args [.blocked, .failed] = some x → x.2.awaitingBatch = true →
        d.Unreported x.2.session
  | .event .. => True

/-- The batch an input is about, with its conductor. -/
def Input.batch? : Input → Option (UInt64 × SessionId)
  | .event (.workerStateChanged batch parent) _ => some (batch, parent)
  | .event (.taskBatchDone batch parent _) _ => some (batch, parent)
  | _ => none

/-- **A batch has one conductor**, and every event of it names that one. -/
def OneConductor (parentOf : UInt64 → SessionId) (i : Input) : Prop :=
  ∀ batch parent, i.batch? = some (batch, parent) → parent = parentOf batch

/-- A session the counter hands out is nobody's yet. -/
def FreshSession (d : GoalDriver) : Input → Prop
  | .request _ call _ => call.tool = "goal_create" → ∀ x ∈ d.goals, x.2.session ≠ d.nextSessionId
  | .event .. => True

/-! ### What a handler does to the goals -/

/-- Goals are changed one by one, none in its session; the batches and the file stay. -/
structure Aligned (d d' : GoalDriver) : Prop where
  goals : ∃ f : GoalId × Goal → Goal, d'.goals = d.goals.map (fun x => (x.1, f x)) ∧
    ∀ x ∈ d.goals, (f x).session = x.2.session
  file : d'.file = d.file
  pending : d'.pendingBatches = d.pendingBatches
  done : d'.doneBatches = d.doneBatches

/-- And no goal is newly held. -/
structure Calm (d d' : GoalDriver) : Prop extends Aligned d d' where
  held : ∀ y ∈ d'.goals, Held y.2 → ∃ x ∈ d.goals, Held x.2 ∧ x.2.session = y.2.session

variable {d d' : GoalDriver} {parentOf : UInt64 → SessionId}

theorem Calm.refl (d : GoalDriver) : Calm d d :=
  ⟨⟨⟨Prod.snd, by simp, fun _ _ => rfl⟩, rfl, rfl, rfl⟩, fun y hy h => ⟨y, hy, h, rfl⟩⟩

theorem mem_modify {goals : Goals} {id : GoalId} {h : Goal → Goal} {y : GoalId × Goal} :
    y ∈ goals.modify id h ↔
      (∃ x ∈ goals, x.1 = id ∧ y = (x.1, h x.2)) ∨ y ∈ goals ∧ y.1 ≠ id := by
  simp only [Goals.modify, List.mem_map]
  constructor
  · rintro ⟨x, hx, rfl⟩
    split
    · rename_i hid
      exact Or.inl ⟨x, hx, hid, rfl⟩
    · rename_i hid
      exact Or.inr ⟨hx, hid⟩
  · rintro (⟨x, hx, hid, rfl⟩ | ⟨hy, hid⟩)
    · exact ⟨x, hx, by rw [if_pos hid]⟩
    · exact ⟨y, hy, by rw [if_neg hid]⟩

/-- The goal of one id is changed, but not in its session. -/
theorem aligned_modify {id : GoalId} {h : Goal → Goal} {yolo : Finset SessionId}
    (hh : ∀ g, (h g).session = g.session) :
    Aligned d { d with goals := d.goals.modify id h, yolo := yolo } := by
  refine ⟨⟨fun x => if x.1 = id then h x.2 else x.2, ?_, fun x _ => ?_⟩, rfl, rfl, rfl⟩
  · refine List.map_congr_left fun x _ => ?_
    by_cases hx : x.1 = id <;> simp [hx]
  · by_cases hx : x.1 = id
    · simpa [hx] using hh x.2
    · simp [hx]

theorem calm_modify {id : GoalId} {h : Goal → Goal} {yolo : Finset SessionId}
    (hh : ∀ g, (h g).session = g.session ∧ (Held (h g) → Held g)) :
    Calm d { d with goals := d.goals.modify id h, yolo := yolo } := by
  refine ⟨aligned_modify fun g => (hh g).1, fun y hy hheld => ?_⟩
  rcases mem_modify.mp hy with ⟨x, hx, -, rfl⟩ | ⟨hy, -⟩
  · exact ⟨x, hx, (hh x.2).2 hheld, (hh x.2).1.symm⟩
  · exact ⟨y, hy, hheld, rfl⟩

theorem calm_recordStep (session : SessionId) (call : ActionId) (args : Json) :
    Calm d (d.recordStep session call args).1 := by
  rw [recordStep]
  split
  · exact Calm.refl d
  · exact calm_modify fun _ => ⟨rfl, fun h => h⟩

theorem calm_cancelGoal (session : SessionId) (call : ActionId) (args : Json) :
    Calm d (d.cancelGoal session call args).1 := by
  rw [cancelGoal]
  split
  · exact Calm.refl d
  · exact calm_modify fun _ => ⟨rfl, fun h => by cases h.1⟩

theorem calm_finish (id : GoalId) (goal : Goal) {state : GoalState} (detail : String)
    (hne : state ≠ .acting) : Calm d (d.finish id goal state detail).1 := by
  rw [finish]
  split
  · exact calm_modify fun _ => ⟨rfl, fun h => absurd h.1 hne⟩
  · exact calm_modify fun _ => ⟨rfl, fun h => absurd h.1 hne⟩

theorem calm_advance (session : SessionId) (now : ℕ) : Calm d (d.advance session now).1 := by
  rw [advance]
  split
  · exact Calm.refl d
  · split
    · exact calm_finish _ _ _ (by decide)
    · exact calm_finish _ _ _ (by decide)
    · split
      · exact calm_finish _ _ _ (by decide)
      · exact calm_modify fun _ => ⟨rfl, fun h => h⟩

theorem calm_failStalled (now : ℕ) : Calm d (d.failStalled now).1 := by
  refine ⟨⟨⟨fun x => if d.stalled now x.2 then { x.2 with state := .failed } else x.2, ?_,
    fun x _ => ?_⟩, rfl, rfl, rfl⟩, fun y hy hheld => ?_⟩
  · refine List.map_congr_left fun x _ => ?_
    by_cases hx : d.stalled now x.2 <;> simp [hx]
  · by_cases hx : d.stalled now x.2 <;> simp [hx]
  · obtain ⟨x, hx, rfl⟩ := List.mem_map.mp hy
    by_cases hstalled : d.stalled now x.2
    · simp [hstalled, Held] at hheld
    · simp only [hstalled] at hheld ⊢
      exact ⟨x, hx, hheld, rfl⟩

theorem calm_blockOnApproval (session : SessionId) (tool : String) :
    Calm d (d.blockOnApproval session tool).1 := by
  rw [blockOnApproval]
  split
  · exact Calm.refl d
  · exact calm_modify fun _ => ⟨rfl, fun h => by cases h.1⟩

/-! ### The batches -/

/-- The batches stay. -/
structure SameBatches (d d' : GoalDriver) : Prop where
  pending : d'.pendingBatches = d.pendingBatches
  done : d'.doneBatches = d.doneBatches

theorem Aligned.sameBatches (h : Aligned d d') : SameBatches d d' := ⟨h.pending, h.done⟩

theorem SameBatches.saveGoals (h : SameBatches d d') (disk : DiskWrite) :
    SameBatches d (d'.saveGoals disk) := by
  cases disk <;> exact ⟨h.pending, h.done⟩

theorem SameBatches.saveIfChanged {r : GoalDriver × List Emit} (h : SameBatches d r.1)
    (disk : DiskWrite) : SameBatches d (saveIfChanged r disk).1 := by
  rw [GoalDriver.saveIfChanged]
  split
  · exact h
  · exact h.saveGoals disk

theorem sameBatches_request (session : SessionId) (call : ToolCall) (world : World) :
    SameBatches d (d.request session call world).1 := by
  have hcreate : SameBatches d (d.createGoal session call.id call.args world).1 := by
    rw [createGoal]
    split <;> exact ⟨rfl, rfl⟩
  have hresume : SameBatches d (d.resumeGoal session call.id call.args world.now).1 := by
    rw [resumeGoal]
    split <;> exact ⟨rfl, rfl⟩
  rw [request]
  split
  · exact hcreate.saveGoals _
  · split
    · exact (calm_recordStep _ _ _).sameBatches
    · split
      · exact hresume.saveGoals _
      · split
        · exact (calm_cancelGoal _ _ _).sameBatches.saveGoals _
        · split <;> exact ⟨rfl, rfl⟩

theorem sameBatches_holdAwaitingBatch (session : SessionId) :
    SameBatches d (d.holdAwaitingBatch session).1 := by
  rw [holdAwaitingBatch]
  split
  · exact ⟨rfl, rfl⟩
  · split <;> exact ⟨rfl, rfl⟩

theorem sameBatches_resumeAfterBatch (session : SessionId) (batch : UInt64)
    (rows : List BatchWorkerRow) (now : ℕ) :
    SameBatches d (d.resumeAfterBatch session batch rows now).1 := by
  rw [resumeAfterBatch]
  split <;> exact ⟨rfl, rfl⟩

theorem sameBatches_turnComplete (session : SessionId) (world : World) :
    SameBatches d (d.step (.turnComplete session) world).1 := by
  rw [step]
  split
  · exact (sameBatches_holdAwaitingBatch session).saveIfChanged _
  · exact (calm_advance session world.now).sameBatches.saveIfChanged _
/-! ### What holds throughout -/

/-- Ids and sessions are distinct, in memory and in the file. -/
structure Distinct (d : GoalDriver) : Prop where
  ids : (d.goals.map Prod.fst).Nodup
  sessions : (d.goals.map fun x => x.2.session).Nodup
  fileIds : (d.file.map PersistedGoal.id).Nodup
  fileSessions : (d.file.map PersistedGoal.session).Nodup

/-- What is known of the batches: each is pending for its conductor alone, and not if it has
reported. -/
def Filed (parentOf : UInt64 → SessionId) (d : GoalDriver) : Prop :=
  ∀ session, ∀ batch ∈ d.pendingBatches session, session = parentOf batch ∧ batch ∉ d.doneBatches

/-- The book is one, and the batches are filed. -/
structure Book (parentOf : UInt64 → SessionId) (d : GoalDriver) : Prop where
  distinct : d.Distinct
  filed : Filed parentOf d

theorem Filed.unreported_iff (h : Filed parentOf d) {session : SessionId} :
    d.Unreported session ↔ (d.pendingBatches session).Nonempty :=
  ⟨fun ⟨b, hb, _⟩ => ⟨b, hb⟩, fun ⟨b, hb⟩ => ⟨b, hb, (h session b hb).2⟩⟩

theorem Distinct.eq_of_id (h : d.Distinct) {x y : GoalId × Goal} (hx : x ∈ d.goals)
    (hy : y ∈ d.goals) (heq : x.1 = y.1) : x = y :=
  List.inj_on_of_nodup_map h.ids hx hy heq

theorem Distinct.eq_of_session (h : d.Distinct) {x y : GoalId × Goal} (hx : x ∈ d.goals)
    (hy : y ∈ d.goals) (heq : x.2.session = y.2.session) : x = y :=
  List.inj_on_of_nodup_map h.sessions hx hy heq

theorem Aligned.distinct (h : Aligned d d') (hd : d.Distinct) : d'.Distinct := by
  obtain ⟨f, hgoals, hf⟩ := h.goals
  refine ⟨?_, ?_, by rw [h.file]; exact hd.fileIds, by rw [h.file]; exact hd.fileSessions⟩
  · rw [hgoals, List.map_map]
    exact hd.ids
  · have hmap : d.goals.map ((fun x => x.2.session) ∘ fun x => (x.1, f x))
        = d.goals.map fun x => x.2.session := List.map_congr_left hf
    rw [hgoals, List.map_map, hmap]
    exact hd.sessions

theorem Aligned.book (h : Aligned d d') (hd : Book parentOf d) : Book parentOf d' :=
  ⟨h.distinct hd.distinct, by simpa only [Filed, h.pending, h.done] using hd.filed⟩

theorem Aligned.unreported_iff (h : Aligned d d') {session : SessionId} :
    d'.Unreported session ↔ d.Unreported session := by
  simp only [Unreported, h.pending, h.done]

theorem Calm.bounded (h : Calm d d') (hd : d.AwaitingBounded) : d'.AwaitingBounded := by
  intro y hy hheld
  obtain ⟨x, hx, hxheld, hsession⟩ := h.held y hy hheld
  rw [h.unreported_iff, ← hsession]
  exact hd x hx hxheld

/-- Saving touches the file alone, and keeps it a book. -/
theorem Book.saveGoals (h : Book parentOf d) (disk : DiskWrite) :
    Book parentOf (d.saveGoals disk) := by
  cases disk with
  | stored =>
    refine ⟨⟨h.distinct.ids, h.distinct.sessions, ?_, ?_⟩, h.filed⟩
    · simpa [GoalDriver.saveGoals, List.map_map, Function.comp_def, persist] using h.distinct.ids
    · simpa [GoalDriver.saveGoals, List.map_map, Function.comp_def, persist]
        using h.distinct.sessions
  | failed => exact h
  | torn => exact ⟨⟨h.distinct.ids, h.distinct.sessions, List.nodup_nil, List.nodup_nil⟩, h.filed⟩

theorem bounded_saveGoals {disk : DiskWrite} :
    (d.saveGoals disk).AwaitingBounded ↔ d.AwaitingBounded := by
  cases disk <;> exact Iff.rfl

theorem Book.saveIfChanged {r : GoalDriver × List Emit} (h : Book parentOf r.1) (disk : DiskWrite) :
    Book parentOf (saveIfChanged r disk).1 := by
  rw [GoalDriver.saveIfChanged]
  split
  · exact h
  · exact h.saveGoals disk

theorem bounded_saveIfChanged {r : GoalDriver × List Emit} {disk : DiskWrite} :
    (saveIfChanged r disk).1.AwaitingBounded ↔ r.1.AwaitingBounded := by
  rw [GoalDriver.saveIfChanged]
  split
  · exact Iff.rfl
  · exact bounded_saveGoals

/-! ### One step -/

theorem mem_of_acting? {goals : Goals} {session : SessionId} {x : GoalId × Goal}
    (h : goals.acting? session = some x) :
    x ∈ goals ∧ x.2.session = session ∧ x.2.state = .acting := by
  have hfound := List.find?_some h
  rw [decide_eq_true_iff] at hfound
  exact ⟨List.mem_of_find?_eq_some h, hfound⟩

/-- A goal is held for a session that has a batch out. -/
theorem holdAwaitingBatch_spec (hd : Book parentOf d) (hb : d.AwaitingBounded)
    {session : SessionId} (hpending : (d.pendingBatches session).Nonempty) :
    Aligned d (d.holdAwaitingBatch session).1 ∧
      (d.holdAwaitingBatch session).1.AwaitingBounded := by
  rw [holdAwaitingBatch]
  split
  · exact ⟨(Calm.refl d).toAligned, hb⟩
  · rename_i id goal hgoal
    split
    · exact ⟨(Calm.refl d).toAligned, hb⟩
    · dsimp only
      have haligned : Aligned d { d with
          goals := d.goals.modify id fun g => { g with awaitingBatch := true } } :=
        aligned_modify fun _ => rfl
      refine ⟨haligned, fun y hy hheld => ?_⟩
      rw [haligned.unreported_iff]
      obtain ⟨hmem, hsession, -⟩ := mem_of_acting? hgoal
      dsimp only at hy
      rcases mem_modify.mp hy with ⟨x, hx, hid, rfl⟩ | ⟨hy, -⟩
      · rw [hd.distinct.eq_of_id hx hmem hid]
        exact hd.filed.unreported_iff.mpr (by rwa [show _ = session from hsession])
      · exact hb y hy hheld

/-- Resuming revives one goal, held or not. -/
theorem resumeGoal_spec (hd : Book parentOf d) (hb : d.AwaitingBounded) (session : SessionId)
    (call : ActionId) (args : Json) (now : ℕ) :
    Aligned d (d.resumeGoal session call args now).1 ∧
      ((d.resumeGoal session call args now).1.AwaitingBounded ↔
        ∀ x, d.goals.inState? args [.blocked, .failed] = some x → x.2.awaitingBatch = true →
          d.Unreported x.2.session) := by
  rw [resumeGoal]
  split
  · rename_i hnone
    refine ⟨(Calm.refl d).toAligned, fun _ x hx => ?_, fun _ => hb⟩
    rw [hnone] at hx
    cases hx
  · rename_i id goal hgoal
    dsimp only
    have haligned : Aligned d { d with
        goals := d.goals.modify id fun g =>
          { g with state := .acting, stepStarted := now, pending := none }
        yolo := if goal.yolo then insert goal.session d.yolo else d.yolo } :=
      aligned_modify fun _ => rfl
    have hmem := mem_of_inState? hgoal
    refine ⟨haligned, fun hbound x hx hawaits => ?_, fun hfree y hy hheld => ?_⟩
    · obtain rfl : (id, goal) = x := Option.some.inj (hgoal.symm.trans hx)
      have hrevived : (id, { goal with state := .acting, stepStarted := now, pending := none }) ∈
          d.goals.modify id fun g =>
            { g with state := .acting, stepStarted := now, pending := none } :=
        mem_modify.mpr (Or.inl ⟨_, hmem, rfl, rfl⟩)
      have hun := hbound _ hrevived ⟨rfl, hawaits⟩
      exact haligned.unreported_iff.mp hun
    · rw [haligned.unreported_iff]
      dsimp only at hy
      rcases mem_modify.mp hy with ⟨x, hx, hid, rfl⟩ | ⟨hy, -⟩
      · obtain rfl := hd.distinct.eq_of_id hx hmem hid
        exact hfree (id, goal) hgoal hheld.2
      · exact hb y hy hheld

/-- The last batch of a session to report frees the goal it holds. -/
theorem resumeAfterBatch_spec (hd : d.Distinct) (session : SessionId) (batch : UInt64)
    (rows : List BatchWorkerRow) (now : ℕ)
    (hb : ∀ x ∈ d.goals, Held x.2 → x.2.session ≠ session → d.Unreported x.2.session) :
    Aligned d (d.resumeAfterBatch session batch rows now).1 ∧
      (d.resumeAfterBatch session batch rows now).1.AwaitingBounded := by
  rw [resumeAfterBatch]
  split
  · rename_i hnone
    refine ⟨(Calm.refl d).toAligned, fun x hx hheld => hb x hx hheld fun hsession => ?_⟩
    have hno := List.find?_eq_none.mp hnone x hx
    exact hno (decide_eq_true ⟨hsession, hheld.1, hheld.2⟩)
  · rename_i id goal hgoal
    dsimp only
    have hfound := List.find?_some hgoal
    rw [decide_eq_true_iff] at hfound
    have hmem := List.mem_of_find?_eq_some hgoal
    have haligned : Aligned d { d with
        goals := d.goals.modify id fun g =>
          { g with
            awaitingBatch := false
            pending := none
            step := min (g.step + 1) g.maxSteps
            stepStarted := now } } := aligned_modify fun _ => rfl
    refine ⟨haligned, fun y hy hheld => ?_⟩
    rw [haligned.unreported_iff]
    dsimp only at hy
    rcases mem_modify.mp hy with ⟨x, hx, hid, rfl⟩ | ⟨hy, hid⟩
    · cases hheld.2
    · refine hb y hy hheld fun hsession => hid ?_
      rw [hd.eq_of_session hy hmem (hsession.trans hfound.1.symm)]

theorem Distinct.of_eq (h : d.Distinct) (hgoals : d'.goals = d.goals) (hfile : d'.file = d.file) :
    d'.Distinct := by
  refine ⟨?_, ?_, ?_, ?_⟩
  · rw [hgoals]
    exact h.ids
  · rw [hgoals]
    exact h.sessions
  · rw [hfile]
    exact h.fileIds
  · rw [hfile]
    exact h.fileSessions

theorem mem_put {goals : Goals} {id : GoalId} {goal : Goal} {x : GoalId × Goal} :
    x ∈ goals.put id goal ↔ x ∈ goals ∧ x.1 ≠ id ∨ x = (id, goal) := by
  simp [Goals.put, List.mem_filter]

/-- A new goal is not held, and its session is its own. -/
theorem createGoal_spec (hd : Book parentOf d) (hb : d.AwaitingBounded) (session : SessionId)
    (call : ActionId) (args : Json) (world : World)
    (hfresh : ∀ x ∈ d.goals, x.2.session ≠ d.nextSessionId) :
    Book parentOf (d.createGoal session call args world).1 ∧
      (d.createGoal session call args world).1.AwaitingBounded := by
  rw [createGoal]
  split
  · exact ⟨hd, hb⟩
  · dsimp only
    refine ⟨⟨⟨?_, ?_, hd.distinct.fileIds, hd.distinct.fileSessions⟩, hd.filed⟩, ?_⟩
    · rw [Goals.put, List.map_append, List.map_singleton, ← List.concat_eq_append,
        List.nodup_concat]
      refine ⟨fun hmem => ?_, hd.distinct.ids.sublist (List.filter_sublist.map _)⟩
      obtain ⟨x, hx, hid⟩ := List.mem_map.mp hmem
      simpa [hid] using (List.mem_filter.mp hx).2
    · rw [Goals.put, List.map_append, List.map_singleton, ← List.concat_eq_append,
        List.nodup_concat]
      refine ⟨fun hmem => ?_, hd.distinct.sessions.sublist (List.filter_sublist.map _)⟩
      obtain ⟨x, hx, hsession⟩ := List.mem_map.mp hmem
      exact hfresh x (List.mem_of_mem_filter hx) hsession
    · intro x hx hheld
      dsimp only at hx
      rcases mem_put.mp hx with ⟨hx, -⟩ | rfl
      · exact hb x hx hheld
      · cases hheld.2

/-- The tool calls: only a `goal_resume` can revive a goal that is held. -/
theorem request_spec (hd : Book parentOf d) (hb : d.AwaitingBounded) (session : SessionId)
    (call : ToolCall) (world : World) (hfresh : d.FreshSession (.request session call world)) :
    Book parentOf (d.request session call world).1 ∧
      ((d.request session call world).1.AwaitingBounded ↔
        d.ResumesFree (.request session call world)) := by
  have hcalm : ∀ d', Calm d d' → call.tool ≠ "goal_resume" →
      Book parentOf d' ∧ (d'.AwaitingBounded ↔ d.ResumesFree (.request session call world)) :=
    fun d' h hne => ⟨h.toAligned.book hd, fun _ hc => absurd hc hne, fun _ => h.bounded hb⟩
  rw [request]
  split
  · rename_i htool
    obtain ⟨hbook, hbound⟩ := createGoal_spec hd hb session call.id call.args world (hfresh htool)
    refine ⟨hbook.saveGoals _, fun _ hc => ?_, fun _ => bounded_saveGoals.mpr hbound⟩
    exact absurd (htool.symm.trans hc) (by decide)
  · split
    · rename_i htool
      exact hcalm _ (calm_recordStep _ _ _) (by rw [htool]; decide)
    · split
      · rename_i htool
        obtain ⟨haligned, hiff⟩ := resumeGoal_spec hd hb session call.id call.args world.now
        refine ⟨(haligned.book hd).saveGoals _, bounded_saveGoals.trans ?_⟩
        rw [hiff]
        exact ⟨fun h _ => h, fun h => h htool⟩
      · split
        · rename_i htool
          have h := hcalm _ (calm_cancelGoal session call.id call.args) (by rw [htool]; decide)
          exact ⟨h.1.saveGoals _, bounded_saveGoals.trans h.2⟩
        · rename_i hresume _
          split <;> exact hcalm _ (Calm.refl d) hresume

/-- A worker's first event arms its batch, unless that has reported. -/
theorem workerStateChanged_spec (hd : Book parentOf d) (hb : d.AwaitingBounded) {batch : UInt64}
    {parent : SessionId} (hparent : parent = parentOf batch) (hdone : batch ∉ d.doneBatches) :
    let d' : GoalDriver := { d with
      pendingBatches :=
        Function.update d.pendingBatches parent (insert batch (d.pendingBatches parent)) }
    Book parentOf d' ∧ d'.AwaitingBounded := by
  intro d'
  have hmem : ∀ session b, b ∈ d'.pendingBatches session ↔
      b ∈ d.pendingBatches session ∨ session = parent ∧ b = batch := by
    intro session b
    by_cases hs : session = parent
    · subst hs
      simp [d', or_comm]
    · simp [d', hs]
  refine ⟨⟨hd.distinct.of_eq rfl rfl, fun session b hmem' => ?_⟩, fun x hx hheld => ?_⟩
  · rcases (hmem session b).mp hmem' with hold | ⟨rfl, rfl⟩
    · exact hd.filed session b hold
    · exact ⟨hparent, hdone⟩
  · obtain ⟨b, hbp, hbd⟩ := hb x hx hheld
    exact ⟨b, (hmem _ b).mpr (Or.inl hbp), hbd⟩

/-- A batch that reports is pending no more, and the last one of a session frees its goal. -/
theorem taskBatchDone_spec (hd : Book parentOf d) (hb : d.AwaitingBounded) {batch : UInt64}
    {parent : SessionId} (rows : List BatchWorkerRow) (world : World)
    (hparent : parent = parentOf batch) :
    Book parentOf (d.step (.taskBatchDone batch parent rows) world).1 ∧
      (d.step (.taskBatchDone batch parent rows) world).1.AwaitingBounded := by
  rw [step]
  generalize hd₁ : ({ d with
      doneBatches := insert batch d.doneBatches
      pendingBatches := Function.update d.pendingBatches parent
        ((d.pendingBatches parent).erase batch) } : GoalDriver) = d₁
  have hgoals : d₁.goals = d.goals := by rw [← hd₁]
  have hmem : ∀ session b, b ∈ d₁.pendingBatches session ↔
      b ∈ d.pendingBatches session ∧ (session = parent → b ≠ batch) := by
    intro session b
    rw [← hd₁]
    by_cases hs : session = parent
    · subst hs
      simp [and_comm]
    · simp [hs]
  have hdone : ∀ b, b ∈ d₁.doneBatches ↔ b = batch ∨ b ∈ d.doneBatches := by
    intro b
    rw [← hd₁]
    exact Finset.mem_insert
  have hbook : Book parentOf d₁ := by
    refine ⟨hd.distinct.of_eq hgoals (by rw [← hd₁]), fun session b hmem' => ?_⟩
    obtain ⟨hold, hne⟩ := (hmem session b).mp hmem'
    obtain ⟨hsession, hnot⟩ := hd.filed session b hold
    refine ⟨hsession, fun hc => ?_⟩
    rcases (hdone b).mp hc with rfl | hc
    · exact hne (hsession.trans hparent.symm) rfl
    · exact hnot hc
  -- A batch that another session waits for is not the one that reported.
  have hother : ∀ x ∈ d₁.goals, Held x.2 → x.2.session ≠ parent → d₁.Unreported x.2.session := by
    intro x hx hheld hne
    obtain ⟨b, hbp, -⟩ := hb x (by rwa [hgoals] at hx) hheld
    exact hbook.filed.unreported_iff.mpr ⟨b, (hmem _ b).mpr ⟨hbp, fun hc => absurd hc hne⟩⟩
  split
  · obtain ⟨haligned, hbound⟩ :=
      resumeAfterBatch_spec hbook.distinct parent batch rows world.now hother
    exact ⟨(haligned.book hbook).saveIfChanged _, bounded_saveIfChanged.mpr hbound⟩
  · rename_i hleft
    refine ⟨hbook, fun x hx hheld => ?_⟩
    by_cases hs : x.2.session = parent
    · obtain ⟨b, hb⟩ := Finset.nonempty_iff_ne_empty.mpr hleft
      obtain ⟨hne, hbp⟩ := Finset.mem_erase.mp hb
      rw [hbook.filed.unreported_iff, hs]
      exact ⟨b, (hmem _ b).mpr ⟨hbp, fun _ => hne⟩⟩
    · exact hother x hx hheld hs

/-- A restart brings no goal back running. -/
theorem restart_spec (hd : Book parentOf d) (nextSessionId : SessionId) (now : ℕ) :
    Book parentOf (d.restart nextSessionId now).1 ∧
      (d.restart nextSessionId now).1.AwaitingBounded := by
  refine ⟨⟨⟨?_, ?_, hd.distinct.fileIds, hd.distinct.fileSessions⟩, fun _ _ h => ?_⟩,
    fun x hx hheld => ?_⟩
  · rw [restart, List.map_map]
    exact hd.distinct.fileIds
  · rw [restart, List.map_map]
    exact hd.distinct.fileSessions
  · exact absurd h (Finset.notMem_empty _)
  · obtain ⟨pg, -, rfl⟩ := List.mem_map.mp hx
    cases hheld.2

/-- What the driver does about anything else keeps the bound. -/
theorem step_spec (hd : Book parentOf d) (hb : d.AwaitingBounded) (e : Event) (world : World)
    (hone : OneConductor parentOf (.event e world)) :
    Book parentOf (d.step e world).1 ∧ (d.step e world).1.AwaitingBounded := by
  have hcalm : ∀ r : GoalDriver × List Emit, Calm d r.1 →
      Book parentOf (saveIfChanged r world.disk).1 ∧
        (saveIfChanged r world.disk).1.AwaitingBounded := fun r h =>
    ⟨(h.toAligned.book hd).saveIfChanged _, bounded_saveIfChanged.mpr (h.bounded hb)⟩
  cases e with
  | turnComplete session =>
    rw [step]
    split
    · rename_i hpending
      obtain ⟨haligned, hbound⟩ := holdAwaitingBatch_spec hd hb hpending
      exact ⟨(haligned.book hd).saveIfChanged _, bounded_saveIfChanged.mpr hbound⟩
    · exact hcalm _ (calm_advance _ _)
  | approvalPending session tool => exact hcalm _ (calm_blockOnApproval _ _)
  | workerStateChanged batch parent =>
    rw [step]
    split
    · exact ⟨hd, hb⟩
    · rename_i hdone
      exact workerStateChanged_spec hd hb (hone batch parent rfl) hdone
  | taskBatchDone batch parent rows =>
    exact taskBatchDone_spec hd hb rows world (hone batch parent rfl)
  | tick => exact hcalm _ (calm_failStalled _)
  | restart nextSessionId => exact restart_spec hd nextSessionId world.now
  | sessionTaken => exact ⟨⟨hd.distinct.of_eq rfl rfl, hd.filed⟩, hb⟩

theorem react_spec (hd : Book parentOf d) (hb : d.AwaitingBounded) (i : Input)
    (hone : OneConductor parentOf i) (hfresh : d.FreshSession i) :
    Book parentOf (d.react i).1 ∧ ((d.react i).1.AwaitingBounded ↔ d.ResumesFree i) := by
  cases i with
  | request session call world => exact request_spec hd hb session call world hfresh
  | event e world =>
    obtain ⟨hbook, hbound⟩ := step_spec hd hb e world hone
    exact ⟨hbook, fun _ => trivial, fun _ => hbound⟩

/-! ### Whole runs -/

/-- The driver as a boot leaves it: no goal runs, none is held, no batch is known. -/
structure Booted (d : GoalDriver) : Prop where
  distinct : d.Distinct
  released : ∀ x ∈ d.goals, ¬ Held x.2
  pending : ∀ session, d.pendingBatches session = ∅

theorem Booted.book (h : d.Booted) (parentOf : UInt64 → SessionId) : Book parentOf d :=
  ⟨h.distinct, fun session b hb => by rw [h.pending] at hb; exact absurd hb (Finset.notMem_empty b)⟩

theorem Booted.bounded (h : d.Booted) : d.AwaitingBounded :=
  fun x hx hheld => absurd hheld (h.released x hx)

/-- **A goal waits only for a batch that is out**, exactly. In every run from a boot, in which each
batch has one conductor and the counter hands out fresh sessions: after every input each held goal
has a batch that has still to report, if and only if no `goal_resume` of the run revives a goal that
is still held and has none. -/
theorem awaitingBounded_iff (hboot : d.Booted) {inputs : List Input}
    (hone : ∀ i ∈ inputs, OneConductor parentOf i)
    (hfresh : Run.Always react d (fun _ d i => d.FreshSession i) inputs) :
    Run.Always react d (fun _ d i => (d.react i).1.AwaitingBounded) inputs ↔
      Run.Always react d (fun _ d i => d.ResumesFree i) inputs := by
  have hspec : ∀ d' i, Book parentOf d' ∧ d'.AwaitingBounded → OneConductor parentOf i →
      d'.FreshSession i →
      Book parentOf (d'.react i).1 ∧ ((d'.react i).1.AwaitingBounded ↔ d'.ResumesFree i) :=
    fun d' i h hone hfresh => react_spec h.1 h.2 i hone hfresh
  have hside : Run.Always react d
      (fun _ d i => OneConductor parentOf i ∧ d.FreshSession i) inputs :=
    fun before i after heq => ⟨hone i (by simp [heq]), hfresh before i after heq⟩
  constructor
  · intro h
    refine Run.Always.of_invariant (I := fun _ d' => Book parentOf d' ∧ d'.AwaitingBounded)
      (P := fun _ d' i => (OneConductor parentOf i ∧ d'.FreshSession i) ∧
        (d'.react i).1.AwaitingBounded)
      ⟨hboot.book parentOf, hboot.bounded⟩ ?_ ?_
      (fun before i after heq => ⟨hside before i after heq, h before i after heq⟩)
    · rintro past d' i hinv ⟨⟨hone, hfresh⟩, hbound⟩
      exact ⟨(hspec d' i hinv hone hfresh).1, hbound⟩
    · rintro past d' i hinv ⟨⟨hone, hfresh⟩, hbound⟩
      exact (hspec d' i hinv hone hfresh).2.mp hbound
  · intro h
    refine Run.Always.of_invariant (I := fun _ d' => Book parentOf d' ∧ d'.AwaitingBounded)
      (P := fun _ d' i => (OneConductor parentOf i ∧ d'.FreshSession i) ∧ d'.ResumesFree i)
      ⟨hboot.book parentOf, hboot.bounded⟩ ?_ ?_
      (fun before i after heq => ⟨hside before i after heq, h before i after heq⟩)
    · rintro past d' i hinv ⟨⟨hone, hfresh⟩, hfree⟩
      obtain ⟨hbook, hiff⟩ := hspec d' i hinv hone hfresh
      exact ⟨hbook, hiff.mpr hfree⟩
    · rintro past d' i hinv ⟨⟨hone, hfresh⟩, hfree⟩
      exact (hspec d' i hinv hone hfresh).2.mpr hfree

/-- A first boot. -/
def firstBoot : GoalDriver := ⟨[], 1, 7, ∅, fun _ => ∅, ∅, [], 900⟩

theorem firstBoot_booted : firstBoot.Booted :=
  ⟨⟨List.nodup_nil, List.nodup_nil, List.nodup_nil, List.nodup_nil⟩, by simp [firstBoot],
    fun _ => rfl⟩

/-- A goal fans a batch out and is held for it. It meets an approval and is parked, the batch
reports, and the goal is resumed. -/
def wedged : List Input :=
  let world : World := ⟨0, none, .stored⟩
  [.request 1 ⟨1, "goal_create", .object [("objective", .string "survey")]⟩ world,
    .event (.workerStateChanged 5 7) world, .event (.turnComplete 7) world,
    .event (.approvalPending 7 "run_command") world, .event (.taskBatchDone 5 7 []) world,
    .request 1 ⟨2, "goal_resume", .object [("goal_id", .number (.posInt 1))]⟩ world]

/-- The goal is running and held, and no batch is out. -/
theorem not_awaitingBounded_wedged :
    firstBoot.Booted ∧ ¬ (Run.final react firstBoot wedged).AwaitingBounded := by
  refine ⟨firstBoot_booted, fun h => ?_⟩
  have hgoals : (Run.final react firstBoot wedged).goals =
      [(1, ⟨"survey", 7, .acting, 1, 12, 0, none, none, false, true⟩)] := by
    rfl
  have hpending : (Run.final react firstBoot wedged).pendingBatches 7 = ∅ := by
    rfl
  obtain ⟨b, hb, -⟩ := h _ (by rw [hgoals]; exact List.mem_singleton_self _) ⟨rfl, rfl⟩
  rw [hpending] at hb
  exact absurd hb (Finset.notMem_empty b)

/-- The same goal without the approval: it is held, and the report frees it. -/
def integrated : List Input :=
  let world : World := ⟨0, none, .stored⟩
  [.request 1 ⟨1, "goal_create", .object [("objective", .string "survey")]⟩ world,
    .event (.workerStateChanged 5 7) world, .event (.turnComplete 7) world,
    .event (.taskBatchDone 5 7 []) world]

theorem awaitingBounded_integrated :
    (∀ i ∈ integrated, OneConductor (fun _ => 7) i) ∧
      Run.Always react firstBoot (fun _ d i => d.FreshSession i) integrated ∧
      Run.Always react firstBoot (fun _ d i => (d.react i).1.AwaitingBounded) integrated := by
  have hone : ∀ i ∈ integrated, OneConductor (fun _ => 7) i := by
    simp [integrated, OneConductor, Input.batch?]
  have hfresh : Run.Always react firstBoot (fun _ d i => d.FreshSession i) integrated := by
    simp only [integrated, Run.always_cons]
    exact ⟨fun _ x hx => (by cases hx), trivial, trivial, trivial, Run.Always.nil⟩
  have hfree : Run.Always react firstBoot (fun _ d i => d.ResumesFree i) integrated := by
    simp only [integrated, Run.always_cons]
    exact ⟨fun hc => absurd hc (by decide), trivial, trivial, trivial, Run.Always.nil⟩
  exact ⟨hone, hfresh, (awaitingBounded_iff firstBoot_booted hone hfresh).mpr hfree⟩

end GoalDriver

end ApexOS.Agentd
