import ApexOS.Agentd.AwaitingBatch

/-!
# The life of a goal

What the goal driver keeps of a goal over whole runs: its step within its budget, its session in the
yolo set exactly while it can be at work, one id and one session of its own, and its end. `Life`
says once what can happen to a goal, `Deed` what a handler can do to the book; the invariants follow
from there. A restart reads the book back from `goals.json`, which is as old as the last write that
was made.

The episode that wraps a goal is closed when it is done or cancelled, but also when it stalls, and a
goal that has stalled can be resumed.

## Main definitions

* `Life`, `GoalDriver.Deed`: what can happen to a goal, and to the book
* `Shared`: the driver, and the worker driver's part of the yolo set
* `Shared.Law`, `Shared.Directs`, `Shared.Lasting`: the book in order, the directive of a turn that
  completes, a goal that has ended
* `GoalDriver.ClosedOnce`: episodes are closed once, and not too early

## Main results

* `GoalDriver.request_works`, `GoalDriver.step_works`: what the inputs do to the book
* `Shared.law_of_allots`: the book is in order throughout, and ended goals last
* `GoalDriver.closedOnce_of_settles`: episodes are closed once, where no goal with an episode stalls
-/

namespace ApexOS.Agentd

/-! ### What can happen to a goal -/

/-- `Done` or `Cancelled`: `goal_resume` does not take the goal back. -/
def GoalState.ended (s : GoalState) : Bool := s = .done || s = .cancelled

/-- `Acting` or `Blocked`: the session of a yolo goal is in the yolo set. -/
def GoalState.live (s : GoalState) : Bool := s = .acting || s = .blocked

/-- The episode an effect closes. -/
def Emit.closes : Emit → Option String
  | .episodeEnd episode _ => some episode
  | _ => none

/-- The prompt an effect sends. -/
def Emit.prompt : Emit → Option (SessionId × Directive)
  | .userPrompt session text => some (session, text)
  | _ => none

/-- The episodes that are closed. -/
def closings (emits : List Emit) : List String := emits.filterMap Emit.closes

/-- The prompts that are sent. -/
def prompts (emits : List Emit) : List (SessionId × Directive) := emits.filterMap Emit.prompt

/-- What can happen to a goal other than that it stalls. -/
inductive Life (now : ℕ) : Goal → Goal → Prop
  | reported {g : Goal} {verdict : Verdict} (h : g.state = .acting) :
      Life now g { g with pending := some verdict }
  | advanced {g : Goal} (h : g.state = .acting) (hstep : g.step < g.maxSteps) :
      Life now g { g with step := g.step + 1, stepStarted := now, pending := none }
  | finished {g : Goal} {state : GoalState} (h : g.state = .acting)
      (hstate : state = .done ∨ state = .blocked) :
      Life now g { g with state := state, pending := none }
  | cancelled {g : Goal} (h : g.state = .acting ∨ g.state = .blocked) :
      Life now g { g with state := .cancelled, pending := none, episode := none }
  | resumed {g : Goal} (h : g.state = .blocked ∨ g.state = .failed) :
      Life now g { g with state := .acting, stepStarted := now, pending := none }
  | held {g : Goal} (h : g.state = .acting) : Life now g { g with awaitingBatch := true }
  | integrated {g : Goal} (h : g.state = .acting) :
      Life now g { g with
        awaitingBatch := false
        pending := none
        step := min (g.step + 1) g.maxSteps
        stepStarted := now }

/-- The episodes closed as `g` becomes `g'`. -/
def closedBy (g g' : Goal) : List String := if g'.state.ended then g.episode.toList else []

/-- The yolo set as `g` becomes `g'`. -/
def yoloAfter (yolo : Finset SessionId) (g g' : Goal) : Finset SessionId :=
  if g'.state.live then
    if g.yolo ∧ g.state ≠ .acting ∧ g'.state = .acting then insert g.session yolo else yolo
  else yolo.erase g.session

/-- A step within its budget, in a state that is in use. -/
structure InOrder (state : GoalState) (step maxSteps : ℕ) : Prop where
  first : 1 ≤ step
  budget : step ≤ maxSteps
  ceil : maxSteps ≤ maxStepsCeil
  used : state ≠ .planning ∧ state ≠ .reflecting

section Life

variable {now : ℕ} {g g' : Goal}

theorem Life.session (h : Life now g g') : g'.session = g.session := by cases h <;> rfl

theorem Life.yolo (h : Life now g g') : g'.yolo = g.yolo := by cases h <;> rfl

/-- A goal that has ended has no life left. -/
theorem Life.not_ended (h : Life now g g') : g.state.ended = false := by
  cases h with
  | cancelled h | resumed h =>
    rcases h with h | h <;> rw [h] <;> rfl
  | reported h | advanced h | finished h | held h | integrated h =>
    rw [h]
    rfl

theorem Life.episode (h : Life now g g') {e : String} (he : g'.episode = some e) :
    g.episode = some e := by
  cases h with
  | cancelled => cases he
  | _ => exact he

theorem Life.inOrder {g g' : Goal} (h : Life now g g') (hg : InOrder g.state g.step g.maxSteps) :
    InOrder g'.state g'.step g'.maxSteps := by
  obtain ⟨hfirst, hbudget, hceil, hused⟩ := hg
  cases h with
  | reported | held => exact ⟨hfirst, hbudget, hceil, hused⟩
  | advanced h hstep => exact ⟨Nat.le_add_left 1 _, hstep, hceil, hused⟩
  | finished h hstate => exact ⟨hfirst, hbudget, hceil, by rcases hstate with rfl | rfl <;> simp⟩
  | cancelled => exact ⟨hfirst, hbudget, hceil, by simp⟩
  | resumed => exact ⟨hfirst, hbudget, hceil, by simp⟩
  | integrated h =>
    exact ⟨le_min (Nat.le_add_left 1 _) (hfirst.trans hbudget), min_le_right _ _, hceil, hused⟩

/-- A goal that comes to be live was so, or is resumed. -/
theorem Life.live {g g' : Goal} (h : Life now g g') (hlive : g'.state.live = true) :
    g.state.live = true ∨ g.state ≠ .acting ∧ g'.state = .acting := by
  cases h with
  | cancelled => cases hlive
  | finished h => exact Or.inl (by rw [h]; rfl)
  | resumed h =>
    refine Or.inr ⟨?_, rfl⟩
    rcases h with h | h <;> simp [h]
  | _ => exact Or.inl hlive

end Life

theorem InOrder.reload {pg : PersistedGoal} {now : ℕ} (h : InOrder pg.state pg.step pg.maxSteps) :
    InOrder (pg.reload now).state (pg.reload now).step (pg.reload now).maxSteps := by
  refine ⟨h.first, h.budget, h.ceil, ?_⟩
  change pg.reloadedState ≠ _ ∧ pg.reloadedState ≠ _
  rw [PersistedGoal.reloadedState]
  split
  · simp
  · exact h.used

namespace GoalDriver

/-- What a handler other than the stall watchdog can do to the book. -/
inductive Deed (now : ℕ) (d : GoalDriver) : GoalDriver → List Emit → Prop
  | idle {emits : List Emit} (hclosed : closings emits = []) : Deed now d d emits
  | one {x : GoalId × Goal} {f : Goal → Goal} {emits : List Emit} (hx : x ∈ d.goals)
      (hlife : Life now x.2 (f x.2)) (hclosed : closings emits = closedBy x.2 (f x.2)) :
      Deed now d { d with
        goals := d.goals.modify x.1 f
        yolo := yoloAfter d.yolo x.2 (f x.2) } emits

section Deeds

variable {d : GoalDriver} {now : ℕ}

theorem closings_episodeEnd (episode : Option String) (state : GoalState) :
    closings (episodeEnd episode state) = episode.toList := by
  cases episode <;> rfl

/-- One goal is changed, as the handlers write it. -/
theorem Deed.of_modify {x : GoalId × Goal} {f : Goal → Goal} {yolo : Finset SessionId}
    {emits : List Emit} (hx : x ∈ d.goals) (hlife : Life now x.2 (f x.2))
    (hclosed : closings emits = closedBy x.2 (f x.2))
    (hyolo : yolo = yoloAfter d.yolo x.2 (f x.2)) :
    Deed now d { d with goals := d.goals.modify x.1 f, yolo := yolo } emits := by
  rw [hyolo]
  exact .one hx hlife hclosed

/-- A goal that goes on acting. -/
theorem yoloAfter_of_acting {yolo : Finset SessionId} {g g' : Goal} (h : g.state = .acting)
    (h' : g'.state = .acting) : yoloAfter yolo g g' = yolo := by
  simp [yoloAfter, GoalState.live, h, h']

theorem closedBy_of_live {g g' : Goal} (h : g'.state = .acting ∨ g'.state = .blocked) :
    closedBy g g' = [] := by
  rcases h with h | h <;> simp [closedBy, GoalState.ended, h]

theorem deed_recordStep (session : SessionId) (call : ActionId) (args : Json) :
    Deed now d (d.recordStep session call args).1 (d.recordStep session call args).2 := by
  rw [recordStep]
  split
  · exact .idle rfl
  · rename_i id goal hgoal
    obtain ⟨hmem, -, hacting⟩ := mem_of_acting? hgoal
    exact .of_modify hmem (.reported hacting) (closedBy_of_live (Or.inl hacting)).symm
      (yoloAfter_of_acting hacting hacting).symm

theorem inState?_eq_some {goals : Goals} {args : Json} {states : List GoalState} {x : GoalId × Goal}
    (h : goals.inState? args states = some x) : x ∈ goals ∧ x.2.state ∈ states := by
  obtain ⟨id, -, hfind⟩ := Option.bind_eq_some_iff.mp h
  have hfound := List.find?_some hfind
  rw [decide_eq_true_iff] at hfound
  exact ⟨List.mem_of_find?_eq_some hfind, hfound.2⟩

theorem deed_resumeGoal (session : SessionId) (call : ActionId) (args : Json) :
    Deed now d (d.resumeGoal session call args now).1 (d.resumeGoal session call args now).2 := by
  rw [resumeGoal]
  split
  · exact .idle rfl
  · rename_i id goal hgoal
    obtain ⟨hmem, hstate⟩ := inState?_eq_some hgoal
    have hparked : goal.state = .blocked ∨ goal.state = .failed := by simpa using hstate
    have hnot : goal.state ≠ .acting := by rcases hparked with h | h <;> simp [h]
    exact .of_modify hmem (.resumed hparked) (closedBy_of_live (Or.inl rfl)).symm
      (by simp [yoloAfter, GoalState.live, hnot])

theorem deed_cancelGoal (session : SessionId) (call : ActionId) (args : Json) :
    Deed now d (d.cancelGoal session call args).1 (d.cancelGoal session call args).2 := by
  rw [cancelGoal]
  split
  · exact .idle rfl
  · rename_i id goal hgoal
    obtain ⟨hmem, hstate⟩ := inState?_eq_some hgoal
    refine .of_modify hmem (.cancelled (by simpa using hstate)) ?_ rfl
    change closings ([.userCancel goal.session, _] ++ episodeEnd goal.episode .cancelled ++ [_]) =
      goal.episode.toList
    cases goal.episode <;> rfl

theorem deed_finish {id : GoalId} {goal : Goal} (hmem : (id, goal) ∈ d.goals)
    (hacting : goal.state = .acting) {state : GoalState} (hstate : state = .done ∨ state = .blocked)
    (detail : String) :
    Deed now d (d.finish id goal state detail).1 (d.finish id goal state detail).2 := by
  rw [finish]
  rcases hstate with rfl | rfl
  · rw [if_pos (by decide)]
    refine .of_modify hmem (.finished hacting (Or.inl rfl)) ?_ rfl
    exact closings_episodeEnd goal.episode .done
  · rw [if_neg (by decide)]
    exact .of_modify hmem (.finished hacting (Or.inr rfl)) rfl
      (by simp [yoloAfter, GoalState.live])

theorem deed_advance (session : SessionId) :
    Deed now d (d.advance session now).1 (d.advance session now).2 := by
  rw [advance]
  split
  · exact .idle rfl
  · rename_i id goal hgoal
    obtain ⟨hmem, -, hacting⟩ := mem_of_acting? hgoal
    split
    · exact deed_finish hmem hacting (Or.inl rfl) _
    · exact deed_finish hmem hacting (Or.inr rfl) _
    · split
      · exact deed_finish hmem hacting (Or.inl rfl) _
      · rename_i hstep
        exact .of_modify hmem (.advanced hacting (Nat.lt_of_not_le hstep))
          (closedBy_of_live (Or.inl hacting)).symm (yoloAfter_of_acting hacting hacting).symm

theorem deed_holdAwaitingBatch (session : SessionId) :
    Deed now d (d.holdAwaitingBatch session).1 (d.holdAwaitingBatch session).2 := by
  rw [holdAwaitingBatch]
  split
  · exact .idle rfl
  · rename_i id goal hgoal
    obtain ⟨hmem, -, hacting⟩ := mem_of_acting? hgoal
    split
    · exact .idle rfl
    · exact .of_modify hmem (.held hacting) (closedBy_of_live (Or.inl hacting)).symm
        (yoloAfter_of_acting hacting hacting).symm

theorem deed_resumeAfterBatch (session : SessionId) (batch : UInt64) (rows : List BatchWorkerRow) :
    Deed now d (d.resumeAfterBatch session batch rows now).1
      (d.resumeAfterBatch session batch rows now).2 := by
  rw [resumeAfterBatch]
  split
  · exact .idle rfl
  · rename_i id goal hgoal
    have hfound := List.find?_some hgoal
    rw [decide_eq_true_iff] at hfound
    have hacting : goal.state = .acting := hfound.2.1
    exact .of_modify (List.mem_of_find?_eq_some hgoal) (.integrated hacting)
      (closedBy_of_live (Or.inl hacting)).symm (yoloAfter_of_acting hacting hacting).symm

theorem deed_blockOnApproval (session : SessionId) (tool : String) :
    Deed now d (d.blockOnApproval session tool).1 (d.blockOnApproval session tool).2 := by
  rw [blockOnApproval]
  split
  · exact .idle rfl
  · rename_i id goal hgoal
    obtain ⟨hmem, -, hacting⟩ := mem_of_acting? hgoal
    exact .of_modify hmem (.finished hacting (Or.inr rfl)) rfl (by simp [yoloAfter, GoalState.live])

/-- What the driver knows of the batches, and the session counter, are no part of the book. -/
structure SameBook (d d' : GoalDriver) : Prop where
  goals : d'.goals = d.goals
  file : d'.file = d.file
  yolo : d'.yolo = d.yolo
  nextGoalId : d'.nextGoalId = d.nextGoalId

/-- The book may be written afterwards. -/
def MaybeSaved (d d' : GoalDriver) : Prop := d' = d ∨ ∃ disk, d' = d.saveGoals disk

theorem maybeSaved_saveIfChanged (r : GoalDriver × List Emit) (disk : DiskWrite) :
    MaybeSaved r.1 (saveIfChanged r disk).1 ∧ (saveIfChanged r disk).2 = r.2 := by
  rw [saveIfChanged]
  split
  · exact ⟨Or.inl rfl, rfl⟩
  · exact ⟨Or.inr ⟨disk, rfl⟩, rfl⟩

/-- An input is worked off: the books of batches are kept, a handler does its deed, and the goals
may be written. -/
def Works (now : ℕ) (d d' : GoalDriver) (emits : List Emit) : Prop :=
  ∃ d₁ d₂, SameBook d d₁ ∧ Deed now d₁ d₂ emits ∧ MaybeSaved d₂ d'

theorem Works.of_deed {d' : GoalDriver} {emits : List Emit} (h : Deed now d d' emits) :
    Works now d d' emits := ⟨d, d', ⟨rfl, rfl, rfl, rfl⟩, h, Or.inl rfl⟩

theorem Works.saveGoals {d' : GoalDriver} {emits : List Emit} (h : Deed now d d' emits)
    (disk : DiskWrite) : Works now d (d'.saveGoals disk) emits :=
  ⟨d, d', ⟨rfl, rfl, rfl, rfl⟩, h, Or.inr ⟨disk, rfl⟩⟩

theorem Works.saveIfChanged {r : GoalDriver × List Emit} (h : Deed now d r.1 r.2)
    (disk : DiskWrite) : Works now d (saveIfChanged r disk).1 (saveIfChanged r disk).2 := by
  obtain ⟨hsaved, hemits⟩ := maybeSaved_saveIfChanged r disk
  rw [hemits]
  exact ⟨d, r.1, ⟨rfl, rfl, rfl, rfl⟩, h, hsaved⟩

theorem Works.of_sameBook {d' : GoalDriver} (h : SameBook d d') : Works now d d' [] :=
  ⟨d', d', h, .idle rfl, Or.inl rfl⟩

theorem Works.after {d₁ d' : GoalDriver} {emits : List Emit} (h : SameBook d d₁)
    (hworks : Works now d₁ d' emits) : Works now d d' emits := by
  obtain ⟨d₂, d₃, h', hdeed, hsaved⟩ := hworks
  refine ⟨d₂, d₃, ⟨?_, ?_, ?_, ?_⟩, hdeed, hsaved⟩
  · exact h'.goals.trans h.goals
  · exact h'.file.trans h.file
  · exact h'.yolo.trans h.yolo
  · exact h'.nextGoalId.trans h.nextGoalId

/-- **What a call does**, unless it creates a goal. -/
theorem request_works {session : SessionId} {call : ToolCall} {world : World}
    (hcall : call.tool ≠ "goal_create") : Works world.now d (d.request session call world).1
      (d.request session call world).2 := by
  rw [request, if_neg hcall]
  split
  · exact .of_deed (deed_recordStep ..)
  · split
    · exact .saveGoals (deed_resumeGoal ..) _
    · split
      · exact .saveGoals (deed_cancelGoal ..) _
      · split
        · exact .of_deed (.idle rfl)
        · exact .of_deed (.idle rfl)

/-- **What another input does**, unless it is a tick or a restart. -/
theorem step_works {e : Event} {world : World} (htick : e ≠ .tick) (he : ∀ n, e ≠ .restart n) :
    Works world.now d (d.step e world).1 (d.step e world).2 := by
  cases e with
  | turnComplete session =>
    rw [step]
    split
    · exact .saveIfChanged (deed_holdAwaitingBatch session) _
    · exact .saveIfChanged (deed_advance session) _
  | approvalPending session tool => exact .saveIfChanged (deed_blockOnApproval session tool) _
  | workerStateChanged batch parent =>
    rw [step]
    split
    · exact .of_deed (.idle rfl)
    · exact .of_sameBook ⟨rfl, rfl, rfl, rfl⟩
  | taskBatchDone batch parent rows =>
    have hbook : SameBook d { d with
        doneBatches := insert batch d.doneBatches
        pendingBatches := Function.update d.pendingBatches parent
          ((d.pendingBatches parent).erase batch) } := ⟨rfl, rfl, rfl, rfl⟩
    rw [step]
    split
    · exact .after hbook (.saveIfChanged (deed_resumeAfterBatch parent batch rows) _)
    · exact .of_sameBook hbook
  | tick => exact absurd rfl htick
  | restart nextSessionId => exact absurd rfl (he nextSessionId)
  | sessionTaken => exact .of_sameBook ⟨rfl, rfl, rfl, rfl⟩

end Deeds

/-- A new installation: no goals, and none in the file. -/
def new (nextSessionId : SessionId) (stepTimeout : ℕ) : GoalDriver :=
  ⟨[], 1, nextSessionId, ∅, fun _ => ∅, ∅, [], stepTimeout⟩

end GoalDriver

/-! ### The book, and the set it shares -/

/-- The driver, and the sessions that the worker driver has put into the yolo set, which the two
share. -/
structure Shared where
  driver : GoalDriver
  workers : Finset SessionId

namespace Shared

/-- What the driver reacts to, and what the worker driver does to the set. -/
inductive Input
  | goal (i : GoalDriver.Input)
  | armed (session : SessionId)
  | disarmed (session : SessionId)

/-- A new process, with an empty set. -/
def Input.restarts : Input → Bool
  | .goal (.event (.restart _) _) => true
  | _ => false

/-- One step. -/
def step (s : Shared) (i : Input) : Shared × List Emit :=
  match i with
  | .goal input =>
    let r := s.driver.react input
    (⟨r.1, if i.restarts then ∅ else s.workers⟩, r.2)
  | .armed session =>
    (⟨{ s.driver with yolo := insert session s.driver.yolo }, insert session s.workers⟩, [])
  | .disarmed session =>
    (⟨{ s.driver with yolo := s.driver.yolo.erase session }, s.workers.erase session⟩, [])

/-- **Ids are handed out once**: the session of a new goal is nobody's, nor is a worker's session a
goal's; and the counter of goals has not run out. -/
def Allots (s : Shared) : Input → Prop
  | .goal (.request _ call _) => call.tool = "goal_create" →
    (∀ x ∈ s.driver.goals, x.2.session ≠ s.driver.nextSessionId) ∧
      s.driver.nextSessionId ∉ s.workers ∧ s.driver.nextGoalId.toNat + 1 < 2 ^ 64
  | .goal (.event ..) => True
  | .armed session | .disarmed session => ∀ x ∈ s.driver.goals, x.2.session ≠ session

/-- **The book is in order**: a goal's step is within its budget, no two goals have an id or a
session in common, and of the sessions that are no worker's, those are in the yolo set that belong
to a yolo goal which is acting or blocked. -/
structure Law (s : Shared) : Prop where
  budget : ∀ x ∈ s.driver.goals, 1 ≤ x.2.step ∧ x.2.step ≤ x.2.maxSteps ∧ x.2.maxSteps ≤ 100
  ids : (s.driver.goals.map Prod.fst).Nodup
  sessions : (s.driver.goals.map fun x => x.2.session).Nodup
  apart : ∀ x ∈ s.driver.goals, x.2.session ∉ s.workers
  yolo : ∀ session, session ∉ s.workers → (session ∈ s.driver.yolo ↔ ∃ x ∈ s.driver.goals,
    x.2.session = session ∧ x.2.yolo = true ∧ (x.2.state = .acting ∨ x.2.state = .blocked))

/-- A turn that completes sends nothing while a batch is pending; otherwise, if its goal goes on, it
sends the one directive of the next step. -/
def Directs (s : Shared) : Input → Prop
  | .goal (.event (.turnComplete session) world) =>
    let r := s.driver.step (.turnComplete session) world
    ((s.driver.pendingBatches session).Nonempty → prompts r.2 = []) ∧
      (s.driver.pendingBatches session = ∅ →
        (∃ x ∈ r.1.goals, x.2.session = session ∧ x.2.state = .acting) →
        ∃ objective step maxSteps steer,
          prompts r.2 = [(session, .next objective step maxSteps steer)])
  | _ => True

/-- A goal that is done or cancelled stays so. -/
def Lasting (s : Shared) (i : Input) : Prop :=
  ∀ x ∈ s.driver.goals, x.2.state.ended = true → ∀ y ∈ (s.step i).1.driver.goals,
    y.2.session = x.2.session → y.2.state = x.2.state

/-- A restart does not find a goal that has ended in an older state. -/
def Remembers (s : Shared) (i : Input) : Prop :=
  i.restarts = true → ∀ x ∈ s.driver.goals, x.2.state.ended = true → ∀ pg ∈ s.driver.file,
    pg.session = x.2.session → pg.state = x.2.state

/-! ### The invariant -/

/-- A yolo goal has this session, and can be at work. -/
def Armed (goals : Goals) (session : SessionId) : Prop :=
  ∃ x ∈ goals, x.2.session = session ∧ x.2.yolo = true ∧ x.2.state.live = true

/-- What holds between two inputs. -/
structure Orderly (s : Shared) : Prop where
  distinct : s.driver.Distinct
  goals : ∀ x ∈ s.driver.goals, InOrder x.2.state x.2.step x.2.maxSteps
  file : ∀ pg ∈ s.driver.file, InOrder pg.state pg.step pg.maxSteps
  counted : ∀ x ∈ s.driver.goals, x.1.toNat < s.driver.nextGoalId.toNat
  fileCounted : ∀ pg ∈ s.driver.file, pg.id.toNat < s.driver.nextGoalId.toNat
  apart : ∀ x ∈ s.driver.goals, x.2.session ∉ s.workers
  yolo : ∀ session, session ∈ s.driver.yolo ↔ session ∈ s.workers ∨ Armed s.driver.goals session

variable {s : Shared} {d : GoalDriver} {now : ℕ}

theorem Orderly.law (h : Orderly s) : Law s := by
  refine ⟨fun x hx => ?_, h.distinct.ids, h.distinct.sessions, h.apart, fun session hworker => ?_⟩
  · exact ⟨(h.goals x hx).first, (h.goals x hx).budget, (h.goals x hx).ceil⟩
  · rw [h.yolo, or_iff_right hworker]
    simp [Armed, GoalState.live]

/-! ### What keeps the invariant -/

/-- The session of a goal, after that goal has changed. -/
theorem armed_modify (hd : d.Distinct) {x : GoalId × Goal} {f : Goal → Goal} (hx : x ∈ d.goals)
    (hlife : Life now x.2 (f x.2)) (session : SessionId) :
    Armed (d.goals.modify x.1 f) session ↔
      if session = x.2.session then x.2.yolo = true ∧ (f x.2).state.live = true
      else Armed d.goals session := by
  have hchanged : (x.1, f x.2) ∈ d.goals.modify x.1 f :=
    GoalDriver.mem_modify.mpr (Or.inl ⟨x, hx, rfl, rfl⟩)
  split
  · rename_i hsession
    constructor
    · rintro ⟨y, hy, hys, hyolo, hlive⟩
      rcases GoalDriver.mem_modify.mp hy with ⟨z, hz, hid, rfl⟩ | ⟨hy, hid⟩
      · obtain rfl := hd.eq_of_id hz hx hid
        exact ⟨hlife.yolo ▸ hyolo, hlive⟩
      · exact absurd (congrArg Prod.fst (hd.eq_of_session hy hx (hys.trans hsession))) hid
    · rintro ⟨hyolo, hlive⟩
      exact ⟨_, hchanged, hlife.session.trans hsession.symm, hlife.yolo.trans hyolo, hlive⟩
  · rename_i hsession
    constructor
    · rintro ⟨y, hy, hys, hyolo, hlive⟩
      rcases GoalDriver.mem_modify.mp hy with ⟨z, hz, hid, rfl⟩ | ⟨hy, hid⟩
      · obtain rfl := hd.eq_of_id hz hx hid
        exact absurd (hys.symm.trans hlife.session) hsession
      · exact ⟨y, hy, hys, hyolo, hlive⟩
    · rintro ⟨y, hy, hys, hyolo, hlive⟩
      refine ⟨y, GoalDriver.mem_modify.mpr (Or.inr ⟨hy, fun hid => hsession ?_⟩), hys, hyolo, hlive⟩
      rw [← hys, hd.eq_of_id hy hx hid]

theorem mem_yoloAfter {yolo : Finset SessionId} {g g' : Goal} (hlife : Life now g g')
    {session : SessionId} (hself : g.session ∈ yolo ↔ g.yolo = true ∧ g.state.live = true) :
    session ∈ yoloAfter yolo g g' ↔
      if session = g.session then g.yolo = true ∧ g'.state.live = true else session ∈ yolo := by
  rw [yoloAfter]
  by_cases hlive : g'.state.live = true
  · rw [if_pos hlive]
    by_cases hsession : session = g.session
    · subst hsession
      rcases hlife.live hlive with hwas | hresumed
      · split <;> simp_all
      · by_cases hyolo : g.yolo = true <;> simp_all
    · split <;> simp [hsession]
  · rw [if_neg hlive]
    by_cases hsession : session = g.session <;> simp [hsession, hlive]

theorem Orderly.one (h : Orderly s) {x : GoalId × Goal} {f : Goal → Goal} (hx : x ∈ s.driver.goals)
    (hlife : Life now x.2 (f x.2)) : Orderly ⟨{ s.driver with
      goals := s.driver.goals.modify x.1 f
      yolo := yoloAfter s.driver.yolo x.2 (f x.2) }, s.workers⟩ := by
  have hmem {y : GoalId × Goal} (hy : y ∈ s.driver.goals.modify x.1 f) :
      y = (x.1, f x.2) ∨ y ∈ s.driver.goals := by
    rcases GoalDriver.mem_modify.mp hy with ⟨z, hz, hid, rfl⟩ | ⟨hy, -⟩
    · obtain rfl := h.distinct.eq_of_id hz hx hid
      exact Or.inl rfl
    · exact Or.inr hy
  have hself : x.2.session ∈ s.driver.yolo ↔ x.2.yolo = true ∧ x.2.state.live = true := by
    rw [h.yolo, or_iff_right (h.apart x hx)]
    constructor
    · rintro ⟨y, hy, hys, hyolo, hlive⟩
      obtain rfl := h.distinct.eq_of_session hy hx hys
      exact ⟨hyolo, hlive⟩
    · exact fun ⟨hyolo, hlive⟩ => ⟨x, hx, rfl, hyolo, hlive⟩
  refine ⟨?_, fun y hy => ?_, h.file, fun y hy => ?_, h.fileCounted, fun y hy => ?_,
    fun session => ?_⟩
  · have haligned : GoalDriver.Aligned s.driver { s.driver with
        goals := s.driver.goals.modify x.1 f
        yolo := yoloAfter s.driver.yolo x.2 (f x.2) } := by
      refine ⟨⟨fun y => if y.1 = x.1 then f y.2 else y.2, ?_, fun y hy => ?_⟩, rfl, rfl, rfl⟩
      · refine List.map_congr_left fun y _ => ?_
        by_cases hid : y.1 = x.1 <;> simp [hid]
      · by_cases hid : y.1 = x.1
        · obtain rfl := h.distinct.eq_of_id hy hx hid
          simpa using hlife.session
        · simp [hid]
    exact haligned.distinct h.distinct
  · rcases hmem hy with rfl | hy
    · exact hlife.inOrder (h.goals x hx)
    · exact h.goals y hy
  · rcases hmem hy with rfl | hy
    · exact h.counted x hx
    · exact h.counted y hy
  · rcases hmem hy with rfl | hy
    · exact hlife.session ▸ h.apart x hx
    · exact h.apart y hy
  · rw [mem_yoloAfter hlife hself, armed_modify h.distinct hx hlife]
    split
    · rename_i hsession
      rw [or_iff_right (hsession ▸ h.apart x hx)]
    · exact h.yolo session

/-- Whose step has stalled, at this time. -/
abbrev stalledSessions (d : GoalDriver) (now : ℕ) : Finset SessionId :=
  ((d.goals.filter fun x => d.stalled now x.2).map fun x => x.2.session).toFinset

theorem mem_stalledSessions {session : SessionId} : session ∈ stalledSessions d now ↔
    ∃ x ∈ d.goals, d.stalled now x.2 = true ∧ x.2.session = session := by
  simp [stalledSessions, and_assoc]

theorem mem_failStalled {y : GoalId × Goal} : y ∈ (d.failStalled now).1.goals ↔
    (∃ x ∈ d.goals, d.stalled now x.2 = true ∧ y = (x.1, { x.2 with state := .failed })) ∨
      y ∈ d.goals ∧ d.stalled now y.2 = false := by
  simp only [GoalDriver.failStalled, List.mem_map]
  constructor
  · rintro ⟨x, hx, rfl⟩
    cases hstalled : d.stalled now x.2 with
    | true => exact Or.inl ⟨x, hx, hstalled, by simp⟩
    | false => exact Or.inr ⟨by simpa using hx, by simpa using hstalled⟩
  · rintro (⟨x, hx, hstalled, rfl⟩ | ⟨hy, hstalled⟩)
    · exact ⟨x, hx, by simp [hstalled]⟩
    · exact ⟨y, hy, by simp [hstalled]⟩

/-- A goal that has stalled is not live any more. -/
theorem armed_failStalled (hd : d.Distinct) (session : SessionId) :
    Armed (d.failStalled now).1.goals session ↔
      Armed d.goals session ∧ session ∉ stalledSessions d now := by
  constructor
  · rintro ⟨y, hy, hys, hyolo, hlive⟩
    rcases mem_failStalled.mp hy with ⟨x, hx, -, rfl⟩ | ⟨hy, hstalled⟩
    · cases hlive
    · refine ⟨⟨y, hy, hys, hyolo, hlive⟩, fun hmem => ?_⟩
      obtain ⟨x, hx, hxstalled, hxs⟩ := mem_stalledSessions.mp hmem
      rw [hd.eq_of_session hx hy (hxs.trans hys.symm), hstalled] at hxstalled
      cases hxstalled
  · rintro ⟨⟨y, hy, hys, hyolo, hlive⟩, hnot⟩
    refine ⟨y, mem_failStalled.mpr (Or.inr ⟨hy, ?_⟩), hys, hyolo, hlive⟩
    by_contra hstalled
    exact hnot (mem_stalledSessions.mpr ⟨y, hy, by simpa using hstalled, hys⟩)

theorem Orderly.failStalled (h : Orderly s) (now : ℕ) :
    Orderly ⟨(s.driver.failStalled now).1, s.workers⟩ := by
  refine ⟨(GoalDriver.calm_failStalled now).distinct h.distinct, fun y hy => ?_, h.file,
    fun y hy => ?_, h.fileCounted, fun y hy => ?_, fun session => ?_⟩
  · rcases mem_failStalled.mp hy with ⟨x, hx, -, rfl⟩ | ⟨hy, -⟩
    · obtain ⟨hfirst, hbudget, hceil, -⟩ := h.goals x hx
      exact ⟨hfirst, hbudget, hceil, by simp⟩
    · exact h.goals y hy
  · rcases mem_failStalled.mp hy with ⟨x, hx, -, rfl⟩ | ⟨hy, -⟩
    · exact h.counted x hx
    · exact h.counted y hy
  · rcases mem_failStalled.mp hy with ⟨x, hx, -, rfl⟩ | ⟨hy, -⟩
    · exact h.apart x hx
    · exact h.apart y hy
  · rw [armed_failStalled h.distinct, show (s.driver.failStalled now).1.yolo =
      s.driver.yolo \ stalledSessions s.driver now from rfl, Finset.mem_sdiff, h.yolo]
    constructor
    · rintro ⟨hworker | harmed, hnot⟩
      · exact Or.inl hworker
      · exact Or.inr ⟨harmed, hnot⟩
    · rintro (hworker | ⟨harmed, hnot⟩)
      · refine ⟨Or.inl hworker, fun hmem => ?_⟩
        obtain ⟨x, hx, -, rfl⟩ := mem_stalledSessions.mp hmem
        exact h.apart x hx hworker
      · exact ⟨Or.inr harmed, hnot⟩

theorem Orderly.saveGoals (h : Orderly s) (disk : DiskWrite) :
    Orderly ⟨s.driver.saveGoals disk, s.workers⟩ := by
  cases disk with
  | stored =>
    refine ⟨⟨h.distinct.ids, h.distinct.sessions, ?_, ?_⟩, h.goals, ?_, h.counted, ?_, h.apart,
      h.yolo⟩
    · simpa [GoalDriver.saveGoals, List.map_map, Function.comp_def, persist] using h.distinct.ids
    · simpa [GoalDriver.saveGoals, List.map_map, Function.comp_def, persist]
        using h.distinct.sessions
    · intro pg hpg
      obtain ⟨x, hx, rfl⟩ := List.mem_map.mp hpg
      exact h.goals x hx
    · intro pg hpg
      obtain ⟨x, hx, rfl⟩ := List.mem_map.mp hpg
      exact h.counted x hx
  | failed => exact h
  | torn =>
    exact ⟨⟨h.distinct.ids, h.distinct.sessions, List.nodup_nil, List.nodup_nil⟩, h.goals,
      (fun _ hpg => absurd hpg List.not_mem_nil), h.counted,
      (fun _ hpg => absurd hpg List.not_mem_nil), h.apart, h.yolo⟩

theorem Orderly.works (h : Orderly s) {d' : GoalDriver} {emits : List Emit}
    (hworks : GoalDriver.Works now s.driver d' emits) : Orderly ⟨d', s.workers⟩ := by
  obtain ⟨d₁, d₂, hbook, hdeed, hsaved⟩ := hworks
  have h₁ : Orderly ⟨d₁, s.workers⟩ := by
    refine ⟨h.distinct.of_eq hbook.goals hbook.file, ?_, ?_, ?_, ?_, ?_, ?_⟩
    · rw [hbook.goals]
      exact h.goals
    · rw [hbook.file]
      exact h.file
    · rw [hbook.goals, hbook.nextGoalId]
      exact h.counted
    · rw [hbook.file, hbook.nextGoalId]
      exact h.fileCounted
    · rw [hbook.goals]
      exact h.apart
    · rw [hbook.goals, hbook.yolo]
      exact h.yolo
  have h₂ : Orderly ⟨d₂, s.workers⟩ := by
    cases hdeed with
    | idle => exact h₁
    | one hx hlife => exact h₁.one hx hlife
  rcases hsaved with rfl | ⟨disk, rfl⟩
  · exact h₂
  · exact h₂.saveGoals disk

theorem Orderly.tick (h : Orderly s) (world : World) :
    Orderly ⟨(s.driver.step .tick world).1, s.workers⟩ := by
  have hfailed := h.failStalled world.now
  rcases (GoalDriver.maybeSaved_saveIfChanged (s.driver.failStalled world.now) world.disk).1 with
    heq | ⟨disk, heq⟩
  · rw [GoalDriver.step, heq]
    exact hfailed
  · rw [GoalDriver.step, heq]
    exact hfailed.saveGoals disk

theorem parseMaxSteps_bounds (args : Json) :
    1 ≤ parseMaxSteps args ∧ parseMaxSteps args ≤ maxStepsCeil := by
  rw [parseMaxSteps]
  split
  · exact ⟨le_max_left _ _, max_le (by decide) (min_le_right _ _)⟩
  · exact ⟨by decide, by decide⟩

theorem toNat_succ_of_lt {n : UInt64} (h : n.toNat + 1 < 2 ^ 64) : (n + 1).toNat = n.toNat + 1 := by
  rw [UInt64.toNat_add]
  exact Nat.mod_eq_of_lt h

theorem armed_put {goals : Goals} {id : GoalId} {goal : Goal} (hfresh : ∀ x ∈ goals, x.1 ≠ id)
    (hlive : goal.state.live = true) (session : SessionId) : Armed (goals.put id goal) session ↔
      Armed goals session ∨ goal.yolo = true ∧ session = goal.session := by
  constructor
  · rintro ⟨x, hx, hs, hyolo, hlive'⟩
    rcases GoalDriver.mem_put.mp hx with ⟨hx, -⟩ | rfl
    · exact Or.inl ⟨x, hx, hs, hyolo, hlive'⟩
    · exact Or.inr ⟨hyolo, hs.symm⟩
  · rintro (⟨x, hx, hs, hyolo, hlive'⟩ | ⟨hyolo, rfl⟩)
    · exact ⟨x, GoalDriver.mem_put.mpr (Or.inl ⟨hx, hfresh x hx⟩), hs, hyolo, hlive'⟩
    · exact ⟨_, GoalDriver.mem_put.mpr (Or.inr rfl), rfl, hyolo, hlive⟩

/-- A new goal: its id and its session are its own. -/
theorem Orderly.createGoal (h : Orderly s) (session : SessionId) (call : ActionId) (args : Json)
    (world : World) (hsession : ∀ x ∈ s.driver.goals, x.2.session ≠ s.driver.nextSessionId)
    (hworker : s.driver.nextSessionId ∉ s.workers) (hid : s.driver.nextGoalId.toNat + 1 < 2 ^ 64) :
    Orderly ⟨(s.driver.createGoal session call args world).1, s.workers⟩ := by
  rw [GoalDriver.createGoal]
  split
  · exact h
  · rename_i objective hobjective
    have hfresh {x : GoalId × Goal} (hx : x ∈ s.driver.goals) : x.1 ≠ s.driver.nextGoalId := by
      rintro heq
      have hlt := h.counted x hx
      rw [heq] at hlt
      exact absurd hlt (Nat.lt_irrefl _)
    have hold {x : GoalId × Goal} (hx : x ∈ s.driver.goals) (g : Goal) :
        x ∈ s.driver.goals.put s.driver.nextGoalId g :=
      GoalDriver.mem_put.mpr (Or.inl ⟨hx, hfresh hx⟩)
    have hnext := toNat_succ_of_lt hid
    have hput (g : Goal) : s.driver.goals.put s.driver.nextGoalId g =
        s.driver.goals ++ [(s.driver.nextGoalId, g)] := by
      rw [Goals.put, List.filter_eq_self.mpr]
      exact fun x hx => decide_eq_true (hfresh hx)
    dsimp only
    refine ⟨⟨?_, ?_, h.distinct.fileIds, h.distinct.fileSessions⟩, fun x hx => ?_, h.file,
      fun x hx => ?_, fun pg hpg => ?_, fun x hx => ?_, fun session => ?_⟩
    · rw [hput, List.map_append, List.map_singleton, ← List.concat_eq_append, List.nodup_concat]
      refine ⟨fun hmem => ?_, h.distinct.ids⟩
      obtain ⟨x, hx, heq⟩ := List.mem_map.mp hmem
      exact hfresh hx heq
    · rw [hput, List.map_append, List.map_singleton, ← List.concat_eq_append, List.nodup_concat]
      refine ⟨fun hmem => ?_, h.distinct.sessions⟩
      obtain ⟨x, hx, heq⟩ := List.mem_map.mp hmem
      exact hsession x hx heq
    · rcases GoalDriver.mem_put.mp hx with ⟨hx, -⟩ | rfl
      · exact h.goals x hx
      · obtain ⟨hfirst, hceil⟩ := parseMaxSteps_bounds args
        exact ⟨le_refl 1, hfirst, hceil, by simp⟩
    · rw [hnext]
      rcases GoalDriver.mem_put.mp hx with ⟨hx, -⟩ | rfl
      · exact Nat.lt_succ_of_lt (h.counted x hx)
      · exact Nat.lt_succ_self _
    · rw [hnext]
      exact Nat.lt_succ_of_lt (h.fileCounted pg hpg)
    · rcases GoalDriver.mem_put.mp hx with ⟨hx, -⟩ | rfl
      · exact h.apart x hx
      · exact hworker
    · dsimp only
      rw [armed_put (fun x hx => hfresh hx) rfl]
      cases yoloGrantPresent args with
      | true =>
        rw [if_pos rfl, Finset.mem_insert, h.yolo session]
        tauto
      | false =>
        rw [if_neg Bool.false_ne_true, h.yolo session]
        simp

theorem mem_reload {d : GoalDriver} {nextSessionId : SessionId} {y : GoalId × Goal}
    (hy : y ∈ (d.restart nextSessionId now).1.goals) : ∃ pg ∈ d.file,
    y = (pg.id, pg.reload now) := by
  obtain ⟨pg, hpg, rfl⟩ := List.mem_map.mp hy
  exact ⟨pg, hpg, rfl⟩

theorem toNat_max (m n : UInt64) : (max m n).toNat = max m.toNat n.toNat := by
  change (if m ≤ n then n else m).toNat = _
  split
  · rename_i hle
    exact (max_eq_right (UInt64.le_iff_toNat_le.mp hle)).symm
  · rename_i hle
    exact (max_eq_left (Nat.le_of_not_le fun h => hle (UInt64.le_iff_toNat_le.mpr h))).symm

/-- The largest id of the file: every id is at most that, and it is below what they are all
below. -/
theorem toNat_foldl_max (l : List PersistedGoal) (n : UInt64) :
    n.toNat ≤ (l.foldl (fun n pg => max n pg.id) n).toNat ∧
    (∀ pg ∈ l, pg.id.toNat ≤ (l.foldl (fun n pg => max n pg.id) n).toNat) ∧
    ∀ m, n.toNat < m → (∀ pg ∈ l, pg.id.toNat < m) →
      (l.foldl (fun n pg => max n pg.id) n).toNat < m := by
  induction l generalizing n with
  | nil => exact ⟨le_refl _, by simp, fun m hm _ => hm⟩
  | cons pg l ih =>
    obtain ⟨hself, hmem, hlt⟩ := ih (max n pg.id)
    rw [toNat_max] at hself hlt
    refine ⟨(le_max_left _ _).trans hself, ?_, fun m hm hids => ?_⟩
    · rintro pg' (_ | ⟨_, hpg'⟩)
      · exact (le_max_right _ _).trans hself
      · exact hmem pg' hpg'
    · exact hlt m (max_lt hm (hids pg (by simp))) fun pg' hpg' => hids pg' (by simp [hpg'])

/-- What comes back armed is what comes back live. -/
theorem armed_iff_live {pg : PersistedGoal} (h : InOrder pg.state pg.step pg.maxSteps) :
    pg.armed = true ↔ (pg.reload now).yolo = true ∧ (pg.reload now).state.live = true := by
  have hused := (h.reload : InOrder (pg.reload now).state _ _).used
  change (pg.yolo && decide (pg.reloadedState ∉ _)) = true ↔ pg.yolo = true ∧ _
  change pg.reloadedState ≠ .planning ∧ pg.reloadedState ≠ .reflecting at hused
  change _ ↔ _ ∧ pg.reloadedState.live = true
  cases hstate : pg.reloadedState <;> simp_all [GoalState.live]

/-- A restart: the file is the book, and it is in order. -/
theorem Orderly.restart (h : Orderly s) (nextSessionId : SessionId) (now : ℕ) :
    Orderly ⟨(s.driver.restart nextSessionId now).1, ∅⟩ := by
  obtain ⟨-, hle, hlt⟩ := toNat_foldl_max s.driver.file 0
  have hbound :
      (s.driver.file.foldl (fun n (pg : PersistedGoal) => max n pg.id) 0).toNat + 1 < 2 ^ 64 := by
    have hmax :
        (s.driver.file.foldl (fun n (pg : PersistedGoal) => max n pg.id) 0).toNat < 2 ^ 64 - 1 := by
      refine hlt (2 ^ 64 - 1) (by decide) fun pg hpg => ?_
      exact Nat.lt_of_lt_of_le (h.fileCounted pg hpg) (Nat.le_pred_of_lt (UInt64.toNat_lt _))
    omega
  have hcounted {pg : PersistedGoal} (hpg : pg ∈ s.driver.file) :
      pg.id.toNat < (s.driver.restart nextSessionId now).1.nextGoalId.toNat := by
    rw [GoalDriver.restart, toNat_max, toNat_succ_of_lt hbound]
    exact Nat.lt_of_le_of_lt (hle pg hpg)
      (Nat.lt_of_lt_of_le (Nat.lt_succ_self _) (le_max_right _ _))
  refine ⟨⟨?_, ?_, h.distinct.fileIds, h.distinct.fileSessions⟩, fun y hy => ?_, h.file,
    fun y hy => ?_, fun pg hpg => hcounted hpg, fun _ _ => Finset.notMem_empty _, fun session => ?_⟩
  · rw [GoalDriver.restart, List.map_map]
    exact h.distinct.fileIds
  · rw [GoalDriver.restart, List.map_map]
    exact h.distinct.fileSessions
  · obtain ⟨pg, hpg, rfl⟩ := mem_reload hy
    exact (h.file pg hpg).reload
  · obtain ⟨pg, hpg, rfl⟩ := mem_reload hy
    exact hcounted hpg
  · rw [or_iff_right (Finset.notMem_empty _)]
    simp only [GoalDriver.restart, List.mem_toFinset, List.mem_map, List.mem_filter]
    constructor
    · rintro ⟨pg, ⟨hpg, harmed⟩, rfl⟩
      obtain ⟨hyolo, hlive⟩ := (armed_iff_live (h.file pg hpg)).mp harmed
      exact ⟨_, List.mem_map.mpr ⟨pg, hpg, rfl⟩, rfl, hyolo, hlive⟩
    · rintro ⟨y, hy, rfl, hyolo, hlive⟩
      obtain ⟨pg, hpg, rfl⟩ := List.mem_map.mp hy
      exact ⟨pg, ⟨hpg, (armed_iff_live (h.file pg hpg)).mpr ⟨hyolo, hlive⟩⟩, rfl⟩

/-- **Every input keeps the book in order.** -/
theorem Orderly.step (h : Orderly s) {i : Input} (hi : s.Allots i) : Orderly (s.step i).1 := by
  cases i with
  | goal input =>
    cases input with
    | request session call world =>
      by_cases hcall : call.tool = "goal_create"
      · obtain ⟨hsession, hworker, hid⟩ := hi hcall
        have hcreate := h.createGoal session call.id call.args world hsession hworker hid
        simp only [Shared.step, GoalDriver.react, GoalDriver.request, hcall, if_true]
        exact hcreate.saveGoals world.disk
      · exact h.works (GoalDriver.request_works hcall)
    | event e world =>
      cases e with
      | tick => exact h.tick world
      | restart nextSessionId => exact h.restart nextSessionId world.now
      | _ => exact h.works (GoalDriver.step_works (by simp) (by simp))
  | armed session =>
    refine ⟨h.distinct.of_eq rfl rfl, h.goals, h.file, h.counted, h.fileCounted, fun x hx => ?_,
      fun session' => ?_⟩
    · simpa [Shared.step] using ⟨hi x hx, h.apart x hx⟩
    · simp [Shared.step, h.yolo, or_assoc]
  | disarmed session =>
    refine ⟨h.distinct.of_eq rfl rfl, h.goals, h.file, h.counted, h.fileCounted, fun x hx => ?_,
      fun session' => ?_⟩
    · exact fun hmem => h.apart x hx (Finset.mem_of_mem_erase hmem)
    · simp only [Shared.step, Finset.mem_erase, h.yolo]
      constructor
      · tauto
      · rintro (⟨hne, hworker⟩ | harmed)
        · exact ⟨hne, Or.inl hworker⟩
        · refine ⟨?_, Or.inr harmed⟩
          rintro rfl
          obtain ⟨x, hx, hs, -⟩ := harmed
          exact hi x hx hs

/-! ### Ends and directives -/

theorem acting_of_stalled {g : Goal} (h : d.stalled now g = true) : g.state = .acting := by
  rw [GoalDriver.stalled, Bool.and_eq_true, Bool.and_eq_true] at h
  exact beq_iff_eq.mp h.1.1

theorem snd_saveIfChanged (r : GoalDriver × List Emit) (disk : DiskWrite) :
    (GoalDriver.saveIfChanged r disk).2 = r.2 := (GoalDriver.maybeSaved_saveIfChanged r disk).2

theorem goals_saveIfChanged (r : GoalDriver × List Emit) (disk : DiskWrite) :
    (GoalDriver.saveIfChanged r disk).1.goals = r.1.goals := by
  rcases (GoalDriver.maybeSaved_saveIfChanged r disk).1 with h | ⟨disk', h⟩
  · rw [h]
  · rw [h]
    cases disk' <;> rfl

/-- No deed touches a goal that has ended. -/
theorem lasting_works (hd : d.Distinct) {d' : GoalDriver} {emits : List Emit}
    (hworks : GoalDriver.Works now d d' emits) {x y : GoalId × Goal} (hx : x ∈ d.goals)
    (hended : x.2.state.ended = true) (hy : y ∈ d'.goals) (hsession : y.2.session = x.2.session) :
    y.2.state = x.2.state := by
  obtain ⟨d₁, d₂, hbook, hdeed, hsaved⟩ := hworks
  have hy₂ : y ∈ d₂.goals := by
    rcases hsaved with rfl | ⟨disk, rfl⟩
    · exact hy
    · cases disk <;> exact hy
  rw [← hbook.goals] at hx
  have hd₁ : d₁.Distinct := hd.of_eq hbook.goals hbook.file
  have hsame (hy : y ∈ d₁.goals) : y.2.state = x.2.state := by
    rw [hd₁.eq_of_session hy hx hsession]
  cases hdeed with
  | idle => exact hsame hy₂
  | one hz hlife =>
    rename_i z f
    rcases GoalDriver.mem_modify.mp hy₂ with ⟨v, hv, hid, rfl⟩ | ⟨hy, -⟩
    · obtain rfl := hd₁.eq_of_id hv hz hid
      obtain rfl := hd₁.eq_of_session hv hx (hlife.session.symm.trans hsession)
      rw [hlife.not_ended] at hended
      cases hended
    · exact hsame hy

theorem Orderly.lasting (h : Orderly s) {i : Input} (hi : s.Allots i) (hold : s.Remembers i) :
    s.Lasting i := by
  intro x hx hended y hy hsession
  cases i with
  | goal input =>
    cases input with
    | request session call world =>
      by_cases hcall : call.tool = "goal_create"
      · obtain ⟨hfresh, -, -⟩ := hi hcall
        simp only [Shared.step, GoalDriver.react, GoalDriver.request, hcall, if_true] at hy
        have hy' : y ∈ (s.driver.createGoal session call.id call.args world).1.goals := by
          cases hdisk : world.disk <;> rw [hdisk] at hy <;> exact hy
        rw [GoalDriver.createGoal] at hy'
        split at hy'
        · rw [h.distinct.eq_of_session hy' hx hsession]
        · rcases GoalDriver.mem_put.mp hy' with ⟨hy', -⟩ | rfl
          · rw [h.distinct.eq_of_session hy' hx hsession]
          · exact absurd hsession.symm (hfresh x hx)
      · exact lasting_works h.distinct (GoalDriver.request_works hcall) hx hended hy hsession
    | event e world =>
      cases e with
      | restart nextSessionId =>
        obtain ⟨pg, hpg, rfl⟩ := mem_reload hy
        have hstate := hold rfl x hx hended pg hpg hsession
        change pg.reloadedState = x.2.state
        rw [PersistedGoal.reloadedState, if_neg, hstate]
        rintro hacting
        rw [← hstate, hacting] at hended
        cases hended
      | tick =>
        have hy' : y ∈ (s.driver.failStalled world.now).1.goals := by
          rw [← goals_saveIfChanged _ world.disk]
          exact hy
        rcases mem_failStalled.mp hy' with ⟨z, hz, hstalled, rfl⟩ | ⟨hy', -⟩
        · obtain rfl := h.distinct.eq_of_session hz hx hsession
          rw [acting_of_stalled hstalled] at hended
          cases hended
        · rw [h.distinct.eq_of_session hy' hx hsession]
      | _ =>
        exact lasting_works h.distinct (GoalDriver.step_works (by simp) (by simp)) hx hended hy
          hsession
  | armed session => rw [h.distinct.eq_of_session hy hx hsession]
  | disarmed session => rw [h.distinct.eq_of_session hy hx hsession]

/-- A turn that ends its goal, or parks it, leaves no goal of the session acting. -/
theorem not_acting_finish (hd : d.Distinct) {id : GoalId} {goal : Goal}
    (hmem : (id, goal) ∈ d.goals) {state : GoalState} (hstate : state ≠ .acting) (detail : String)
    {y : GoalId × Goal} (hy : y ∈ (d.finish id goal state detail).1.goals)
    (hsession : y.2.session = goal.session) : y.2.state ≠ .acting := by
  have hy' : y ∈ d.goals.modify id fun g => { g with state := state, pending := none } := by
    rw [GoalDriver.finish] at hy
    split at hy <;> exact hy
  rcases GoalDriver.mem_modify.mp hy' with ⟨x, -, -, rfl⟩ | ⟨hy', hid⟩
  · exact hstate
  · exact absurd (congrArg Prod.fst (hd.eq_of_session hy' hmem hsession)) hid

theorem directs_advance (hd : d.Distinct) (session : SessionId) (now : ℕ)
    (hacting : ∃ x ∈ (d.advance session now).1.goals, x.2.session = session ∧
      x.2.state = .acting) : ∃ objective step maxSteps steer,
    prompts (d.advance session now).2 = [(session, .next objective step maxSteps steer)] := by
  obtain ⟨y, hy, hsession, hstate⟩ := hacting
  revert hy
  rw [GoalDriver.advance]
  split
  · rename_i hnone
    intro hy
    have hno := List.find?_eq_none.mp hnone y hy
    exact absurd (decide_eq_true ⟨hsession, hstate⟩) hno
  · rename_i id goal hgoal
    obtain ⟨hmem, hgs, -⟩ := GoalDriver.mem_of_acting? hgoal
    have hown : y.2.session = goal.session := hsession.trans hgs.symm
    split
    · exact fun hy => absurd hstate (not_acting_finish hd hmem (by simp) _ hy hown)
    · exact fun hy => absurd hstate (not_acting_finish hd hmem (by simp) _ hy hown)
    · split
      · exact fun hy => absurd hstate (not_acting_finish hd hmem (by simp) _ hy hown)
      · exact fun _ => ⟨_, _, _, _, rfl⟩

theorem Orderly.directs (h : Orderly s) (i : Input) : s.Directs i := by
  unfold Directs
  split
  · rename_i session world
    refine ⟨fun hpending => ?_, fun hempty => ?_⟩
    · rw [GoalDriver.step, if_pos hpending, snd_saveIfChanged, GoalDriver.holdAwaitingBatch]
      split
      · rfl
      · split <;> rfl
    · rw [GoalDriver.step, if_neg (Finset.not_nonempty_iff_eq_empty.mpr hempty), snd_saveIfChanged,
        goals_saveIfChanged]
      exact directs_advance h.distinct session world.now
  · trivial

/-! ### Whole runs -/

/-- A new installation. -/
def fresh (nextSessionId : SessionId) (stepTimeout : ℕ) : Shared :=
  ⟨GoalDriver.new nextSessionId stepTimeout, ∅⟩

theorem orderly_fresh (nextSessionId : SessionId) (stepTimeout : ℕ) :
    Orderly (fresh nextSessionId stepTimeout) := by
  refine ⟨⟨List.nodup_nil, List.nodup_nil, List.nodup_nil, List.nodup_nil⟩,
    (fun _ h => nomatch h), (fun _ h => nomatch h), (fun _ h => nomatch h), (fun _ h => nomatch h),
    (fun _ h => nomatch h), fun session => ?_⟩
  simp [fresh, GoalDriver.new, Armed]

/-- **The book is in order throughout**, in every run of a new installation, restarts included, in
which ids are handed out once; a turn that completes sends the one directive it should; and a goal
that has ended stays so, where no restart finds it in an older state. -/
theorem law_of_allots (nextSessionId : SessionId) (stepTimeout : ℕ) (inputs : List Input)
    (h : Run.Always step (fresh nextSessionId stepTimeout) (fun _ s i => s.Allots i) inputs) :
    Run.Always step (fresh nextSessionId stepTimeout)
      (fun _ s i => (s.step i).1.Law ∧ s.Directs i ∧ (s.Remembers i → s.Lasting i)) inputs :=
  Run.Always.of_invariant (I := fun _ s => Orderly s) (orderly_fresh nextSessionId stepTimeout)
    (fun _ _ _ hs hi => hs.step hi)
    (fun _ _ i hs hi => ⟨(hs.step hi).law, hs.directs i, fun hold => hs.lasting hi hold⟩) h

/-- A goal is created and done in one step; the write at the end of the turn has this fate. Then the
process starts again. -/
def doneAtOnce (disk : DiskWrite) : List Input :=
  [.goal
    (.request 1 ⟨1, "goal_create", .object [("objective", .string "survey")]⟩ ⟨0, none, .stored⟩),
    .goal (.request 7 ⟨2, "goal_step", .object [("status", .string "done")]⟩ ⟨0, none, .stored⟩),
    .goal (.event (.turnComplete 7) ⟨0, none, disk⟩),
    .goal (.event (.restart 9) ⟨0, none, .stored⟩)]

theorem allots_doneAtOnce (disk : DiskWrite) :
    Run.Always step (fresh 7 900) (fun _ s i => s.Allots i) (doneAtOnce disk) := by
  simp only [doneAtOnce, Run.always_cons]
  refine ⟨fun _ => ⟨fun x hx => (by cases hx), Finset.notMem_empty _, by decide⟩, ?_, trivial,
    trivial, Run.Always.nil⟩
  exact fun hcall => absurd hcall (by decide)

theorem law_doneAtOnce :
    Run.Always step (fresh 7 900) (fun _ s i => s.Allots i) (doneAtOnce .stored) ∧
      Run.Always step (fresh 7 900)
        (fun _ s i => (s.step i).1.Law ∧ s.Directs i ∧ (s.Remembers i → s.Lasting i))
        (doneAtOnce .stored) :=
  ⟨allots_doneAtOnce .stored, law_of_allots 7 900 _ (allots_doneAtOnce .stored)⟩

/-- The write fails: the restart finds the goal acting, and parks it. -/
theorem not_lasting_doneAtOnce :
    Run.Always step (fresh 7 900) (fun _ s i => s.Allots i) (doneAtOnce .failed) ∧
      ¬ Run.Always step (fresh 7 900) (fun _ s i => s.Lasting i) (doneAtOnce .failed) := by
  refine ⟨allots_doneAtOnce .failed, fun h => ?_⟩
  have hlast := h _ _ [] (show doneAtOnce .failed = [_, _, _] ++ _ :: [] from rfl)
  have hbefore : (Run.final step (fresh 7 900) ((doneAtOnce .failed).take 3)).driver.goals =
      [(1, ⟨"survey", 7, .done, 1, 12, 0, none, none, false, false⟩)] := by
    rfl
  have hafter : (Run.final step (fresh 7 900) (doneAtOnce .failed)).driver.goals =
      [(1, ⟨"survey", 7, .blocked, 1, 12, 0, none, none, false, false⟩)] := by
    rfl
  have hstate := hlast (1, ⟨"survey", 7, .done, 1, 12, 0, none, none, false, false⟩)
    (hbefore ▸ List.mem_singleton_self _) rfl
    (1, ⟨"survey", 7, .blocked, 1, 12, 0, none, none, false, false⟩)
    (hafter ▸ List.mem_singleton_self _) rfl
  cases hstate

end Shared

/-! ### Episodes -/

namespace GoalDriver

/-- The episodes that have been closed. -/
def closed (past : List (Input × List Emit)) : List String := past.flatMap fun x => closings x.2

/-- **An episode is closed once**, and when its goal has come to an end. -/
structure ClosedOnce (past : List (Input × List Emit)) (d : GoalDriver) (i : Input) : Prop where
  once : (closed past ++ closings (d.react i).2).Nodup
  ended : ∀ e ∈ closings (d.react i).2, ∃ x ∈ d.goals, x.2.episode = some e ∧
    ∃ y ∈ (d.react i).1.goals, y.1 = x.1 ∧ y.2.state.ended = true

/-- Cerebro opens a new episode for a new goal. -/
def OpensNew (past : List (Input × List Emit)) (d : GoalDriver) : Input → Prop
  | .request _ call world => call.tool = "goal_create" → ∀ e, world.episode = some e →
    e ∉ closed past ∧ ∀ x ∈ d.goals, x.2.episode ≠ some e
  | .event .. => True

/-- No goal that has an episode stalls, and no restart finds a goal whose episode is closed in a
state from before its end. -/
def Settles (past : List (Input × List Emit)) (d : GoalDriver) : Input → Prop
  | .event .tick world => ∀ x ∈ d.goals, d.stalled world.now x.2 = true → x.2.episode = none
  | .event (.restart _) _ => ∀ pg ∈ d.file, ∀ e, pg.episode = some e → e ∈ closed past →
    pg.state.ended = true
  | _ => True

/-- Every goal has an id and an episode of its own. -/
structure Own {α : Type} (goals : List α) (id : α → GoalId)
    (episode : α → Option String) : Prop where
  ids : (goals.map id).Nodup
  episodes : ∀ x ∈ goals, ∀ y ∈ goals, ∀ e, episode x = some e → episode y = some e → id x = id y

/-- The book, and what has been closed. -/
structure Kept (done : List String) (d : GoalDriver) : Prop where
  once : done.Nodup
  book : Own d.goals Prod.fst fun x => x.2.episode
  file : Own d.file PersistedGoal.id PersistedGoal.episode
  ended : ∀ x ∈ d.goals, ∀ e, x.2.episode = some e → e ∈ done → x.2.state.ended = true

section Kept

variable {done : List String} {d d' : GoalDriver} {now : ℕ} {emits : List Emit}

theorem Kept.sameBook (h : Kept done d) (hbook : SameBook d d') : Kept done d' := by
  refine ⟨h.once, ?_, ?_, ?_⟩
  · rw [hbook.goals]
    exact h.book
  · rw [hbook.file]
    exact h.file
  · rw [hbook.goals]
    exact h.ended

theorem Kept.saveGoals (h : Kept done d) (disk : DiskWrite) : Kept done (d.saveGoals disk) := by
  cases disk with
  | stored =>
    refine ⟨h.once, h.book, ⟨?_, ?_⟩, h.ended⟩
    · simpa [GoalDriver.saveGoals, List.map_map, Function.comp_def, persist] using h.book.ids
    · intro pg hpg pg' hpg' e he he'
      obtain ⟨x, hx, rfl⟩ := List.mem_map.mp hpg
      obtain ⟨y, hy, rfl⟩ := List.mem_map.mp hpg'
      exact h.book.episodes x hx y hy e he he'
  | failed => exact h
  | torn =>
    exact ⟨h.once, h.book, ⟨List.nodup_nil, fun _ hpg => absurd hpg List.not_mem_nil⟩, h.ended⟩

theorem Kept.maybeSaved (h : Kept done d) (hsaved : MaybeSaved d d') : Kept done d' := by
  rcases hsaved with rfl | ⟨disk, rfl⟩
  · exact h
  · exact h.saveGoals disk

theorem Own.eq_of_id {goals : Goals} {x y : GoalId × Goal}
    (h : Own goals Prod.fst fun x => x.2.episode) (hx : x ∈ goals) (hy : y ∈ goals)
    (heq : x.1 = y.1) : x = y :=
  List.inj_on_of_nodup_map h.ids hx hy heq

/-- What one goal's change closes was open, and the goal has ended. -/
theorem Kept.one (h : Kept done d) {x : GoalId × Goal} {f : Goal → Goal} (hx : x ∈ d.goals)
    (hlife : Life now x.2 (f x.2)) (yolo : Finset SessionId) :
    Kept (done ++ closedBy x.2 (f x.2)) { d with goals := d.goals.modify x.1 f, yolo := yolo } := by
  have hopen {e : String} (he : x.2.episode = some e) : e ∉ done := by
    intro hmem
    have hended := h.ended x hx e he hmem
    rw [hlife.not_ended] at hended
    cases hended
  have hclosed {e : String} (he : e ∈ closedBy x.2 (f x.2)) :
      x.2.episode = some e ∧ (f x.2).state.ended = true := by
    rw [closedBy] at he
    split at he
    · exact ⟨Option.mem_toList.mp he, ‹_›⟩
    · cases he
  have hmem {y : GoalId × Goal} (hy : y ∈ d.goals.modify x.1 f) :
      y = (x.1, f x.2) ∨ y ∈ d.goals ∧ y.1 ≠ x.1 := by
    rcases mem_modify.mp hy with ⟨z, hz, hid, rfl⟩ | hy
    · obtain rfl := h.book.eq_of_id hz hx hid
      exact Or.inl rfl
    · exact Or.inr hy
  refine ⟨?_, ⟨?_, ?_⟩, h.file, ?_⟩
  · refine List.nodup_append.mpr ⟨h.once, ?_, ?_⟩
    · rw [closedBy]
      split
      · cases x.2.episode <;> simp
      · exact List.nodup_nil
    · rintro e he _ he' rfl
      exact hopen (hclosed he').1 he
  · have hids : (d.goals.modify x.1 f).map Prod.fst = d.goals.map Prod.fst := by
      rw [Goals.modify, List.map_map]
      refine List.map_congr_left fun y _ => ?_
      simp only [Function.comp]
      split <;> rfl
    rw [hids]
    exact h.book.ids
  · have hold {y : GoalId × Goal} {e : String} (hy : y ∈ d.goals.modify x.1 f)
        (he : y.2.episode = some e) : ∃ z ∈ d.goals, z.1 = y.1 ∧ z.2.episode = some e := by
      rcases hmem hy with rfl | ⟨hy, -⟩
      · exact ⟨x, hx, rfl, hlife.episode he⟩
      · exact ⟨y, hy, rfl, he⟩
    intro y hy z hz e he he'
    obtain ⟨y', hy', hid, hye⟩ := hold hy he
    obtain ⟨z', hz', hid', hze⟩ := hold hz he'
    exact hid.symm.trans ((h.book.episodes y' hy' z' hz' e hye hze).trans hid')
  · intro y hy e he hdone
    rcases List.mem_append.mp hdone with hdone | hnew
    · rcases hmem hy with rfl | ⟨hy, -⟩
      · exact absurd hdone (hopen (hlife.episode he))
      · exact h.ended y hy e he hdone
    · obtain ⟨hxe, hended⟩ := hclosed hnew
      rcases hmem hy with rfl | ⟨hy, hne⟩
      · exact hended
      · exact absurd (h.book.episodes y hy x hx e he hxe) hne

/-- What is closed in one step, with what it leaves. -/
structure Closes (done : List String) (d d' : GoalDriver) (emits : List Emit) : Prop where
  kept : Kept (done ++ closings emits) d'
  ended : ∀ e ∈ closings emits, ∃ x ∈ d.goals, x.2.episode = some e ∧
    ∃ y ∈ d'.goals, y.1 = x.1 ∧ y.2.state.ended = true

theorem Closes.of_nil (h : Kept done d') (hnil : closings emits = []) : Closes done d d' emits := by
  refine ⟨?_, ?_⟩
  · rwa [hnil, List.append_nil]
  · rw [hnil]
    exact fun _ he => nomatch he

theorem Closes.maybeSaved {d₁ : GoalDriver} (h : Closes done d d₁ emits)
    (hsaved : MaybeSaved d₁ d') :
    Closes done d d' emits := by
  refine ⟨h.kept.maybeSaved hsaved, fun e he => ?_⟩
  obtain ⟨x, hx, hxe, y, hy, hy'⟩ := h.ended e he
  refine ⟨x, hx, hxe, y, ?_, hy'⟩
  rcases hsaved with rfl | ⟨disk, rfl⟩
  · exact hy
  · cases disk <;> exact hy

theorem Kept.works (h : Kept done d) (hworks : Works now d d' emits) : Closes done d d' emits := by
  obtain ⟨d₁, d₂, hbook, hdeed, hsaved⟩ := hworks
  have h₁ := h.sameBook hbook
  cases hdeed with
  | idle hclosed => exact .of_nil (h₁.maybeSaved hsaved) hclosed
  | one hx hlife hclosed =>
    rename_i x f
    refine Closes.maybeSaved ⟨?_, fun e he => ?_⟩ hsaved
    · rw [hclosed]
      exact h₁.one hx hlife _
    · rw [hclosed, closedBy] at he
      split at he
      · rename_i hended
        exact ⟨x, hbook.goals ▸ hx, Option.mem_toList.mp he, (x.1, f x.2),
          mem_modify.mpr (Or.inl ⟨x, hx, rfl, rfl⟩), rfl, hended⟩
      · cases he

theorem Kept.createGoal (h : Kept done d) (session : SessionId) (call : ActionId) (args : Json)
    (world : World) (hnew : ∀ e, world.episode = some e → e ∉ done ∧
      ∀ x ∈ d.goals, x.2.episode ≠ some e) :
    Closes done d (d.createGoal session call args world).1
      (d.createGoal session call args world).2 := by
  rw [GoalDriver.createGoal]
  split
  · exact .of_nil h rfl
  · dsimp only
    refine .of_nil ⟨h.once, ⟨?_, ?_⟩, h.file, ?_⟩ rfl
    · rw [Goals.put, List.map_append, List.map_singleton, ← List.concat_eq_append,
        List.nodup_concat]
      refine ⟨fun hmem => ?_, h.book.ids.sublist (List.filter_sublist.map _)⟩
      obtain ⟨x, hx, hid⟩ := List.mem_map.mp hmem
      simpa [hid] using (List.mem_filter.mp hx).2
    · intro x hx y hy e hxe hye
      rcases mem_put.mp hx with ⟨hx, -⟩ | rfl <;> rcases mem_put.mp hy with ⟨hy, -⟩ | rfl
      · exact h.book.episodes x hx y hy e hxe hye
      · exact absurd hxe ((hnew e hye).2 x hx)
      · exact absurd hye ((hnew e hxe).2 y hy)
      · rfl
    · intro x hx e he hdone
      rcases mem_put.mp hx with ⟨hx, -⟩ | rfl
      · exact h.ended x hx e he hdone
      · exact absurd hdone (hnew e he).1

/-- Goals without an episode stall: nothing is closed. -/
theorem Kept.failStalled (h : Kept done d)
    (hnone : ∀ x ∈ d.goals, d.stalled now x.2 = true → x.2.episode = none) :
    Closes done d (d.failStalled now).1 (d.failStalled now).2 := by
  have hold {y : GoalId × Goal} {e : String} (hy : y ∈ (d.failStalled now).1.goals)
      (he : y.2.episode = some e) : y ∈ d.goals := by
    rcases Shared.mem_failStalled.mp hy with ⟨x, hx, hstalled, rfl⟩ | ⟨hy, -⟩
    · have hx' : x.2.episode = some e := he
      rw [hnone x hx hstalled] at hx'
      cases hx'
    · exact hy
  refine .of_nil ⟨h.once, ⟨?_, ?_⟩, h.file, ?_⟩ ?_
  · have hids : (d.failStalled now).1.goals.map Prod.fst = d.goals.map Prod.fst := by
      rw [GoalDriver.failStalled, List.map_map]
      refine List.map_congr_left fun y _ => ?_
      simp only [Function.comp]
      split <;> rfl
    rw [hids]
    exact h.book.ids
  · exact fun x hx y hy e hxe hye => h.book.episodes x (hold hx hxe) y (hold hy hye) e hxe hye
  · exact fun x hx e he hdone => h.ended x (hold hx he) e he hdone
  · refine List.filterMap_eq_nil_iff.mpr fun emit hemit => ?_
    obtain ⟨x, hx, hemit⟩ := List.mem_flatMap.mp hemit
    obtain ⟨hx, hstalled⟩ := List.mem_filter.mp hx
    rw [hnone x hx hstalled] at hemit
    rw [List.mem_singleton.mp hemit]
    rfl

theorem closings_map_emitState (goals : Goals) (detail : GoalId × Goal → String) :
    closings (goals.map fun x => emitState x.1 x.2 (detail x)) = [] :=
  List.filterMap_eq_nil_iff.mpr fun e he => by
    obtain ⟨x, -, rfl⟩ := List.mem_map.mp he
    rfl

theorem Kept.restart (h : Kept done d) (nextSessionId : SessionId)
    (hended : ∀ pg ∈ d.file, ∀ e, pg.episode = some e → e ∈ done → pg.state.ended = true) :
    Closes done d (d.restart nextSessionId now).1 (d.restart nextSessionId now).2 := by
  refine .of_nil ⟨h.once, ⟨?_, ?_⟩, h.file, ?_⟩ (closings_map_emitState _ _)
  · rw [GoalDriver.restart, List.map_map]
    exact h.file.ids
  · intro x hx y hy e hxe hye
    obtain ⟨pg, hpg, rfl⟩ := Shared.mem_reload hx
    obtain ⟨pg', hpg', rfl⟩ := Shared.mem_reload hy
    exact h.file.episodes pg hpg pg' hpg' e hxe hye
  · intro x hx e he hdone
    obtain ⟨pg, hpg, rfl⟩ := Shared.mem_reload hx
    have hstate := hended pg hpg e he hdone
    change pg.reloadedState.ended = true
    rw [PersistedGoal.reloadedState, if_neg, hstate]
    intro hacting
    rw [hacting] at hstate
    cases hstate

/-- **One input closes what was open**, of goals that come to an end. -/
theorem Kept.react {past : List (Input × List Emit)} (h : Kept (closed past) d) {i : Input}
    (hopens : OpensNew past d i) (hsettles : Settles past d i) :
    Closes (closed past) d (d.react i).1 (d.react i).2 := by
  cases i with
  | request session call world =>
    by_cases hcall : call.tool = "goal_create"
    · have hcreate := h.createGoal session call.id call.args world (hopens hcall)
      simp only [GoalDriver.react, GoalDriver.request, hcall, if_true]
      exact hcreate.maybeSaved (Or.inr ⟨world.disk, rfl⟩)
    · exact h.works (request_works hcall)
  | event e world =>
    cases e with
    | tick =>
      obtain ⟨hsaved, hemits⟩ := maybeSaved_saveIfChanged (d.failStalled world.now) world.disk
      rw [GoalDriver.react, GoalDriver.step, hemits]
      exact (h.failStalled hsettles).maybeSaved hsaved
    | restart nextSessionId => exact h.restart nextSessionId hsettles
    | _ => exact h.works (step_works (by simp) (by simp))

end Kept

theorem closed_concat (past : List (Input × List Emit)) (x : Input × List Emit) :
    closed (past ++ [x]) = closed past ++ closings x.2 := by
  simp [closed]

/-- **Every episode is closed once**, and when its goal has come to an end, in every run of a new
installation in which Cerebro opens new episodes, no goal that has an episode stalls, and no restart
finds a goal whose episode is closed in a state from before its end. -/
theorem closedOnce_of_settles (nextSessionId : SessionId) (stepTimeout : ℕ) (inputs : List Input)
    (h : Run.Always react (new nextSessionId stepTimeout)
      (fun past d i => OpensNew past d i ∧ Settles past d i) inputs) :
    Run.Always react (new nextSessionId stepTimeout)
    (fun past d i => ClosedOnce past d i) inputs := by
  refine Run.Always.of_invariant (I := fun past d => Kept (closed past) d) ?_ ?_ ?_ h
  · exact ⟨List.nodup_nil, ⟨List.nodup_nil, fun _ h => nomatch h⟩,
      ⟨List.nodup_nil, fun _ h => nomatch h⟩, fun _ h => nomatch h⟩
  · rintro past d i hkept ⟨hopens, hsettles⟩
    rw [closed_concat]
    exact (hkept.react hopens hsettles).kept
  · rintro past d i hkept ⟨hopens, hsettles⟩
    have hcloses := hkept.react hopens hsettles
    exact ⟨hcloses.kept.once, hcloses.ended⟩

/-- A goal with an episode is created, and is done in its first step. -/
def oneStep : List Input :=
  [.request 1 ⟨1, "goal_create", .object [("objective", .string "survey")]⟩
      ⟨0, some "ep", .stored⟩,
    .request 7 ⟨2, "goal_step", .object [("status", .string "done")]⟩ ⟨0, none, .stored⟩,
    .event (.turnComplete 7) ⟨0, none, .stored⟩]

theorem closedOnce_oneStep :
    Run.Always react (new 7 900) (fun past d i => OpensNew past d i ∧ Settles past d i) oneStep ∧
      Run.Always react (new 7 900) (fun past d i => ClosedOnce past d i) oneStep := by
  have hsettles : Run.Always react (new 7 900)
      (fun past d i => OpensNew past d i ∧ Settles past d i) oneStep := by
    simp only [oneStep, Run.always_cons]
    refine ⟨⟨fun _ e _ => ⟨List.not_mem_nil, fun x hx => (by cases hx)⟩, trivial⟩,
      ⟨fun hcall => absurd hcall (by decide), trivial⟩, ⟨trivial, trivial⟩, Run.Always.nil⟩
  exact ⟨hsettles, closedOnce_of_settles 7 900 oneStep hsettles⟩

/-- The goal stalls, is resumed, and is done. -/
def stalledOnce : List Input :=
  [.request 1 ⟨1, "goal_create", .object [("objective", .string "survey")]⟩
      ⟨0, some "ep", .stored⟩,
    .event .tick ⟨1000, none, .stored⟩,
    .request 1 ⟨2, "goal_resume", .object [("goal_id", .number (.posInt 1))]⟩ ⟨1000, none, .stored⟩,
    .request 7 ⟨3, "goal_step", .object [("status", .string "done")]⟩ ⟨1000, none, .stored⟩,
    .event (.turnComplete 7) ⟨1000, none, .stored⟩]

/-- Its episode is closed when it stalls, and again when it is done. -/
theorem not_closedOnce_stalledOnce :
    Run.Always react (new 7 900) (fun past d i => OpensNew past d i) stalledOnce ∧
      ¬ Run.Always react (new 7 900) (fun past d i => ClosedOnce past d i) stalledOnce := by
  refine ⟨?_, fun h => ?_⟩
  · simp only [stalledOnce, Run.always_cons]
    exact ⟨fun _ e _ => ⟨List.not_mem_nil, fun x hx => (by cases hx)⟩, trivial,
      fun hcall => absurd hcall (by decide), fun hcall => absurd hcall (by decide), trivial,
      Run.Always.nil⟩
  · have hlast := (h _ _ [] (show stalledOnce = [_, _, _, _] ++ _ :: [] from rfl)).once
    exact absurd hlast (by decide +kernel)

end GoalDriver

end ApexOS.Agentd
