import ApexOS.Agentd.Goal

/-!
# Who grants autonomy

The supervisor's gate, the goal driver and the yolo set they share, as one node. A session in the
set is not asked before its tools run, so the law is that a human put it there: the `goal_create`
that made the session carried `yolo: true` and an operator granted it, or the node as a whole was
in yolo mode when it was dispatched.

A call reaches the goal driver in two steps: the gate sends it off, and the driver receives it,
possibly after others sent later. Workers are here as far as the set goes: a session fans one out,
which may inherit what the session has, and the worker driver arms it while it is resident.

Of the four ways to be dispatched, two stamp the call and two do not. A call that goal-scoped yolo
lets through keeps the `__yolo_granted` its model wrote, and `create_goal` takes that for the
supervisor's stamp.

## Main definitions

* `Node`, `Node.Event`, `Node.step`: the node
* `Granted`, `GrantedGoal`, `Rooted`: a call, a goal, a session with a human behind it
* `Node.Law`: the law, in one state of a run
* `Node.Leaks`: goal-scoped yolo lets through a `goal_create` that carries a grant key

## Main results

* `Node.autonomy_is_granted_iff`: the law holds throughout a run exactly when no request leaks
-/

namespace ApexOS.Agentd

/-- A worker, as far as the yolo set goes. -/
structure Worker where
  session : SessionId
  yolo : Bool
  deriving DecidableEq, Repr

/-- The node. -/
structure Node where
  pending : PendingApprovals
  policy : PolicyConfig
  driver : GoalDriver
  /-- Calls on their way to the goal driver. -/
  inFlight : List (SessionId × ToolCall)
  workers : List Worker

/-- What the rest of the world answers while a request is decided. -/
structure Surroundings where
  plugin : Option String
  inWorkspace : String → Bool
  hook : Option String → ToolHookResult
  nonce : Nonce
  /-- `tool_available`. -/
  available : Bool

namespace Node

/-- A node with nothing on it yet. -/
def init (policy : PolicyConfig) : Node where
  pending _ := none
  policy := policy
  driver := ⟨[], 1, 1, ∅, fun _ => ∅, ∅, [], 900⟩
  inFlight := []
  workers := []

/-- What happens on a node. -/
inductive Event
  | toolRequested (session : SessionId) (call : ToolCall) (around : Surroundings)
  | userApproval (session : SessionId) (action : ActionId) (granted : Bool) (nonce : UInt64)
      (available : Bool)
  | userCancel (session : SessionId)
  | turnComplete (session : SessionId)
  | toolResult (session : SessionId) (call : ActionId)
  /-- The operator, or an evolution, edits the policy. -/
  | setPolicy (policy : PolicyConfig)
  /-- The goal driver receives the `k`-th call in flight. -/
  | received (k : ℕ) (world : World)
  | goal (e : GoalDriver.Event) (world : World)
  /-- `fanout` mints a worker, with or without `yolo: "inherit"`. -/
  | fanOut (parent : SessionId) (inherits : Bool) (session : SessionId)
  /-- `admit_queued` arms the `k`-th worker. -/
  | admitQueued (k : ℕ)
  /-- `disarm_worker`. -/
  | disarm (session : SessionId)

/-- What comes of it; a decision of the gate is noted with the mode it was made in. -/
inductive Outcome
  | gate (answer : Answer) (mode : PolicyMode)
  | handled (session : SessionId) (call : ToolCall) (emits : List Emit)
  | emitted (emits : List Emit)
  | silent

/-- The gate as the node's state and surroundings make it. -/
def gate (n : Node) (session : SessionId) (around : Surroundings) : Gate where
  policy := n.policy
  plugin := around.plugin
  inWorkspace := around.inWorkspace
  hook := around.hook
  goalYolo := session ∈ n.driver.yolo

/-- `dispatch_tool`, for the tools the goal driver answers; others change nothing here. -/
def dispatchTool (n : Node) (answer : Answer) (available : Bool) : Node :=
  match answer with
  | .dispatched session call =>
    if available ∧ call.tool ∈ GoalDriver.tools then
      { n with inFlight := n.inFlight ++ [(session, call)] }
    else n
  | _ => n

/-- The supervisor takes an event off the bus. -/
def supervise (n : Node) (e : Agentd.Event) (available : Bool) : Node × Outcome :=
  let r := Supervisor.step n.pending e
  ({ n with pending := r.1 }.dispatchTool r.2 available, .gate r.2 n.policy.mode)

/-- The goal driver takes an event; a restart also empties the supervisor and the channel. -/
def drive (n : Node) (e : GoalDriver.Event) (world : World) : Node × Outcome :=
  let r := n.driver.step e world
  match e with
  | .restart _ => ({ n with driver := r.1, pending := fun _ => none, inFlight := [] }, .emitted r.2)
  | _ => ({ n with driver := r.1 }, .emitted r.2)

/-- One step. -/
def step (n : Node) : Event → Node × Outcome
  | .toolRequested session call around =>
    n.supervise (.toolRequested session call (n.gate session around) around.nonce) around.available
  | .userApproval session action granted nonce available =>
    n.supervise (.userApproval session action granted nonce) available
  | .userCancel session => n.supervise (.userCancel session) true
  | .turnComplete session => n.supervise (.turnComplete session) true
  | .toolResult session call => n.supervise (.toolResult session call) true
  | .setPolicy policy => ({ n with policy := policy }, .silent)
  | .received k world =>
    match n.inFlight[k]? with
    | none => (n, .silent)
    | some (session, call) =>
      let r := n.driver.request session call world
      ({ n with driver := r.1, inFlight := n.inFlight.eraseIdx k }, .handled session call r.2)
  | .goal e world => n.drive e world
  | .fanOut parent inherits session =>
    let yolo := inherits && parent ∈ n.driver.yolo
    ({ n with workers := n.workers ++ [⟨session, yolo⟩] }, .silent)
  | .admitQueued k =>
    match n.workers[k]? with
    | some ⟨session, true⟩ =>
      ({ n with driver := { n.driver with yolo := insert session n.driver.yolo } }, .silent)
    | _ => (n, .silent)
  | .disarm session =>
    ({ n with driver := { n.driver with yolo := n.driver.yolo.erase session } }, .silent)

/-! ### A human behind it -/

/-- An operator grants something. -/
def Event.isGrant : Event → Bool
  | .userApproval _ _ granted _ _ => granted
  | _ => false

variable (past : List (Event × Outcome))

/-- The call asked for yolo, and was dispatched by an operator's approval or in yolo mode. -/
def Granted (call : ToolCall) : Prop :=
  requestsYoloElevation call.tool call.args = true ∧
    ∃ e session mode, (e, .gate (.dispatched session call) mode) ∈ past ∧
      (e.isGrant = true ∨ mode = .yolo)

/-- The event starts this session on a goal. -/
def starts (s : SessionId) : Emit → Bool
  | .userPrompt session (.first ..) => session == s
  | _ => false

/-- The calls that created this session. -/
def creators (s : SessionId) : List ToolCall :=
  past.filterMap fun x =>
    match x.2 with
    | .handled _ call emits => if emits.any (starts s) then some call else none
    | _ => none

/-- The session of a goal whose creation was granted. -/
def GrantedGoal (s : SessionId) : Prop := ∃ call ∈ creators past s, Granted past call

/-- A granted goal's session, or a worker's that inherits from one. -/
inductive Rooted : SessionId → Prop
  | goal {s : SessionId} (h : GrantedGoal past s) : Rooted s
  | worker {s parent : SessionId} {out : Outcome} (h : (.fanOut parent true s, out) ∈ past)
      (hparent : Rooted parent) : Rooted s

/-- **The law**: whoever is in the yolo set, and whatever goal has yolo, goes back to a grant; and
no `goal_create` on its way to `create_goal`, or there already, carries a grant key of a model's. -/
structure Law (n : Node) : Prop where
  armed : ∀ s ∈ n.driver.yolo, Rooted past s
  goals : ∀ x ∈ n.driver.goals, x.2.yolo = true → GrantedGoal past x.2.session
  keys : ∀ session call, (session, call) ∈ n.inFlight ∨
      (∃ e emits, (e, .handled session call emits) ∈ past) →
    call.tool = "goal_create" → (call.args.get? yoloGrantKey).isSome → Granted past call

/-- Goal-scoped yolo lets through a `goal_create` that asks for nothing and carries a grant key: the
session is armed, and the enterprise hook or the policy would ask about the call. -/
def Leaks (n : Node) : Event → Prop
  | .toolRequested session call around =>
    around.available = true ∧ call.tool = "goal_create" ∧
      (call.args.get? yoloGrantKey).isSome ∧ requestsYoloElevation call.tool call.args = false ∧
      session ∈ n.driver.yolo ∧
      ((∃ reason, evaluateTool around.hook (pathOpts call.args) none = .ok (some reason)) ∨
        evaluateTool around.hook (pathOpts call.args) none = .ok none ∧
          (n.gate session around).decision call = .ask)
  | _ => False

variable {past} {n : Node} {x : Event × Outcome} {call : ToolCall} {s : SessionId}

theorem Granted.concat (h : Granted past call) : Granted (past ++ [x]) call := by
  obtain ⟨hreq, e, session, mode, hmem, hgrant⟩ := h
  exact ⟨hreq, e, session, mode, List.mem_append_left _ hmem, hgrant⟩

theorem GrantedGoal.concat (h : GrantedGoal past s) : GrantedGoal (past ++ [x]) s := by
  obtain ⟨call, hmem, hgranted⟩ := h
  refine ⟨call, ?_, hgranted.concat⟩
  rw [creators, List.filterMap_append]
  exact List.mem_append_left _ hmem

theorem Rooted.concat (h : Rooted past s) : Rooted (past ++ [x]) s := by
  induction h with
  | goal h => exact .goal h.concat
  | worker h _ ih => exact .worker (List.mem_append_left _ h) ih

/-! ### What each step keeps -/

/-- A `goal_create` with a grant key is a granted one. -/
def KeyGranted (past : List (Event × Outcome)) (call : ToolCall) : Prop :=
  call.tool = "goal_create" → (call.args.get? yoloGrantKey).isSome → Granted past call

/-- What holds along a run without leaks: the law, and what carries it. -/
structure Invariant (past : List (Event × Outcome)) (n : Node) : Prop where
  armed : ∀ s ∈ n.driver.yolo, Rooted past s
  marked : ∀ s, n.driver.Marked s → GrantedGoal past s
  inFlight : ∀ m ∈ n.inFlight, KeyGranted past m.2
  handled : ∀ e session call emits, (e, .handled session call emits) ∈ past → KeyGranted past call
  workers : ∀ w ∈ n.workers, w.yolo = true → Rooted past w.session

theorem Invariant.law (h : Invariant past n) : Law past n := by
  refine ⟨h.armed, fun x hx hyolo => h.marked _ (Or.inl ⟨x, hx, hyolo, rfl⟩), ?_⟩
  rintro session call (hmem | ⟨e, emits, hmem⟩)
  · exact h.inFlight (session, call) hmem
  · exact h.handled e session call emits hmem

theorem invariant_init (policy : PolicyConfig) : Invariant [] (init policy) := by
  refine ⟨?_, ?_, ?_, ?_, ?_⟩
  · simp [init]
  · rintro s (⟨x, hx, -⟩ | ⟨pg, hpg, -⟩)
    · cases hx
    · cases hpg
  · simp [init]
  · simp
  · simp [init]

/-- The stamp leaves a grant key only where there was something to grant. -/
theorem requests_of_key_stamp {approved : Bool}
    (h : ((call.stamp approved).args.get? yoloGrantKey).isSome) :
    approved = true ∧ requestsYoloElevation (call.stamp approved).tool (call.stamp approved).args
      = true := by
  rw [ToolCall.stamp] at h ⊢
  simp only [get?_applyYoloGrant, Option.isSome_ite, Bool.and_eq_true] at h
  exact ⟨h.1, by rw [requestsYoloElevation_applyYoloGrant, h.2]⟩

theorem KeyGranted.concat (h : KeyGranted past call) : KeyGranted (past ++ [x]) call :=
  fun htool hkey => (h htool hkey).concat

/-- **What the gate sends off on a request**: a `goal_create` with a grant key was stamped in yolo
mode, unless it leaks. -/
theorem keyGranted_toolRequested {session session' : SessionId} {call' : ToolCall}
    {around : Surroundings} (hleak : ¬ Leaks n (.toolRequested session call around))
    (havailable : around.available = true)
    (h : (Supervisor.step n.pending
      (.toolRequested session call (n.gate session around) around.nonce)).2
        = .dispatched session' call') :
    KeyGranted (past ++ [(.toolRequested session call around,
      .gate (.dispatched session' call') n.policy.mode)]) call' := by
  intro htool hkey
  rcases Supervisor.dispatched_of_toolRequested h with rfl | ⟨rfl, hruling⟩
  · obtain ⟨hmode, hreq⟩ := requests_of_key_stamp hkey
    exact ⟨hreq, _, _, _, List.mem_append_right _ List.mem_cons_self, Or.inr (eq_of_beq hmode)⟩
  · obtain ⟨hauto, hasked⟩ := Gate.ruling_eq_autoApprove_iff.mp hruling
    rw [Gate.autoApproves, Bool.and_eq_true, Bool.not_eq_true'] at hauto
    exact absurd ⟨havailable, htool, hkey, hauto.1, of_decide_eq_true hauto.2, hasked⟩ hleak

/-- **What it sends off on an approval**: a `goal_create` with a grant key was granted just now. -/
theorem keyGranted_userApproval {session session' : SessionId} {action : ActionId} {granted : Bool}
    {nonce : UInt64} {available : Bool}
    (h : (Supervisor.step n.pending (.userApproval session action granted nonce)).2
        = .dispatched session' call) :
    KeyGranted (past ++ [(.userApproval session action granted nonce available,
      .gate (.dispatched session' call) n.policy.mode)]) call := by
  intro htool hkey
  rcases Supervisor.dispatch_step h with ⟨-, hreq, -⟩ | ⟨p, action', he, -, -, -, rfl, -⟩
  · cases hreq
  · obtain ⟨-, hreq⟩ := requests_of_key_stamp hkey
    obtain ⟨-, -, rfl, -⟩ := Agentd.Event.userApproval.inj he
    exact ⟨hreq, _, _, _, List.mem_append_right _ List.mem_cons_self, Or.inl rfl⟩

/-- Time passes, and no call is handled. -/
theorem Invariant.concat (h : Invariant past n)
    (hx : ∀ session call emits, x.2 ≠ .handled session call emits) :
    Invariant (past ++ [x]) n := by
  refine ⟨fun s hs => (h.armed s hs).concat, fun s hs => (h.marked s hs).concat,
    fun m hm => (h.inFlight m hm).concat, fun e session call emits hmem => ?_,
    fun w hw hyolo => (h.workers w hw hyolo).concat⟩
  rcases List.mem_append.mp hmem with hmem | hmem
  · exact (h.handled e session call emits hmem).concat
  · exact absurd (congrArg Prod.snd (List.mem_singleton.mp hmem)).symm (hx _ _ _)

/-- The supervisor sends nothing off but calls that may go. -/
theorem Invariant.supervise (h : Invariant past n) {e : Event} {bus : Agentd.Event}
    {available : Bool}
    (hsent : ∀ session call, available = true →
      (Supervisor.step n.pending bus).2 = .dispatched session call →
      KeyGranted (past ++ [(e, .gate (.dispatched session call) n.policy.mode)]) call) :
    Invariant (past ++ [(e, (n.supervise bus available).2)]) (n.supervise bus available).1 := by
  have hconcat : Invariant (past ++ [(e, (n.supervise bus available).2)]) n :=
    h.concat fun _ _ _ hc => by cases hc
  rw [Node.supervise] at hconcat ⊢
  simp only [dispatchTool]
  split
  · rename_i session call hans
    split
    · rename_i hgo
      refine ⟨hconcat.armed, hconcat.marked, fun m hm => ?_, hconcat.handled, hconcat.workers⟩
      rcases List.mem_append.mp hm with hm | hm
      · exact hconcat.inFlight m hm
      · rw [List.mem_singleton.mp hm, hans]
        exact hsent session call hgo.1 hans
    · exact ⟨hconcat.armed, hconcat.marked, hconcat.inFlight, hconcat.handled, hconcat.workers⟩
  · exact ⟨hconcat.armed, hconcat.marked, hconcat.inFlight, hconcat.handled, hconcat.workers⟩

/-- The goal driver changes nothing but what it keeps. -/
theorem Invariant.of_keeps (h : Invariant past n) {n' : Node}
    (hkeeps : GoalDriver.Keeps n.driver n'.driver) (hinFlight : ∀ m ∈ n'.inFlight, m ∈ n.inFlight)
    (hworkers : n'.workers = n.workers) : Invariant past n' := by
  refine ⟨fun s hs => ?_, fun s hs => h.marked s (hkeeps.marked s hs),
    fun m hm => h.inFlight m (hinFlight m hm), h.handled, hworkers ▸ h.workers⟩
  rcases hkeeps.armed s hs with hs | hs
  · exact h.armed s hs
  · exact .goal (h.marked s hs)

/-- A call with a grant key was granted, and so is the session it creates. -/
theorem grantedGoal_of_handled {e : Event} {session : SessionId} {emits : List Emit}
    {objective : String} {maxSteps : ℕ} (h : Granted past call)
    (hprompt : .userPrompt s (.first objective maxSteps) ∈ emits) :
    GrantedGoal (past ++ [(e, .handled session call emits)]) s := by
  refine ⟨call, ?_, h.concat⟩
  have hstarts : emits.any (starts s) = true :=
    List.any_eq_true.mpr ⟨_, hprompt, by simp [starts]⟩
  rw [creators, List.filterMap_append]
  refine List.mem_append_right _ ?_
  simp only [List.filterMap_cons, hstarts, if_true, List.filterMap_nil, List.mem_singleton]

theorem isSome_of_yoloGrantPresent {args : Json} (h : yoloGrantPresent args = true) :
    (args.get? yoloGrantKey).isSome := by
  rw [yoloGrantPresent] at h
  cases hget : args.get? yoloGrantKey with
  | none => simp [hget] at h
  | some value => rfl

/-- What the driver receives was on its way, and only a granted call marks or arms the session it
creates. -/
theorem Invariant.request (h : Invariant past n) {e : Event} {session : SessionId} {world : World}
    (hmem : (session, call) ∈ n.inFlight) {rest : List (SessionId × ToolCall)}
    (hrest : ∀ m ∈ rest, m ∈ n.inFlight) :
    Invariant (past ++ [(e, .handled session call (n.driver.request session call world).2)])
      { n with driver := (n.driver.request session call world).1, inFlight := rest } := by
  have hkey := h.inFlight _ hmem
  refine ⟨fun s hs => ?_, fun s hs => ?_, fun m hm => (h.inFlight m (hrest m hm)).concat,
    fun e' session' call' emits hm => ?_, fun w hw hyolo => (h.workers w hw hyolo).concat⟩
  · rcases GoalDriver.request_cases (d := n.driver) session call world with
      hkeeps | ⟨htool, hgrant, ⟨_, _, hprompt⟩, -, harmed⟩
    · rcases hkeeps.armed s hs with hs | hs
      · exact (h.armed s hs).concat
      · exact .goal (h.marked s hs).concat
    · rcases harmed s hs with hs | rfl
      · exact (h.armed s hs).concat
      · have hgranted := hkey htool (isSome_of_yoloGrantPresent hgrant)
        exact .goal (grantedGoal_of_handled hgranted hprompt)
  · rcases GoalDriver.request_cases (d := n.driver) session call world with
      hkeeps | ⟨htool, hgrant, ⟨_, _, hprompt⟩, hmarked, -⟩
    · exact (h.marked s (hkeeps.marked s hs)).concat
    · rcases hmarked s hs with hs | rfl
      · exact (h.marked s hs).concat
      · exact grantedGoal_of_handled (hkey htool (isSome_of_yoloGrantPresent hgrant)) hprompt
  · rcases List.mem_append.mp hm with hm | hm
    · exact (h.handled _ _ _ _ hm).concat
    · cases List.mem_singleton.mp hm
      exact hkey.concat

/-- The driver's own events send no call and mint no worker. -/
theorem drive_frame (n : Node) (e : GoalDriver.Event) (world : World) :
    (n.drive e world).2 = .emitted (n.driver.step e world).2 ∧
      (n.drive e world).1.driver = (n.driver.step e world).1 ∧
      (∀ m ∈ (n.drive e world).1.inFlight, m ∈ n.inFlight) ∧
      (n.drive e world).1.workers = n.workers := by
  cases e <;> simp [drive]

/-- **One step**: a step that does not leak keeps the invariant. -/
theorem Invariant.step (h : Invariant past n) {e : Event} (hleak : ¬ Leaks n e) :
    Invariant (past ++ [(e, (n.step e).2)]) (n.step e).1 := by
  cases e with
  | toolRequested session call around =>
    exact h.supervise fun _ _ havailable hans => keyGranted_toolRequested hleak havailable hans
  | userApproval session action granted nonce available =>
    exact h.supervise fun _ _ _ hans => keyGranted_userApproval hans
  | userCancel session => exact h.supervise fun _ _ _ hans => by cases hans
  | turnComplete session => exact h.supervise fun _ _ _ hans => by cases hans
  | toolResult session call => exact h.supervise fun _ _ _ hans => by cases hans
  | setPolicy policy =>
    have hconcat := h.concat (x := (.setPolicy policy, .silent)) fun _ _ _ hc => by cases hc
    exact hconcat.of_keeps (.refl _) (fun _ hm => hm) rfl
  | received k world =>
    rw [Node.step]
    split
    · exact h.concat fun _ _ _ hc => by cases hc
    · rename_i session call hk
      exact h.request (List.mem_of_getElem? hk) fun m hm => List.mem_of_mem_eraseIdx hm
  | goal ev world =>
    obtain ⟨hout, hdriver, hinFlight, hworkers⟩ := drive_frame n ev world
    have hconcat := h.concat (x := (.goal ev world, (n.drive ev world).2))
      fun _ _ _ hc => by rw [hout] at hc; cases hc
    exact hconcat.of_keeps (hdriver ▸ GoalDriver.step_keeps n.driver ev world) hinFlight hworkers
  | fanOut parent inherits session =>
    have hconcat := h.concat (x := (.fanOut parent inherits session, .silent))
      fun _ _ _ hc => by cases hc
    refine ⟨hconcat.armed, hconcat.marked, hconcat.inFlight, hconcat.handled, fun w hw hyolo => ?_⟩
    rcases List.mem_append.mp hw with hw | hw
    · exact hconcat.workers w hw hyolo
    · rw [List.mem_singleton.mp hw] at hyolo ⊢
      obtain ⟨rfl, hparent⟩ : inherits = true ∧ parent ∈ n.driver.yolo := by simpa using hyolo
      exact .worker (List.mem_append_right _ List.mem_cons_self) (hconcat.armed parent hparent)
  | admitQueued k =>
    have hconcat := h.concat (x := (.admitQueued k, .silent)) fun _ _ _ hc => by cases hc
    rw [Node.step]
    split
    · rename_i session hk
      refine ⟨fun s hs => ?_, hconcat.marked, hconcat.inFlight, hconcat.handled, hconcat.workers⟩
      rcases Finset.mem_insert.mp hs with rfl | hs
      · exact hconcat.workers _ (List.mem_of_getElem? hk) rfl
      · exact hconcat.armed s hs
    · exact hconcat
  | disarm session =>
    have hconcat := h.concat (x := (.disarm session, .silent)) fun _ _ _ hc => by cases hc
    exact ⟨fun s hs => hconcat.armed s (Finset.mem_of_mem_erase hs), hconcat.marked,
      hconcat.inFlight, hconcat.handled, hconcat.workers⟩

/-- **A leak breaks the law**: the call is on its way to `create_goal`, with the model's key. -/
theorem not_law_of_leaks {e : Event} (h : Leaks n e) :
    ¬ Law (past ++ [(e, (n.step e).2)]) (n.step e).1 := by
  cases e with
  | toolRequested session call around =>
    obtain ⟨havailable, htool, hkey, hreq, hsession, hasked⟩ := h
    have hruling : (n.gate session around).ruling call = .autoApprove := by
      refine Gate.ruling_eq_autoApprove_iff.mpr ⟨?_, hasked⟩
      rw [Gate.autoApproves, hreq]
      exact decide_eq_true hsession
    have hsent : (session, call) ∈ (n.step (.toolRequested session call around)).1.inFlight := by
      simp [step, supervise, Supervisor.step, hruling, dispatchTool, havailable, htool,
        GoalDriver.tools]
    intro hlaw
    obtain ⟨hreq', -⟩ := hlaw.keys session call (Or.inl hsent) htool hkey
    rw [hreq] at hreq'
    cases hreq'
  | _ => cases h

/-- **Autonomy is granted, where nothing leaks.** From a new node, under whatever policies, whatever
is requested and approved, and however the supervisor, the goal driver and the workers interleave:
the law holds in every state a run reaches exactly when none of its requests leaks. -/
theorem autonomy_is_granted_iff (policy : PolicyConfig) (events : List Event) :
    (∀ before, before <+: events →
      Law (Run.log step (init policy) before) (Run.final step (init policy) before)) ↔
    Run.Always step (init policy) (fun _ n e => ¬ Leaks n e) events := by
  constructor
  · rintro h before e after rfl hleak
    have hlaw := h (before ++ [e]) ⟨after, by simp⟩
    rw [Run.log_append, Run.final_append] at hlaw
    exact not_law_of_leaks hleak hlaw
  · rintro h before ⟨after, rfl⟩
    exact (Run.invariant (invariant_init policy) (fun _ _ _ hinv hleak => hinv.step hleak)
      h.of_append).law

/-- The gate asks about `goal_create`. -/
def askForGoals : PolicyConfig := ⟨.suggest, [("goal_create", .ask)]⟩

/-- No plugin, no enterprise hook, and the tool is available. -/
def plainly : Surroundings := ⟨none, fun _ => false, fun _ => .execute, ⟨1, by decide⟩, true⟩

/-- The world at some time, with no episode and a disk that works. -/
def someWorld : World := ⟨0, none, .stored⟩

/-- A root session asks for a yolo goal, an operator grants it, and the goal starts. Then the
goal's session asks for another goal, not for yolo, with a grant key of its own. -/
def forgedGrant : List Event :=
  [.toolRequested 7 ⟨1, "goal_create", .object [("objective", .string "first"),
      ("yolo", .bool true)]⟩ plainly,
    .userApproval 7 1 true 1 true, .received 0 someWorld,
    .toolRequested 1 ⟨2, "goal_create", .object [("objective", .string "second"),
      ("__yolo_granted", .bool true)]⟩ plainly,
    .received 0 someWorld]

/-- The second goal's session is armed, and no human is behind it. -/
theorem forgedGrant_arms :
    (2 : SessionId) ∈ (Run.final step (init askForGoals) forgedGrant).driver.yolo ∧
      ¬ Law (Run.log step (init askForGoals) forgedGrant)
        (Run.final step (init askForGoals) forgedGrant) := by
  have harmed : (2 : SessionId) ∈ (Run.final step (init askForGoals) forgedGrant).driver.yolo := by
    decide +kernel
  have hcreators : ∀ call ∈ creators (Run.log step (init askForGoals) forgedGrant) 2,
      requestsYoloElevation call.tool call.args = false := by
    decide +kernel
  refine ⟨harmed, fun hlaw => ?_⟩
  cases hlaw.armed 2 harmed with
  | goal h =>
    obtain ⟨call, hmem, hreq, -⟩ := h
    rw [hcreators call hmem] at hreq
    cases hreq
  | worker h _ =>
    have hfst := List.mem_map_of_mem (f := Prod.fst) h
    rw [Run.map_fst_log] at hfst
    simp [forgedGrant] at hfst

end Node

end ApexOS.Agentd
