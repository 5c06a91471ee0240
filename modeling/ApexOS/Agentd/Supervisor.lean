import ApexOS.Agentd.Policy
import ApexOS.Lib.Run
import Mathlib.Data.List.Nodup

/-!
# The approval gate

The arms of `Supervisor::run` in `agentd/crates/plugins/src/supervisor.rs` that decide whether a
tool call runs: the enterprise hook, the civilian policy, goal-scoped yolo, and the book of calls
parked for a human.

Everything a decision reads besides the call is a `Gate`: the policy in force, who owns the tool's
name, what the file system and the enterprise hook answer, whether the session runs under a yolo
goal. A gate comes with each request, so that whatever the rest of the daemon does to these between
two requests is covered. So does the nonce a parked call gets, which is random but never zero.

## Main definitions

* `Gate.ruling`: refuse, dispatch, dispatch because of goal-scoped yolo, or park
* `parkForApproval`, `takeMatchingApproval`, `purgeSessionApprovals`: the book
* `Supervisor.step`: the arms, as a machine over events
* `Parks`, `Ends`: what puts a call in the book, and what takes it out

## Main results

* `Supervisor.approval_gate`: a parked call is dispatched at most once, by the approval it waits
  for and nothing else
-/

namespace ApexOS.Agentd

/-- `SessionId`. -/
abbrev SessionId := UInt64

/-- `ActionId`. -/
abbrev ActionId := UInt64

/-- `ToolCall`. -/
structure ToolCall where
  id : ActionId
  tool : String
  args : Json

/-- `ToolOutput`. -/
structure ToolOutput where
  ok : Bool
  content : Json

/-- The call with the grant stamped on, or stripped off. -/
def ToolCall.stamp (call : ToolCall) (approved : Bool) : ToolCall :=
  { call with args := applyYoloGrant call.tool call.args approved }

/-! ### The decision -/

/-- `ToolHookResult`. -/
inductive ToolHookResult
  | execute
  | ask (reason : String)
  | deny (reason : String) (layer : Option String)
  deriving DecidableEq, Repr

/-- What a decision reads besides the call. -/
structure Gate where
  policy : PolicyConfig
  /-- `tool_registry.get(tool)`. -/
  plugin : Option String
  inWorkspace : String → Bool
  /-- `evaluate_tool_global`, for each path; `execute` throughout without the feature. -/
  hook : Option String → ToolHookResult
  /-- `goal_session_is_yolo`. -/
  goalYolo : Bool

/-- The arguments that may hold a path. -/
def pathKeys : List String := ["path", "output_path", "dest", "destination", "target", "to"]

/-- Every path among the arguments. -/
def candidates (args : Json) : List String :=
  pathKeys.filterMap fun key => (args.get? key).bind Json.asStr

/-- The paths the enterprise hook is asked about. -/
def pathOpts (args : Json) : List (Option String) :=
  if candidates args = [] then [none] else (candidates args).map some

/-- The enterprise loop: the first refusal ends it, else the last question stands. -/
def evaluateTool (hook : Option String → ToolHookResult) :
    List (Option String) → Option String → Except (String × Option String) (Option String)
  | [], asked => .ok asked
  | path :: paths, asked =>
    match hook path with
    | .deny reason layer => .error (reason, layer)
    | .ask reason => evaluateTool hook paths (some reason)
    | .execute => evaluateTool hook paths asked

/-- What becomes of a request. -/
inductive Ruling
  | deny (reason layer : String)
  | dispatch (call : ToolCall)
  | autoApprove
  | park

namespace Gate

/-- The civilian decision: any path that asks makes the call ask, and so does a request for yolo
unless the node is in yolo. -/
def decision (g : Gate) (call : ToolCall) : Decision :=
  let check := PolicyEngine.checkFor g.policy g.inWorkspace call.tool g.plugin
  if requestsYoloElevation call.tool call.args ∧ g.policy.mode ≠ .yolo then .ask
  else if candidates call.args = [] then check none
  else if (candidates call.args).any fun p => check (some p) == .ask then .ask
  else .allow

/-- A session under a yolo goal is not asked, but for an elevation. -/
def autoApproves (g : Gate) (call : ToolCall) : Bool :=
  !requestsYoloElevation call.tool call.args && g.goalYolo

/-- A call that asks goes through under a yolo goal, and waits otherwise. -/
def ask (g : Gate) (call : ToolCall) : Ruling :=
  if g.autoApproves call then .autoApprove else .park

/-- The `ToolRequested` arm. Only an allowed call is stamped. -/
def ruling (g : Gate) (call : ToolCall) : Ruling :=
  match evaluateTool g.hook (pathOpts call.args) none with
  | .error (reason, layer) => .deny reason (layer.getD "policy")
  | .ok (some _) => g.ask call
  | .ok none =>
    match g.decision call with
    | .allow => .dispatch (call.stamp (g.policy.mode == .yolo))
    | .ask => g.ask call

theorem ask_ne_dispatch (g : Gate) (call call' : ToolCall) : g.ask call ≠ .dispatch call' := by
  rw [ask]
  split <;> simp

/-- A call that is allowed is the requested one, stamped. -/
theorem ruling_eq_dispatch {g : Gate} {call call' : ToolCall}
    (h : g.ruling call = .dispatch call') :
    call' = call.stamp (g.policy.mode == .yolo) := by
  rw [ruling] at h
  split at h
  · cases h
  · exact absurd h (g.ask_ne_dispatch _ _)
  · split at h
    · cases h
      rfl
    · exact absurd h (g.ask_ne_dispatch _ _)

/-- A call is let through under goal-scoped yolo where the hook or the policy would ask. -/
theorem ruling_eq_autoApprove_iff {g : Gate} {call : ToolCall} :
    g.ruling call = .autoApprove ↔ g.autoApproves call = true ∧
      ((∃ reason, evaluateTool g.hook (pathOpts call.args) none = .ok (some reason)) ∨
        evaluateTool g.hook (pathOpts call.args) none = .ok none ∧ g.decision call = .ask) := by
  have hask : g.ask call = .autoApprove ↔ g.autoApproves call = true := by
    rw [ask]
    split <;> simp_all
  rw [ruling]
  split
  · rename_i heval
    simp [heval]
  · rename_i heval
    simp [heval, hask]
  · rename_i heval
    cases hdecision : g.decision call <;> simp [heval, hask]

end Gate

/-! ### The book -/

/-- `PendingApproval`. -/
structure PendingApproval where
  session : SessionId
  call : ToolCall
  nonce : UInt64

/-- `pending_approvals`. -/
abbrev PendingApprovals := ActionId → Option PendingApproval

/-- `take_matching_approval`. -/
def takeMatchingApproval (map : PendingApprovals) (session : SessionId) (action : ActionId)
    (nonce : UInt64) : Option PendingApproval × PendingApprovals :=
  match map action with
  | some p =>
    if p.session = session ∧ p.nonce ≠ 0 ∧ p.nonce = nonce then
      (some p, Function.update map action none)
    else (none, map)
  | none => (none, map)

/-- `purge_session_approvals`. -/
def purgeSessionApprovals (map : PendingApprovals) (session : SessionId) : PendingApprovals :=
  fun action => (map action).filter fun p => p.session ≠ session

/-- What `mint_approval_nonce` returns. -/
abbrev Nonce := { n : UInt64 // n ≠ 0 }

/-- The bus events the gate reads. -/
inductive Event
  | toolRequested (session : SessionId) (call : ToolCall) (gate : Gate) (nonce : Nonce)
  | userApproval (session : SessionId) (action : ActionId) (granted : Bool) (nonce : UInt64)
  | userCancel (session : SessionId)
  | turnComplete (session : SessionId)
  | toolResult (session : SessionId) (call : ActionId)

/-- What the gate does about one: run the call, ask for it, answer it, or nothing. -/
inductive Answer
  | dispatched (session : SessionId) (call : ToolCall)
  | approvalPending (session : SessionId) (call : ToolCall) (nonce : UInt64)
  | toolResult (session : SessionId) (call : ActionId) (output : ToolOutput)
  | nothing

/-- `park_for_approval`. -/
def parkForApproval (map : PendingApprovals) (session : SessionId) (call : ToolCall)
    (nonce : Nonce) : PendingApprovals × Answer :=
  (Function.update map call.id (some ⟨session, call, nonce⟩),
    .approvalPending session call nonce)

/-- A tool result that says no. -/
def refusal (text : String) : ToolOutput := ⟨false, .string text⟩

/-- The operator's no. -/
def declined : String :=
  "declined by the operator — an explicit no to this call (not a timeout, not a policy error). " ++
    "Adjust course or ask before retrying."

namespace Supervisor

/-- The arms of `Supervisor::run`. -/
def step (map : PendingApprovals) : Event → PendingApprovals × Answer
  | .toolRequested session call gate nonce =>
    match gate.ruling call with
    | .deny reason layer =>
      (map, .toolResult session call.id
        (refusal s!"enterprise policy denied '{call.tool}' [{layer}]: {reason}"))
    | .dispatch call => (map, .dispatched session call)
    | .autoApprove => (map, .dispatched session call)
    | .park => parkForApproval map session call nonce
  | .userApproval session action granted nonce =>
    match takeMatchingApproval map session action nonce with
    | (some pending, map) =>
      if granted then (map, .dispatched pending.session (pending.call.stamp true))
      else (map, .toolResult pending.session action (refusal declined))
    | (none, map) => (map, .nothing)
  | .userCancel session => (purgeSessionApprovals map session, .nothing)
  | .turnComplete session => (purgeSessionApprovals map session, .nothing)
  | .toolResult _ call => (Function.update map call none, .nothing)

end Supervisor

/-! ### What an entry of the log says -/

/-- The session of an event. -/
def Event.session : Event → SessionId
  | .toolRequested session .. => session
  | .userApproval session .. => session
  | .userCancel session => session
  | .turnComplete session => session
  | .toolResult session _ => session

/-- The action an event requests. -/
def Event.requests : Event → Option ActionId
  | .toolRequested _ call .. => some call.id
  | _ => none

/-- The action an answer runs. -/
def Answer.dispatches : Answer → Option ActionId
  | .dispatched _ call => some call.id
  | _ => none

/-- The call was parked, by this session under this nonce. -/
def Parks (p : PendingApproval) (x : Event × Answer) : Prop :=
  x.1.session = p.session ∧ x.1.requests = some p.call.id ∧
    x.2 = .approvalPending p.session p.call p.nonce

/-- The call is no longer waiting: its session was cancelled or its turn ended, its result came,
the operator declined it, or it ran. -/
def Ends (p : PendingApproval) (x : Event × Answer) : Prop :=
  x.1 = .userCancel p.session ∨ x.1 = .turnComplete p.session ∨
    (∃ session, x.1 = .toolResult session p.call.id) ∨
    x.1 = .userApproval p.session p.call.id false p.nonce ∨ x.2.dispatches = some p.call.id

/-- **Action ids are globally unique**: no two requests share one, and a result names the session
that requested it. -/
structure ActionIdsUnique (events : List Event) : Prop where
  requests_nodup : (events.filterMap Event.requests).Nodup
  results_own : ∀ session action, .toolResult session action ∈ events →
    ∀ e ∈ events, e.requests = some action → e.session = session

namespace Supervisor

variable {map : PendingApprovals} {e : Event} {a : ActionId} {p : PendingApproval}

/-! ### One step -/

/-- A request is dispatched because it is allowed, and stamped, or because of goal-scoped yolo, and
as it came. -/
theorem dispatched_of_toolRequested {session session' : SessionId} {call call' : ToolCall}
    {gate : Gate} {nonce : Nonce}
    (h : (step map (.toolRequested session call gate nonce)).2 = .dispatched session' call') :
    call' = call.stamp (gate.policy.mode == .yolo) ∨
      call' = call ∧ gate.ruling call = .autoApprove := by
  rw [step] at h
  split at h
  · cases h
  · rename_i hruling
    cases h
    exact Or.inl (Gate.ruling_eq_dispatch hruling)
  · rename_i hruling
    cases h
    exact Or.inr ⟨rfl, hruling⟩
  · cases h

/-- A request is parked, or leaves the book alone; what it dispatches is its own. -/
theorem step_toolRequested (map : PendingApprovals) (session : SessionId) (call : ToolCall)
    (gate : Gate) (nonce : Nonce) :
    step map (.toolRequested session call gate nonce) = parkForApproval map session call nonce ∨
    (step map (.toolRequested session call gate nonce)).1 = map ∧
      ∀ session' call', (step map (.toolRequested session call gate nonce)).2
          = .dispatched session' call' → session' = session ∧ call'.id = call.id := by
  rw [step]
  split
  · exact Or.inr ⟨rfl, fun _ _ h => by cases h⟩
  · rename_i call' hruling
    refine Or.inr ⟨rfl, fun _ _ h => ?_⟩
    cases h
    exact ⟨rfl, by rw [Gate.ruling_eq_dispatch hruling]; rfl⟩
  · refine Or.inr ⟨rfl, fun _ _ h => ?_⟩
    cases h
    exact ⟨rfl, rfl⟩
  · exact Or.inl rfl

/-- An approval takes out the call it matches, and otherwise does nothing at all. -/
theorem step_userApproval (map : PendingApprovals) (session : SessionId) (action : ActionId)
    (granted : Bool) (nonce : UInt64) :
    (∃ p, map action = some p ∧ p.session = session ∧ p.nonce ≠ 0 ∧ p.nonce = nonce ∧
      step map (.userApproval session action granted nonce)
        = (Function.update map action none,
          if granted then .dispatched p.session (p.call.stamp true)
          else .toolResult p.session action (refusal declined))) ∨
    (∀ p, map action = some p → ¬ (p.session = session ∧ p.nonce ≠ 0 ∧ p.nonce = nonce)) ∧
      step map (.userApproval session action granted nonce) = (map, .nothing) := by
  rw [step, takeMatchingApproval]
  cases hp : map action with
  | none => exact Or.inr ⟨fun p h => by simp at h, rfl⟩
  | some p =>
    by_cases hmatch : p.session = session ∧ p.nonce ≠ 0 ∧ p.nonce = nonce
    · refine Or.inl ⟨p, rfl, hmatch.1, hmatch.2.1, hmatch.2.2, ?_⟩
      simp only [if_pos hmatch]
      cases granted <;> rfl
    · refine Or.inr ⟨fun q hq => ?_, ?_⟩
      · obtain rfl := Option.some.inj hq
        exact hmatch
      · simp only [if_neg hmatch]

theorem purgeSessionApprovals_eq_some {session : SessionId} :
    purgeSessionApprovals map session a = some p ↔ map a = some p ∧ p.session ≠ session := by
  rw [purgeSessionApprovals, Option.filter_eq_some_iff, decide_eq_true_iff]

theorem update_none_eq_some {b : ActionId} :
    Function.update map b none a = some p ↔ map a = some p ∧ a ≠ b := by
  by_cases hab : a = b
  · subst hab
    simp
  · simp [hab]

/-- Every call in the book stands under its own id, with a nonce. -/
def Keyed (map : PendingApprovals) : Prop :=
  ∀ a p, map a = some p → p.call.id = a ∧ p.nonce ≠ 0

/-- After a request: what was in the book is not ended by it, since its id is another's. -/
private theorem pending_toolRequested {session : SessionId} {call : ToolCall} {gate : Gate}
    {nonce : Nonce} (hk : Keyed map) (hfresh : map call.id = none)
    (h : (step map (.toolRequested session call gate nonce)).1 a = some p) :
    map a = some p ∧ ¬ Ends p (.toolRequested session call gate nonce,
        (step map (.toolRequested session call gate nonce)).2) ∨
      Parks p (.toolRequested session call gate nonce,
        (step map (.toolRequested session call gate nonce)).2) ∧ p.call.id = a ∧ p.nonce ≠ 0 := by
  rcases step_toolRequested map session call gate nonce with hstep | ⟨hmap, hdisp⟩
  · rw [hstep, parkForApproval] at h ⊢
    by_cases ha : a = call.id
    · subst ha
      obtain rfl : _ = p := by simpa using h
      exact Or.inr ⟨⟨rfl, rfl, rfl⟩, rfl, nonce.2⟩
    · refine Or.inl ⟨by simpa [ha] using h, ?_⟩
      simp [Ends, Answer.dispatches]
  · rw [hmap] at h
    refine Or.inl ⟨h, ?_⟩
    rintro (hc | hc | ⟨_, hc⟩ | hc | hc)
    iterate 4 cases hc
    cases hans : (step map (.toolRequested session call gate nonce)).2 with
    | dispatched session' call' =>
      rw [hans, Answer.dispatches, Option.some.injEq, (hdisp _ _ hans).2, (hk a p h).1] at hc
      rw [← hc, hfresh] at h
      cases h
    | _ => simp [hans, Answer.dispatches] at hc

/-- After an approval: it ends the call it matches, and no other. -/
private theorem pending_userApproval {session : SessionId} {action : ActionId} {granted : Bool}
    {nonce : UInt64} (hk : Keyed map)
    (h : (step map (.userApproval session action granted nonce)).1 a = some p) :
    map a = some p ∧ ¬ Ends p (.userApproval session action granted nonce,
      (step map (.userApproval session action granted nonce)).2) := by
  rcases step_userApproval map session action granted nonce with
    ⟨q, hq, hsession, -, hnonce, hstep⟩ | ⟨hno, hstep⟩
  · rw [hstep, update_none_eq_some] at h
    refine ⟨h.1, ?_⟩
    have hid : p.call.id ≠ action := fun hc => h.2 ((hk a p h.1).1.symm.trans hc)
    rw [hstep]
    rintro (hc | hc | ⟨_, hc⟩ | hc | hc)
    iterate 3 cases hc
    · obtain ⟨-, hc, -⟩ := Event.userApproval.inj hc
      exact hid hc.symm
    · cases granted with
      | false => cases hc
      | true =>
        refine hid ?_
        rw [← (hk action q hq).1]
        exact (Option.some.inj hc).symm
  · rw [hstep] at h ⊢
    refine ⟨h, ?_⟩
    rintro (hc | hc | ⟨_, hc⟩ | hc | hc)
    iterate 3 cases hc
    · obtain ⟨rfl, rfl, -, rfl⟩ := Event.userApproval.inj hc
      rw [(hk a p h).1] at hno
      exact hno p h ⟨rfl, (hk a p h).2, rfl⟩
    · cases hc

/-- **What is in the book after a step** was in it and was not ended, or was parked by it. -/
theorem pending_step (hk : Keyed map) (hfresh : ∀ i, e.requests = some i → map i = none)
    (h : (step map e).1 a = some p) :
    map a = some p ∧ ¬ Ends p (e, (step map e).2) ∨
      Parks p (e, (step map e).2) ∧ p.call.id = a ∧ p.nonce ≠ 0 := by
  cases e with
  | toolRequested session call gate nonce =>
    exact pending_toolRequested hk (hfresh call.id rfl) h
  | userApproval session action granted nonce => exact Or.inl (pending_userApproval hk h)
  | userCancel session =>
    obtain ⟨hp, hne⟩ := purgeSessionApprovals_eq_some.mp h
    refine Or.inl ⟨hp, ?_⟩
    rintro (hc | hc | ⟨_, hc⟩ | hc | hc)
    · exact hne (Event.userCancel.inj hc).symm
    all_goals cases hc
  | turnComplete session =>
    obtain ⟨hp, hne⟩ := purgeSessionApprovals_eq_some.mp h
    refine Or.inl ⟨hp, ?_⟩
    rintro (hc | hc | ⟨_, hc⟩ | hc | hc)
    · cases hc
    · exact hne (Event.turnComplete.inj hc).symm
    all_goals cases hc
  | toolResult session action =>
    obtain ⟨hp, hne⟩ := update_none_eq_some.mp h
    refine Or.inl ⟨hp, ?_⟩
    rintro (hc | hc | ⟨_, hc⟩ | hc | hc)
    · cases hc
    · cases hc
    · rw [(hk a p hp).1] at hc
      exact hne (Event.toolResult.inj hc).2.symm
    all_goals cases hc

/-- **What a step dispatches** is what it was asked for, or the call an approval matches, which
leaves the book. -/
theorem dispatch_step {session : SessionId} {call : ToolCall}
    (h : (step map e).2 = .dispatched session call) :
    (e.session = session ∧ e.requests = some call.id ∧ (step map e).1 = map) ∨
    ∃ p action, e = .userApproval p.session action true p.nonce ∧ p.nonce ≠ 0 ∧
      map action = some p ∧ session = p.session ∧ call = p.call.stamp true ∧
      (step map e).1 = Function.update map action none := by
  cases e with
  | toolRequested session' call' gate nonce =>
    rcases step_toolRequested map session' call' gate nonce with hstep | ⟨hmap, hdisp⟩
    · rw [hstep] at h
      cases h
    · obtain ⟨rfl, hid⟩ := hdisp _ _ h
      exact Or.inl ⟨rfl, by rw [Event.requests, hid], hmap⟩
  | userApproval session' action granted nonce =>
    rcases step_userApproval map session' action granted nonce with
      ⟨p, hp, rfl, hne, rfl, hstep⟩ | ⟨-, hstep⟩
    · rw [hstep] at h ⊢
      cases granted with
      | false => cases h
      | true =>
        cases h
        exact Or.inr ⟨p, action, rfl, hne, hp, rfl, rfl, rfl⟩
    · rw [hstep] at h
      cases h
  | _ => cases h

/-! ### Whole runs -/

/-- The actions requested so far. -/
def requestedIds (past : List (Event × Answer)) : List ActionId :=
  past.filterMap fun x => x.1.requests

/-- The actions dispatched so far. -/
def dispatchedIds (past : List (Event × Answer)) : List ActionId :=
  past.filterMap fun x => x.2.dispatches

theorem mem_requestedIds_concat {past : List (Event × Answer)} {x : Event × Answer} :
    a ∈ requestedIds (past ++ [x]) ↔ a ∈ requestedIds past ∨ x.1.requests = some a := by
  simp [requestedIds, List.filterMap_append, List.mem_filterMap]

theorem dispatchedIds_concat {past : List (Event × Answer)} {x : Event × Answer} :
    dispatchedIds (past ++ [x]) = dispatchedIds past ++ x.2.dispatches.toList := by
  cases h : x.2.dispatches <;> simp [dispatchedIds, List.filterMap_append, h]

/-- What the events know of the past, where action ids are unique. -/
structure Admissible (past : List (Event × Answer)) (e : Event) : Prop where
  fresh : ∀ i, e.requests = some i → i ∉ requestedIds past
  own : ∀ session action, e = .toolResult session action →
    ∀ x ∈ past, x.1.requests = some action → x.1.session = session

/-- What holds between the book and what was exchanged so far. -/
structure Invariant (past : List (Event × Answer)) (map : PendingApprovals) : Prop where
  keyed : Keyed map
  since : ∀ a p, map a = some p → Run.Since (Parks p) (Ends p) past
  requested : ∀ a, map a ≠ none ∨ a ∈ dispatchedIds past → a ∈ requestedIds past
  waiting : ∀ a, map a ≠ none → a ∉ dispatchedIds past
  once : (dispatchedIds past).Nodup

theorem invariant_nil : Invariant [] fun _ => none :=
  ⟨fun _ _ h => (by cases h), fun _ _ h => (by cases h),
    fun _ h => (by simp [dispatchedIds] at h), fun _ h => absurd rfl h, List.nodup_nil⟩

variable {past : List (Event × Answer)}

/-- The book holds nothing under an id that is only now requested. -/
theorem Invariant.eq_none (h : Invariant past map) (ha : Admissible past e) {i : ActionId}
    (hi : e.requests = some i) : map i = none := by
  by_contra hne
  exact ha.fresh i hi (h.requested i (Or.inl hne))

/-- Nothing is dispatched that was dispatched before. -/
theorem Invariant.notMem_dispatchedIds (h : Invariant past map) (ha : Admissible past e)
    (hd : (step map e).2.dispatches = some a) : a ∉ dispatchedIds past := by
  cases hans : (step map e).2 with
  | dispatched session call =>
    obtain rfl : call.id = a := by simpa [hans, Answer.dispatches] using hd
    rcases dispatch_step hans with ⟨-, hreq, -⟩ | ⟨p, action, -, -, hp, -, rfl, -⟩
    · exact fun hmem => ha.fresh _ hreq (h.requested _ (Or.inr hmem))
    · rw [show (p.call.stamp true).id = action from (h.keyed action p hp).1]
      exact h.waiting action (by rw [hp]; exact Option.some_ne_none p)
  | _ => simp [hans, Answer.dispatches] at hd

theorem Invariant.step (h : Invariant past map) (ha : Admissible past e) :
    Invariant (past ++ [(e, (Supervisor.step map e).2)]) (Supervisor.step map e).1 := by
  have hpend := fun a p => pending_step (e := e) (a := a) (p := p) h.keyed
    (fun i hi => h.eq_none ha hi)
  refine ⟨fun a p hp => ?_, fun a p hp => ?_, fun a hor => ?_, fun a hne => ?_, ?_⟩
  · rcases hpend a p hp with ⟨hp, -⟩ | ⟨-, hid, hnonce⟩
    · exact h.keyed a p hp
    · exact ⟨hid, hnonce⟩
  · rw [Run.since_concat]
    rcases hpend a p hp with ⟨hp, hends⟩ | ⟨hparks, -⟩
    · exact Or.inr ⟨h.since a p hp, hends⟩
    · exact Or.inl hparks
  · rw [mem_requestedIds_concat]
    rcases hor with hne | hmem
    · obtain ⟨p, hp⟩ := Option.ne_none_iff_exists'.mp hne
      rcases hpend a p hp with ⟨hp, -⟩ | ⟨⟨-, hreq, -⟩, rfl, -⟩
      · exact Or.inl (h.requested a (Or.inl (by rw [hp]; exact Option.some_ne_none p)))
      · exact Or.inr hreq
    · rw [dispatchedIds_concat, List.mem_append, Option.mem_toList] at hmem
      rcases hmem with hmem | hmem
      · exact Or.inl (h.requested a (Or.inr hmem))
      · cases hans : (Supervisor.step map e).2 with
        | dispatched session call =>
          obtain rfl : call.id = a := by simpa [hans, Answer.dispatches] using hmem
          rcases dispatch_step hans with ⟨-, hreq, -⟩ | ⟨p, action, -, -, hp, -, rfl, -⟩
          · exact Or.inr hreq
          · rw [show (p.call.stamp true).id = action from (h.keyed action p hp).1]
            exact Or.inl (h.requested _ (Or.inl (by rw [hp]; exact Option.some_ne_none p)))
        | _ => simp [hans, Answer.dispatches] at hmem
  · obtain ⟨p, hp⟩ := Option.ne_none_iff_exists'.mp hne
    rw [dispatchedIds_concat, List.mem_append, Option.mem_toList, not_or]
    rcases hpend a p hp with ⟨hp, hends⟩ | ⟨⟨-, hreq, hans⟩, rfl, -⟩
    · refine ⟨h.waiting a (by rw [hp]; exact Option.some_ne_none p), fun hd => hends ?_⟩
      rw [← (h.keyed a p hp).1] at hd
      exact Or.inr (Or.inr (Or.inr (Or.inr hd)))
    · refine ⟨fun hmem => ha.fresh _ hreq (h.requested _ (Or.inr hmem)), ?_⟩
      rw [show (Supervisor.step map e).2 = _ from hans]
      simp [Answer.dispatches]
  · rw [dispatchedIds_concat]
    cases hd : (Supervisor.step map e).2.dispatches with
    | none => simpa using h.once
    | some a =>
      rw [Option.toList_some, ← List.concat_eq_append, List.nodup_concat]
      exact ⟨h.notMem_dispatchedIds ha hd, h.once⟩

/-- Unique action ids make every event admissible. -/
theorem always_admissible {events : List Event} (h : ActionIdsUnique events) :
    Run.Always step (fun _ => none) (fun past _ e => Admissible past e) events := by
  rintro before e after rfl
  have hids : requestedIds (Run.log step (fun _ => none) before)
      = before.filterMap Event.requests := by
    rw [requestedIds]
    conv_rhs => rw [← Run.map_fst_log step (fun _ => none) before, List.filterMap_map]
    rfl
  refine ⟨fun i hi hmem => ?_, fun session action he x hx hreq => ?_⟩
  · have hnodup := h.requests_nodup
    rw [List.filterMap_append, List.filterMap_cons_some hi, List.nodup_append] at hnodup
    rw [hids] at hmem
    exact hnodup.2.2 i hmem i (by simp) rfl
  · have hmem : x.1 ∈ before := by
      rw [← Run.map_fst_log step (fun _ => none) before]
      exact List.mem_map_of_mem hx
    exact h.results_own session action (by simp [he]) x.1 (by simp [hmem]) hreq

/-- **What approval means**, at one point of a run. -/
structure Law (past : List (Event × Answer)) (map : PendingApprovals) (e : Event) : Prop where
  /-- What is dispatched was just requested and never parked, or was parked by its session under a
  nonce that is not zero, is dispatched by the granted approval with just that session, id and
  nonce, and was not dispatched, declined, cancelled, answered, nor its turn ended, since. -/
  dispatched : ∀ session call, (step map e).2 = .dispatched session call →
    (e.session = session ∧ e.requests = some call.id ∧
      ∀ p, ∀ x ∈ past, Parks p x → p.call.id ≠ call.id) ∨
    ∃ p, e = .userApproval p.session p.call.id true p.nonce ∧ p.nonce ≠ 0 ∧
      session = p.session ∧ call = p.call.stamp true ∧ Run.Since (Parks p) (Ends p) past
  /-- An approval that does not match changes nothing. -/
  ignored : ∀ session action granted nonce, e = .userApproval session action granted nonce →
    (∀ p, map action = some p → ¬ (p.session = session ∧ p.nonce = nonce)) →
    step map e = (map, .nothing)
  /-- An event of one session neither runs nor removes a parked call of another. -/
  isolated : ∀ a p, map a = some p → p.session ≠ e.session →
    (step map e).1 a = some p ∧ (step map e).2.dispatches ≠ some a

theorem Invariant.isolated (h : Invariant past map) (ha : Admissible past e) (hp : map a = some p)
    (hne : p.session ≠ e.session) :
    (Supervisor.step map e).1 a = some p ∧ (Supervisor.step map e).2.dispatches ≠ some a := by
  have hsome : map a ≠ none := by rw [hp]; exact Option.some_ne_none p
  cases e with
  | toolRequested session call gate nonce =>
    have hid : a ≠ call.id := fun heq => hsome (h.eq_none ha (by rw [Event.requests, heq]))
    rcases step_toolRequested map session call gate nonce with hstep | ⟨hmap, hdisp⟩
    · rw [hstep, parkForApproval]
      exact ⟨by simpa [hid] using hp, by simp [Answer.dispatches]⟩
    · refine ⟨by rw [hmap, hp], fun hd => ?_⟩
      cases hans : (Supervisor.step map (.toolRequested session call gate nonce)).2 with
      | dispatched session' call' =>
        rw [hans, Answer.dispatches, Option.some.injEq, (hdisp _ _ hans).2] at hd
        exact hid hd.symm
      | _ => simp [hans, Answer.dispatches] at hd
  | userApproval session action granted nonce =>
    rcases step_userApproval map session action granted nonce with
      ⟨q, hq, hsession, -, -, hstep⟩ | ⟨-, hstep⟩
    · have hid : a ≠ action := by
        rintro rfl
        obtain rfl := Option.some.inj (hp.symm.trans hq)
        exact hne hsession
      rw [hstep]
      refine ⟨update_none_eq_some.mpr ⟨hp, hid⟩, ?_⟩
      cases granted with
      | false => simp [Answer.dispatches]
      | true =>
        rintro hd
        exact hid ((Option.some.inj hd).symm.trans (h.keyed action q hq).1)
    · rw [hstep]
      exact ⟨hp, by simp [Answer.dispatches]⟩
  | userCancel session =>
    refine ⟨purgeSessionApprovals_eq_some.mpr ⟨hp, hne⟩, ?_⟩
    simp [Supervisor.step, Answer.dispatches]
  | turnComplete session =>
    refine ⟨purgeSessionApprovals_eq_some.mpr ⟨hp, hne⟩, ?_⟩
    simp [Supervisor.step, Answer.dispatches]
  | toolResult session action =>
    refine ⟨update_none_eq_some.mpr ⟨hp, ?_⟩, by simp [Supervisor.step, Answer.dispatches]⟩
    rintro rfl
    obtain ⟨l₁, x, l₂, rfl, ⟨hsession, hreq, -⟩, -⟩ := h.since a p hp
    rw [(h.keyed a p hp).1] at hreq
    exact hne (hsession.symm.trans (ha.own session a rfl x (by simp) hreq))

theorem Invariant.law (h : Invariant past map) (ha : Admissible past e) : Law past map e := by
  refine ⟨fun session call hans => ?_, ?_, fun a p hp hne => h.isolated ha hp hne⟩
  · rcases dispatch_step hans with ⟨hsession, hreq, -⟩ | ⟨p, action, he, hnonce, hp, hs, hcall, -⟩
    · refine Or.inl ⟨hsession, hreq, fun p x hx hparks heq => ?_⟩
      refine ha.fresh call.id hreq (List.mem_filterMap.mpr ⟨x, hx, ?_⟩)
      rw [hparks.2.1, heq]
    · rw [← (h.keyed action p hp).1] at he
      exact Or.inr ⟨p, he, hnonce, hs, hcall, h.since action p hp⟩
  · rintro session action granted nonce rfl hno
    rcases step_userApproval map session action granted nonce with
      ⟨p, hp, hsession, -, hnonce, -⟩ | ⟨-, hstep⟩
    · exact absurd ⟨hsession, hnonce⟩ (hno p hp)
    · exact hstep

/-- **The approval gate.** Where action ids are unique, whatever order the events come in: the law
holds at every point, and no action is ever dispatched twice. -/
theorem approval_gate {events : List Event} (h : ActionIdsUnique events) :
    Run.Always step (fun _ => none) Law events ∧
      (dispatchedIds (Run.log step (fun _ => none) events)).Nodup := by
  have hstep : ∀ past map e, Invariant past map → Admissible past e →
      Invariant (past ++ [(e, (step map e).2)]) (step map e).1 :=
    fun _ _ _ hinv ha => hinv.step ha
  refine ⟨?_, (Run.invariant invariant_nil hstep (always_admissible h)).once⟩
  exact Run.Always.of_invariant invariant_nil hstep (fun _ _ _ hinv ha => hinv.law ha)
    (always_admissible h)

/-- Every tool is asked for. -/
def askGate : Gate where
  policy := ⟨.suggest, []⟩
  plugin := none
  inWorkspace _ := false
  hook _ := .execute
  goalYolo := false

/-- The nonce of a call. -/
def askNonce : Nonce := ⟨99, by decide⟩

/-- A call is parked, approved from the wrong session, approved, and approved again. -/
def approvedOnce : List Event :=
  [.toolRequested 1 ⟨7, "run_command", .null⟩ askGate askNonce, .userApproval 2 7 true 99,
    .userApproval 1 7 true 99, .userApproval 1 7 true 99]

theorem approvedOnce_unique : ActionIdsUnique approvedOnce := by
  refine ⟨by decide, fun session action h => ?_⟩
  simp [approvedOnce] at h

/-- It runs once. -/
theorem approvedOnce_dispatches :
    ActionIdsUnique approvedOnce ∧
      dispatchedIds (Run.log step (fun _ => none) approvedOnce) = [7] ∧
      Run.Always step (fun _ => none) Law approvedOnce :=
  ⟨approvedOnce_unique, by decide +kernel, (approval_gate approvedOnce_unique).1⟩

end Supervisor

end ApexOS.Agentd
