import ApexOS.Agentd.Supervisor

/-!
# The bus's own state, and the supervisor's

`SystemState::apply` in `agentd/crates/core/src/state.rs`, the part of it that folds the approvals
and the plugins, and `Bus::run` in `bus.rs`, which folds every event before it hands the commands
to the supervisor.

Both the bus and the supervisor keep a book of the calls that wait for a human. The bus's one is
what the rest of the daemon can see. It hears of a parked call by the `ApprovalPending` that the
supervisor sends, which takes its place at the end of the bus's inbox, so between the two books
there are announcements in flight. `Books` is the two books with just these; `Bus` is the inbox and
the supervisor's command lane as they are, and `Bus.books` is the view that forgets the queues.

## Main definitions

* `SystemState.apply`: the fold
* `Bus.step`: events are emitted, folded and handled, in any order of the three
* `Bus.Settled`, `Bus.Agree`: no event is under way; the two books have the same keys
* `Books.Keeps`: what an event must not do, for the books to stay together
* `SystemState.ToolsConsistent`: the tool map says what the plugins advertise
* `SystemState.Releases`: what must hold of the names a plugin gives up

## Main results

* `Bus.books_agree`: the books agree whenever the bus is settled, in every run whose events keep
  them; `Bus.not_agree_guessed` is a guessed approval that does not
* `SystemState.toolsConsistent_iff`: the tool map stays consistent exactly as long as the names
  given up are released
-/

namespace ApexOS.Agentd

/-- `PluginId`. -/
abbrev PluginId := String

/-- `ToolSpec`, by its name alone. -/
structure ToolSpec where
  name : String
  deriving DecidableEq, Repr

/-- `Event::PluginUp` and `Event::PluginDown`. -/
inductive PluginEvent
  | up (plugin : PluginId) (tools : List ToolSpec)
  | down (plugin : PluginId)

/-- The bus events that `SystemState::apply` folds here. -/
inductive BusEvent
  | command (event : Event)
  | approvalPending (session : SessionId) (call : ToolCall) (nonce : UInt64)
  | plugin (event : PluginEvent)

/-- `SystemState`. -/
structure SystemState where
  /-- Currently registered tools: tool name to owning plugin. -/
  tools : String → Option PluginId
  /-- Live plugins and the tools each advertises. -/
  plugins : PluginId → Option (List ToolSpec)
  /-- Tool calls awaiting human approval. -/
  pendingApprovals : ActionId → Option SessionId

namespace SystemState

/-- `SystemState::default`. -/
def default : SystemState := ⟨fun _ => none, fun _ => none, fun _ => none⟩

/-- `pending_approvals.retain(|_, s| s != session)`. -/
def retainSessions (st : SystemState) (session : SessionId) : SystemState :=
  { st with pendingApprovals := fun a => (st.pendingApprovals a).filter (· ≠ session) }

/-- `pending_approvals.remove(action)`. -/
def removeApproval (st : SystemState) (action : ActionId) : SystemState :=
  { st with pendingApprovals := Function.update st.pendingApprovals action none }

/-- The loop of `PluginUp`. -/
def insertTools (tools : String → Option PluginId) (plugin : PluginId) :
    List ToolSpec → String → Option PluginId
  | [] => tools
  | spec :: specs => insertTools (Function.update tools spec.name (some plugin)) plugin specs

/-- `SystemState::apply`. An approval is taken out whatever session and nonce it comes with. -/
def apply (st : SystemState) : BusEvent → SystemState
  | .command (.userCancel session) => st.retainSessions session
  | .command (.toolRequested ..) => st
  | .approvalPending session call _ =>
    { st with pendingApprovals := Function.update st.pendingApprovals call.id (some session) }
  | .command (.userApproval _ action _ _) => st.removeApproval action
  | .command (.toolResult _ call) => st.removeApproval call
  | .command (.turnComplete session) => st.retainSessions session
  | .plugin (.up plugin tools) =>
    { st with
      tools := insertTools st.tools plugin tools
      plugins := Function.update st.plugins plugin (some tools) }
  | .plugin (.down plugin) =>
    { st with
      tools := fun name => (st.tools name).filter (· ≠ plugin)
      plugins := Function.update st.plugins plugin none }

end SystemState

/-! ### The two books -/

/-- An `ApprovalPending` under way. -/
abbrev Announcement := ActionId × SessionId

/-- What an answer of the supervisor announces. -/
def Answer.announcement : Answer → Option Announcement
  | .approvalPending session call _ => some (call.id, session)
  | _ => none

/-- The supervisor's book, the bus's, and the announcements between them. -/
structure Books where
  supervisor : PendingApprovals
  system : SystemState
  inFlight : List Announcement

namespace Books

/-- The bus's book once the announcements have come in. -/
def announced : (ActionId → Option SessionId) → List Announcement → ActionId → Option SessionId
  | system, [] => system
  | system, (a, session) :: rest => announced (Function.update system a (some session)) rest

/-- An announcement of the action is in flight. -/
def InFlight (b : Books) (a : ActionId) : Prop := ∃ session, (a, session) ∈ b.inFlight

/-- **The bus's book lags behind by the announcements in flight** and by nothing else. -/
def Lags (b : Books) : Prop :=
  ∀ a,
    announced b.system.pendingApprovals b.inFlight a = (b.supervisor a).map PendingApproval.session

/-- The approval is the one a parked call waits for. -/
def Matches (map : PendingApprovals) (session : SessionId) (action : ActionId) (nonce : UInt64) :
    Prop :=
  ∃ p, map action = some p ∧ p.session = session ∧ p.nonce ≠ 0 ∧ p.nonce = nonce

/-- What an event must not do: end a parked call whose announcement is in flight, or be an
approval that the supervisor ignores while the bus knows the call. -/
def Keeps (b : Books) : Event → Prop
  | .toolRequested .. => True
  | .userApproval session action _ nonce =>
    (Matches b.supervisor session action nonce → ¬ b.InFlight action) ∧
      (¬ Matches b.supervisor session action nonce →
        b.supervisor action = none ∨ b.InFlight action)
  | .userCancel session | .turnComplete session =>
    ∀ a p, b.supervisor a = some p → p.session = session → ¬ b.InFlight a
  | .toolResult _ call => ¬ b.InFlight call

theorem announced_of_not_mem {system : ActionId → Option SessionId} {l : List Announcement}
    {a : ActionId} (h : ∀ session, (a, session) ∉ l) : announced system l a = system a := by
  induction l generalizing system with
  | nil => rfl
  | cons x l ih =>
    obtain ⟨b, session⟩ := x
    have hab : a ≠ b := by
      rintro rfl
      exact h session (by simp)
    rw [announced, ih fun s hs => h s (by simp [hs]), Function.update_of_ne hab]

/-- What is in flight decides, whatever the bus's book says. -/
theorem announced_congr {system system' : ActionId → Option SessionId} {l : List Announcement}
    {a : ActionId} (h : ∃ session, (a, session) ∈ l) :
    announced system l a = announced system' l a := by
  induction l generalizing system system' with
  | nil => simp at h
  | cons x l ih =>
    obtain ⟨b, session⟩ := x
    by_cases hl : ∃ session, (a, session) ∈ l
    · exact ih hl
    · have hno : ∀ session, (a, session) ∉ l := fun s hs => hl ⟨s, hs⟩
      obtain ⟨s, hs⟩ := h
      obtain ⟨rfl, rfl⟩ : a = b ∧ s = session := by
        rcases List.mem_cons.mp hs with hs | hs
        · simpa using hs
        · exact absurd hs (hno s)
      rw [announced, announced, announced_of_not_mem hno, announced_of_not_mem hno,
        Function.update_self, Function.update_self]

theorem announced_append (system : ActionId → Option SessionId) (l l' : List Announcement) :
    announced system (l ++ l') = announced (announced system l) l' := by
  induction l generalizing system with
  | nil => rfl
  | cons x l ih => exact ih _

/-- The books after the bus has folded a command and the supervisor has handled it. -/
def fold (b : Books) (e : Event) : Books where
  supervisor := (Supervisor.step b.supervisor e).1
  system := b.system.apply (.command e)
  inFlight := b.inFlight ++ (Supervisor.step b.supervisor e).2.announcement.toList

theorem announced_fold (b : Books) (e : Event) :
    announced (b.fold e).system.pendingApprovals (b.fold e).inFlight =
      announced (announced (b.system.apply (.command e)).pendingApprovals b.inFlight)
        (Supervisor.step b.supervisor e).2.announcement.toList :=
  announced_append _ _ _

variable {b : Books}

/-- An event that takes calls out of both books, and announces nothing: it may do so as long as
it agrees with the supervisor on every call that is not in flight, and leaves the others. -/
theorem Lags.of_removed (h : b.Lags) {e : Event}
    (hnone : (Supervisor.step b.supervisor e).2.announcement = none)
    (hfly : ∀ a, b.InFlight a → (Supervisor.step b.supervisor e).1 a = b.supervisor a)
    (hrest : ∀ a, ¬ b.InFlight a →
      b.system.pendingApprovals a = (b.supervisor a).map PendingApproval.session →
      (b.system.apply (.command e)).pendingApprovals a =
        ((Supervisor.step b.supervisor e).1 a).map PendingApproval.session) :
    (b.fold e).Lags := by
  intro a
  rw [announced_fold, hnone]
  change announced (b.system.apply (.command e)).pendingApprovals b.inFlight a = _
  by_cases ha : b.InFlight a
  · rw [announced_congr ha, h a]
    exact congrArg _ (hfly a ha).symm
  · have hno : ∀ session, (a, session) ∉ b.inFlight := fun s hs => ha ⟨s, hs⟩
    rw [announced_of_not_mem hno]
    refine hrest a ha ?_
    rw [← h a, announced_of_not_mem hno]

/-- A request is parked and announced, or neither. -/
theorem parks_or_silent (map : PendingApprovals) (session : SessionId) (call : ToolCall)
    (gate : Gate) (nonce : Nonce) :
    Supervisor.step map (.toolRequested session call gate nonce)
        = parkForApproval map session call nonce ∨
      (Supervisor.step map (.toolRequested session call gate nonce)).1 = map ∧
        (Supervisor.step map (.toolRequested session call gate nonce)).2.announcement = none := by
  rw [Supervisor.step]
  split
  · exact Or.inr ⟨rfl, rfl⟩
  · exact Or.inr ⟨rfl, rfl⟩
  · exact Or.inr ⟨rfl, rfl⟩
  · exact Or.inl rfl

theorem lags_toolRequested (h : b.Lags) (session : SessionId) (call : ToolCall) (gate : Gate)
    (nonce : Nonce) : (b.fold (.toolRequested session call gate nonce)).Lags := by
  intro a
  rw [announced_fold]
  change announced (announced b.system.pendingApprovals b.inFlight) _ a = Option.map _
    ((Supervisor.step b.supervisor (.toolRequested session call gate nonce)).1 a)
  rw [show announced b.system.pendingApprovals b.inFlight = _ from funext h]
  rcases parks_or_silent b.supervisor session call gate nonce with hstep | ⟨hmap, hnone⟩
  · rw [hstep]
    by_cases ha : a = call.id
    · subst ha
      simp [parkForApproval, Answer.announcement, announced]
    · simp [parkForApproval, Answer.announcement, announced, ha]
  · rw [hnone, hmap]
    rfl

theorem lags_userApproval (h : b.Lags) {session : SessionId} {action : ActionId} {nonce : UInt64}
    (granted : Bool) (hk : b.Keeps (.userApproval session action granted nonce)) :
    (b.fold (.userApproval session action granted nonce)).Lags := by
  rcases Supervisor.step_userApproval b.supervisor session action granted nonce with
    ⟨p, hp, hsession, hne, hnonce, hstep⟩ | ⟨hno, hstep⟩
  · have hfree : ¬ b.InFlight action := hk.1 ⟨p, hp, hsession, hne, hnonce⟩
    refine h.of_removed ?_ (fun a ha => ?_) fun a _ hsys => ?_
    · rw [hstep]
      cases granted <;> rfl
    · rw [hstep]
      exact Function.update_of_ne (fun hc : a = action => hfree (hc ▸ ha)) _ _
    · rw [hstep]
      change Function.update b.system.pendingApprovals action none a = Option.map _
        (Function.update b.supervisor action none a)
      by_cases ha : a = action
      · subst ha
        simp
      · rw [Function.update_of_ne ha, Function.update_of_ne ha, hsys]
  · have hfree := hk.2 fun ⟨p, hp, hm⟩ => hno p hp hm
    refine h.of_removed (by rw [hstep]; rfl) (fun a _ => by rw [hstep]) fun a ha hsys => ?_
    rw [hstep]
    change Function.update b.system.pendingApprovals action none a = (b.supervisor a).map _
    by_cases heq : a = action
    · subst heq
      rw [Function.update_self, hfree.resolve_right ha]
      rfl
    · rw [Function.update_of_ne heq, hsys]

/-- The end of a session's turn, however it comes about. -/
theorem lags_purged (h : b.Lags) {session : SessionId} {e : Event}
    (hsup : Supervisor.step b.supervisor e = (purgeSessionApprovals b.supervisor session, .nothing))
    (hsys : b.system.apply (.command e) = b.system.retainSessions session)
    (hk : ∀ a p, b.supervisor a = some p → p.session = session → ¬ b.InFlight a) :
    (b.fold e).Lags := by
  refine h.of_removed (by rw [hsup]; rfl) (fun a ha => ?_) fun a _ heq => ?_
  · rw [hsup]
    cases hp : b.supervisor a with
    | none => simp [purgeSessionApprovals, hp]
    | some p => exact Supervisor.purgeSessionApprovals_eq_some.mpr ⟨hp, fun hc => hk a p hp hc ha⟩
  · rw [hsup, hsys]
    change (b.system.pendingApprovals a).filter _ = ((b.supervisor a).filter _).map _
    rw [heq]
    cases b.supervisor a with
    | none => rfl
    | some p => by_cases hs : p.session = session <;> simp [Option.filter, hs]

/-- Every event that keeps to its rule keeps the books together. -/
theorem Lags.fold (h : b.Lags) {e : Event} (hk : b.Keeps e) : (b.fold e).Lags := by
  cases e with
  | toolRequested session call gate nonce => exact lags_toolRequested h session call gate nonce
  | userApproval session action granted nonce => exact lags_userApproval h granted hk
  | userCancel session => exact lags_purged h rfl rfl hk
  | turnComplete session => exact lags_purged h rfl rfl hk
  | toolResult session call =>
    refine h.of_removed rfl (fun a ha => ?_) fun a _ hsys => ?_
    · exact Function.update_of_ne (fun hc : a = call => hk (hc ▸ ha)) _ _
    · change Function.update b.system.pendingApprovals call none a = Option.map _
        (Function.update b.supervisor call none a)
      by_cases heq : a = call
      · subst heq
        simp
      · rw [Function.update_of_ne heq, Function.update_of_ne heq, hsys]

end Books

/-! ### The bus -/

/-- The announcement an event on the bus is. -/
def BusEvent.announcement : BusEvent → Option Announcement
  | .approvalPending session call _ => some (call.id, session)
  | _ => none

/-- The bus and the supervisor, with what is queued for each. -/
structure Bus where
  inbox : List BusEvent
  /-- The supervisor's end of `subscribe_commands`. -/
  lane : List Event
  supervisor : PendingApprovals
  system : SystemState

/-- What may happen next: anyone emits a command, a plugin comes or goes, the bus takes an event
from its inbox, the supervisor takes one from its lane. -/
inductive Bus.Move
  | emit (event : Event)
  | report (event : PluginEvent)
  | fold
  | handle

namespace Bus

/-- An empty bus. -/
def start : Bus := ⟨[], [], fun _ => none, .default⟩

/-- What `park_for_approval` emits, as an event of the inbox. -/
def emission : Answer → List BusEvent
  | .approvalPending session call nonce => [.approvalPending session call nonce]
  | _ => []

/-- One move: an event is queued, or `Bus::run` folds the next and passes a command on, or the
supervisor handles its next command. -/
def step (b : Bus) : Move → Bus × Unit
  | .emit event => ({ b with inbox := b.inbox ++ [.command event] }, ())
  | .report event => ({ b with inbox := b.inbox ++ [.plugin event] }, ())
  | .fold =>
    match b.inbox with
    | [] => (b, ())
    | .command event :: rest =>
      ({ b with
          inbox := rest
          lane := b.lane ++ [event]
          system := b.system.apply (.command event) }, ())
    | event :: rest => ({ b with inbox := rest, system := b.system.apply event }, ())
  | .handle =>
    match b.lane with
    | [] => (b, ())
    | event :: rest =>
      ({ b with
          inbox := b.inbox ++ emission (Supervisor.step b.supervisor event).2
          lane := rest
          supervisor := (Supervisor.step b.supervisor event).1 }, ())

/-- No event is under way. -/
def Settled (b : Bus) : Prop := b.inbox = [] ∧ b.lane = []

/-- **The two books hold the same calls.** -/
def Agree (b : Bus) : Prop :=
  ∀ a, (b.system.pendingApprovals a).isSome = (b.supervisor a).isSome

/-- The view without the queues: what the supervisor will have made of the commands already
folded, and the announcements queued or still to come from these. -/
def books (b : Bus) : Books where
  supervisor := Run.final Supervisor.step b.supervisor b.lane
  system := b.system
  inFlight := b.inbox.filterMap BusEvent.announcement ++
    (Run.log Supervisor.step b.supervisor b.lane).filterMap fun x => x.2.announcement

/-- What a move must not do: fold a command that breaks the books apart. -/
def Keeps (b : Bus) : Move → Prop
  | .fold => ∀ event rest, b.inbox = .command event :: rest → b.books.Keeps event
  | _ => True

theorem filterMap_emission (answer : Answer) :
    (emission answer).filterMap BusEvent.announcement = answer.announcement.toList := by
  cases answer <;> rfl

/-- Queueing an event that announces nothing. -/
theorem books_queue (b : Bus) {event : BusEvent} (h : event.announcement = none) :
    ({ b with inbox := b.inbox ++ [event] } : Bus).books = b.books := by
  simp only [books, List.filterMap_append, List.filterMap_cons_none h, List.filterMap_nil,
    List.append_nil]

/-- The supervisor's view of a command folded is the one after it has handled it. -/
theorem books_fold {b : Bus} {event : Event} {rest : List BusEvent}
    (h : b.inbox = .command event :: rest) : (b.step .fold).1.books = b.books.fold event := by
  have hnone : (BusEvent.command event).announcement = none := rfl
  simp only [step, h, books, Books.fold, Run.final_append, Run.final_cons, Run.final_nil,
    Run.log_append, Run.log_cons, Run.log_nil, List.filterMap_append, List.append_assoc,
    List.filterMap_cons_none hnone]
  congr 3

/-- Handling a command moves its announcement from the lane to the inbox. -/
theorem books_handle (b : Bus) : (b.step .handle).1.books = b.books := by
  cases h : b.lane with
  | nil => simp only [step, h]
  | cons event rest =>
    simp only [step, h, books, Run.final_cons, Run.log_cons, List.filterMap_append,
      filterMap_emission, List.append_assoc]
    congr 2
    cases hans : (Supervisor.step b.supervisor event).2.announcement <;> simp [hans]

/-- Only folding a command moves the books; the rest is queueing. -/
theorem lags_step {b : Bus} {m : Move} (h : b.books.Lags) (hk : b.Keeps m) :
    (b.step m).1.books.Lags := by
  cases m with
  | emit event => rwa [step, books_queue b rfl]
  | report event => rwa [step, books_queue b rfl]
  | handle => rwa [books_handle]
  | fold =>
    cases hin : b.inbox with
    | nil => rwa [step, hin]
    | cons event rest =>
      cases event with
      | command event =>
        rw [books_fold hin]
        exact h.fold (hk event rest hin)
      | approvalPending session call nonce =>
        simp only [step, hin]
        intro a
        have ha := h a
        simp only [books, hin] at ha
        exact ha
      | plugin event =>
        simp only [step, hin]
        intro a
        have ha := h a
        simp only [books, hin] at ha
        cases event <;> exact ha

/-- **The two books agree.** In every run of the bus and the supervisor, whatever is emitted and in
whatever order the two get to it: if no command folded ends a parked call whose announcement is
still in flight, or is an approval the supervisor ignores for a call the bus knows, the books hold
the same calls whenever no event is under way. -/
theorem books_agree {moves : List Move}
    (h : Run.Always step start (fun _ b m => b.Keeps m) moves)
    (hs : (Run.final step start moves).Settled) : (Run.final step start moves).Agree := by
  have hlags : (Run.final step start moves).books.Lags :=
    Run.invariant (I := fun _ b => b.books.Lags) (fun _ => rfl)
      (fun past b m hb hk => lags_step hb hk) h
  intro a
  have ha := hlags a
  simp only [books, hs.1, hs.2, List.filterMap_nil, Run.log_nil, Run.final_nil,
    List.append_nil, Books.announced] at ha
  rw [ha, Option.isSome_map]

/-- A call that waits for an operator. -/
def asked : Event :=
  .toolRequested 1 ⟨7, "run_command", .null⟩ Supervisor.askGate Supervisor.askNonce

/-- The call is parked, announced, and approved by the session it belongs to under its nonce. -/
def approved : List Move :=
  [.emit asked, .fold, .handle, .fold, .emit (.userApproval 1 7 true 99), .fold, .handle]

/-- The same call, approved by a guess: the session is right, the nonce is not. -/
def guessed : List Move :=
  [.emit asked, .fold, .handle, .fold, .emit (.userApproval 1 7 true 98), .fold, .handle]

/-- The guess takes the call out of the bus's book; the supervisor keeps it. -/
theorem not_agree_guessed :
    (Run.final step start guessed).Settled ∧ ¬ (Run.final step start guessed).Agree := by
  refine ⟨⟨rfl, rfl⟩, fun h => ?_⟩
  have h7 := h 7
  have hsys : ((Run.final step start guessed).system.pendingApprovals 7).isSome = false := by
    rfl
  have hsup : ((Run.final step start guessed).supervisor 7).isSome = true := by
    rfl
  rw [hsys, hsup] at h7
  cases h7

theorem books_agree_approved :
    Run.Always step start (fun _ b m => b.Keeps m) approved ∧
      (Run.final step start approved).Settled ∧ (Run.final step start approved).Agree := by
  have hkeeps : Run.Always step start (fun _ b m => b.Keeps m) approved := by
    simp only [approved, Run.always_cons]
    refine ⟨trivial, fun _ _ hin => ?_, trivial, fun _ _ hin => ?_, trivial, fun _ _ hin => ?_,
      trivial, Run.Always.nil⟩
    · cases hin
      exact trivial
    · cases hin
    · cases hin
      refine ⟨fun _ ⟨_, hfly⟩ => ?_, fun hno => absurd ⟨_, rfl, rfl, by decide, rfl⟩ hno⟩
      cases hfly
  exact ⟨hkeeps, ⟨rfl, rfl⟩, books_agree hkeeps ⟨rfl, rfl⟩⟩

end Bus

/-! ### The tool map -/

namespace SystemState

/-- The plugin is live and advertises the name. -/
def Advertises (st : SystemState) (plugin : PluginId) (name : String) : Prop :=
  ∃ specs, st.plugins plugin = some specs ∧ name ∈ specs.map ToolSpec.name

/-- **The tool map says what the live plugins advertise.** -/
structure ToolsConsistent (st : SystemState) : Prop where
  /-- Every entry names a live plugin that advertises the name. -/
  owned : ∀ name p, st.tools name = some p → st.Advertises p name
  /-- A name one live plugin advertises, and no other does, is that plugin's. -/
  mapped : ∀ name p, st.Advertises p name → (∀ q, st.Advertises q name → q = p) →
    st.tools name = some p

/-- If just one other live plugin advertises the name, the tool map already gives it to that. -/
def HandsOver (st : SystemState) (plugin : PluginId) (name : String) : Prop :=
  ∀ q, q ≠ plugin → st.Advertises q name →
    (∀ r, r ≠ plugin → st.Advertises r name → r = q) → st.tools name = some q

/-- What must hold of the names a plugin gives up, those it advertised and does not any more: they
are handed over, and where the plugin stays up the tool map does not give them to it. -/
def Releases (st : SystemState) : PluginEvent → Prop
  | .up plugin specs => ∀ name, st.Advertises plugin name → name ∉ specs.map ToolSpec.name →
      st.tools name ≠ some plugin ∧ st.HandsOver plugin name
  | .down plugin => ∀ name, st.Advertises plugin name → st.HandsOver plugin name

theorem insertTools_apply (tools : String → Option PluginId) (plugin : PluginId)
    (specs : List ToolSpec) (name : String) :
    insertTools tools plugin specs name =
      if name ∈ specs.map ToolSpec.name then some plugin else tools name := by
  induction specs generalizing tools with
  | nil => rfl
  | cons spec specs ih =>
    rw [insertTools, ih, List.map_cons]
    by_cases hmem : name ∈ specs.map ToolSpec.name
    · rw [if_pos hmem, if_pos (List.mem_cons_of_mem _ hmem)]
    · rw [if_neg hmem]
      by_cases heq : name = spec.name
      · rw [heq, Function.update_self, if_pos (List.mem_cons_self ..)]
      · rw [Function.update_of_ne heq, if_neg]
        simpa only [List.mem_cons, not_or] using ⟨heq, hmem⟩

variable {st : SystemState} {p q : PluginId} {name : String} {specs : List ToolSpec}

theorem advertises_up : (st.apply (.plugin (.up p specs))).Advertises q name ↔
    q = p ∧ name ∈ specs.map ToolSpec.name ∨ q ≠ p ∧ st.Advertises q name := by
  by_cases hq : q = p
  · subst hq
    simp [Advertises, apply]
  · simp [Advertises, apply, hq]

theorem advertises_down : (st.apply (.plugin (.down p))).Advertises q name ↔
    q ≠ p ∧ st.Advertises q name := by
  by_cases hq : q = p
  · subst hq
    simp [Advertises, apply]
  · simp [Advertises, apply, hq]

theorem tools_up : (st.apply (.plugin (.up p specs))).tools name =
    if name ∈ specs.map ToolSpec.name then some p else st.tools name :=
  insertTools_apply ..

theorem tools_down : (st.apply (.plugin (.down p))).tools name = some q ↔
    st.tools name = some q ∧ q ≠ p := by
  simp [apply, Option.filter_eq_some_iff]

/-- A name that is handed over is mapped right once the plugin is out of the way. -/
theorem mapped_of_handsOver (h : st.ToolsConsistent)
    (hover : st.Advertises p name → st.HandsOver p name) (hq : q ≠ p) (hadv : st.Advertises q name)
    (hsole : ∀ r, r ≠ p → st.Advertises r name → r = q) : st.tools name = some q := by
  by_cases hp : st.Advertises p name
  · exact hover hp q hq hadv hsole
  · refine h.mapped name q hadv fun r hr => ?_
    by_cases hrp : r = p
    · subst hrp
      exact absurd hr hp
    · exact hsole r hrp hr

theorem toolsConsistent_up (h : st.ToolsConsistent) :
    (st.apply (.plugin (.up p specs))).ToolsConsistent ↔ st.Releases (.up p specs) := by
  constructor
  · rintro ⟨howned, hmapped⟩ name hadv hmem
    refine ⟨fun htools => ?_, fun q hq hqadv hsole => ?_⟩
    · have hp := howned name p (by rw [tools_up, if_neg hmem, htools])
      rw [advertises_up] at hp
      rcases hp with ⟨-, hc⟩ | ⟨hc, -⟩
      · exact hmem hc
      · exact hc rfl
    · rw [← hmapped name q (advertises_up.mpr (Or.inr ⟨hq, hqadv⟩)), tools_up, if_neg hmem]
      intro r hr
      rcases advertises_up.mp hr with ⟨-, hc⟩ | ⟨hrp, hr⟩
      · exact absurd hc hmem
      · exact hsole r hrp hr
  · intro hrel
    refine ⟨fun name q htools => ?_, fun name q hadv hsole => ?_⟩
    · rw [tools_up] at htools
      rw [advertises_up]
      split at htools
      · rename_i hmem
        exact Or.inl ⟨(Option.some.inj htools).symm, hmem⟩
      · rename_i hmem
        refine Or.inr ⟨?_, h.owned name q htools⟩
        rintro rfl
        exact (hrel name (h.owned name q htools) hmem).1 htools
    · rw [tools_up]
      split
      · rename_i hmem
        rw [hsole p (advertises_up.mpr (Or.inl ⟨rfl, hmem⟩))]
      · rename_i hmem
        rcases advertises_up.mp hadv with ⟨-, hc⟩ | ⟨hq, hqadv⟩
        · exact absurd hc hmem
        · refine mapped_of_handsOver h (fun hp => (hrel name hp hmem).2)
            hq hqadv fun r hr hradv => ?_
          exact hsole r (advertises_up.mpr (Or.inr ⟨hr, hradv⟩))

theorem toolsConsistent_down (h : st.ToolsConsistent) :
    (st.apply (.plugin (.down p))).ToolsConsistent ↔ st.Releases (.down p) := by
  constructor
  · rintro ⟨-, hmapped⟩ name hadv q hq hqadv hsole
    refine (tools_down.mp (hmapped name q (advertises_down.mpr ⟨hq, hqadv⟩) fun r hr => ?_)).1
    obtain ⟨hrp, hr⟩ := advertises_down.mp hr
    exact hsole r hrp hr
  · intro hrel
    refine ⟨fun name q htools => ?_, fun name q hadv hsole => ?_⟩
    · obtain ⟨htools, hq⟩ := tools_down.mp htools
      exact advertises_down.mpr ⟨hq, h.owned name q htools⟩
    · obtain ⟨hq, hqadv⟩ := advertises_down.mp hadv
      refine tools_down.mpr ⟨?_, hq⟩
      refine mapped_of_handsOver h (hrel name) hq hqadv fun r hr hradv => ?_
      exact hsole r (advertises_down.mpr ⟨hr, hradv⟩)

theorem toolsConsistent_default : default.ToolsConsistent := by
  refine ⟨fun _ _ h => ?_, fun _ _ ⟨_, h, _⟩ _ => ?_⟩ <;> cases h

/-- The fold of the plugin events. -/
def stepPlugin (st : SystemState) (e : PluginEvent) : SystemState × Unit :=
  (st.apply (.plugin e), ())

theorem toolsConsistent_step (h : st.ToolsConsistent) (e : PluginEvent) :
    (st.apply (.plugin e)).ToolsConsistent ↔ st.Releases e := by
  cases e with
  | up plugin specs => exact toolsConsistent_up h
  | down plugin => exact toolsConsistent_down h

/-- **The tool map, exactly.** Over every sequence of plugin events, the map is consistent after
each of them if and only if each gives up its names rightly. -/
theorem toolsConsistent_iff (events : List PluginEvent) :
    Run.Always stepPlugin default (fun _ st e => (stepPlugin st e).1.ToolsConsistent) events ↔
      Run.Always stepPlugin default (fun _ st e => st.Releases e) events := by
  constructor
  · exact Run.Always.of_invariant (I := fun _ => ToolsConsistent) toolsConsistent_default
      (fun _ _ _ _ h => h) fun _ _ e hst h => (toolsConsistent_step hst e).mp h
  · exact Run.Always.of_invariant (I := fun _ => ToolsConsistent) toolsConsistent_default
      (fun _ _ e hst h => (toolsConsistent_step hst e).mpr h)
      fun _ _ e hst h => (toolsConsistent_step hst e).mpr h

/-- A plugin that comes up again with another tool keeps the old name. -/
theorem not_toolsConsistent_reup :
    ¬ ((default.apply (.plugin (.up "search" [⟨"find"⟩]))).apply
      (.plugin (.up "search" [⟨"lookup"⟩]))).ToolsConsistent := by
  intro h
  obtain ⟨specs, hspecs, hmem⟩ := h.owned "find" "search" (by rfl)
  obtain rfl : [⟨"lookup"⟩] = specs := by simpa [apply] using hspecs
  simp at hmem

end SystemState

end ApexOS.Agentd
