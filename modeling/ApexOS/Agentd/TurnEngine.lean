import ApexOS.Agentd.History
import ApexOS.Agentd.Provider
import ApexOS.Agentd.Supervisor
import ApexOS.Lib.Table
import Mathlib.Algebra.GroupWithZero.Nat

/-!
# The turn loop

`agentd/crates/agent/src/turn.rs`: `run_turn` and `collect_tool_results`. A round reads the
provider's stream, commits what came as one message, and if that asks for tools, waits on the bus
for their results. What the world does is an input of each round: the chunks, the action ids that
other turns take in between, what is received from the bus and how the waiting ends. The bus is
shared, so anything can come over it, in any order and any number of times.

What a turn says on the bus besides its calls, and what it sends to the provider besides the
history, is left out: nothing here reads it.

## Main definitions

* `readStream`, `collectToolResults`, `runTurn`: the loop
* `visionRewrite`, `missingResultMessage`: what a result is turned into, and what stands for none
* `Answered`: every call has its own result, in order
* `ValidTurn`: what a turn adds to a history

## Main results

* `runTurn_valid`: what a turn returns is the history, and a valid turn
-/

namespace ApexOS.Agentd.TurnEngine

/-! ### Reading the provider's stream -/

/-- Why a turn has no history to return. -/
inductive Failure
  | semaphore
  | provider
  | busClosed

/-- A chunk of the stream. -/
structure Arrival where
  /-- how many action ids other turns have taken since the last one -/
  taken : ℕ
  chunk : Except Failure Chunk

/-- `next_action_id`: the id, and what the counter is left at. -/
def nextActionId (counter : UInt64) : ActionId × UInt64 := (counter, counter + 1)

/-- What a round has read. -/
structure Reading where
  counter : UInt64
  assistantBlocks : List ContentBlock
  pendingTools : List ToolCall
  idMap : Table ActionId String

namespace Reading

/-- One chunk. -/
def read (r : Reading) : Chunk → Reading
  | .textBlock text => { r with assistantBlocks := r.assistantBlocks ++ [.text text] }
  | .thinkingBlock thinking signature =>
    { r with assistantBlocks := r.assistantBlocks ++ [.thinking thinking signature] }
  | .toolUse apiId name input =>
    let (actionId, counter) := nextActionId r.counter
    { counter
      assistantBlocks := r.assistantBlocks ++ [.toolUse apiId name input]
      pendingTools := r.pendingTools ++ [⟨actionId, name, input⟩]
      idMap := r.idMap.insert actionId apiId }
  | _ => r

/-- Other turns take ids. -/
def skip (r : Reading) (taken : ℕ) : Reading :=
  { r with counter := r.counter + UInt64.ofNat taken }

end Reading

/-- The stream, up to its end or the chunk that says so. -/
def readStream : Reading → List Arrival → Except Failure Reading
  | r, [] => .ok r
  | r, ⟨taken, chunk⟩ :: arrivals =>
    match chunk with
    | .error e => .error e
    | .ok .done => .ok (r.skip taken)
    | .ok chunk => readStream ((r.skip taken).read chunk) arrivals

/-! ### Waiting for results -/

/-- `Event`, as far as the wait looks at it. -/
inductive Event
  | toolResult (session : SessionId) (call : ActionId) (output : ToolOutput)
  | approvalPending (session : SessionId) (call : ToolCall)
  | userApproval (session : SessionId) (action : ActionId) (granted : Bool)
  | other

/-- An event, and the second it is received in. -/
structure Received where
  now : ℕ
  event : Event

/-- What comes after the last event that is received. -/
inductive Ending
  | lagged (n : ℕ)
  | closed
  | elapsed

/-- `WaitPhase`. -/
inductive WaitPhase
  | dispatched
  | awaitingApproval
  | approved

/-- Where the image of a sentinel is. -/
inductive ImageSource
  | path (path : String)
  | b64 (data : String)

/-- What the world does during a wait. -/
structure Wait where
  /-- when the wait begins -/
  started : ℕ
  received : List Received
  ending : Ending
  /-- when the answer to a call is composed -/
  composed : ActionId → ℕ
  /-- the image of a call's result as content blocks, with a caption, or why there is none -/
  prepared : ActionId → ImageSource → Option String → Json

/-- The state of the wait. -/
structure Collecting where
  remaining : List ActionId
  results : Table ActionId ToolOutput
  phases : Table ActionId (WaitPhase × ℕ)

/-- The state at the start of the wait. -/
def Collecting.start (pending : List ToolCall) (now : ℕ) : Collecting where
  remaining := pending.map ToolCall.id
  results := .empty
  phases := pending.foldl (fun phases call => phases.insert call.id (.dispatched, now)) .empty

/-- An event is received. -/
def Collecting.recv (session : SessionId) (c : Collecting) : Received → Collecting
  | ⟨_, .toolResult s actionId output⟩ =>
    if s = session ∧ actionId ∈ c.remaining then
      { c with
        remaining := c.remaining.filter (· ≠ actionId)
        results := c.results.insert actionId output }
    else c
  | ⟨now, .approvalPending _ call⟩ =>
    if call.id ∈ c.remaining then
      { c with phases := c.phases.insert call.id (.awaitingApproval, now) }
    else c
  | ⟨now, .userApproval _ action granted⟩ =>
    if granted ∧ action ∈ c.remaining then
      { c with phases := c.phases.insert action (.approved, now) }
    else c
  | ⟨_, .other⟩ => c

/-- The wait: it is over as soon as nothing remains. -/
def collect (session : SessionId) : Collecting → List Received → Collecting
  | c, [] => c
  | c, r :: received =>
    if c.remaining = [] then c else collect session (c.recv session r) received

/-- `missing_result_message`. -/
def missingResultMessage (tool : String) (phase : WaitPhase) (phaseAgeSecs : ℕ) (lagged : Bool)
    (windowSecs : ℕ) : String :=
  if lagged then
    s!"no result received for tool '{tool}' — the event bus lagged and the result " ++
      "may have been dropped in transit, so the tool MAY have completed. Verify its " ++
      "effects before retrying."
  else
    match phase with
    | .awaitingApproval =>
      s!"tool '{tool}' is still awaiting operator approval — {phaseAgeSecs}s with no " ++
        "response (this is NOT a decline and NOT a tool failure; the operator may be " ++
        "away). Proceed another way if you can, or retry later and ask for a decision."
    | .approved =>
      s!"tool '{tool}' was approved by the operator {phaseAgeSecs}s ago but returned " ++
        s!"no result within the {windowSecs}s window — it may still be running, or hung. " ++
        "Its effects may land later; verify before retrying."
    | .dispatched =>
      s!"tool '{tool}' was dispatched but returned no result within {windowSecs}s — " ++
        "the plugin may be hung, or the work genuinely outlasted the window (it was " ++
        "never waiting on approval and was not declined). Its effects may still land; " ++
        "verify before retrying."

/-! ### Images in results -/

section Vision

-- `serde_json::from_str`
variable (fromStr : String → Option Json)

/-- The sentinel that a text decodes to. -/
def sentinelOfText (text : String) : Option Json :=
  (fromStr text).filter fun v => (v.get? "vision").isSome

/-- The text of a text block of MCP. -/
def textOfItem (item : Json) : Option String :=
  if (item.get? "type").bind Json.asStr = some "text" then (item.get? "text").bind Json.asStr
  else none

/-- `find_vision_sentinel`. -/
def findVisionSentinel (content : Json) : Option Json :=
  if (content.get? "vision").isSome then some content
  else
    match content.asStr.bind (sentinelOfText fromStr) with
    | some v => some v
    | none =>
      (content.asArray.getD []).findSome? fun item =>
        (textOfItem item).bind (sentinelOfText fromStr)

/-- `vision_rewrite`. -/
def visionRewrite (prepared : ImageSource → Option String → Json) (content : Json) : Json :=
  match findVisionSentinel fromStr content with
  | none => content
  | some sentinel =>
    let v := (sentinel.get? "vision").getD .null
    let caption := (sentinel.get? "text").bind Json.asStr
    match (v.get? "path").bind Json.asStr with
    | some path => prepared (.path path) caption
    | none =>
      match (v.get? "b64").bind Json.asStr with
      | some data => prepared (.b64 data) caption
      | none =>
        .string "[vision] tool-result had a `vision` field but neither `path` nor `b64`"

end Vision

/-! ### The loop -/

/-- What a turn runs with. -/
structure Engine where
  session : SessionId
  /-- `AGENTD_TOOL_RESULT_TIMEOUT_SECS` -/
  windowSecs : ℕ
  fromStr : String → Option Json

/-- The block of a call's output. -/
def resultBlock (e : Engine) (w : Wait) (call : ActionId) (apiId : String) (output : ToolOutput) :
    ContentBlock :=
  let content :=
    if output.ok then visionRewrite e.fromStr (w.prepared call) output.content else output.content
  .toolResult apiId content (!output.ok)

/-- The output that stands for none. -/
def missingOutput (e : Engine) (w : Wait) (c : Collecting) (lagged : Bool) (call : ToolCall) :
    ToolOutput :=
  let (phase, since) := (c.phases.get? call.id).getD (.dispatched, w.composed call.id)
  ⟨false, .string
    (missingResultMessage call.tool phase (w.composed call.id - since) lagged e.windowSecs)⟩

/-- The end of `collect_tool_results`: a block for each call that was pending. -/
def answers (e : Engine) (w : Wait) (idMap : Table ActionId String) (c : Collecting)
    (lagged : Bool) : List ToolCall → Table ActionId ToolOutput → List ContentBlock
  | [], _ => []
  | call :: pending, results =>
    let output := (results.get? call.id).getD (missingOutput e w c lagged call)
    resultBlock e w call.id ((idMap.get? call.id).getD "") output ::
      answers e w idMap c lagged pending (results.erase call.id)

/-- `collect_tool_results`. -/
def collectToolResults (e : Engine) (w : Wait) (pending : List ToolCall)
    (idMap : Table ActionId String) : Except Failure (List ContentBlock) :=
  let c := collect e.session (.start pending w.started) w.received
  if c.remaining = [] then .ok (answers e w idMap c false pending c.results)
  else
    match w.ending with
    | .lagged _ => .ok (answers e w idMap c true pending c.results)
    | .closed => .error .busClosed
    | .elapsed => .ok (answers e w idMap c false pending c.results)

/-- One round, as the world plays it. -/
structure Round where
  stream : Except Failure (List Arrival)
  wait : Wait
  /-- No counter of 64 bits gets around while one stream is read. -/
  bounded : ∀ arrivals, stream = .ok arrivals →
    (arrivals.map fun a => a.taken + 1).sum < 2 ^ 64

/-- What a turn returns, and the calls it has put on the bus, which `ToolRequested` events carry. -/
structure Turned where
  history : List Message
  requested : List ToolCall

/-- The loop of `run_turn`; without further rounds, the turn is still going on. -/
def turnLoop (e : Engine) (counter : UInt64) (idMap : Table ActionId String) (t : Turned) :
    List Round → Except Failure (Option Turned)
  | [] => .ok none
  | round :: rounds =>
    match round.stream with
    | .error failure => .error failure
    | .ok arrivals =>
      match readStream ⟨counter, [], [], idMap⟩ arrivals with
      | .error failure => .error failure
      | .ok r =>
        if r.assistantBlocks.isEmpty && r.pendingTools.isEmpty then
          .ok (some { t with history := t.history ++ [emptyReply] })
        else
          let history := t.history ++ [.assistant r.assistantBlocks]
          if r.pendingTools.isEmpty then .ok (some { t with history := history })
          else
            match collectToolResults e round.wait r.pendingTools r.idMap with
            | .error failure => .error failure
            | .ok toolResults =>
              turnLoop e r.counter r.idMap
                ⟨history ++ [.user toolResults], t.requested ++ r.pendingTools⟩ rounds

/-- `run_turn`. -/
def runTurn (e : Engine) (counter : UInt64) (history : List Message) (rounds : List Round) :
    Except Failure (Option Turned) :=
  turnLoop e counter .empty ⟨history, []⟩ rounds

/-! ### What a turn adds -/

/-- The output for a call, if the event is that. -/
def Received.output? (session : SessionId) (call : ActionId) (r : Received) : Option ToolOutput :=
  match r.event with
  | .toolResult s actionId output => if s = session ∧ actionId = call then some output else none
  | _ => none

theorem Received.output?_toolResult (session s : SessionId) (call actionId : ActionId) (now : ℕ)
    (output : ToolOutput) : output? session call ⟨now, .toolResult s actionId output⟩
      = if s = session ∧ actionId = call then some output else none := rfl

/-- The first output for a call among what is received. -/
def firstResult (session : SessionId) (call : ActionId) (received : List Received) :
    Option ToolOutput :=
  received.findSome? (Received.output? session call)

/-- A call, with the id that the provider gave it. -/
structure Requested where
  call : ToolCall
  apiId : String

/-- As it stands in the message. -/
def Requested.block (r : Requested) : ContentBlock := .toolUse r.apiId r.call.tool r.call.args

/-- The result of a call: what was received first for it, or, if nothing was, an error. -/
inductive AnsweredBy (e : Engine) (w : Wait) (r : Requested) : ContentBlock → Prop
  | received (output : ToolOutput) :
      firstResult e.session r.call.id w.received = some output →
      AnsweredBy e w r (resultBlock e w r.call.id r.apiId output)
  | missing (text : String) :
      firstResult e.session r.call.id w.received = none →
      AnsweredBy e w r (.toolResult r.apiId (.string text) true)

/-- Every call of a message was requested under an id of its own, and has its own result, in order.
There are no other results. -/
def Answered (e : Engine) (w : Wait) (requested : List ToolCall)
    (content results : List ContentBlock) : Prop :=
  ∃ calls : List Requested, (calls.map fun r => r.call.id).Nodup ∧
    calls.map Requested.call <:+: requested ∧
    content.filter ContentBlock.isToolUse = calls.map Requested.block ∧
    List.Forall₂ (AnsweredBy e w) calls results

/-- What is expected of the messages that a turn adds. -/
structure ValidTurn (e : Engine) (rounds : List Round) (requested : List ToolCall)
    (added : List Message) : Prop where
  nonempty : ∀ m ∈ added, contentOf m ≠ []
  /-- a message with calls is followed by what their round has received -/
  answered : ∀ before content after, added = before ++ .assistant content :: after →
    content.any ContentBlock.isToolUse →
    ∃ round results after', rounds[before.length / 2]? = some round ∧
      after = .user results :: after' ∧ Answered e round.wait requested content results
  /-- and nothing else stands between the messages of the assistant -/
  results : ∀ before content after, added = before ++ .user content :: after →
    ∃ before' calls, before = before' ++ [.assistant calls] ∧
      calls.any ContentBlock.isToolUse
  ends : ∃ before content, added = before ++ [.assistant content] ∧
    ¬ content.any ContentBlock.isToolUse

/-! ### Calls and their ids -/

/-- What a round has read, `n` ids after it began: its calls, with ids that it alone has. -/
structure Reads (start : UInt64) (n : ℕ) (r : Reading) (calls : List Requested) : Prop where
  counter : r.counter = start + UInt64.ofNat n
  pending : r.pendingTools = calls.map Requested.call
  blocks : r.assistantBlocks.filter ContentBlock.isToolUse = calls.map Requested.block
  apiIds : ∀ c ∈ calls, r.idMap.get? c.call.id = some c.apiId
  nodup : (calls.map fun c => c.call.id).Nodup
  issued : ∀ c ∈ calls, ∃ k < n, c.call.id = start + UInt64.ofNat k

theorem ofNat_ne_of_lt {start : UInt64} {k n : ℕ} (hk : k < n) (hn : n < 2 ^ 64) :
    start + UInt64.ofNat k ≠ start + UInt64.ofNat n := by
  intro h
  have hnat := congrArg UInt64.toNat ((UInt64.add_right_inj start).mp h)
  rw [UInt64.toNat_ofNat_of_lt' (hk.trans hn), UInt64.toNat_ofNat_of_lt' hn] at hnat
  exact hk.ne hnat

namespace Reads

variable {start : UInt64} {n : ℕ} {r : Reading} {calls : List Requested}

theorem init (start : UInt64) (idMap : Table ActionId String) :
    Reads start 0 ⟨start, [], [], idMap⟩ [] where
  counter := (UInt64.add_zero start).symm
  pending := rfl
  blocks := rfl
  apiIds := by simp
  nodup := List.nodup_nil
  issued := by simp

theorem skip (h : Reads start n r calls) (taken : ℕ) :
    Reads start (n + taken) (r.skip taken) calls where
  counter := by
    rw [Reading.skip, h.counter, UInt64.ofNat_add, UInt64.add_assoc]
  pending := h.pending
  blocks := h.blocks
  apiIds := h.apiIds
  nodup := h.nodup
  issued c hc := by
    obtain ⟨k, hk, hid⟩ := h.issued c hc
    exact ⟨k, hk.trans_le (Nat.le_add_right n taken), hid⟩

/-- A call gets an id that none before it has. -/
theorem toolUse (h : Reads start n r calls) (hn : n < 2 ^ 64) (apiId name : String)
    (input : Json) :
    Reads start (n + 1) (r.read (.toolUse apiId name input))
      (calls ++ [⟨⟨r.counter, name, input⟩, apiId⟩]) := by
  have hfresh : ∀ c ∈ calls, c.call.id ≠ r.counter := by
    intro c hc
    obtain ⟨k, hk, hid⟩ := h.issued c hc
    rw [hid, h.counter]
    exact ofNat_ne_of_lt hk hn
  exact {
    counter := by
      show r.counter + 1 = _
      rw [h.counter, UInt64.ofNat_add, UInt64.add_assoc]
      rfl
    pending := by
      show r.pendingTools ++ _ = _
      rw [h.pending, List.map_append]
      rfl
    blocks := by
      show (r.assistantBlocks ++ _).filter _ = _
      rw [List.filter_append, h.blocks, List.map_append]
      rfl
    apiIds := by
      intro c hc
      show (r.idMap.insert r.counter apiId).get? c.call.id = some c.apiId
      rw [Table.get?_insert]
      rcases List.mem_append.mp hc with hold | hnew
      · rw [if_neg (hfresh c hold), h.apiIds c hold]
      · obtain rfl := List.mem_singleton.mp hnew
        exact if_pos rfl
    nodup := by
      rw [List.map_append, List.map_singleton]
      refine List.nodup_append.mpr ⟨h.nodup, List.nodup_singleton _, ?_⟩
      rintro id hid _ hnew rfl
      obtain ⟨c, hc, hcid⟩ := List.mem_map.mp hid
      exact hfresh c hc (hcid.trans (List.mem_singleton.mp hnew))
    issued := by
      intro c hc
      rcases List.mem_append.mp hc with hold | hnew
      · obtain ⟨k, hk, hid⟩ := h.issued c hold
        exact ⟨k, hk.trans (Nat.lt_succ_self n), hid⟩
      · obtain rfl := List.mem_singleton.mp hnew
        exact ⟨n, Nat.lt_succ_self n, h.counter⟩ }

/-- Other blocks are not calls. -/
theorem block (h : Reads start n r calls) {b : ContentBlock} (hb : b.isToolUse = false) :
    Reads start n { r with assistantBlocks := r.assistantBlocks ++ [b] } calls :=
  { h with
    blocks := by
      show (r.assistantBlocks ++ [b]).filter _ = _
      rw [List.filter_append, h.blocks, List.filter_cons_of_neg (by simp [hb])]
      exact List.append_nil _ }

theorem read (h : Reads start n r calls) (hn : n < 2 ^ 64) (chunk : Chunk) :
    ∃ n' ≤ n + 1, ∃ calls', Reads start n' (r.read chunk) calls' := by
  cases chunk with
  | toolUse apiId name input => exact ⟨n + 1, le_rfl, _, h.toolUse hn apiId name input⟩
  | textBlock text => exact ⟨n, Nat.le_succ n, _, h.block rfl⟩
  | thinkingBlock thinking signature => exact ⟨n, Nat.le_succ n, _, h.block rfl⟩
  | textDelta => exact ⟨n, Nat.le_succ n, _, h⟩
  | thinkingDelta => exact ⟨n, Nat.le_succ n, _, h⟩
  | done => exact ⟨n, Nat.le_succ n, _, h⟩

theorem readStream_cons {taken : ℕ} {chunk : Chunk} (h : chunk ≠ .done)
    (arrivals : List Arrival) : TurnEngine.readStream r (⟨taken, .ok chunk⟩ :: arrivals)
      = TurnEngine.readStream ((r.skip taken).read chunk) arrivals := by
  cases chunk with
  | done => exact absurd rfl h
  | _ => rfl

theorem readStream {r' : Reading} {arrivals : List Arrival} (h : Reads start n r calls)
    (hn : n + (arrivals.map fun a => a.taken + 1).sum < 2 ^ 64)
    (hread : TurnEngine.readStream r arrivals = .ok r') :
    ∃ n' calls', Reads start n' r' calls' := by
  induction arrivals generalizing n r calls with
  | nil =>
    obtain rfl := Except.ok.inj hread
    exact ⟨n, calls, h⟩
  | cons a arrivals ih =>
    obtain ⟨taken, chunk⟩ := a
    rw [List.map_cons, List.sum_cons] at hn
    dsimp only at hn
    have hskip := h.skip taken
    cases chunk with
    | error failure => cases hread
    | ok chunk =>
      by_cases hdone : chunk = .done
      · obtain rfl := hdone
        obtain rfl := Except.ok.inj hread
        exact ⟨_, _, hskip⟩
      · rw [readStream_cons hdone] at hread
        obtain ⟨n', hn', calls', h'⟩ := hskip.read (by omega) chunk
        exact ih h' (by omega) hread

end Reads

/-! ### Results and their calls -/

namespace Collecting

variable (session : SessionId) {c : Collecting} {ids : List ActionId}

/-- Of these calls, those remain that have no result yet. -/
def Tracks (c : Collecting) (ids : List ActionId) : Prop :=
  ∀ id ∈ ids, id ∈ c.remaining ↔ c.results.get? id = none

theorem tracks_start (pending : List ToolCall) (now : ℕ) :
    Tracks (start pending now) (pending.map ToolCall.id) :=
  fun _ hid => iff_of_true hid rfl

/-- A result is kept if it is the first of a call. -/
theorem Tracks.recv (h : c.Tracks ids) (r : Received) :
    (c.recv session r).Tracks ids ∧ ∀ id ∈ ids,
      (c.recv session r).results.get? id = (c.results.get? id).or (r.output? session id) := by
  obtain ⟨now, event⟩ := r
  cases event with
  | other => exact ⟨h, fun id _ => Option.or_none.symm⟩
  | approvalPending s call =>
    rw [Collecting.recv]
    split <;> exact ⟨h, fun id _ => Option.or_none.symm⟩
  | userApproval s action granted =>
    rw [Collecting.recv]
    split <;> exact ⟨h, fun id _ => Option.or_none.symm⟩
  | toolResult s actionId output =>
    rw [Collecting.recv]
    by_cases hfirst : s = session ∧ actionId ∈ c.remaining
    · obtain ⟨rfl, hrem⟩ := hfirst
      rw [if_pos ⟨rfl, hrem⟩]
      refine ⟨fun id hid => ?_, fun id hid => ?_⟩
      · rw [Table.get?_insert, List.mem_filter]
        by_cases heq : id = actionId
        · simp [heq]
        · simpa [heq] using h id hid
      · rw [Table.get?_insert]
        by_cases heq : id = actionId
        · obtain rfl := heq
          rw [if_pos rfl, (h id hid).mp hrem, Received.output?_toolResult, if_pos ⟨rfl, rfl⟩]
          rfl
        · rw [if_neg heq, Received.output?_toolResult, if_neg fun hc => heq hc.2.symm,
            Option.or_none]
    · rw [if_neg hfirst]
      refine ⟨h, fun id hid => ?_⟩
      rw [Received.output?_toolResult]
      by_cases hmine : s = session ∧ actionId = id
      · obtain ⟨rfl, rfl⟩ := hmine
        have hsome : c.results.get? actionId ≠ none :=
          fun hnone => hfirst ⟨rfl, (h _ hid).mpr hnone⟩
        obtain ⟨kept, hkept⟩ := Option.ne_none_iff_exists'.mp hsome
        rw [hkept]
        rfl
      · rw [if_neg hmine, Option.or_none]

/-- When the wait is over, each call has the first result that was received for it. -/
theorem Tracks.collect (h : c.Tracks ids) (received : List Received) :
    ∀ id ∈ ids, (collect session c received).results.get? id
      = (c.results.get? id).or (firstResult session id received) := by
  induction received generalizing c with
  | nil => exact fun id _ => Option.or_none.symm
  | cons r received ih =>
    intro id hid
    rw [TurnEngine.collect, firstResult, List.findSome?_cons]
    split
    · rename_i hnone
      have hsome : c.results.get? id ≠ none := by
        intro hget
        have hrem := (h id hid).mpr hget
        rw [hnone] at hrem
        exact absurd hrem List.not_mem_nil
      obtain ⟨kept, hkept⟩ := Option.ne_none_iff_exists'.mp hsome
      rw [hkept]
      rfl
    · obtain ⟨hnext, hget⟩ := h.recv session r
      rw [ih hnext id hid, hget id hid, Option.or_assoc]
      congr 1
      cases r.output? session id <;> rfl

end Collecting

/-- With distinct ids, taking a result out costs no other call its own. -/
theorem answers_eq (e : Engine) (w : Wait) (idMap : Table ActionId String) (c : Collecting)
    (lagged : Bool) {pending : List ToolCall} (h : (pending.map ToolCall.id).Nodup)
    (results : Table ActionId ToolOutput) :
    answers e w idMap c lagged pending results = pending.map fun call =>
      resultBlock e w call.id ((idMap.get? call.id).getD "")
        ((results.get? call.id).getD (missingOutput e w c lagged call)) := by
  induction pending generalizing results with
  | nil => rfl
  | cons call pending ih =>
    obtain ⟨hfresh, hrest⟩ := List.nodup_cons.mp h
    rw [answers, ih hrest, List.map_cons]
    congr 1
    refine List.map_congr_left fun other hother => ?_
    have hne : other.id ≠ call.id := fun heq => hfresh (heq ▸ List.mem_map_of_mem hother)
    rw [Table.get?_erase, if_neg hne]

theorem answeredBy_getD (e : Engine) (w : Wait) (c : Collecting) (lagged : Bool) (r : Requested) :
    AnsweredBy e w r (resultBlock e w r.call.id r.apiId
      ((firstResult e.session r.call.id w.received).getD
        (missingOutput e w c lagged r.call))) := by
  cases hfirst : firstResult e.session r.call.id w.received with
  | none => exact .missing _ hfirst
  | some output => exact .received output hfirst

/-- **Every call is answered by its own result.** -/
theorem Reads.answered {start : UInt64} {n : ℕ} {r : Reading} {calls : List Requested}
    (h : Reads start n r calls) {e : Engine} {w : Wait} {results : List ContentBlock}
    (hcollect : collectToolResults e w r.pendingTools r.idMap = .ok results) :
    Answered e w r.pendingTools r.assistantBlocks results := by
  refine ⟨calls, h.nodup, h.pending ▸ List.infix_rfl, h.blocks, ?_⟩
  have hids : r.pendingTools.map ToolCall.id = calls.map fun c => c.call.id := by
    rw [h.pending, List.map_map]
    rfl
  obtain ⟨c, lagged, hc, rfl⟩ : ∃ c lagged,
      c = collect e.session (.start r.pendingTools w.started) w.received ∧
        results = answers e w r.idMap c lagged r.pendingTools c.results := by
    rw [collectToolResults] at hcollect
    split at hcollect
    · exact ⟨_, _, rfl, (Except.ok.inj hcollect).symm⟩
    · split at hcollect
      · exact ⟨_, _, rfl, (Except.ok.inj hcollect).symm⟩
      · cases hcollect
      · exact ⟨_, _, rfl, (Except.ok.inj hcollect).symm⟩
  have hget := (Collecting.tracks_start r.pendingTools w.started).collect e.session w.received
  rw [← hc] at hget
  rw [answers_eq _ _ _ _ _ (hids ▸ h.nodup), h.pending, List.map_map, List.forall₂_map_right_iff,
    List.forall₂_same]
  intro call hcall
  have hmem : call.call.id ∈ r.pendingTools.map ToolCall.id :=
    hids ▸ List.mem_map_of_mem (f := fun c : Requested => c.call.id) hcall
  show AnsweredBy e w call (resultBlock e w call.call.id ((r.idMap.get? call.call.id).getD "") _)
  rw [h.apiIds call hcall, hget _ hmem]
  exact answeredBy_getD e w c lagged call

/-! ### Turns -/

namespace Answered

variable {e : Engine} {w : Wait} {requested : List ToolCall} {content results : List ContentBlock}

theorem results_ne_nil (h : Answered e w requested content results)
    (huse : content.any ContentBlock.isToolUse) : results ≠ [] := by
  obtain ⟨calls, -, -, hblocks, hanswers⟩ := h
  rintro rfl
  rw [List.forall₂_nil_right_iff.mp hanswers, List.map_nil, List.filter_eq_nil_iff] at hblocks
  obtain ⟨b, hb, hbuse⟩ := List.any_eq_true.mp huse
  exact hblocks b hb hbuse

/-- More may be requested before and after. -/
theorem mono (h : Answered e w requested content results) {requested' : List ToolCall}
    (hpart : requested <:+: requested') : Answered e w requested' content results := by
  obtain ⟨calls, hnodup, hcalls, hblocks, hanswers⟩ := h
  exact ⟨calls, hnodup, hcalls.trans hpart, hblocks, hanswers⟩

end Answered

theorem Reads.any_isToolUse {start : UInt64} {n : ℕ} {r : Reading} {calls : List Requested}
    (h : Reads start n r calls) :
    r.assistantBlocks.any ContentBlock.isToolUse ↔ r.pendingTools ≠ [] := by
  have hcalls : r.pendingTools ≠ [] ↔ r.assistantBlocks.filter ContentBlock.isToolUse ≠ [] := by
    rw [h.pending, h.blocks, Ne, Ne, List.map_eq_nil_iff, List.map_eq_nil_iff]
  rw [hcalls, Ne, List.filter_eq_nil_iff, List.any_eq_true]
  push Not
  rfl

namespace ValidTurn

variable {e : Engine} {rounds : List Round} {requested : List ToolCall} {added : List Message}

theorem reply {content : List ContentBlock} (hne : content ≠ [])
    (huse : ¬ content.any ContentBlock.isToolUse) :
    ValidTurn e rounds requested [.assistant content] where
  nonempty m hm := by
    obtain rfl := List.mem_singleton.mp hm
    exact hne
  answered before content' after heq hany := by
    cases before with
    | nil =>
      obtain ⟨hm, -⟩ := List.cons.inj heq
      obtain rfl := Message.assistant.inj hm
      exact absurd hany huse
    | cons m before => simp at heq
  results before content' after heq := by
    cases before with
    | nil => cases (List.cons.inj heq).1
    | cons m before => simp at heq
  ends := ⟨[], content, rfl, huse⟩

/-- A round comes before what the rounds after it add. -/
theorem round {round : Round} {calls : List ToolCall} {content results : List ContentBlock}
    (hrest : ValidTurn e rounds requested added) (huse : content.any ContentBlock.isToolUse)
    (hanswered : Answered e round.wait calls content results) :
    ValidTurn e (round :: rounds) (calls ++ requested)
      (.assistant content :: .user results :: added) where
  nonempty m hm := by
    rcases List.mem_cons.mp hm with rfl | hm
    · rintro rfl
      cases huse
    rcases List.mem_cons.mp hm with rfl | hm
    · exact hanswered.results_ne_nil huse
    · exact hrest.nonempty m hm
  answered before content' after heq hany := by
    match before with
    | [] =>
      obtain ⟨hm, rfl⟩ := List.cons.inj heq
      obtain rfl := Message.assistant.inj hm
      exact ⟨round, results, added, rfl, rfl,
        hanswered.mono (List.prefix_append calls requested).isInfix⟩
    | [m] =>
      obtain ⟨-, hm⟩ := List.cons.inj heq
      cases (List.cons.inj hm).1
    | m :: m' :: before =>
      obtain ⟨other, results', after', hother, hafter, hanswered'⟩ := hrest.answered before content'
        after (List.cons.inj (List.cons.inj heq).2).2 hany
      refine ⟨other, results', after', ?_, hafter,
        hanswered'.mono (List.suffix_append calls requested).isInfix⟩
      rw [List.length_cons, List.length_cons, Nat.add_assoc, Nat.add_div_right _ Nat.two_pos]
      exact hother
  results before content' after heq := by
    match before with
    | [] => cases (List.cons.inj heq).1
    | [m] =>
      obtain ⟨rfl, -⟩ := List.cons.inj heq
      exact ⟨[], content, rfl, huse⟩
    | m :: m' :: before =>
      obtain ⟨rfl, hrounds⟩ := List.cons.inj heq
      obtain ⟨rfl, hadded⟩ := List.cons.inj hrounds
      obtain ⟨before', calls, rfl, hcalls⟩ := hrest.results before content' after hadded
      exact ⟨.assistant content :: .user results :: before', calls, rfl, hcalls⟩
  ends := by
    obtain ⟨before, last, rfl, hlast⟩ := hrest.ends
    exact ⟨.assistant content :: .user results :: before, last, rfl, hlast⟩

end ValidTurn

theorem turnLoop_valid {e : Engine} {counter : UInt64} {idMap : Table ActionId String}
    {t t' : Turned} {rounds : List Round}
    (h : turnLoop e counter idMap t rounds = .ok (some t')) :
    ∃ added requested, t'.history = t.history ++ added ∧ t'.requested = t.requested ++ requested ∧
      ValidTurn e rounds requested added := by
  induction rounds generalizing counter idMap t with
  | nil => cases h
  | cons round rounds ih =>
    rw [turnLoop] at h
    cases hstream : round.stream with
    | error failure =>
      rw [hstream] at h
      cases h
    | ok arrivals =>
      rw [hstream] at h
      dsimp only at h
      cases hread : readStream ⟨counter, [], [], idMap⟩ arrivals with
      | error failure =>
        rw [hread] at h
        cases h
      | ok r =>
        rw [hread] at h
        dsimp only at h
        obtain ⟨n, calls, hreads⟩ := (Reads.init counter idMap).readStream
          (by simpa using round.bounded arrivals hstream) hread
        have huse := hreads.any_isToolUse
        split at h
        · obtain rfl := Option.some.inj (Except.ok.inj h)
          exact ⟨_, [], rfl, (List.append_nil _).symm,
            ValidTurn.reply (by simp) (by simp [ContentBlock.isToolUse])⟩
        rename_i hempty
        split at h
        · rename_i hnone
          obtain rfl := Option.some.inj (Except.ok.inj h)
          have hnil : r.pendingTools = [] := List.isEmpty_iff.mp hnone
          refine ⟨_, [], rfl, (List.append_nil _).symm,
            ValidTurn.reply (fun hblocks => hempty ?_) fun hany => huse.mp hany hnil⟩
          rw [hblocks, hnil]
          rfl
        rename_i hsome
        have hany := huse.mpr fun hnil => hsome (List.isEmpty_iff.mpr hnil)
        split at h
        · cases h
        rename_i results hresults
        obtain ⟨added, requested, hhistory, hrequested, hvalid⟩ := ih h
        refine ⟨.assistant r.assistantBlocks :: .user results :: added,
          r.pendingTools ++ requested, ?_, ?_, hvalid.round hany (hreads.answered hresults)⟩
        · simp [hhistory]
        · simp [hrequested]

/-- A session without images. -/
def plainEngine : Engine := ⟨1, 1800, fun _ => none⟩

/-- Two calls. The results come in the other order, one of them twice, after that of a stranger. -/
def listAndRead : Round where
  stream := .ok [⟨0, .ok (.toolUse "toolu_1" "list_dir" .null)⟩,
    ⟨3, .ok (.toolUse "toolu_2" "read_file" .null)⟩]
  wait :=
    { started := 0
      received := [⟨1, .toolResult 2 1 ⟨true, .bool true⟩⟩, ⟨2, .toolResult 1 5 ⟨false, .null⟩⟩,
        ⟨3, .toolResult 1 5 ⟨true, .bool false⟩⟩, ⟨4, .toolResult 1 1 ⟨true, .null⟩⟩]
      ending := .elapsed
      composed := fun _ => 5
      prepared := fun _ _ _ => .null }
  bounded arrivals h := by
    obtain rfl := Except.ok.inj h
    decide

/-- A reply. -/
def reply : Round where
  stream := .ok [⟨0, .ok (.textBlock "ok")⟩, ⟨0, .ok .done⟩]
  wait := ⟨0, [], .elapsed, fun _ => 0, fun _ _ _ => .null⟩
  bounded arrivals h := by
    obtain rfl := Except.ok.inj h
    decide

/-- What the two rounds make of a prompt. -/
def afterReply : Turned where
  history := [.user [.text "hi"],
    .assistant [.toolUse "toolu_1" "list_dir" .null, .toolUse "toolu_2" "read_file" .null],
    .user [.toolResult "toolu_1" .null false, .toolResult "toolu_2" .null true],
    .assistant [.text "ok"]]
  requested := [⟨1, "list_dir", .null⟩, ⟨5, "read_file", .null⟩]

end ApexOS.Agentd.TurnEngine
