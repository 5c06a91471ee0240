import ApexOS.Agentd.Provider
import ApexOS.Lib.Table

/-!
# The parser of Anthropic's stream

`sse_to_chunks` in `agentd/crates/agent/src/anthropic.rs`. Blocks are announced, filled and closed
by events that carry the block's index, so several may be open at a time. What is kept under an
index depends on the events of that index alone; this carries the proof that nothing is lost.

The usage that the stream reports is counted elsewhere and left out.

## Main definitions

* `Event`, `Event.ofJson`, `Event.json`: the events, as they are read and as they are written
* `apply`, `parser`: the state under each index, and what is emitted
* `Block`: a block, with its pieces
* `Rendered`: a stream that carries some blocks

## Main results

* `Tracks.apply`: what is kept under an index is what its events have made
* `sseToChunks_rendered`: the blocks of a stream are emitted as they were, in the order in which
  they stop
-/

namespace ApexOS.Agentd.Anthropic

open Sse

/-! ### Events -/

/-- How a block begins. -/
inductive Opening
  | text
  | thinking
  | toolUse (id name : String)

/-- A piece of a block. -/
inductive Delta
  | text (text : String)
  | thinking (thinking : String)
  | signature (signature : String)
  | inputJson (partialJson : String)
  | other

/-- An event, as far as it is looked at. -/
inductive Event
  | blockStart (index : UInt64) (opening : Opening)
  | blockDelta (index : UInt64) (delta : Delta)
  | blockStop (index : UInt64)
  | messageStop
  | other

/-- The content block of a start. -/
def Opening.ofJson (cb : Json) : Opening :=
  let type := strField cb "type"
  if type = "thinking" then .thinking
  else if type = "tool_use" then .toolUse (strField cb "id") (strField cb "name")
  else .text

/-- The delta of a delta. -/
def Delta.ofJson (delta : Json) : Delta :=
  let type := strField delta "type"
  if type = "text_delta" then .text (strField delta "text")
  else if type = "thinking_delta" then .thinking (strField delta "thinking")
  else if type = "signature_delta" then .signature (strField delta "signature")
  else if type = "input_json_delta" then .inputJson (strField delta "partial_json")
  else .other

/-- What an event says. -/
def Event.ofJson (val : Json) : Event :=
  let type := strField val "type"
  if type = "content_block_start" then
    .blockStart (indexField val) (.ofJson (field val "content_block"))
  else if type = "content_block_delta" then
    .blockDelta (indexField val) (.ofJson (field val "delta"))
  else if type = "content_block_stop" then .blockStop (indexField val)
  else if type = "message_stop" then .messageStop
  else .other

/-- The content block of a start, as it is written. -/
def Opening.json : Opening → Json
  | .text => .object [("type", .string "text"), ("text", .string "")]
  | .thinking => .object
      [("type", .string "thinking"), ("thinking", .string ""), ("signature", .string "")]
  | .toolUse id name => .object [("type", .string "tool_use"), ("id", .string id),
      ("name", .string name), ("input", .object [])]

/-- The delta of a delta, as it is written. -/
def Delta.json : Delta → Json
  | .text t => .object [("type", .string "text_delta"), ("text", .string t)]
  | .thinking t => .object [("type", .string "thinking_delta"), ("thinking", .string t)]
  | .signature sig => .object [("type", .string "signature_delta"), ("signature", .string sig)]
  | .inputJson j => .object [("type", .string "input_json_delta"), ("partial_json", .string j)]
  | .other => .object [("type", .string "citations_delta")]

/-- An event as it is written. -/
def Event.json : Event → Json
  | .blockStart index opening => .object [("type", .string "content_block_start"),
      ("index", .number (.posInt index)), ("content_block", opening.json)]
  | .blockDelta index delta => .object [("type", .string "content_block_delta"),
      ("index", .number (.posInt index)), ("delta", delta.json)]
  | .blockStop index => .object [("type", .string "content_block_stop"),
      ("index", .number (.posInt index))]
  | .messageStop => .object [("type", .string "message_stop")]
  | .other => .object [("type", .string "ping")]

@[simp] theorem Opening.ofJson_json (opening : Opening) : ofJson opening.json = opening := by
  cases opening <;>
    simp [ofJson, json, strField, Json.get?, Json.asStr, Json.lookup_cons_eq]

@[simp] theorem Delta.ofJson_json (delta : Delta) : ofJson delta.json = delta := by
  cases delta <;> simp [ofJson, json, strField, Json.get?, Json.asStr, Json.lookup_cons_eq]

/-- What is written is read. -/
theorem Event.ofJson_json (e : Event) : ofJson e.json = e := by
  cases e <;> simp [ofJson, json, strField, indexField, field, Json.get?, Json.asStr,
    Json.asU64, Json.lookup_cons_eq]

/-! ### The parser -/

/-- `BlockState`; its kind is how it began. -/
structure BlockState where
  opening : Opening
  text : String
  thinking : String
  signature : String
  inputJson : String

/-- A block that has just begun. -/
def Opening.state (opening : Opening) : BlockState := ⟨opening, "", "", "", ""⟩

/-- A piece is added. -/
def BlockState.push (s : BlockState) : Delta → BlockState
  | .text t => { s with text := s.text ++ t }
  | .thinking t => { s with thinking := s.thinking ++ t }
  | .signature sig => { s with signature := s.signature ++ sig }
  | .inputJson j => { s with inputJson := s.inputJson ++ j }
  | .other => s

/-- What is emitted at once. -/
def Delta.items : Delta → List Item
  | .text t => [.ok (.textDelta t)]
  | .thinking t => [.ok (.thinkingDelta t)]
  | _ => []

section

-- `serde_json::from_str`
variable (fromStr : String → Option Json)

/-- A block that is complete. -/
def BlockState.finish (s : BlockState) : Item :=
  match s.opening with
  | .text => .ok (.textBlock s.text)
  | .thinking => .ok (.thinkingBlock s.thinking s.signature)
  | .toolUse id name =>
    match toolInput fromStr s.inputJson with
    | some input => .ok (.toolUse id name input)
    | none => .error .toolInput

/-- An event is handled. -/
def apply (blocks : Table UInt64 BlockState) :
    Event → List Item × Flow (Table UInt64 BlockState)
  | .blockStart index opening => ([], .next (blocks.insert index opening.state))
  | .blockDelta index delta =>
    match blocks.get? index with
    | none => ([], .next blocks)
    | some s => (delta.items, .next (blocks.insert index (s.push delta)))
  | .blockStop index =>
    match blocks.get? index with
    | none => ([], .next blocks)
    | some s =>
      match s.finish fromStr with
      | .ok chunk => ([.ok chunk], .next (blocks.erase index))
      | .error e => ([.error e], .fail)
  | .messageStop => ([], .stop blocks)
  | .other => ([], .next blocks)

/-- The parser. -/
def parser : Parser (Table UInt64 BlockState) where
  init := .empty
  onData blocks data :=
    match fromStr data with
    | none => ([], .next blocks)
    | some val => apply fromStr blocks (.ofJson val)
  finish _ := [.ok .done]

end

/-! ### What is kept under an index -/

/-- The index of an event. -/
def Event.index? : Event → Option UInt64
  | .blockStart index _ => some index
  | .blockDelta index _ => some index
  | .blockStop index => some index
  | _ => none

/-- What an event does to the state under its index. -/
def track : Option BlockState → Event → Option BlockState
  | _, .blockStart _ opening => some opening.state
  | s, .blockDelta _ delta => s.map fun s => s.push delta
  | _, .blockStop _ => none
  | s, _ => s

theorem get?_apply {fromStr : String → Option Json} {blocks blocks' : Table UInt64 BlockState}
    {e : Event} {items : List Item} (h : apply fromStr blocks e = (items, .next blocks'))
    (i : UInt64) : blocks'.get? i
      = if e.index? = some i then track (blocks.get? i) e else blocks.get? i := by
  cases e with
  | blockStart index opening =>
    obtain ⟨-, hnext⟩ := Prod.mk.inj h
    obtain rfl := Flow.next.inj hnext
    rw [Table.get?_insert]
    simp only [Event.index?, Option.some.injEq, eq_comm (a := index), track]
  | blockDelta index delta =>
    rw [apply] at h
    simp only [Event.index?, Option.some.injEq, eq_comm (a := index), track]
    split at h
    · rename_i hnone
      obtain ⟨-, hnext⟩ := Prod.mk.inj h
      obtain rfl := Flow.next.inj hnext
      split
      · rename_i hi
        rw [hi, hnone]
        rfl
      · rfl
    · rename_i s hsome
      obtain ⟨-, hnext⟩ := Prod.mk.inj h
      obtain rfl := Flow.next.inj hnext
      rw [Table.get?_insert]
      split
      · rename_i hi
        rw [hi, hsome]
        rfl
      · rfl
  | blockStop index =>
    rw [apply] at h
    simp only [Event.index?, Option.some.injEq, eq_comm (a := index), track]
    split at h
    · rename_i hnone
      obtain ⟨-, hnext⟩ := Prod.mk.inj h
      obtain rfl := Flow.next.inj hnext
      split
      · rename_i hi
        rw [hi, hnone]
      · rfl
    · split at h
      · obtain ⟨-, hnext⟩ := Prod.mk.inj h
        obtain rfl := Flow.next.inj hnext
        rw [Table.get?_erase]
      · cases (Prod.mk.inj h).2
  | messageStop => cases (Prod.mk.inj h).2
  | other =>
    obtain ⟨-, hnext⟩ := Prod.mk.inj h
    obtain rfl := Flow.next.inj hnext
    simp [Event.index?]

/-! ### Blocks and their pieces -/

namespace Delta

/-- What a piece adds to the text. -/
def textOf : Delta → String
  | text t => t
  | _ => ""

/-- What a piece adds to the thinking. -/
def thinkingOf : Delta → String
  | thinking t => t
  | _ => ""

/-- What a piece adds to the signature. -/
def signatureOf : Delta → String
  | signature sig => sig
  | _ => ""

/-- What a piece adds to the input. -/
def inputOf : Delta → String
  | inputJson j => j
  | _ => ""

end Delta

theorem BlockState.push_eq (s : BlockState) (d : Delta) :
    s.push d = ⟨s.opening, s.text ++ d.textOf, s.thinking ++ d.thinkingOf,
      s.signature ++ d.signatureOf, s.inputJson ++ d.inputOf⟩ := by
  cases d <;> simp [push, Delta.textOf, Delta.thinkingOf, Delta.signatureOf, Delta.inputOf]

/-- Pieces are put together in order. -/
theorem BlockState.foldl_push (s : BlockState) (ds : List Delta) :
    ds.foldl push s = ⟨s.opening, (ds.map Delta.textOf).foldl (· ++ ·) s.text,
      (ds.map Delta.thinkingOf).foldl (· ++ ·) s.thinking,
      (ds.map Delta.signatureOf).foldl (· ++ ·) s.signature,
      (ds.map Delta.inputOf).foldl (· ++ ·) s.inputJson⟩ := by
  induction ds generalizing s with
  | nil => rfl
  | cons d ds ih => rw [List.foldl_cons, ih, push_eq]; rfl

/-- What a block is when it begins so and has these pieces. -/
inductive Renders (fromStr : String → Option Json) : Chunk → Opening → List Delta → Prop
  | text (ds : List Delta) :
      Renders fromStr (.textBlock (String.join (ds.map Delta.textOf))) .text ds
  | thinking (ds : List Delta) :
      Renders fromStr (.thinkingBlock (String.join (ds.map Delta.thinkingOf))
        (String.join (ds.map Delta.signatureOf))) .thinking ds
  | toolUse (id name : String) (ds : List Delta) (input : Json) :
      toolInput fromStr (String.join (ds.map Delta.inputOf)) = some input →
      Renders fromStr (.toolUse id name input) (.toolUse id name) ds

/-- A block that has all its pieces is complete. -/
theorem Renders.finish {fromStr : String → Option Json} {chunk : Chunk} {opening : Opening}
    {ds : List Delta} (h : Renders fromStr chunk opening ds) :
    (ds.foldl BlockState.push opening.state).finish fromStr = .ok chunk := by
  rw [BlockState.foldl_push]
  cases h with
  | text => rfl
  | thinking => rfl
  | toolUse id name ds input hinput =>
    rw [String.join] at hinput
    rw [BlockState.finish]
    dsimp only [Opening.state]
    rw [hinput]

/-- A block of the message, with its index and its pieces. -/
structure Block (fromStr : String → Option Json) where
  index : UInt64
  chunk : Chunk
  opening : Opening
  deltas : List Delta
  renders : Renders fromStr chunk opening deltas

/-- The events of a block. -/
def Block.events {fromStr : String → Option Json} (b : Block fromStr) : List Event :=
  .blockStart b.index b.opening :: b.deltas.map (.blockDelta b.index) ++ [.blockStop b.index]

/-- The index that an event closes. -/
def Event.stops? : Event → Option UInt64
  | .blockStop index => some index
  | _ => none

/-- The events of these blocks, those of one block in order, and those of different blocks in any
order. -/
structure Interleaved {fromStr : String → Option Json} (blocks : List (Block fromStr))
    (events : List Event) : Prop where
  indices : (blocks.map Block.index).Nodup
  complete : ∀ b ∈ blocks, events.filter (fun e => e.index? = some b.index) = b.events
  known : ∀ e ∈ events, ∀ i, e.index? = some i → ∃ b ∈ blocks, b.index = i
  goes_on : .messageStop ∉ events

theorem Renders.blockOf {fromStr : String → Option Json} {chunk : Chunk} {opening : Opening}
    {ds : List Delta} (h : Renders fromStr chunk opening ds) :
    blockOf (.ok chunk) = some chunk := by
  cases h <;> rfl

/-! ### Runs -/

section

variable (fromStr : String → Option Json)

/-- Events are handled one after another. -/
def runEvents (blocks : Table UInt64 BlockState) :
    List Event → List Item × Flow (Table UInt64 BlockState)
  | [] => ([], .next blocks)
  | e :: events =>
    match apply fromStr blocks e with
    | (items, .next blocks') =>
      let r := runEvents blocks' events
      (items ++ r.1, r.2)
    | r => r

/-- The event of a line. -/
def eventOf (line : List Char) : Option Event :=
  ((dataOf line).bind fromStr).map Event.ofJson

end

variable {fromStr : String → Option Json}

theorem runLines_eq (blocks : Table UInt64 BlockState) (lines : List (List Char)) :
    runLines (parser fromStr) blocks lines
      = runEvents fromStr blocks (lines.filterMap (eventOf fromStr)) := by
  induction lines generalizing blocks with
  | nil => rfl
  | cons line lines ih =>
    rw [runLines]
    cases hdata : dataOf line with
    | none =>
      have hnone : eventOf fromStr line = none := by rw [eventOf, hdata]; rfl
      rw [List.filterMap_cons_none hnone]
      exact ih blocks
    | some data =>
      cases hval : fromStr data with
      | none =>
        have hnone : eventOf fromStr line = none := by
          rw [eventOf, hdata, Option.bind_some, hval]
          rfl
        rw [List.filterMap_cons_none hnone, ← ih blocks]
        simp only [parser, hval]
        rfl
      | some val =>
        have hsome : eventOf fromStr line = some (.ofJson val) := by
          rw [eventOf, hdata, Option.bind_some, hval]
          rfl
        rw [List.filterMap_cons_some hsome, runEvents]
        simp only [parser, hval]
        rcases apply fromStr blocks (.ofJson val) with ⟨items, blocks' | blocks' | _⟩
        · dsimp only
          rw [← ih blocks']
          rfl
        · rfl
        · rfl

/-- The state under each index is what the events of that index have made. -/
def Tracks (blocks : Table UInt64 BlockState) (events : List Event) : Prop :=
  ∀ i, blocks.get? i = (events.filter fun e => e.index? = some i).foldl track none

theorem Tracks.apply {blocks blocks' : Table UInt64 BlockState} {events : List Event} {e : Event}
    {items : List Item} (h : Tracks blocks events)
    (happly : apply fromStr blocks e = (items, .next blocks')) :
    Tracks blocks' (events ++ [e]) := by
  intro i
  rw [get?_apply happly, List.filter_append, List.foldl_append, ← h i]
  by_cases hi : e.index? = some i
  · rw [if_pos hi, List.filter_cons_of_pos (by simpa using hi)]
    rfl
  · rw [if_neg hi, List.filter_cons_of_neg (by simpa using hi)]
    rfl

theorem foldl_track_deltas (index : UInt64) (s : BlockState) (ds : List Delta) :
    (ds.map (Event.blockDelta index)).foldl track (some s)
      = some (ds.foldl BlockState.push s) := by
  induction ds generalizing s with
  | nil => rfl
  | cons d ds ih => exact ih (s.push d)

theorem append_cons_eq_concat {α : Type*} {a b c : List α} {x : α} (h : a ++ x :: b = c ++ [x])
    (hx : x ∉ c) : a = c := by
  rcases List.append_eq_append_iff.mp h with ⟨l, rfl, hl⟩ | ⟨l, rfl, hl⟩
  · cases l with
    | nil => exact (List.append_nil a).symm
    | cons y l =>
      obtain ⟨rfl, -⟩ := List.cons.inj hl
      exact absurd (List.mem_append_right a List.mem_cons_self) hx
  · cases l with
    | nil => exact List.append_nil c
    | cons y l => simp at hl

/-- When a block stops, it is complete. -/
theorem Block.finish_of_stop {b : Block fromStr} {blocks : Table UInt64 BlockState}
    {before after : List Event} (h : Tracks blocks before)
    (hevents : (before ++ .blockStop b.index :: after).filter
      (fun e => e.index? = some b.index) = b.events) :
    ∃ s, blocks.get? b.index = some s ∧ s.finish fromStr = .ok b.chunk := by
  have hstop : (.blockStop b.index) ∉
      Event.blockStart b.index b.opening :: b.deltas.map (.blockDelta b.index) := by simp
  rw [List.filter_append, List.filter_cons_of_pos (by simp [Event.index?])] at hevents
  have hbefore := append_cons_eq_concat hevents hstop
  refine ⟨_, ?_, b.renders.finish⟩
  rw [h b.index, hbefore]
  exact foldl_track_deltas b.index b.opening.state b.deltas

/-- What is emitted from some point on: the blocks that stop, as they were. -/
theorem runEvents_of_interleaved {blocks : List (Block fromStr)} (before : List Event)
    {events : List Event} {state : Table UInt64 BlockState}
    (h : Interleaved blocks (before ++ events))
    (hstate : Tracks state before) :
    ∃ (chunks : List Chunk) (state' : _) (order : List (Block fromStr)),
      runEvents fromStr state events = (chunks.map Except.ok, .next state') ∧
      (∀ b ∈ order, b ∈ blocks) ∧ order.map Block.index = events.filterMap Event.stops? ∧
      (chunks.map Except.ok).filterMap blockOf = order.map Block.chunk := by
  induction events generalizing before state with
  | nil => exact ⟨[], state, [], rfl, by simp, rfl, rfl⟩
  | cons e events ih =>
    -- an event that goes on emits `chunks`, which hold the blocks `stopped`
    have hstep : ∀ (chunks : List Chunk) (state' : _) (stopped : List (Block fromStr)),
        apply fromStr state e = (chunks.map Except.ok, .next state') →
        (∀ b ∈ stopped, b ∈ blocks) → stopped.map Block.index = e.stops?.toList →
        (chunks.map Except.ok).filterMap blockOf = stopped.map Block.chunk →
        ∃ (chunks' : List Chunk) (state'' : _) (order : List (Block fromStr)),
          runEvents fromStr state (e :: events) = (chunks'.map Except.ok, .next state'') ∧
          (∀ b ∈ order, b ∈ blocks) ∧
          order.map Block.index = (e :: events).filterMap Event.stops? ∧
          (chunks'.map Except.ok).filterMap blockOf = order.map Block.chunk := by
      intro chunks state' stopped happly hstopped hindex hchunk
      obtain ⟨chunks', state'', order, hrun, hmem, horder, hchunks⟩ :=
        ih (before ++ [e]) (by simpa using h) (hstate.apply happly)
      refine ⟨chunks ++ chunks', state'', stopped ++ order, ?_, ?_, ?_, ?_⟩
      · rw [runEvents, happly]
        dsimp only
        rw [hrun, List.map_append]
      · intro b hb
        exact (List.mem_append.mp hb).elim (hstopped b) (hmem b)
      · rw [List.map_append, hindex, horder]
        cases hstops : e.stops? with
        | none => rw [List.filterMap_cons_none hstops]; rfl
        | some index => rw [List.filterMap_cons_some hstops]; rfl
      · rw [List.map_append, List.filterMap_append, hchunk, hchunks, List.map_append]
    have hmem : e ∈ before ++ e :: events := by simp
    cases e with
    | blockStart index opening => exact hstep [] _ [] rfl (by simp) rfl rfl
    | messageStop => exact absurd hmem h.goes_on
    | other => exact hstep [] _ [] rfl (by simp) rfl rfl
    | blockDelta index delta =>
      cases hget : state.get? index with
      | none =>
        refine hstep [] state [] ?_ (by simp) rfl rfl
        rw [apply, hget]
        rfl
      | some s =>
        have happly : apply fromStr state (.blockDelta index delta)
            = (delta.items, .next (state.insert index (s.push delta))) := by rw [apply, hget]
        cases delta with
        | text t => exact hstep [.textDelta t] _ [] happly (by simp) rfl rfl
        | thinking t => exact hstep [.thinkingDelta t] _ [] happly (by simp) rfl rfl
        | signature sig => exact hstep [] _ [] happly (by simp) rfl rfl
        | inputJson j => exact hstep [] _ [] happly (by simp) rfl rfl
        | other => exact hstep [] _ [] happly (by simp) rfl rfl
    | blockStop index =>
      obtain ⟨b, hb, rfl⟩ := h.known _ hmem index rfl
      obtain ⟨s, hget, hfinish⟩ := b.finish_of_stop hstate (h.complete b hb)
      refine hstep [b.chunk] (state.erase b.index) [b] ?_ (by simpa using hb) rfl ?_
      · rw [apply, hget]
        dsimp only
        rw [hfinish]
        rfl
      · rw [List.map_singleton, List.filterMap_cons_some b.renders.blockOf]
        rfl

/-! ### Streams -/

theorem filter_filterMap_stops (events : List Event) (i : UInt64) :
    (events.filterMap Event.stops?).filter (· == i)
      = (events.filter fun e => e.index? = some i).filterMap Event.stops? := by
  induction events with
  | nil => rfl
  | cons e events ih =>
    by_cases hi : e.index? = some i
    · rw [List.filter_cons_of_pos (by simpa using hi)]
      cases e with
      | blockStop index =>
        obtain rfl := Option.some.inj hi
        have hstops : (Event.blockStop index).stops? = some index := rfl
        rw [List.filterMap_cons_some hstops, List.filter_cons_of_pos (by simp), ih,
          List.filterMap_cons_some hstops]
      | _ => exact ih
    · rw [List.filter_cons_of_neg (by simpa using hi), ← ih]
      cases e with
      | blockStop index =>
        have hne : index ≠ i := fun heq => hi (congrArg some heq)
        have hstops : (Event.blockStop index).stops? = some index := rfl
        rw [List.filterMap_cons_some hstops, List.filter_cons_of_neg (by simpa using hne)]
      | _ => rfl

theorem Block.filterMap_stops (b : Block fromStr) :
    b.events.filterMap Event.stops? = [b.index] := by
  have hdeltas : (b.deltas.map (Event.blockDelta b.index)).filterMap Event.stops? = [] := by
    rw [List.filterMap_map]
    exact List.filterMap_eq_nil_iff.mpr fun _ _ => rfl
  rw [Block.events, List.cons_append, List.filterMap_cons_none rfl, List.filterMap_append, hdeltas]
  rfl

namespace Interleaved

variable {blocks order : List (Block fromStr)} {events : List Event}

/-- Each block stops once. -/
theorem filter_stops (h : Interleaved blocks events) {b : Block fromStr} (hb : b ∈ blocks) :
    (events.filterMap Event.stops?).filter (· == b.index) = [b.index] := by
  rw [filter_filterMap_stops, h.complete b hb, b.filterMap_stops]

theorem stops_known (h : Interleaved blocks events) {i : UInt64}
    (hi : i ∈ events.filterMap Event.stops?) : ∃ b ∈ blocks, b.index = i := by
  obtain ⟨e, he, hstops⟩ := List.mem_filterMap.mp hi
  refine h.known e he i ?_
  cases e with
  | blockStop index => exact hstops
  | _ => cases hstops

theorem nodup_stops (h : Interleaved blocks events) : (events.filterMap Event.stops?).Nodup := by
  refine List.nodup_iff_count_le_one.mpr fun i => ?_
  by_cases hi : i ∈ events.filterMap Event.stops?
  · obtain ⟨b, hb, rfl⟩ := h.stops_known hi
    rw [List.count_eq_length_filter]
    have hone := congrArg List.length (h.filter_stops hb)
    exact hone.le
  · rw [List.count_eq_zero_of_not_mem hi]
    exact Nat.zero_le 1

/-- The blocks in the order in which they stop are all of them. -/
theorem perm_of_stops (h : Interleaved blocks events) (hmem : ∀ b ∈ order, b ∈ blocks)
    (horder : order.map Block.index = events.filterMap Event.stops?) : order.Perm blocks := by
  have hnodup : (order.map Block.index).Nodup := horder ▸ h.nodup_stops
  refine (List.perm_ext_iff_of_nodup hnodup.of_map h.indices.of_map).mpr fun b =>
    ⟨hmem b, fun hb => ?_⟩
  have hstops : b.index ∈ events.filterMap Event.stops? :=
    List.mem_of_mem_filter (h.filter_stops hb ▸ List.mem_singleton_self b.index)
  obtain ⟨b', hb', hindex⟩ := List.mem_map.mp (horder ▸ hstops)
  rwa [← List.inj_on_of_nodup_map h.indices (hmem b' hb') hb hindex]

end Interleaved

/-- What a line of the stream says: an event, or something that is passed over. -/
inductive LineOf (fromStr : String → Option Json) : List Char → Option Event → Prop
  | event (text : List Char) (n : ℕ) (e : Event) : text.getLast? ≠ some '\r' →
      fromStr (String.ofList text) = some e.json →
      LineOf fromStr ("data: ".toList ++ text ++ List.replicate n '\r') (some e)
  | quiet (text : List Char) (n : ℕ) (val : Json) : text.getLast? ≠ some '\r' →
      fromStr (String.ofList text) = some val →
      strField val "type" ∈ ["ping", "message_start", "message_delta"] →
      LineOf fromStr ("data: ".toList ++ text ++ List.replicate n '\r') (some .other)
  | bare (line : List Char) : ¬ "data: ".toList <+: line → LineOf fromStr line none

theorem LineOf.eventOf {line : List Char} {e : Option Event} (h : LineOf fromStr line e) :
    eventOf fromStr line = e := by
  rw [Anthropic.eventOf]
  cases h with
  | event text n e hret hval => rw [dataOf_data hret, Option.bind_some, hval, Option.map_some,
      e.ofJson_json]
  | quiet text n val hret hval htype =>
    rw [dataOf_data hret, Option.bind_some, hval, Option.map_some, Event.ofJson]
    simp only [List.mem_cons, List.not_mem_nil, or_false] at htype
    rcases htype with h | h | h <;> simp [h]
  | bare line hbare =>
    rw [dataOf_bare hbare]
    rfl

/-- A stream that carries some blocks, up to the stop of the message. -/
structure Rendered (fromStr : String → Option Json) (blocks : List (Block fromStr))
    (events : List Event) (bytes : List UInt8) : Prop where
  interleaved : Interleaved blocks events
  carries : ∃ lines said, Begins bytes lines ∧ List.Forall₂ (LineOf fromStr) lines said ∧
    said.filterMap id = events ++ [.messageStop]

theorem runEvents_append_messageStop {events more : List Event}
    {state state' : Table UInt64 BlockState} {items : List Item}
    (h : runEvents fromStr state events = (items, .next state')) :
    runEvents fromStr state (events ++ .messageStop :: more) = (items, .stop state') := by
  induction events generalizing state items with
  | nil =>
    obtain ⟨rfl, hnext⟩ := Prod.mk.inj h
    obtain rfl := Flow.next.inj hnext
    rfl
  | cons e events ih =>
    rw [List.cons_append, runEvents]
    rw [runEvents] at h
    rcases happly : apply fromStr state e with ⟨items', next | stop | _⟩
    · rw [happly] at h
      obtain ⟨hitems, hflow⟩ := Prod.mk.inj h
      have hrun := ih (Prod.ext rfl hflow)
      dsimp only
      rw [hrun, ← hitems]
    · rw [happly] at h
      cases (Prod.mk.inj h).2
    · rw [happly] at h
      cases (Prod.mk.inj h).2

theorem filterMap_eventOf {lines : List (List Char)} {said : List (Option Event)}
    (h : List.Forall₂ (LineOf fromStr) lines said) :
    lines.filterMap (eventOf fromStr) = said.filterMap id := by
  induction h with
  | nil => rfl
  | cons hline _ ih => rw [List.filterMap_cons, List.filterMap_cons, ih, hline.eventOf]; rfl

/-- **Nothing is lost**: the blocks of a stream are emitted as they were, in the order in which they
stop. -/
theorem sseToChunks_rendered {blocks : List (Block fromStr)} {events : List Event}
    {chunks : List (List UInt8)} (h : Rendered fromStr blocks events chunks.flatten) :
    ∃ (emitted : List Chunk) (order : List (Block fromStr)),
      sseToChunks (parser fromStr) chunks = (emitted ++ [Chunk.done]).map Except.ok ∧
      order.Perm blocks ∧ order.map Block.index = events.filterMap Event.stops? ∧
      (emitted.map Except.ok).filterMap blockOf = order.map Block.chunk := by
  obtain ⟨lines, said, hbegins, hlines, hsaid⟩ := h.carries
  obtain ⟨more, hmore⟩ := hbegins.linesOf
  obtain ⟨emitted, state, order, hrun, hmem, horder, hchunks⟩ :=
    runEvents_of_interleaved [] h.interleaved (show Tracks .empty [] from fun _ => rfl)
  refine ⟨emitted, order, ?_, h.interleaved.perm_of_stops hmem horder, horder, hchunks⟩
  have hevents : (lines ++ more).filterMap (eventOf fromStr)
      = events ++ .messageStop :: more.filterMap (eventOf fromStr) := by
    rw [List.filterMap_append, filterMap_eventOf hlines, hsaid, List.append_assoc]
    rfl
  rw [sseToChunks_eq, hmore, runLines_eq, hevents]
  show conclude _ (runEvents fromStr .empty _) = _
  rw [runEvents_append_messageStop hrun, List.map_append]
  rfl

end ApexOS.Agentd.Anthropic
