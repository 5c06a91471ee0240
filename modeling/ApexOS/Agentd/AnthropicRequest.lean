import ApexOS.Agentd.History
import Mathlib.Algebra.GroupWithZero.Nat

/-!
# The request to Anthropic

`build_body` of `agentd/crates/agent/src/anthropic.rs`, and `cache.rs`. The body is a JSON object
that is built field by field. With caching on, some blocks get one field more, which tells the
provider how far a prefix of the request is worth keeping: the system block, and the last blocks of
up to three messages before the last, walking back from it.

How a JSON value is printed is a parameter.

## Main definitions

* `CacheConfig`, `CacheConfig.control`: how to cache
* `msgToJson`, `applyConversationCache`, `buildBody`: the request
* `unmark`, `marks`: a request without the marks, and how many it has

## Main results

* `unmark_buildBody`: without the marks it is the request without caching
* `marks_buildBody_le`: there are four at most
* `cache_markers`: what the marks leave as it is, and where they are
-/

namespace ApexOS.Agentd

/-- `contains_image_block`. -/
def containsImageBlock (v : Json) : Bool :=
  (v.asArray.getD []).any fun e => (e.get? "type").bind Json.asStr == some "image"

/-- The messages of a body. -/
def bodyMessages (body : Json) : List Json :=
  ((body.get? "messages").bind Json.asArray).getD []

namespace AnthropicRequest

/-- `ToolSpec`. -/
structure ToolSpec where
  name : String
  description : String
  inputSchema : Json

/-! ### Caching -/

/-- `CacheTtl`. -/
inductive CacheTtl
  | fiveMin
  | oneHour
  deriving DecidableEq, Repr

/-- `CacheTtl::as_str`. -/
def CacheTtl.asStr : CacheTtl → Option String
  | fiveMin => none
  | oneHour => some "1h"

/-- `CacheConfig`. -/
structure CacheConfig where
  enabled : Bool
  cacheConversation : Bool
  ttl : CacheTtl
  deriving DecidableEq, Repr

/-- `CacheConfig::control`. -/
def CacheConfig.control (cache : CacheConfig) : Json :=
  match cache.ttl.asStr with
  | some ttl => .object [("type", .string "ephemeral"), ("ttl", .string ttl)]
  | none => .object [("type", .string "ephemeral")]

/-- The field that marks a block. -/
def cacheControl : String := "cache_control"

/-- `STRIDE`. -/
def stride : ℕ := 15

/-- `MAX_BP`. -/
def maxBp : ℕ := 3

/-- The content of a message. -/
def contentBlocks (msg : Json) : List Json := ((msg.get? "content").bind Json.asArray).getD []

/-- The last block of a message is marked, if it is an object. -/
def markLast (control msg : Json) : Option Json :=
  match (contentBlocks msg).getLast? with
  | some (.object fields) =>
    some (msg.insert "content" (.array ((contentBlocks msg).dropLast ++
      [Json.insert (.object fields) cacheControl control])))
  | _ => none

/-- The walk back through the stable messages, the newest first. -/
def markBack (control : Json) : List Json → ℕ → ℕ → List Json
  | [], _, _ => []
  | msg :: rest, placed, blocksSince =>
    if maxBp ≤ placed then msg :: rest
    else
      let blocksSince := min (blocksSince + (contentBlocks msg).length) (2 ^ 64 - 1)
      if stride ≤ blocksSince then
        match markLast control msg with
        | some marked => marked :: markBack control rest (placed + 1) 0
        | none => msg :: markBack control rest placed blocksSince
      else msg :: markBack control rest placed blocksSince

/-- `apply_conversation_cache`. -/
def applyConversationCache (messages : List Json) (control : Json) : List Json :=
  if messages.length < 2 then messages
  else (markBack control messages.dropLast.reverse 0 stride).reverse ++ messages.getLast?.toList

/-! ### The body -/

section

variable (print : Json → String)

/-- `block_to_json`. -/
def blockToJson : ContentBlock → Json
  | .text text => .object [("type", .string "text"), ("text", .string text)]
  | .thinking thinking signature =>
    .object [("type", .string "thinking"), ("thinking", .string thinking),
      ("signature", .string signature)]
  | .toolUse id name input =>
    .object [("type", .string "tool_use"), ("id", .string id), ("name", .string name),
      ("input", input)]
  | .toolResult toolUseId content isError =>
    let safeContent := match content with
      | .string s => .string s
      | v => if containsImageBlock v then v else .string (print v)
    .object [("type", .string "tool_result"), ("tool_use_id", .string toolUseId),
      ("content", safeContent), ("is_error", .bool isError)]
  | .image mediaType data =>
    .object [("type", .string "image"), ("source", .object [("type", .string "base64"),
      ("media_type", .string mediaType), ("data", .string data)])]

/-- `msg_to_json`. -/
def msgToJson : Message → Json
  | .user content =>
    .object [("role", .string "user"), ("content", .array (content.map (blockToJson print)))]
  | .assistant content =>
    .object [("role", .string "assistant"), ("content", .array (content.map (blockToJson print)))]

/-- `supports_adaptive_thinking`. -/
def supportsAdaptiveThinking (model : String) : Bool :=
  ["claude-fable-5", "claude-opus-5", "claude-sonnet-5"].any fun p =>
    p.toList.isPrefixOf model.toList

/-- `tool_to_json`. -/
def toolToJson (spec : ToolSpec) : Json :=
  .object [("name", .string spec.name), ("description", .string spec.description),
    ("input_schema", spec.inputSchema)]

/-- The tools, by name. -/
def sortedTools (tools : List ToolSpec) : List ToolSpec :=
  tools.mergeSort fun a b => decide (a.name ≤ b.name)

/-- The messages, with their marks. -/
def messagesJson (history : List Message) (cache : CacheConfig) : List Json :=
  let messages := history.map (msgToJson print)
  if cache.enabled && cache.cacheConversation then applyConversationCache messages cache.control
  else messages

/-- The system text, as it is sent. -/
def systemJson (cache : CacheConfig) (sys : String) : Json :=
  if cache.enabled then
    .array [.object [("type", .string "text"), ("text", .string sys),
      (cacheControl, cache.control)]]
  else .string sys

/-- `build_body`. -/
def buildBody (model : String) (history : List Message) (tools : List ToolSpec)
    (system : Option String) (cache : CacheConfig) : Json :=
  .object ([("model", .string model), ("max_tokens", .number (.posInt 16000)),
      ("messages", .array (messagesJson print history cache)), ("stream", .bool true)] ++
    (if supportsAdaptiveThinking model then
      [("thinking", .object [("type", .string "adaptive")])] else []) ++
    (system.toList.map fun sys => ("system", systemJson cache sys)) ++
    if tools.isEmpty then [] else [("tools", .array ((sortedTools tools).map toolToJson))])

end

/-! ### Marks -/

/-- A block without its mark. -/
def unmarkBlock (block : Json) : Json := block.erase cacheControl

/-- A message without its marks. -/
def unmarkMessage : Json → Json
  | .object fields => .object (fields.map fun f =>
      (f.1, if f.1 = "content" then match f.2 with
        | .array blocks => .array (blocks.map unmarkBlock)
        | v => v
      else f.2))
  | v => v

/-- A body without its marks. -/
def unmark : Json → Json
  | .object fields => .object (fields.map fun f => (f.1,
      match f.1, f.2 with
      | "messages", .array messages => .array (messages.map unmarkMessage)
      | "system", .array blocks => .array (blocks.map unmarkBlock)
      | _, v => v))
  | v => v

/-- A body with its system text in the form of a block. -/
def inBlocks : Json → Json
  | .object fields => .object (fields.map fun f => (f.1,
      match f.1, f.2 with
      | "system", .string sys => .array [.object [("type", .string "text"), ("text", .string sys)]]
      | _, v => v))
  | v => v

def isMarked (block : Json) : Bool := (block.get? cacheControl).isSome

/-- How many blocks of a message are marked. -/
def messageMarks (msg : Json) : ℕ := (contentBlocks msg).countP isMarked

/-- The blocks of the system text of a body. -/
def systemBlocks (body : Json) : List Json :=
  ((body.get? "system").bind Json.asArray).getD []

/-- How many blocks of a body are marked. -/
def marks (body : Json) : ℕ :=
  ((bodyMessages body).map messageMarks).sum + (systemBlocks body).countP isMarked

/-! ### What is sent has no marks of its own -/

/-- An object without a mark. -/
def IsBlock (block : Json) : Prop :=
  ∃ fields : List (String × Json), block = .object fields ∧ ∀ f ∈ fields, f.1 ≠ cacheControl

/-- A message of blocks without a mark. -/
def IsMessage (msg : Json) : Prop :=
  ∃ (role : String) (blocks : List Json),
    msg = .object [("role", .string role), ("content", .array blocks)] ∧ ∀ b ∈ blocks, IsBlock b

section

variable {block msg control : Json}

theorem unmarkBlock_eq_self (h : IsBlock block) : unmarkBlock block = block := by
  obtain ⟨fields, rfl, hfields⟩ := h
  rw [unmarkBlock, Json.erase, List.filter_eq_self.mpr fun f hf => decide_eq_true (hfields f hf)]

theorem unmarkBlock_insert (h : IsBlock block) :
    unmarkBlock (block.insert cacheControl control) = block := by
  obtain ⟨fields, rfl, hfields⟩ := h
  rw [unmarkBlock, Json.insert, Json.erase]
  congr 1
  induction fields with
  | nil => simp [Json.insertField]
  | cons f fields ih =>
    have hf := hfields f List.mem_cons_self
    rw [Json.insertField, if_neg hf, List.filter_cons_of_pos (by simpa using hf),
      ih fun g hg => hfields g (List.mem_cons_of_mem _ hg)]

theorem isMarked_eq_false (h : IsBlock block) : isMarked block = false := by
  obtain ⟨fields, rfl, hfields⟩ := h
  rw [isMarked, Json.get?]
  induction fields with
  | nil => rfl
  | cons f fields ih =>
    rw [Json.lookup_cons_eq, if_neg (hfields f List.mem_cons_self)]
    exact ih fun g hg => hfields g (List.mem_cons_of_mem _ hg)

theorem isMarked_insert (h : IsBlock block) :
    isMarked (block.insert cacheControl control) = true := by
  obtain ⟨fields, rfl, -⟩ := h
  rw [isMarked, Json.get?_insert_self rfl]
  rfl

theorem map_unmarkBlock {blocks : List Json} (h : ∀ b ∈ blocks, IsBlock b) :
    blocks.map unmarkBlock = blocks :=
  (List.map_congr_left fun b hb => unmarkBlock_eq_self (h b hb)).trans (List.map_id _)

theorem countP_isMarked {blocks : List Json} (h : ∀ b ∈ blocks, IsBlock b) :
    blocks.countP isMarked = 0 :=
  List.countP_eq_zero.mpr fun b hb => by simp [isMarked_eq_false (h b hb)]

theorem unmarkMessage_eq_self (h : IsMessage msg) : unmarkMessage msg = msg := by
  obtain ⟨role, blocks, rfl, hblocks⟩ := h
  simp [unmarkMessage, map_unmarkBlock hblocks]

theorem messageMarks_eq_zero (h : IsMessage msg) : messageMarks msg = 0 := by
  obtain ⟨role, blocks, rfl, hblocks⟩ := h
  exact countP_isMarked hblocks

theorem map_unmarkMessage {messages : List Json} (h : ∀ m ∈ messages, IsMessage m) :
    messages.map unmarkMessage = messages :=
  (List.map_congr_left fun m hm => unmarkMessage_eq_self (h m hm)).trans (List.map_id _)

theorem sum_messageMarks {messages : List Json} (h : ∀ m ∈ messages, IsMessage m) :
    (messages.map messageMarks).sum = 0 :=
  List.sum_eq_zero_iff_forall_eq_nat.mpr fun n hn => by
    obtain ⟨m, hm, rfl⟩ := List.mem_map.mp hn
    exact messageMarks_eq_zero (h m hm)

/-- What the last block of a message becomes. -/
theorem markLast_eq_some {marked : Json} (h : IsMessage msg)
    (hmark : markLast control msg = some marked) :
    unmarkMessage marked = msg ∧ messageMarks marked = 1 ∧
      ∃ b, (contentBlocks marked).getLast? = some b ∧ isMarked b = true := by
  obtain ⟨role, blocks, rfl, hblocks⟩ := h
  have hcontent : contentBlocks (.object [("role", .string role), ("content", .array blocks)])
      = blocks := rfl
  rw [markLast, hcontent] at hmark
  split at hmark
  · rename_i fields hlast
    cases hmark
    have hsplit := List.dropLast_append_getLast? _ hlast
    have hinit : ∀ b ∈ blocks.dropLast, IsBlock b := fun b hb =>
      hblocks b (List.mem_of_mem_dropLast hb)
    have hb : IsBlock (.object fields) := hblocks _ (List.mem_of_getLast? hlast)
    have hcontent' : ∀ v, contentBlocks (Json.insert
        (.object [("role", .string role), ("content", .array blocks)]) "content" (.array v)) = v :=
      fun v => by simp [contentBlocks, Json.get?_insert_self (j := .object _) rfl, Json.asArray]
    refine ⟨?_, ?_, Json.insert (.object fields) cacheControl control, ?_, isMarked_insert hb⟩
    · have hmap : (blocks.dropLast ++ [Json.insert (.object fields) cacheControl control]).map
          unmarkBlock = blocks := by
        rw [List.map_append, map_unmarkBlock hinit, List.map_singleton, unmarkBlock_insert hb]
        exact hsplit
      simp [Json.insert, Json.insertField, unmarkMessage] at hmap ⊢
      exact hmap
    · rw [messageMarks, hcontent', List.countP_append, countP_isMarked hinit,
        List.countP_singleton, isMarked_insert hb]
      rfl
    · rw [hcontent', List.getLast?_concat]
  · cases hmark

/-- A message with content can be marked. -/
theorem markLast_isSome (h : IsMessage msg) (hne : contentBlocks msg ≠ []) :
    ∃ marked, markLast control msg = some marked := by
  obtain ⟨role, blocks, rfl, hblocks⟩ := h
  have hcontent : contentBlocks (.object [("role", .string role), ("content", .array blocks)])
      = blocks := rfl
  rw [hcontent] at hne
  obtain ⟨fields, hb, -⟩ := hblocks _ (List.getLast_mem hne)
  have hlast : blocks.getLast? = some (.object fields) := by
    rw [List.getLast?_eq_some_getLast hne, hb]
  exact ⟨_, by rw [markLast, hcontent, hlast]⟩

/-! ### The walk -/

variable {messages : List Json}

/-- One step of the walk: the message is marked, or it stays as it is. -/
theorem markBack_cons (msg : Json) (rest : List Json) (placed blocksSince : ℕ) :
    (∃ marked, markLast control msg = some marked ∧ placed < maxBp ∧
      markBack control (msg :: rest) placed blocksSince
        = marked :: markBack control rest (placed + 1) 0) ∨
    (markBack control (msg :: rest) placed blocksSince = msg :: rest) ∨
    ∃ since, markBack control (msg :: rest) placed blocksSince
      = msg :: markBack control rest placed since := by
  rw [markBack]
  split
  · exact .inr (.inl rfl)
  · rename_i hplaced
    dsimp only
    split
    · split
      · rename_i marked hmark
        exact .inl ⟨marked, hmark, by omega, rfl⟩
      · exact .inr (.inr ⟨_, rfl⟩)
    · exact .inr (.inr ⟨_, rfl⟩)

theorem unmark_markBack (h : ∀ m ∈ messages, IsMessage m) (placed blocksSince : ℕ) :
    (markBack control messages placed blocksSince).map unmarkMessage = messages := by
  induction messages generalizing placed blocksSince with
  | nil => rfl
  | cons msg rest ih =>
    have hmsg := h msg List.mem_cons_self
    have hrest : ∀ m ∈ rest, IsMessage m := fun m hm => h m (List.mem_cons_of_mem _ hm)
    obtain ⟨marked, hmark, -, heq⟩ | heq | ⟨since, heq⟩ := markBack_cons msg rest placed blocksSince
    · rw [heq, List.map_cons, (markLast_eq_some hmsg hmark).1, ih hrest]
    · rw [heq, map_unmarkMessage h]
    · rw [heq, List.map_cons, unmarkMessage_eq_self hmsg, ih hrest]

/-- Every mark is counted. -/
theorem marks_markBack_le (control : Json) (h : ∀ m ∈ messages, IsMessage m)
    (placed blocksSince : ℕ) :
    ((markBack control messages placed blocksSince).map messageMarks).sum ≤ maxBp - placed := by
  induction messages generalizing placed blocksSince with
  | nil => exact Nat.zero_le _
  | cons msg rest ih =>
    have hmsg := h msg List.mem_cons_self
    have hrest : ∀ m ∈ rest, IsMessage m := fun m hm => h m (List.mem_cons_of_mem _ hm)
    obtain ⟨marked, hmark, hlt, heq⟩ | heq | ⟨since, heq⟩ :=
      markBack_cons msg rest placed blocksSince
    · have hle := ih hrest (placed + 1) 0
      rw [heq, List.map_cons, List.sum_cons, (markLast_eq_some hmsg hmark).2.1]
      omega
    · rw [heq, sum_messageMarks h]
      exact Nat.zero_le _
    · have hle := ih hrest placed since
      rw [heq, List.map_cons, List.sum_cons, messageMarks_eq_zero hmsg]
      omega

theorem length_markBack (control : Json) (messages : List Json) (placed blocksSince : ℕ) :
    (markBack control messages placed blocksSince).length = messages.length := by
  induction messages generalizing placed blocksSince with
  | nil => rfl
  | cons msg rest ih =>
    obtain ⟨marked, -, -, heq⟩ | heq | ⟨since, heq⟩ := markBack_cons msg rest placed blocksSince
    · rw [heq, List.length_cons, List.length_cons, ih]
    · rw [heq]
    · rw [heq, List.length_cons, List.length_cons, ih]

/-- A walk that is due for a mark passes over the messages without content and marks the next. -/
theorem markBack_due (control : Json) {after : List Json} (rest : List Json) {msg : Json}
    {placed blocksSince : ℕ} (hafter : ∀ m ∈ after, contentBlocks m = []) (hmsg : IsMessage msg)
    (hne : contentBlocks msg ≠ []) (hplaced : placed < maxBp) (hdue : stride ≤ blocksSince) :
    ∃ marked rest', markLast control msg = some marked ∧
      markBack control (after ++ msg :: rest) placed blocksSince = after ++ marked :: rest' := by
  have hstride : stride < 2 ^ 64 - 1 := by decide
  induction after generalizing blocksSince with
  | nil =>
    obtain ⟨marked, hmark⟩ : ∃ marked, markLast control msg = some marked :=
      markLast_isSome hmsg hne
    refine ⟨marked, markBack control rest (placed + 1) 0, hmark, ?_⟩
    rw [List.nil_append, markBack, if_neg (by omega)]
    dsimp only
    rw [if_pos (by omega), hmark]
    rfl
  | cons m after ih =>
    have hempty := hafter m List.mem_cons_self
    have hnone : markLast control m = none := by rw [markLast, hempty]; rfl
    have hdue' : stride ≤ min (blocksSince + 0) (2 ^ 64 - 1) := by omega
    obtain ⟨marked, rest', hmark, heq⟩ :=
      ih (fun m hm => hafter m (List.mem_cons_of_mem _ hm)) hdue'
    refine ⟨marked, rest', hmark, ?_⟩
    rw [List.cons_append, markBack, if_neg (by omega), hempty]
    dsimp only [List.length_nil]
    rw [if_pos (by omega), hnone]
    dsimp only
    rw [heq]
    rfl

end

/-! ### The request -/

section

variable (print : Json → String) (model : String) (history : List Message)
  (tools : List ToolSpec) (system : Option String) (cache : CacheConfig)

theorem isBlock_blockToJson (b : ContentBlock) : IsBlock (blockToJson print b) := by
  cases b <;> exact ⟨_, rfl, by simp [cacheControl]⟩

theorem isMessage_msgToJson (m : Message) : IsMessage (msgToJson print m) := by
  have hblocks : ∀ content : List ContentBlock, ∀ b ∈ content.map (blockToJson print), IsBlock b :=
    fun content b hb => by
      obtain ⟨c, -, rfl⟩ := List.mem_map.mp hb
      exact isBlock_blockToJson print c
  cases m with
  | user content => exact ⟨"user", _, rfl, hblocks content⟩
  | assistant content => exact ⟨"assistant", _, rfl, hblocks content⟩

theorem contentBlocks_msgToJson (m : Message) :
    contentBlocks (msgToJson print m) = (contentOf m).map (blockToJson print) := by
  cases m <;> rfl

theorem isMessage_of_mem {m : Json} (h : m ∈ history.map (msgToJson print)) : IsMessage m := by
  obtain ⟨m, -, rfl⟩ := List.mem_map.mp h
  exact isMessage_msgToJson print m

theorem isMessage_of_mem_reverse {m : Json}
    (h : m ∈ (history.map (msgToJson print)).dropLast.reverse) : IsMessage m :=
  isMessage_of_mem print history (List.mem_of_mem_dropLast (List.mem_reverse.mp h))

theorem bodyMessages_buildBody :
    bodyMessages (buildBody print model history tools system cache)
      = messagesJson print history cache := rfl

theorem unmark_messagesJson :
    (messagesJson print history cache).map unmarkMessage = history.map (msgToJson print) := by
  have hself : (history.map (msgToJson print)).map unmarkMessage = history.map (msgToJson print) :=
    map_unmarkMessage fun m hm => isMessage_of_mem print history hm
  rw [messagesJson]
  split
  · rw [applyConversationCache]
    split
    · exact hself
    · rename_i hlength
      have hne : history.map (msgToJson print) ≠ [] := fun hnil => hlength (by simp [hnil])
      have hlast : unmarkMessage ((history.map (msgToJson print)).getLast hne)
          = (history.map (msgToJson print)).getLast hne :=
        unmarkMessage_eq_self (isMessage_of_mem print history (List.getLast_mem hne))
      rw [List.map_append, List.map_reverse, unmark_markBack fun m hm =>
        isMessage_of_mem_reverse print history hm, List.reverse_reverse,
        List.getLast?_eq_some_getLast hne, Option.toList_some, List.map_singleton, hlast,
        List.dropLast_append_getLast]
  · exact hself

theorem marks_messagesJson_le :
    ((messagesJson print history cache).map messageMarks).sum ≤ maxBp := by
  have hzero : ((history.map (msgToJson print)).map messageMarks).sum = 0 :=
    sum_messageMarks fun m hm => isMessage_of_mem print history hm
  rw [messagesJson]
  split
  · rw [applyConversationCache]
    split
    · omega
    · rename_i hlength
      have hne : history.map (msgToJson print) ≠ [] := fun hnil => hlength (by simp [hnil])
      have hlast := messageMarks_eq_zero
        (isMessage_of_mem print history (List.getLast_mem hne))
      have hle := marks_markBack_le cache.control
        (fun m hm => isMessage_of_mem_reverse print history hm) 0 stride
      rw [List.map_append, List.sum_append, List.map_reverse, List.sum_reverse,
        List.getLast?_eq_some_getLast hne, Option.toList_some, List.map_singleton,
        List.sum_singleton, hlast]
      omega
  · omega

theorem get?_system_buildBody :
    (buildBody print model history tools system cache).get? "system"
      = system.map (systemJson cache) := by
  rw [buildBody, Json.get?]
  cases system <;> cases supportsAdaptiveThinking model <;> cases tools <;>
    simp [Json.lookup_cons_eq]

/-- There are four marks at most. -/
theorem marks_buildBody_le : marks (buildBody print model history tools system cache) ≤ 4 := by
  have hmessages := marks_messagesJson_le print history cache
  have hsystem : (systemBlocks (buildBody print model history tools system cache)).length ≤ 1 := by
    rw [systemBlocks, get?_system_buildBody]
    cases system with
    | none => exact Nat.zero_le _
    | some sys =>
      cases henabled : cache.enabled <;> simp [systemJson, henabled, Json.asArray]
  have hcount := List.countP_le_length (p := isMarked)
    (l := systemBlocks (buildBody print model history tools system cache))
  have hmax : maxBp = 3 := rfl
  rw [marks, bodyMessages_buildBody]
  omega

theorem unmark_buildBody :
    unmark (buildBody print model history tools system cache) =
      if cache.enabled then
        inBlocks (buildBody print model history tools system { cache with enabled := false })
      else buildBody print model history tools system { cache with enabled := false } := by
  have hmessages := unmark_messagesJson print history cache
  have hoff : messagesJson print history { cache with enabled := false }
      = history.map (msgToJson print) := rfl
  cases henabled : cache.enabled with
  | false =>
    cases system <;> cases hmodel : supportsAdaptiveThinking model <;> cases tools <;>
      simp [unmark, buildBody, hmodel, henabled, systemJson, hmessages, hoff]
  | true =>
    cases system <;> cases hmodel : supportsAdaptiveThinking model <;> cases tools <;>
      simp [unmark, inBlocks, buildBody, hmodel, henabled, systemJson, unmarkBlock, Json.erase,
        cacheControl, hmessages, hoff]

/-- The last message is sent as it is. -/
theorem getLast?_messagesJson :
    (messagesJson print history cache).getLast? = history.getLast?.map (msgToJson print) := by
  rw [messagesJson]
  split
  · rw [applyConversationCache]
    split
    · exact List.getLast?_map
    · rename_i hlength
      have hne : history.map (msgToJson print) ≠ [] := fun hnil => hlength (by simp [hnil])
      rw [List.getLast?_eq_some_getLast hne, Option.toList_some, List.getLast?_concat,
        ← List.getLast?_eq_some_getLast hne, List.getLast?_map]
  · exact List.getLast?_map

/-- The newest message before the last that has content is marked. -/
theorem messagesJson_newest {before after : List Message} {m last : Message}
    (hcache : cache.enabled = true ∧ cache.cacheConversation = true)
    (hafter : ∀ a ∈ after, contentOf a = []) (hne : contentOf m ≠ []) :
    ∃ marked b, (messagesJson print (before ++ m :: (after ++ [last])) cache)[before.length]?
        = some marked ∧ unmarkMessage marked = msgToJson print m ∧
      (contentBlocks marked).getLast? = some b ∧ isMarked b = true := by
  have hblocks : contentBlocks (msgToJson print m) ≠ [] := by
    rw [contentBlocks_msgToJson]
    simpa using hne
  have hempty : ∀ a ∈ (after.map (msgToJson print)).reverse, contentBlocks a = [] := fun a ha => by
    obtain ⟨n, hn, rfl⟩ := List.mem_map.mp (List.mem_reverse.mp ha)
    rw [contentBlocks_msgToJson, hafter n hn, List.map_nil]
  obtain ⟨marked, rest, hmark, hwalk⟩ := markBack_due cache.control
    (before.map (msgToJson print)).reverse hempty (isMessage_msgToJson print m) hblocks
    (by decide : 0 < maxBp) le_rfl
  obtain ⟨hunmark, -, b, hlast, hb⟩ := markLast_eq_some (isMessage_msgToJson print m) hmark
  have hlength : rest.length = before.length := by
    have h := length_markBack cache.control ((after.map (msgToJson print)).reverse ++
      msgToJson print m :: (before.map (msgToJson print)).reverse) 0 stride
    rw [hwalk] at h
    simpa using h
  refine ⟨marked, b, ?_, hunmark, hlast, hb⟩
  have hinit : ((before ++ m :: (after ++ [last])).map (msgToJson print)).dropLast.reverse
      = (after.map (msgToJson print)).reverse ++
        msgToJson print m :: (before.map (msgToJson print)).reverse := by
    have hsplit : (before ++ m :: (after ++ [last])).map (msgToJson print)
        = ((before ++ m :: after).map (msgToJson print)) ++ [msgToJson print last] := by simp
    rw [hsplit, List.dropLast_concat]
    simp
  have hlong : ¬ ((before ++ m :: (after ++ [last])).map (msgToJson print)).length < 2 := by
    simp
    omega
  rw [messagesJson, hcache.1, hcache.2, Bool.and_self, if_pos rfl, applyConversationCache,
    if_neg hlong, hinit, hwalk]
  simp [hlength]

/-- The tools are sent by name, in whatever order they come. -/
theorem sortedTools_perm {tools tools' : List ToolSpec} (hperm : tools'.Perm tools)
    (hnodup : (tools.map ToolSpec.name).Nodup) : sortedTools tools' = sortedTools tools := by
  have htrans : ∀ a b c : ToolSpec, decide (a.name ≤ b.name) = true →
      decide (b.name ≤ c.name) = true → decide (a.name ≤ c.name) = true := fun a b c hab hbc =>
    decide_eq_true (String.le_trans (of_decide_eq_true hab) (of_decide_eq_true hbc))
  have htotal : ∀ a b : ToolSpec, (decide (a.name ≤ b.name) || decide (b.name ≤ a.name)) = true :=
    fun a b => by simpa using String.le_total a.name b.name
  refine List.Perm.eq_of_pairwise (fun a b ha hb hab hba => ?_)
    (List.pairwise_mergeSort htrans htotal _) (List.pairwise_mergeSort htrans htotal _)
    (((List.mergeSort_perm _ _).trans hperm).trans (List.mergeSort_perm _ _).symm)
  have ha' : a ∈ tools := hperm.subset (List.mem_mergeSort.mp ha)
  have hb' : b ∈ tools := List.mem_mergeSort.mp hb
  exact List.inj_on_of_nodup_map hnodup ha' hb'
    (String.le_antisymm (of_decide_eq_true hab) (of_decide_eq_true hba))

/-- The marks on a request: without them it is the request without caching, but for the form of the
system text; there are four at most, and none in the last message; with conversations cached, the
newest message before the last that has content is marked. The order of the tools does not matter
when their names are distinct. -/
theorem cache_markers :
    (unmark (buildBody print model history tools system cache) =
      if cache.enabled then
        inBlocks (buildBody print model history tools system { cache with enabled := false })
      else buildBody print model history tools system { cache with enabled := false }) ∧
    marks (buildBody print model history tools system cache) ≤ 4 ∧
    (∀ msg, (bodyMessages (buildBody print model history tools system cache)).getLast? = some msg →
      messageMarks msg = 0) ∧
    (∀ (before after : List Message) (m last : Message),
      history = before ++ m :: (after ++ [last]) → (∀ a ∈ after, contentOf a = []) →
      contentOf m ≠ [] → cache.enabled = true ∧ cache.cacheConversation = true →
      ∃ marked b, (bodyMessages (buildBody print model history tools system cache))[before.length]?
          = some marked ∧ unmarkMessage marked = msgToJson print m ∧
        (contentBlocks marked).getLast? = some b ∧ isMarked b = true) ∧
    ∀ tools' : List ToolSpec, tools'.Perm tools → (tools.map ToolSpec.name).Nodup →
      buildBody print model history tools' system cache
        = buildBody print model history tools system cache := by
  refine ⟨unmark_buildBody print model history tools system cache,
    marks_buildBody_le print model history tools system cache, fun msg hmsg => ?_,
    fun before after m last hhistory hafter hne hcache => ?_, fun tools' hperm hnodup => ?_⟩
  · rw [bodyMessages_buildBody, getLast?_messagesJson, Option.map_eq_some_iff] at hmsg
    obtain ⟨m, -, rfl⟩ := hmsg
    exact messageMarks_eq_zero (isMessage_msgToJson print m)
  · subst hhistory
    rw [bodyMessages_buildBody]
    exact messagesJson_newest print cache hcache hafter hne
  · have hempty : tools'.isEmpty = tools.isEmpty := by
      rw [Bool.eq_iff_iff, List.isEmpty_iff, List.isEmpty_iff]
      exact ⟨fun h => (h ▸ hperm).nil_eq.symm, fun h => (h ▸ hperm).eq_nil⟩
    simp only [buildBody, sortedTools_perm hperm hnodup, hempty]

end

/-- Two messages with content, the second of them the last. -/
theorem cache_markers_two :
    ∃ marked b, (bodyMessages (buildBody (fun _ => "") "model"
        [.user [.text "first"], .assistant [.text "last"]] [] none ⟨true, true, .oneHour⟩))[0]?
        = some marked ∧ unmarkMessage marked = msgToJson (fun _ => "") (.user [.text "first"]) ∧
      (contentBlocks marked).getLast? = some b ∧ isMarked b = true :=
  (cache_markers (fun _ => "") "model" [.user [.text "first"], .assistant [.text "last"]] [] none
    ⟨true, true, .oneHour⟩).2.2.2.1 [] [] (.user [.text "first"]) (.assistant [.text "last"]) rfl
    (by simp) (by simp [contentOf]) ⟨rfl, rfl⟩

/-- Without the conversation cached only the system text is marked. -/
theorem not_newest_marked :
    ¬ ∀ (print : Json → String) (model : String) (tools : List ToolSpec) (system : Option String)
      (cache : CacheConfig) (before after : List Message) (m last : Message),
      (∀ a ∈ after, contentOf a = []) → contentOf m ≠ [] →
      ∃ marked b, (bodyMessages (buildBody print model (before ++ m :: (after ++ [last])) tools
          system cache))[before.length]? = some marked ∧
        (contentBlocks marked).getLast? = some b ∧ isMarked b = true := by
  intro h
  obtain ⟨marked, b, hget, hlast, hb⟩ := h (fun _ => "") "model" [] none ⟨true, false, .oneHour⟩
    [] [] (.user [.text "first"]) (.assistant [.text "last"]) (by simp) (by simp [contentOf])
  obtain rfl : msgToJson (fun _ => "") (.user [.text "first"]) = marked := Option.some.inj hget
  obtain rfl : blockToJson (fun _ => "") (.text "first") = b := Option.some.inj hlast
  have hnot : isMarked (blockToJson (fun _ => "") (.text "first")) = false :=
    isMarked_eq_false (isBlock_blockToJson _ _)
  rw [hnot] at hb
  cases hb

end AnthropicRequest

end ApexOS.Agentd
