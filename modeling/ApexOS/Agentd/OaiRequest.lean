import ApexOS.Agentd.AnthropicRequest
import ApexOS.Fabrica.Worker

/-!
# The request to an OpenAI backend

`build_body` of `agentd/crates/agent/src/oai.rs`. A history is kept in the form Anthropic takes: the
results of a turn's calls are blocks of the user message after it. Here each result becomes a
message of its own, and images, which these messages cannot hold, follow in a user message.

How a JSON value is printed is a parameter.

## Main definitions

* `toMessages`, `buildBody`: the request
* `Answered`, `Carries`, `Preserved`: what a translation owes to the history
* `Sound`: the histories it does it for

## Main results

* `answered_messages`: when each call is answered once
* `preserved_iff`: when the request has all that the history has
-/

namespace ApexOS.Agentd.OaiRequest

section

variable (print : Json → String)

/-- `format!("data:{mt};base64,{data}")`. -/
def dataUrl (mediaType data : String) : String := "data:" ++ mediaType ++ ";base64," ++ data

/-- A part of a user message with an image. -/
def imagePart (url : String) : Json :=
  .object [("type", .string "image_url"), ("image_url", .object [("url", .string url)])]

/-- A part of a user message with text. -/
def textPart (text : String) : Json := .object [("type", .string "text"), ("text", .string text)]

/-- The type of an item of a result. -/
def itemType (item : Json) : Option String := (item.get? "type").bind Json.asStr

/-- The text of an item of a result. -/
def itemText (item : Json) : Option String :=
  if itemType item = some "text" then (item.get? "text").bind Json.asStr else none

/-- The image of an item of a result, where it has one with a media type and data. -/
def itemUrl (item : Json) : Option String := do
  let source ← item.get? "source"
  let mediaType ← (source.get? "media_type").bind Json.asStr
  let data ← (source.get? "data").bind Json.asStr
  return dataUrl mediaType data

/-- The items of a result that are images. -/
def imageItems (c : Json) : List Json :=
  if containsImageBlock c then (c.asArray.getD []).filter fun e => itemType e = some "image" else []

/-- `caption`. -/
def caption (c : Json) : String := String.join ((c.asArray.getD []).filterMap itemText)

/-- The text of a result. -/
def resultText (c : Json) : String :=
  if containsImageBlock c then
    if caption c = "" then "[image returned in the following message]" else caption c
  else match c with
    | .string s => s
    | other => print other

/-- A text that says that it is of an error. -/
def flagged (isError : Bool) (text : String) : String :=
  if isError then "[ERROR] " ++ text else text

/-- What is sent of a result. -/
def resultBody (c : Json) (isError : Bool) : String :=
  if containsImageBlock c then resultText print c else flagged isError (resultText print c)

def toolMessage : ContentBlock → Option Json
  | .toolResult toolUseId c isError =>
    some (.object [("role", .string "tool"), ("tool_call_id", .string toolUseId),
      ("content", .string (resultBody print c isError))])
  | _ => none

/-- `text_parts`. -/
def textOf : ContentBlock → Option String
  | .text text => some text
  | _ => none

/-- `user_image_parts`. -/
def userImage : ContentBlock → Option String
  | .image mediaType data => some (dataUrl mediaType data)
  | _ => none

/-- `vision_parts`. -/
def visionImages : ContentBlock → List String
  | .toolResult _ c _ => (imageItems c).filterMap itemUrl
  | _ => []

/-- The text before the images of results. -/
def visionLead : String := "Image(s) returned by the preceding tool call:"

def roleMessage (role : String) (content : Json) : Json :=
  .object [("role", .string role), ("content", content)]

/-- The text and the images of a user. -/
def spokenMessages (texts images : List String) : List Json :=
  if texts = [] ∧ images = [] then []
  else if images = [] then [roleMessage "user" (.string ("\n".intercalate texts))]
  else [roleMessage "user" (.array ((if texts = [] then [] else [textPart ("\n".intercalate texts)])
    ++ images.map imagePart))]

/-- The images of results. -/
def visionMessages (images : List String) : List Json :=
  if images = [] then []
  else [roleMessage "user" (.array (textPart visionLead :: images.map imagePart))]

/-- A call. -/
def toolCall : ContentBlock → Option Json
  | .toolUse id name input =>
    some (.object [("id", .string id), ("type", .string "function"),
      ("function", .object [("name", .string name), ("arguments", .string (print input))])])
  | _ => none

/-- What is said in an answer. -/
def assistantText (content : List ContentBlock) : String := String.join (content.filterMap textOf)

def assistantMessage (content : List ContentBlock) : Json :=
  .object ([("role", .string "assistant"),
      ("content", if assistantText content = "" then .null else .string (assistantText content))] ++
    if content.filterMap (toolCall print) = [] then []
    else [("tool_calls", .array (content.filterMap (toolCall print)))])

/-- The messages for a message of the history. -/
def toMessages : Message → List Json
  | .user content =>
    content.filterMap (toolMessage print) ++
      spokenMessages (content.filterMap textOf) (content.filterMap userImage) ++
      visionMessages (content.flatMap visionImages)
  | .assistant content => [assistantMessage print content]

def messages (history : List Message) (system : Option String) : List Json :=
  (system.toList.map fun sys => roleMessage "system" (.string sys)) ++
    history.flatMap (toMessages print)

/-- `str::to_ascii_lowercase`. -/
def toAsciiLowercase (s : String) : String := String.ofList (s.toList.map Char.toLower)

/-- `xai_reasoning_effort_for`. -/
def xaiReasoningEffortFor (model : String) (envEffort : Option String) : Option String :=
  let m := toAsciiLowercase (Fabrica.trim model)
  if "grok-4.5".toList.isPrefixOf m.toList then
    let effort := toAsciiLowercase (Fabrica.trim (envEffort.getD "low"))
    if effort ∈ ["low", "medium", "high"] then some effort else none
  else none

def toolToJson (spec : AnthropicRequest.ToolSpec) : Json :=
  .object [("type", .string "function"), ("function", .object [("name", .string spec.name),
    ("description", .string spec.description), ("parameters", spec.inputSchema)])]

/-- `build_body`. The value of `AGENTD_XAI_REASONING_EFFORT` is `envEffort`. -/
def buildBody (model : String) (history : List Message) (tools : List AnthropicRequest.ToolSpec)
    (system envEffort : Option String) : Json :=
  .object ([("model", .string model), ("messages", .array (messages print history system)),
      ("stream", .bool true), ("max_tokens", .number (.posInt 16000))] ++
    (if tools.isEmpty then []
     else [("tools", .array (tools.map toolToJson)), ("tool_choice", .string "auto")]) ++
    (xaiReasoningEffortFor model envEffort).toList.map fun effort =>
      ("reasoning_effort", .string effort))

end

/-! ### What is owed to the history -/

def role (msg : Json) : Option String := (msg.get? "role").bind Json.asStr

/-- The ids of the calls of a message. -/
def callIds (msg : Json) : List String :=
  (((msg.get? "tool_calls").bind Json.asArray).getD []).filterMap fun call =>
    (call.get? "id").bind Json.asStr

def isTool (msg : Json) : Bool := role msg = some "tool"

/-- The call that a message answers, and its answer. -/
def toolAnswer (msg : Json) : Option (String × String) := do
  guard (isTool msg)
  let id ← (msg.get? "tool_call_id").bind Json.asStr
  let content ← (msg.get? "content").bind Json.asStr
  return (id, content)

/-- The texts of a message of a user. -/
def userTexts (msg : Json) : List String :=
  if role msg = some "user" then
    match msg.get? "content" with
    | some (.string text) => [text]
    | some (.array parts) => parts.filterMap itemText
    | _ => []
  else []

/-- The image in a part of a message. -/
def partImage (part : Json) : Option String :=
  (part.get? "image_url").bind fun image => (image.get? "url").bind Json.asStr

/-- The images of a message of a user. -/
def userImages (msg : Json) : List String :=
  if role msg = some "user" then
    (((msg.get? "content").bind Json.asArray).getD []).filterMap partImage
  else []

/-- The calls of an answer are answered at once, each once. -/
def Answered : List Json → Prop
  | [] => True
  | msg :: rest =>
    (role msg = some "assistant" → callIds msg ≠ [] →
      (((rest.takeWhile isTool).filterMap toolAnswer).map Prod.fst).Nodup ∧
      ∀ id, id ∈ ((rest.takeWhile isTool).filterMap toolAnswer).map Prod.fst ↔ id ∈ callIds msg) ∧
    Answered rest

/-- The answer of an assistant is not empty. -/
def Speaks (msg : Json) : Prop :=
  role msg = some "assistant" →
    (∃ content, msg.get? "content" = some content ∧ content ≠ .null) ∨ callIds msg ≠ []

/-- The messages for a user's message have its results with their flags, its texts in order, and
its images and those of its results. -/
structure Carries (print : Json → String) (content : List ContentBlock) (part : List Json) :
    Prop where
  results : part.filterMap toolAnswer = content.filterMap fun
    | .toolResult id c isError => some (id, flagged isError (resultText print c))
    | _ => none
  texts : content.filterMap textOf ≠ [] →
    "\n".intercalate (content.filterMap textOf) ∈ part.flatMap userTexts
  images : (part.flatMap userImages).map some = (content.filterMap userImage).map some ++
    content.flatMap fun
      | .toolResult _ c _ => (imageItems c).map itemUrl
      | _ => []

/-- A request has all that the history has, in its order. -/
structure Preserved (print : Json → String) (history : List Message) (msgs : List Json) : Prop where
  speaks : ∀ msg ∈ msgs, Speaks msg
  answered : Answered msgs
  carries : ∃ opening, (∀ msg ∈ opening, role msg = some "system") ∧
    msgs = opening ++ history.flatMap (toMessages print) ∧
    ∀ content, .user content ∈ history → Carries print content (toMessages print (.user content))

/-- What a history needs for that. -/
structure Sound (history : List Message) : Prop where
  speaks : ∀ content, .assistant content ∈ history →
    assistantText content ≠ "" ∨ toolUseIds (.assistant content) ≠ []
  once : ∀ m ∈ history, (resultIds m).Nodup
  flags : ∀ content, .user content ∈ history → ∀ id c isError,
    .toolResult id c isError ∈ content → containsImageBlock c = true → isError = false
  images : ∀ content, .user content ∈ history → ∀ id c isError,
    .toolResult id c isError ∈ content → ∀ item ∈ imageItems c, itemUrl item ≠ none

/-! ### The parts of a translation -/

section

variable {print : Json → String} {content : List ContentBlock}

theorem isTool_of_mem {msg : Json} (h : msg ∈ content.filterMap (toolMessage print)) :
    isTool msg = true := by
  obtain ⟨b, -, hb⟩ := List.mem_filterMap.mp h
  cases b <;> cases hb
  rfl

theorem toolAnswer_toolMessage (print : Json → String) (b : ContentBlock) :
    (toolMessage print b).bind toolAnswer = match b with
      | .toolResult id c isError => some (id, resultBody print c isError)
      | _ => none := by
  cases b <;> rfl

theorem map_fst_toolAnswer (content : List ContentBlock) :
    ((content.filterMap (toolMessage print)).filterMap toolAnswer).map Prod.fst
      = resultIds (.user content) := by
  rw [resultIds, List.filterMap_filterMap, List.map_filterMap]
  refine congrArg (List.filterMap · content) (funext fun b => ?_)
  cases b <;> rfl

/-- What follows the answers of a user's message is the user's. -/
theorem role_spokenMessages {texts images : List String} {msg : Json}
    (h : msg ∈ spokenMessages texts images) : role msg = some "user" := by
  rw [spokenMessages] at h
  split at h
  · cases h
  · split at h <;> obtain rfl := List.mem_singleton.mp h <;> rfl

theorem role_visionMessages {images : List String} {msg : Json}
    (h : msg ∈ visionMessages images) : role msg = some "user" := by
  rw [visionMessages] at h
  split at h
  · cases h
  · obtain rfl := List.mem_singleton.mp h
    rfl

theorem role_assistantMessage (print : Json → String) (content : List ContentBlock) :
    role (assistantMessage print content) = some "assistant" := rfl

theorem callIds_assistantMessage (print : Json → String) (content : List ContentBlock) :
    callIds (assistantMessage print content) = toolUseIds (.assistant content) := by
  have hids : (content.filterMap (toolCall print)).filterMap
      (fun call => (call.get? "id").bind Json.asStr) = content.filterMap ContentBlock.callId := by
    rw [List.filterMap_filterMap]
    refine congrArg (List.filterMap · content) (funext fun b => ?_)
    cases b <;> rfl
  rw [toolUseIds, ← hids]
  by_cases hnil : content.filterMap (toolCall print) = [] <;>
    simp [callIds, assistantMessage, hnil, Json.get?, Json.lookup_cons_eq, Json.asArray]

theorem content_assistantMessage (print : Json → String) (content : List ContentBlock) :
    (assistantMessage print content).get? "content"
      = some (if assistantText content = "" then .null else .string (assistantText content)) := rfl

theorem speaks_assistantMessage_iff (print : Json → String) (content : List ContentBlock) :
    Speaks (assistantMessage print content) ↔
      assistantText content ≠ "" ∨ toolUseIds (.assistant content) ≠ [] := by
  rw [Speaks, callIds_assistantMessage, content_assistantMessage, role_assistantMessage]
  by_cases h : assistantText content = "" <;> simp [h]

/-! ### Every call is answered once -/

theorem answered_append {l l' : List Json} (h : ∀ msg ∈ l, role msg ≠ some "assistant") :
    Answered (l ++ l') ↔ Answered l' := by
  induction l with
  | nil => rfl
  | cons msg l ih =>
    rw [List.cons_append, Answered, ih fun m hm => h m (List.mem_cons_of_mem _ hm)]
    exact and_iff_right fun hrole => absurd hrole (h msg List.mem_cons_self)

theorem filterMap_toolMessage_eq_nil (h : resultIds (.user content) = []) :
    content.filterMap (toolMessage print) = [] := by
  rw [resultIds, List.filterMap_eq_nil_iff] at h
  refine List.filterMap_eq_nil_iff.mpr fun b hb => ?_
  cases b with
  | toolResult id c isError => cases h _ hb
  | _ => rfl

theorem takeWhile_isTool_append {l l' : List Json} (h : ∀ msg ∈ l, role msg = some "user")
    (h' : l'.takeWhile isTool = []) : (l ++ l').takeWhile isTool = [] := by
  cases l with
  | nil => exact h'
  | cons msg l =>
    have hmsg : ¬ isTool msg = true := by simp [isTool, h msg List.mem_cons_self]
    rw [List.cons_append, List.takeWhile_cons_of_neg hmsg]

/-- What a user says, apart from the answers. -/
theorem role_spoken_vision {texts images visions : List String} {msg : Json}
    (h : msg ∈ spokenMessages texts images ++ visionMessages visions) : role msg = some "user" :=
  (List.mem_append.mp h).elim role_spokenMessages role_visionMessages

theorem role_toMessages_user {msg : Json} (h : msg ∈ toMessages print (.user content)) :
    role msg ≠ some "assistant" := by
  rw [toMessages, List.append_assoc] at h
  obtain h | h := List.mem_append.mp h
  · have htool : role msg = some "tool" := of_decide_eq_true (isTool_of_mem h)
    simp [htool]
  · simp [role_spoken_vision h]

/-- Where no results are due, no answer comes first. -/
theorem takeWhile_isTool {history : List Message} (h : Paired [] history) :
    (history.flatMap (toMessages print)).takeWhile isTool = [] := by
  induction history with
  | nil => rfl
  | cons m rest ih =>
    cases m with
    | assistant content => rfl
    | user content =>
      have hids : resultIds (.user content) = [] :=
        List.eq_nil_iff_forall_not_mem.mpr fun id hid => by simpa using (h.1 id).mp hid
      rw [List.flatMap_cons, toMessages, filterMap_toolMessage_eq_nil hids, List.nil_append]
      exact takeWhile_isTool_append (fun msg => role_spoken_vision) (ih h.2)

/-- The answers to what is due come first, and each later call is answered where it is made. -/
theorem answered_messages {history : List Message} {due : List String} (h : Paired due history) :
    (Answered (history.flatMap (toMessages print)) ∧
      (due ≠ [] →
        ((((history.flatMap (toMessages print)).takeWhile isTool).filterMap toolAnswer).map
          Prod.fst).Nodup ∧
        ∀ id, id ∈ (((history.flatMap (toMessages print)).takeWhile isTool).filterMap
          toolAnswer).map Prod.fst ↔ id ∈ due)) ↔
    ∀ m ∈ history, (resultIds m).Nodup := by
  induction history generalizing due with
  | nil =>
    obtain rfl : due = [] := h
    simp [Answered]
  | cons m rest ih =>
    obtain ⟨hdue, hrest⟩ := h
    have hih := ih hrest
    rw [List.forall_mem_cons, ← hih]
    cases m with
    | assistant content =>
      have hnil : due = [] := List.eq_nil_iff_forall_not_mem.mpr fun id hid => by
        simpa [resultIds] using (hdue id).mpr hid
      have hnodup : (resultIds (.assistant content)).Nodup := List.nodup_nil
      rw [List.flatMap_cons, toMessages, List.singleton_append, Answered,
        callIds_assistantMessage]
      simp only [hnil, hnodup, role_assistantMessage, ne_eq, not_true_eq_false, false_implies,
        and_true, true_and, forall_const]
      exact and_comm
    | user content =>
      have htools : ∀ msg ∈ content.filterMap (toolMessage print), isTool msg = true :=
        fun msg => isTool_of_mem
      have hwhile : (toMessages print (.user content) ++
          rest.flatMap (toMessages print)).takeWhile isTool
            = content.filterMap (toolMessage print) := by
        rw [toMessages, List.append_assoc, List.append_assoc,
          List.takeWhile_append_of_pos htools, ← List.append_assoc,
          takeWhile_isTool_append (fun msg => role_spoken_vision) (takeWhile_isTool hrest),
          List.append_nil]
      rw [List.flatMap_cons, answered_append fun msg => role_toMessages_user, hwhile,
        map_fst_toolAnswer]
      constructor
      · rintro ⟨hanswered, hfirst⟩
        refine ⟨?_, hanswered, fun hne => absurd rfl hne⟩
        by_cases hnil : due = []
        · have hids : resultIds (.user content) = [] :=
            List.eq_nil_iff_forall_not_mem.mpr fun id hid => by
              simpa [hnil] using (hdue id).mp hid
          rw [hids]
          exact List.nodup_nil
        · exact (hfirst hnil).1
      · rintro ⟨hnodup, hanswered, -⟩
        exact ⟨hanswered, fun _ => ⟨hnodup, hdue⟩⟩

/-! ### What is carried -/

/-- The result of an image says nothing of an error. -/
theorem resultBody_eq_iff (print : Json → String) (c : Json) (isError : Bool) :
    resultBody print c isError = flagged isError (resultText print c) ↔
      (containsImageBlock c = true → isError = false) := by
  rw [resultBody]
  split
  · rename_i himage
    rw [himage]
    cases isError with
    | false => simp [flagged]
    | true =>
      have hne : resultText print c ≠ "[ERROR] " ++ resultText print c := fun h => by
        have hlength := congrArg String.length h
        rw [String.length_append] at hlength
        have herror : "[ERROR] ".length = 8 := by decide
        omega
      simpa [flagged] using hne
  · rename_i himage
    simp [himage]

theorem filterMap_toolAnswer_user {l : List Json} (h : ∀ msg ∈ l, role msg = some "user") :
    l.filterMap toolAnswer = [] := by
  refine List.filterMap_eq_nil_iff.mpr fun msg hmsg => ?_
  have hnot : ¬ isTool msg = true := by simp [isTool, h msg hmsg]
  rw [toolAnswer, guard, if_neg hnot]
  rfl

theorem results_iff :
    ((toMessages print (.user content)).filterMap toolAnswer = content.filterMap fun
      | .toolResult id c isError => some (id, flagged isError (resultText print c))
      | _ => none) ↔
    ∀ id c isError, .toolResult id c isError ∈ content → containsImageBlock c = true →
      isError = false := by
  rw [toMessages, List.append_assoc, List.filterMap_append,
    filterMap_toolAnswer_user fun msg => role_spoken_vision, List.append_nil,
    List.filterMap_filterMap]
  simp only [toolAnswer_toolMessage]
  induction content with
  | nil => simp
  | cons b content ih =>
    cases b with
    | toolResult id c isError =>
      simp only [List.filterMap_cons, List.cons.injEq, Prod.mk.injEq, true_and, ih,
        resultBody_eq_iff, List.mem_cons, ContentBlock.toolResult.injEq]
      constructor
      · rintro ⟨hfirst, hrest⟩ id' c' isError' (⟨rfl, rfl, rfl⟩ | hmem)
        · exact hfirst
        · exact hrest id' c' isError' hmem
      · intro h
        exact ⟨h id c isError (.inl ⟨rfl, rfl, rfl⟩),
          fun id' c' isError' hmem => h id' c' isError' (.inr hmem)⟩
    | _ => simpa [List.filterMap_cons] using ih

theorem userTexts_spoken {texts images : List String} (h : texts ≠ []) :
    "\n".intercalate texts ∈ (spokenMessages texts images).flatMap userTexts := by
  rw [spokenMessages, if_neg fun hboth => h hboth.1]
  split
  · simp [userTexts, role, roleMessage, Json.get?, Json.lookup_cons_eq, Json.asStr]
  · simp [userTexts, role, roleMessage, textPart, itemText, itemType, Json.get?,
      Json.lookup_cons_eq, Json.asStr]

theorem texts_carried (h : content.filterMap textOf ≠ []) :
    "\n".intercalate (content.filterMap textOf)
      ∈ (toMessages print (.user content)).flatMap userTexts := by
  rw [toMessages, List.append_assoc, List.flatMap_append, List.flatMap_append]
  exact List.mem_append_right _ (List.mem_append_left _ (userTexts_spoken h))

theorem filterMap_partImage (images : List String) :
    (images.map imagePart).filterMap partImage = images := by
  rw [List.filterMap_map]
  exact (congrArg (List.filterMap · images) (funext fun _ => rfl)).trans List.filterMap_some

theorem userImages_spoken (texts images : List String) :
    (spokenMessages texts images).flatMap userImages = images := by
  rw [spokenMessages]
  split
  · rename_i hboth
    exact hboth.2.symm
  · split
    · rename_i hnil
      rw [hnil]
      rfl
    · rw [List.flatMap_singleton]
      change ((if texts = [] then [] else [textPart ("\n".intercalate texts)])
        ++ images.map imagePart).filterMap partImage = images
      rw [List.filterMap_append, filterMap_partImage]
      split <;> rfl

theorem userImages_vision (images : List String) :
    (visionMessages images).flatMap userImages = images := by
  rw [visionMessages]
  split
  · rename_i hnil
    exact hnil.symm
  · rw [List.flatMap_singleton]
    exact filterMap_partImage images

theorem userImages_toMessages :
    (toMessages print (.user content)).flatMap userImages
      = content.filterMap userImage ++ content.flatMap visionImages := by
  have htools : (content.filterMap (toolMessage print)).flatMap userImages = [] := by
    refine List.flatMap_eq_nil_iff.mpr fun msg hmsg => ?_
    have htool : role msg = some "tool" := of_decide_eq_true (isTool_of_mem hmsg)
    rw [userImages, if_neg (by simp [htool])]
  rw [toMessages, List.flatMap_append, List.flatMap_append, htools, List.nil_append,
    userImages_spoken, userImages_vision]

theorem map_some_filterMap_iff {α β : Type*} {f : α → Option β} {l : List α} :
    (l.filterMap f).map some = l.map f ↔ ∀ a ∈ l, f a ≠ none := by
  induction l with
  | nil => simp
  | cons a l ih =>
    cases ha : f a with
    | none =>
      have hnot : (l.filterMap f).map some ≠ none :: l.map f := fun h => by
        have hmem : (none : Option β) ∈ (l.filterMap f).map some := h ▸ List.mem_cons_self
        simp at hmem
      simpa [ha] using hnot
    | some b => simp [ha, ih]

/-- The items of a block that are images. -/
def blockItems : ContentBlock → List Json
  | .toolResult _ c _ => imageItems c
  | _ => []

theorem images_iff :
    (((toMessages print (.user content)).flatMap userImages).map some =
      (content.filterMap userImage).map some ++ content.flatMap fun
        | .toolResult _ c _ => (imageItems c).map itemUrl
        | _ => []) ↔
    ∀ id c isError, .toolResult id c isError ∈ content → ∀ item ∈ imageItems c,
      itemUrl item ≠ none := by
  have hvision : content.flatMap visionImages
      = (content.flatMap blockItems).filterMap itemUrl := by
    rw [List.filterMap_flatMap]
    exact congrArg (List.flatMap · content) (funext fun b => by cases b <;> rfl)
  have hitems : (content.flatMap fun
      | .toolResult _ c _ => (imageItems c).map itemUrl
      | _ => []) = (content.flatMap blockItems).map itemUrl := by
    rw [List.map_flatMap]
    exact congrArg (List.flatMap · content) (funext fun b => by cases b <;> rfl)
  rw [userImages_toMessages, List.map_append, hvision, hitems, List.append_cancel_left_eq,
    map_some_filterMap_iff]
  constructor
  · intro h id c isError hmem item hitem
    exact h item (List.mem_flatMap.mpr ⟨_, hmem, hitem⟩)
  · intro h item hitem
    obtain ⟨b, hb, hitem⟩ := List.mem_flatMap.mp hitem
    cases b with
    | toolResult id c isError => exact h id c isError hb item hitem
    | _ => cases hitem

theorem carries_iff :
    Carries print content (toMessages print (.user content)) ↔
      (∀ id c isError, .toolResult id c isError ∈ content → containsImageBlock c = true →
        isError = false) ∧
      ∀ id c isError, .toolResult id c isError ∈ content → ∀ item ∈ imageItems c,
        itemUrl item ≠ none :=
  ⟨fun h => ⟨results_iff.mp h.results, images_iff.mp h.images⟩,
    fun h => ⟨results_iff.mpr h.1, texts_carried, images_iff.mpr h.2⟩⟩

/-! ### The request -/

theorem speaks_iff (history : List Message) (system : Option String) :
    (∀ msg ∈ messages print history system, Speaks msg) ↔
      ∀ content, .assistant content ∈ history →
        assistantText content ≠ "" ∨ toolUseIds (.assistant content) ≠ [] := by
  constructor
  · intro h content hmem
    refine (speaks_assistantMessage_iff print content).mp (h _ ?_)
    exact List.mem_append_right _ (List.mem_flatMap.mpr ⟨_, hmem, List.mem_singleton.mpr rfl⟩)
  · intro h msg hmsg
    obtain hmsg | hmsg := List.mem_append.mp hmsg
    · obtain ⟨sys, -, rfl⟩ := List.mem_map.mp hmsg
      have hrole : role (roleMessage "system" (.string sys)) = some "system" := rfl
      simp [Speaks, hrole]
    · obtain ⟨m, hm, hmsg⟩ := List.mem_flatMap.mp hmsg
      cases m with
      | user content => exact fun hrole => absurd hrole (role_toMessages_user hmsg)
      | assistant content =>
        obtain rfl := List.mem_singleton.mp hmsg
        exact (speaks_assistantMessage_iff print content).mpr (h content hm)

/-- The request has all that the history has, each call answered once and no answer empty, exactly
for the sound ones among the histories that are accepted. -/
theorem preserved_iff (print : Json → String) (model : String) (history : List Message)
    (tools : List AnthropicRequest.ToolSpec) (system envEffort : Option String)
    (h : ApiValid history) :
    Preserved print history
        (bodyMessages (buildBody print model history tools system envEffort)) ↔
      Sound history := by
  have hmessages : bodyMessages (buildBody print model history tools system envEffort)
      = messages print history system := rfl
  have hsystem : ∀ msg ∈ system.toList.map fun sys => roleMessage "system" (.string sys),
      role msg = some "system" := fun msg hmsg => by
    obtain ⟨sys, -, rfl⟩ := List.mem_map.mp hmsg
    rfl
  have hanswered : Answered (messages print history system) ↔
      ∀ m ∈ history, (resultIds m).Nodup := by
    rw [messages, answered_append fun msg hmsg => by simp [hsystem msg hmsg],
      ← answered_messages h.paired]
    exact (and_iff_left fun hne => absurd rfl hne).symm
  rw [hmessages]
  constructor
  · intro hp
    obtain ⟨-, -, -, hcarries⟩ := hp.carries
    exact ⟨(speaks_iff history system).mp hp.speaks, hanswered.mp hp.answered,
      fun content hmem => (carries_iff.mp (hcarries content hmem)).1,
      fun content hmem => (carries_iff.mp (hcarries content hmem)).2⟩
  · intro hs
    exact ⟨(speaks_iff history system).mpr hs.speaks, hanswered.mpr hs.once, _, hsystem, rfl,
      fun content hmem => carries_iff.mpr ⟨hs.flags content hmem, hs.images content hmem⟩⟩

end

/-- A call and its result. -/
def callHistory (c : Json) (isError : Bool) : List Message :=
  [.user [.text "look"], .assistant [.toolUse "t1" "screen" (.object [])],
    .user [.toolResult "t1" c isError]]

theorem apiValid_callHistory (c : Json) (isError : Bool) : ApiValid (callHistory c isError) where
  nonempty := by simp [callHistory, contentOf]
  paired := by
    simp [callHistory, Paired, resultIds, toolUseIds, ContentBlock.resultId, ContentBlock.callId]
  results_first := by
    intro content hmem
    have hcases : content = [.text "look"] ∨ content = [.toolResult "t1" c isError] := by
      simpa [callHistory] using hmem
    obtain rfl | rfl := hcases <;> rfl
  opening := by simp [callHistory]

theorem preserved_callHistory :
    Preserved (fun _ => "") (callHistory (.string "ok") true) (bodyMessages
      (buildBody (fun _ => "") "model" (callHistory (.string "ok") true) [] none none)) := by
  refine (preserved_iff (fun _ => "") "model" (callHistory (.string "ok") true) [] none none
    (apiValid_callHistory (.string "ok") true)).mpr ⟨?_, ?_, ?_, ?_⟩
  · simp [callHistory, toolUseIds, ContentBlock.callId]
  · simp [callHistory, resultIds, List.filterMap_cons, ContentBlock.resultId]
  · simp [callHistory, containsImageBlock, Json.asArray]
  · simp [callHistory, imageItems, containsImageBlock, Json.asArray]

/-- An image, as a result. -/
def screenshot : Json :=
  .array [.object [("type", .string "image"), ("source",
    .object [("media_type", .string "image/png"), ("data", .string "QUJD")])]]

/-- Of a call that fails with an image it is not said that it failed. -/
theorem not_preserved :
    ¬ ∀ (print : Json → String) (model : String) (history : List Message)
      (tools : List AnthropicRequest.ToolSpec) (system envEffort : Option String),
      ApiValid history →
      Preserved print history
        (bodyMessages (buildBody print model history tools system envEffort)) := by
  intro h
  obtain ⟨-, -, -, hcarries⟩ := (h (fun _ => "") "model" (callHistory screenshot true) [] none none
    (apiValid_callHistory screenshot true)).carries
  have hfailed := (carries_iff.mp (hcarries [.toolResult "t1" screenshot true]
    (by simp [callHistory]))).1 "t1" screenshot true List.mem_cons_self (by decide)
  cases hfailed

end ApexOS.Agentd.OaiRequest
