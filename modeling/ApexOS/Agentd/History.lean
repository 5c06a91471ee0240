import ApexOS.Agentd.Conversation
import Mathlib.Data.List.Flatten
import Mathlib.Data.List.Infix
import Mathlib.Data.List.Nodup
import Mathlib.Data.List.Perm.Subperm

/-!
# Repairing a history

`agentd/crates/core/src/history.rs`, the part for loading: `repair_history` and what it uses. A
session's file may come back with a call torn from its result, with messages that say nothing, with
its head missing. The repair works through a queue: a message without calls loses the results it
holds, a message with calls is followed by the first message that answers any of them, taken from
wherever in the queue it is, and by markers for the calls which that message leaves open.

The blocks of a history are read as the code reads them: calls are the `tool_use` blocks of the
assistant, results the `tool_result` blocks of the user.

## Main definitions

* `normalizePairAnswer`, `settle`, `repairHistory`: the repair
* `Paired`, `ApiValid`: what the providers accept
* `KeepsResults`: nothing real is lost
* `InPlace`: the results of each round are in one message, after their calls, and alone there

## Main results

* `repairHistory_apiValid`: what is repaired is accepted
* `repairHistory_idempotent`: and needs no repair; the repair says whether it changed anything
* `keepsResults_iff_inPlace`: results are lost exactly when they are not in place
-/

namespace ApexOS.Agentd

/-! ### Blocks -/

/-- `content_of`. -/
def contentOf : Message → List ContentBlock
  | .user content => content
  | .assistant content => content

namespace ContentBlock

def isToolResult : ContentBlock → Bool
  | .toolResult .. => true
  | _ => false

/-- The call a block makes. -/
def callId : ContentBlock → Option String
  | .toolUse id _ _ => some id
  | _ => none

/-- The call a block is the result of. -/
def resultId : ContentBlock → Option String
  | .toolResult id _ _ => some id
  | _ => none

end ContentBlock

/-- `tool_use_ids`. -/
def toolUseIds : Message → List String
  | .assistant content => content.filterMap ContentBlock.callId
  | .user _ => []

/-- The results that a message of the user delivers. -/
def toolResults : Message → List ContentBlock
  | .user content => content.filter ContentBlock.isToolResult
  | .assistant _ => []

/-- And their calls. -/
def resultIds : Message → List String
  | .user content => content.filterMap ContentBlock.resultId
  | .assistant _ => []

/-- `answers_any`. -/
def answersAny (m : Message) (ids : List String) : Bool :=
  match m with
  | .user content => content.any fun b => b.resultId.any ids.contains
  | .assistant _ => false

/-- `LOST_RESULT_MARKER`. -/
def lostResultMarker : String :=
  "⊘ result lost — the session file was recovered after an interrupted write; " ++
    "the call ran but its result was not persisted. Verify its effects rather " ++
    "than assuming failure."

/-- `lost_result_block`. -/
def lostResultBlock (id : String) : ContentBlock := .toolResult id (.string lostResultMarker) true

/-- Results stand before everything else. -/
def resultsFirst (content : List ContentBlock) : Bool :=
  (content.dropWhile ContentBlock.isToolResult).all fun b => !b.isToolResult

/-! ### The repair -/

/-- What a repair makes of some messages. -/
structure Repair where
  history : List Message
  changed : Bool
  /-- the calls that got a marker; the source keeps no such list -/
  lost : List String

/-- The calls of a round for which its answer has no result. -/
def openCalls (content : List ContentBlock) (useIds : List String) : List String :=
  useIds.filter fun id => !(resultIds (.user content)).contains id

/-- `normalize_pair_answer`. -/
def normalizePairAnswer (msg : Message) (useIds : List String) : Message × Bool :=
  match msg with
  | .assistant content => (.assistant content, false)
  | .user content =>
    let ids := resultIds (.user content)
    if resultsFirst content && ids.all useIds.contains && useIds.all ids.contains then
      (.user content, false)
    else
      let results := content.filter fun b => b.resultId.any useIds.contains
      let rest := content.filter fun b => !b.isToolResult
      (.user (results ++ (openCalls content useIds).map lostResultBlock ++ rest), true)

/-- The loop of `repair_history`, from a queue on. -/
def settle : List Message → Repair
  | [] => ⟨[], false, []⟩
  | msg :: queue =>
    let useIds := toolUseIds msg
    if useIds = [] then
      let r := settle queue
      match msg with
      | .user content =>
        if content.any ContentBlock.isToolResult then
          let kept := content.filter fun b => !b.isToolResult
          ⟨if kept.isEmpty then r.history else .user kept :: r.history, true, r.lost⟩
        else ⟨msg :: r.history, r.changed, r.lost⟩
      | .assistant _ => ⟨msg :: r.history, r.changed, r.lost⟩
    else
      match h : queue.findIdx? fun m => answersAny m useIds with
      | some k =>
        have hk := (List.findIdx?_eq_some_iff_findIdx_eq.mp h).1
        let answer := queue[k]
        let (answer', changed) := normalizePairAnswer answer useIds
        let r := settle (queue.take k ++ queue.drop (k + 1))
        ⟨msg :: answer' :: r.history, (0 < k) || changed || r.changed,
          openCalls (contentOf answer) useIds ++ r.lost⟩
      | none =>
        let r := settle queue
        ⟨msg :: .user (useIds.map lostResultBlock) :: r.history, true, useIds ++ r.lost⟩
  termination_by queue => queue.length
  decreasing_by all_goals simp_wf; try omega

/-- What opens a history whose head is gone. -/
def openingLost : Message :=
  .user [.text ("⊘ (session opening lost — the file head was truncated; " ++
    "earlier context is on disk replay only)")]

/-- The messages that say anything. -/
def withoutEmpty (history : List Message) : List Message :=
  history.filter fun m => !(contentOf m).isEmpty

/-- `repair_history`. -/
def repairHistory (history : List Message) : Repair :=
  let queue := withoutEmpty history
  let r := settle queue
  let changed := decide (queue.length ≠ history.length) || r.changed
  match r.history.head? with
  | some (.assistant _) => ⟨openingLost :: r.history, true, r.lost⟩
  | _ => ⟨r.history, changed, r.lost⟩

/-! ### What is accepted -/

/-- Each message has results of exactly the calls of the one before it; none are due at first, and
none at the end. -/
def Paired : List String → List Message → Prop
  | due, [] => due = []
  | due, m :: rest => (∀ id, id ∈ resultIds m ↔ id ∈ due) ∧ Paired (toolUseIds m) rest

/-- A history that the providers accept. -/
structure ApiValid (history : List Message) : Prop where
  nonempty : ∀ m ∈ history, contentOf m ≠ []
  paired : Paired [] history
  results_first : ∀ content, .user content ∈ history → resultsFirst content = true
  opening : ∀ content, history.head? ≠ some (.assistant content)

section Blocks

variable {m : Message} {ids : List String} {content : List ContentBlock} {b : ContentBlock}
  {id : String}

theorem isToolResult_of_resultId (h : b.resultId = some id) : b.isToolResult = true := by
  cases b <;> first | rfl | cases h

theorem resultId_of_isToolResult (h : b.isToolResult = true) : ∃ id, b.resultId = some id := by
  cases b <;> first | exact ⟨_, rfl⟩ | cases h

theorem mem_resultIds : id ∈ resultIds m ↔ ∃ b ∈ toolResults m, b.resultId = some id := by
  cases m with
  | assistant content => simp [resultIds, toolResults]
  | user content =>
    simp only [resultIds, toolResults, List.mem_filterMap, List.mem_filter]
    constructor
    · rintro ⟨b, hb, hid⟩
      exact ⟨b, ⟨hb, isToolResult_of_resultId hid⟩, hid⟩
    · rintro ⟨b, ⟨hb, -⟩, hid⟩
      exact ⟨b, hb, hid⟩

theorem resultIds_eq_nil_iff : resultIds m = [] ↔ toolResults m = [] := by
  rw [List.eq_nil_iff_forall_not_mem, List.eq_nil_iff_forall_not_mem]
  constructor
  · intro h b hb
    obtain ⟨id, hid⟩ : ∃ id, b.resultId = some id := by
      cases m with
      | assistant content => cases hb
      | user content => exact resultId_of_isToolResult (List.mem_filter.mp hb).2
    exact h id (mem_resultIds.mpr ⟨b, hb, hid⟩)
  · intro h id hid
    obtain ⟨b, hb, -⟩ := mem_resultIds.mp hid
    exact h b hb

theorem answersAny_iff : answersAny m ids = true ↔ ∃ id ∈ ids, id ∈ resultIds m := by
  cases m with
  | assistant content => simp [answersAny, resultIds]
  | user content =>
    simp only [answersAny, resultIds, List.any_eq_true, List.mem_filterMap, Option.any_eq_true,
      List.contains_iff_mem]
    constructor
    · rintro ⟨b, hb, id, hid, hmem⟩
      exact ⟨id, hmem, b, hb, hid⟩
    · rintro ⟨id, hmem, b, hb, hid⟩
      exact ⟨b, hb, id, hid, hmem⟩

theorem answersAny_eq_false_iff : answersAny m ids = false ↔ ∀ id ∈ ids, id ∉ resultIds m := by
  rw [← Bool.not_eq_true, answersAny_iff]
  simp only [not_exists, not_and]

@[simp] theorem answersAny_nil (m : Message) : answersAny m [] = false :=
  answersAny_eq_false_iff.mpr fun _ h => absurd h List.not_mem_nil

@[simp] theorem answersAny_assistant (content : List ContentBlock) (ids : List String) :
    answersAny (.assistant content) ids = false := rfl

@[simp] theorem toolUseIds_user (content : List ContentBlock) : toolUseIds (.user content) = [] :=
  rfl

@[simp] theorem toolResults_assistant (content : List ContentBlock) :
    toolResults (.assistant content) = [] := rfl

@[simp] theorem resultIds_assistant (content : List ContentBlock) :
    resultIds (.assistant content) = [] := rfl

/-- A message that makes calls is the assistant's. -/
theorem eq_assistant_of_toolUseIds (h : toolUseIds m ≠ []) : ∃ content, m = .assistant content := by
  cases m with
  | user content => exact absurd rfl h
  | assistant content => exact ⟨content, rfl⟩

/-- And one that answers is the user's. -/
theorem eq_user_of_answersAny (h : answersAny m ids = true) : ∃ content, m = .user content := by
  cases m with
  | user content => exact ⟨content, rfl⟩
  | assistant content => cases h

end Blocks

/-! ### What the loop does -/

section Settle

variable {m : Message} {queue pre post : List Message} {content b : List ContentBlock}

theorem settle_plain (hm : toolUseIds m = []) (hr : toolResults m = []) :
    settle (m :: queue)
      = ⟨m :: (settle queue).history, (settle queue).changed, (settle queue).lost⟩ := by
  rw [settle, if_pos hm]
  cases m with
  | assistant content => rfl
  | user content =>
    have hany : ¬ content.any ContentBlock.isToolResult = true := by
      rw [List.any_eq_true]
      rintro ⟨b, hb, hres⟩
      have hmem : b ∈ toolResults (.user content) := List.mem_filter.mpr ⟨hb, hres⟩
      exact List.not_mem_nil (hr ▸ hmem)
    dsimp only
    rw [if_neg hany]

theorem settle_stray (hany : content.any ContentBlock.isToolResult = true) :
    settle (.user content :: queue)
      = ⟨if (content.filter fun b => !b.isToolResult).isEmpty then (settle queue).history
          else .user (content.filter fun b => !b.isToolResult) :: (settle queue).history,
        true, (settle queue).lost⟩ := by
  rw [settle, if_pos (toolUseIds_user content)]
  dsimp only
  rw [if_pos hany]

theorem findIdx?_append_of_forall {α : Type*} {p : α → Bool} {pre post : List α} {a : α}
    (hpre : ∀ x ∈ pre, p x = false) (ha : p a = true) :
    (pre ++ a :: post).findIdx? p = some pre.length := by
  rw [List.findIdx?_append, List.findIdx?_eq_none_iff.mpr hpre, List.findIdx?_cons, ha]
  simp

theorem settle_pair (hm : toolUseIds m ≠ [])
    (hpre : ∀ x ∈ pre, answersAny x (toolUseIds m) = false)
    (hb : answersAny (.user b) (toolUseIds m) = true) :
    settle (m :: (pre ++ .user b :: post))
      = ⟨m :: (normalizePairAnswer (.user b) (toolUseIds m)).1 :: (settle (pre ++ post)).history,
        (0 < pre.length) || (normalizePairAnswer (.user b) (toolUseIds m)).2
          || (settle (pre ++ post)).changed,
        openCalls b (toolUseIds m) ++ (settle (pre ++ post)).lost⟩ := by
  have hfind : (pre ++ .user b :: post).findIdx? (fun x => answersAny x (toolUseIds m))
      = some pre.length := findIdx?_append_of_forall hpre hb
  rw [settle, if_neg hm]
  dsimp only
  split
  · rename_i k hk
    obtain rfl : pre.length = k := Option.some.inj (hfind.symm.trans hk)
    have hget : ∀ h : pre.length < (pre ++ .user b :: post).length,
        (pre ++ .user b :: post)[pre.length] = .user b := by simp
    have hdrop : (pre ++ .user b :: post).drop (pre.length + 1) = post := by
      simp [List.drop_append]
    simp only [hget, List.take_left, hdrop, contentOf]
  · rename_i hnone
    exact absurd (hfind.symm.trans hnone) (Option.some_ne_none _)

theorem settle_lost (hm : toolUseIds m ≠ [])
    (hq : ∀ x ∈ queue, answersAny x (toolUseIds m) = false) :
    settle (m :: queue)
      = ⟨m :: .user ((toolUseIds m).map lostResultBlock) :: (settle queue).history, true,
        toolUseIds m ++ (settle queue).lost⟩ := by
  have hfind : queue.findIdx? (fun x => answersAny x (toolUseIds m)) = none :=
    List.findIdx?_eq_none_iff.mpr hq
  rw [settle, if_neg hm]
  dsimp only
  split
  · rename_i k hk
    exact absurd (hfind.symm.trans hk) (Option.some_ne_none _).symm
  · rfl

/-- Along the loop: a message is let through, loses its results, or makes calls, which are answered
from further down the queue or not at all. -/
theorem settle_induction {P : List Message → Prop} (nil : P [])
    (plain : ∀ m queue, toolUseIds m = [] → toolResults m = [] → P queue → P (m :: queue))
    (stray : ∀ content queue, content.any ContentBlock.isToolResult = true → P queue →
      P (.user content :: queue))
    (pair : ∀ m pre b post, toolUseIds m ≠ [] →
      (∀ x ∈ pre, answersAny x (toolUseIds m) = false) →
      answersAny (.user b) (toolUseIds m) = true → P (pre ++ post) →
      P (m :: (pre ++ .user b :: post)))
    (lost : ∀ m queue, toolUseIds m ≠ [] →
      (∀ x ∈ queue, answersAny x (toolUseIds m) = false) → P queue → P (m :: queue))
    (queue : List Message) : P queue := by
  induction hn : queue.length using Nat.strong_induction_on generalizing queue with
  | _ n ih =>
    subst hn
    cases queue with
    | nil => exact nil
    | cons m queue =>
      have hrest : P queue := ih _ (Nat.lt_succ_self _) queue rfl
      by_cases hm : toolUseIds m = []
      · by_cases hr : toolResults m = []
        · exact plain m queue hm hr hrest
        · cases m with
          | assistant content => exact absurd rfl hr
          | user content =>
            refine stray content queue ?_ hrest
            obtain ⟨b, hb⟩ := List.exists_mem_of_ne_nil _ hr
            exact List.any_eq_true.mpr ⟨b, List.mem_filter.mp hb⟩
      · by_cases hq : ∃ x ∈ queue, answersAny x (toolUseIds m) = true
        · obtain ⟨x, hx, hans⟩ := hq
          obtain ⟨y, hy⟩ := Option.isSome_iff_exists.mp
            (List.find?_isSome (p := fun y => answersAny y (toolUseIds m)) |>.mpr ⟨x, hx, hans⟩)
          obtain ⟨hans, pre, post, rfl, hpre⟩ := List.find?_eq_some_iff_append.mp hy
          obtain ⟨b, rfl⟩ := eq_user_of_answersAny hans
          refine pair m pre b post hm (fun x hx => by simpa using hpre x hx) hans ?_
          have hlen : (pre ++ post).length < (m :: (pre ++ .user b :: post)).length := by
            simp only [List.length_append, List.length_cons]
            omega
          exact ih _ hlen _ rfl
        · refine lost m queue hm (fun x hx => ?_) hrest
          exact Bool.eq_false_iff.mpr fun h => hq ⟨x, hx, h⟩

end Settle

/-! ### The answer of a round -/

section Answer

variable {content : List ContentBlock} {ids : List String}

@[simp] theorem isToolResult_lostResultBlock (id : String) :
    (lostResultBlock id).isToolResult = true := rfl

theorem mem_openCalls {id : String} :
    id ∈ openCalls content ids ↔ id ∈ ids ∧ id ∉ resultIds (.user content) := by
  simp [openCalls]

/-- Results, then none: the results are first. -/
theorem resultsFirst_append {results rest : List ContentBlock}
    (hresults : ∀ b ∈ results, b.isToolResult = true)
    (hrest : ∀ b ∈ rest, b.isToolResult = false) : resultsFirst (results ++ rest) = true := by
  rw [resultsFirst, List.dropWhile_append_of_pos hresults, List.all_eq_true]
  intro b hb
  simp [hrest b ((List.dropWhile_sublist _).subset hb)]

/-- The content of a normalized answer, whichever way it came about. -/
theorem normalizePairAnswer_eq (content : List ContentBlock) (ids : List String) :
    (normalizePairAnswer (.user content) ids = (.user content, false) ∧
      resultsFirst content = true ∧ (∀ id, id ∈ resultIds (.user content) ↔ id ∈ ids)) ∨
    normalizePairAnswer (.user content) ids
      = (.user (content.filter (fun b => b.resultId.any ids.contains)
          ++ (openCalls content ids).map lostResultBlock
          ++ content.filter fun b => !b.isToolResult), true) := by
  rw [normalizePairAnswer]
  dsimp only
  split
  · rename_i h
    simp only [Bool.and_eq_true, List.all_eq_true, List.contains_iff_mem] at h
    exact .inl ⟨rfl, h.1.1, fun id => ⟨h.1.2 id, h.2 id⟩⟩
  · exact .inr rfl

/-- It is the user's, with its results first, and with everything else the answer had. -/
theorem exists_normalizePairAnswer (content : List ContentBlock) (ids : List String) :
    ∃ content', (normalizePairAnswer (.user content) ids).1 = .user content' ∧
      resultsFirst content' = true ∧
      content'.filter (fun b => !b.isToolResult) = content.filter fun b => !b.isToolResult := by
  rcases normalizePairAnswer_eq content ids with ⟨heq, hfirst, -⟩ | heq
  · exact ⟨content, by rw [heq], hfirst, rfl⟩
  · have hresults : ∀ b ∈ content.filter (fun b => b.resultId.any ids.contains)
        ++ (openCalls content ids).map lostResultBlock, b.isToolResult = true := by
      intro b hb
      rcases List.mem_append.mp hb with hb | hb
      · obtain ⟨id, hid, -⟩ := (Option.any_eq_true _ _).mp (List.mem_filter.mp hb).2
        exact isToolResult_of_resultId hid
      · obtain ⟨id, -, rfl⟩ := List.mem_map.mp hb
        rfl
    refine ⟨_, by rw [heq], resultsFirst_append hresults fun b hb => ?_, ?_⟩
    · simpa using (List.mem_filter.mp hb).2
    · rw [List.filter_append, List.filter_eq_nil_iff.mpr fun b hb => by simp [hresults b hb],
        List.nil_append, List.filter_filter]
      simp only [Bool.and_self]

/-- Its results are those of the round, and the markers. -/
theorem mem_toolResults_normalizePairAnswer {b : ContentBlock} :
    b ∈ toolResults (normalizePairAnswer (.user content) ids).1 ↔
      (b ∈ toolResults (.user content) ∧ ∃ id ∈ ids, b.resultId = some id) ∨
        ∃ id ∈ openCalls content ids, b = lostResultBlock id := by
  rcases normalizePairAnswer_eq content ids with ⟨heq, -, hiff⟩ | heq
  · rw [heq]
    constructor
    · intro hb
      obtain ⟨id, hid⟩ := resultId_of_isToolResult (List.mem_filter.mp hb).2
      exact .inl ⟨hb, id, (hiff id).mp (mem_resultIds.mpr ⟨b, hb, hid⟩), hid⟩
    · rintro (⟨hb, -⟩ | ⟨id, hid, -⟩)
      · exact hb
      · obtain ⟨hmem, hnot⟩ := mem_openCalls.mp hid
        exact absurd ((hiff id).mpr hmem) hnot
  · rw [heq]
    simp only [toolResults, List.filter_append, List.mem_append, List.mem_filter, List.mem_map,
      Option.any_eq_true, List.contains_iff_mem]
    constructor
    · rintro ((⟨⟨hb, id, hid, hmem⟩, hres⟩ | ⟨⟨id, hid, rfl⟩, -⟩) | ⟨⟨-, hnot⟩, hres⟩)
      · exact .inl ⟨⟨hb, hres⟩, id, hmem, hid⟩
      · exact .inr ⟨id, hid, rfl⟩
      · simp [hres] at hnot
    · rintro (⟨⟨hb, hres⟩, id, hmem, hid⟩ | ⟨id, hid, rfl⟩)
      · exact .inl (.inl ⟨⟨hb, id, hid, hmem⟩, hres⟩)
      · exact .inl (.inr ⟨⟨id, hid, rfl⟩, rfl⟩)

/-- They are for the calls of the round, all of them. -/
theorem mem_resultIds_normalizePairAnswer {id : String} :
    id ∈ resultIds (normalizePairAnswer (.user content) ids).1 ↔ id ∈ ids := by
  rw [mem_resultIds]
  constructor
  · rintro ⟨b, hb, hid⟩
    rcases mem_toolResults_normalizePairAnswer.mp hb with ⟨-, id', hmem, hid'⟩ | ⟨id', hopen, rfl⟩
    · exact Option.some.inj (hid'.symm.trans hid) ▸ hmem
    · exact Option.some.inj hid ▸ (mem_openCalls.mp hopen).1
  · intro hmem
    by_cases hres : id ∈ resultIds (.user content)
    · obtain ⟨b, hb, hid⟩ := mem_resultIds.mp hres
      exact ⟨b, mem_toolResults_normalizePairAnswer.mpr (.inl ⟨hb, id, hmem, hid⟩), hid⟩
    · exact ⟨lostResultBlock id, mem_toolResults_normalizePairAnswer.mpr
        (.inr ⟨id, mem_openCalls.mpr ⟨hmem, hres⟩, rfl⟩), rfl⟩

end Answer

/-! ### What is repaired is accepted -/

section Valid

variable {queue history : List Message}

theorem ne_nil_of_resultIds {m : Message} {ids : List String} (hids : ids ≠ [])
    (h : ∀ id, id ∈ resultIds m ↔ id ∈ ids) : contentOf m ≠ [] := by
  obtain ⟨id, hid⟩ := List.exists_mem_of_ne_nil _ hids
  have hres := (h id).mpr hid
  intro hnil
  cases m with
  | assistant content => cases hres
  | user content =>
    obtain rfl : content = [] := hnil
    cases hres

/-- The results of what a message without calls leaves. -/
theorem resultIds_filter (content : List ContentBlock) :
    resultIds (.user (content.filter fun b => !b.isToolResult)) = [] := by
  rw [resultIds_eq_nil_iff, toolResults, List.filter_filter, List.filter_eq_nil_iff]
  simp

theorem resultIds_lost (ids : List String) :
    resultIds (.user (ids.map lostResultBlock)) = ids := by
  induction ids with
  | nil => rfl
  | cons id ids ih =>
    exact congrArg (id :: ·) ih

theorem resultsFirst_of_toolResults {content : List ContentBlock}
    (h : toolResults (.user content) = []) : resultsFirst content = true := by
  have hnone := List.filter_eq_nil_iff.mp h
  rw [← List.nil_append content]
  exact resultsFirst_append (by simp) fun b hb => Bool.eq_false_iff.mpr (hnone b hb)

theorem paired_settle (queue : List Message) : Paired [] (settle queue).history := by
  induction queue using settle_induction with
  | nil => rw [settle]; rfl
  | plain m queue hm hr ih =>
    rw [settle_plain hm hr]
    exact ⟨by simp [resultIds_eq_nil_iff.mpr hr], by rwa [hm]⟩
  | stray content queue hany ih =>
    rw [settle_stray hany]
    split
    · exact ih
    · exact ⟨by simp [resultIds_filter], ih⟩
  | pair m pre b post hm hpre hb ih =>
    obtain ⟨content', heq, -⟩ := exists_normalizePairAnswer b (toolUseIds m)
    have hids : ∀ id, id ∈ resultIds (normalizePairAnswer (.user b) (toolUseIds m)).1 ↔
        id ∈ toolUseIds m := fun _ => mem_resultIds_normalizePairAnswer
    obtain ⟨content, rfl⟩ := eq_assistant_of_toolUseIds hm
    rw [settle_pair hm hpre hb]
    refine ⟨by simp, hids, ?_⟩
    rwa [heq]
  | lost m queue hm hq ih =>
    rw [settle_lost hm hq]
    obtain ⟨content, rfl⟩ := eq_assistant_of_toolUseIds hm
    exact ⟨by simp, by simp [resultIds_lost], ih⟩

/-- No message is empty, and every message of the user has its results first. -/
def Tidy (m : Message) : Prop :=
  contentOf m ≠ [] ∧ ∀ content, m = .user content → resultsFirst content = true

theorem tidy_settle (queue : List Message) (hne : ∀ m ∈ queue, contentOf m ≠ []) :
    ∀ m ∈ (settle queue).history, Tidy m := by
  induction queue using settle_induction with
  | nil => simp [settle]
  | plain m queue hm hr ih =>
    rw [settle_plain hm hr]
    obtain ⟨hmne, hne⟩ := List.forall_mem_cons.mp hne
    refine List.forall_mem_cons.mpr ⟨⟨hmne, ?_⟩, ih hne⟩
    rintro content rfl
    exact resultsFirst_of_toolResults hr
  | stray content queue hany ih =>
    rw [settle_stray hany]
    have htail := ih (List.forall_mem_cons.mp hne).2
    split
    · exact htail
    · rename_i hkept
      refine List.forall_mem_cons.mpr ⟨⟨?_, ?_⟩, htail⟩
      · exact fun hnil => hkept (List.isEmpty_iff.mpr hnil)
      · rintro kept heq
        obtain rfl := Message.user.inj heq
        exact resultsFirst_of_toolResults (resultIds_eq_nil_iff.mp (resultIds_filter content))
  | pair m pre b post hm hpre hb ih =>
    obtain ⟨content', heq, hfirst, -⟩ := exists_normalizePairAnswer b (toolUseIds m)
    have hids : ∀ id, id ∈ resultIds (normalizePairAnswer (.user b) (toolUseIds m)).1 ↔
        id ∈ toolUseIds m := fun _ => mem_resultIds_normalizePairAnswer
    obtain ⟨content, rfl⟩ := eq_assistant_of_toolUseIds hm
    rw [settle_pair hm hpre hb]
    refine List.forall_mem_cons.mpr ⟨⟨hne _ List.mem_cons_self, fun _ h => nomatch h⟩,
      List.forall_mem_cons.mpr ⟨⟨ne_nil_of_resultIds hm hids, ?_⟩, ih fun x hx => hne x ?_⟩⟩
    · rintro c hc
      rw [heq] at hc
      exact Message.user.inj hc ▸ hfirst
    · simp only [List.mem_cons, List.mem_append] at hx ⊢
      tauto
  | lost m queue hm hq ih =>
    obtain ⟨content, rfl⟩ := eq_assistant_of_toolUseIds hm
    rw [settle_lost hm hq]
    obtain ⟨hmne, hne⟩ := List.forall_mem_cons.mp hne
    refine List.forall_mem_cons.mpr ⟨⟨hmne, fun _ h => nomatch h⟩,
      List.forall_mem_cons.mpr ⟨⟨?_, ?_⟩, ih hne⟩⟩
    · exact ne_nil_of_resultIds hm fun id => by rw [resultIds_lost]
    · rintro c hc
      obtain rfl := Message.user.inj hc
      rw [← List.append_nil (List.map _ _)]
      refine resultsFirst_append (fun b hb => ?_) (by simp)
      obtain ⟨id, -, rfl⟩ := List.mem_map.mp hb
      rfl

/-- The repair of the messages that say something. -/
theorem repairHistory_eq (history : List Message) :
    repairHistory history
        = ⟨(settle (withoutEmpty history)).history,
          decide ((withoutEmpty history).length ≠ history.length)
            || (settle (withoutEmpty history)).changed,
          (settle (withoutEmpty history)).lost⟩ ∧
      (∀ content, (settle (withoutEmpty history)).history.head?
        ≠ some (.assistant content)) ∨
    repairHistory history
        = ⟨openingLost :: (settle (withoutEmpty history)).history, true,
          (settle (withoutEmpty history)).lost⟩ := by
  rw [repairHistory]
  split
  · exact .inr rfl
  · rename_i h
    exact .inl ⟨rfl, h⟩

theorem forall_withoutEmpty (history : List Message) :
    ∀ m ∈ withoutEmpty history, contentOf m ≠ [] := by
  intro m hm
  simpa using (List.mem_filter.mp hm).2

/-- **What is repaired is accepted**, whatever came from the file. -/
theorem repairHistory_apiValid (history : List Message) :
    ApiValid (repairHistory history).history := by
  have htidy := tidy_settle _ (forall_withoutEmpty history)
  have hpaired := paired_settle (withoutEmpty history)
  rcases repairHistory_eq history with ⟨heq, hopening⟩ | heq
  · rw [heq]
    exact ⟨fun m hm => (htidy m hm).1, hpaired, fun content hmem => (htidy _ hmem).2 content rfl,
      hopening⟩
  · rw [heq]
    have hopen : Tidy openingLost := by
      refine ⟨by simp [openingLost, contentOf], ?_⟩
      rintro content heq
      obtain rfl := Message.user.inj heq
      rfl
    have htidy' := List.forall_mem_cons.mpr ⟨hopen, htidy⟩
    exact ⟨fun m hm => (htidy' m hm).1, ⟨by simp [openingLost, resultIds, ContentBlock.resultId],
      hpaired⟩, fun content hmem => (htidy' _ hmem).2 content rfl, fun _ h => nomatch h⟩

/-- Where there is nothing to repair, nothing is. -/
theorem settle_of_paired (queue : List Message) (htidy : ∀ m ∈ queue, Tidy m)
    (h : Paired [] queue) : settle queue = ⟨queue, false, []⟩ := by
  induction queue using settle_induction with
  | nil => rw [settle]
  | plain m queue hm hr ih =>
    have h' := h.2
    rw [hm] at h'
    rw [settle_plain hm hr, ih (List.forall_mem_cons.mp htidy).2 h']
  | stray content queue hany ih =>
    obtain ⟨b, hb, hres⟩ := List.any_eq_true.mp hany
    obtain ⟨id, hid⟩ := resultId_of_isToolResult hres
    have hmem : id ∈ resultIds (.user content) := List.mem_filterMap.mpr ⟨b, hb, hid⟩
    exact absurd ((h.1 id).mp hmem) List.not_mem_nil
  | pair m pre b post hm hpre hb ih =>
    -- the answer of an accepted history is next
    obtain rfl : pre = [] := by
      cases pre with
      | nil => rfl
      | cons x pre =>
        obtain ⟨id, hid⟩ := List.exists_mem_of_ne_nil _ hm
        have hx := answersAny_eq_false_iff.mp (hpre x List.mem_cons_self) id hid
        exact absurd ((h.2.1 id).mpr hid) hx
    have hids := h.2.1
    have hrest : settle post = ⟨post, false, []⟩ :=
      ih (fun x hx => htidy x (List.mem_cons_of_mem _ (List.mem_cons_of_mem _ hx))) h.2.2
    have hfirst : resultsFirst b = true :=
      (htidy (.user b) (List.mem_cons_of_mem _ List.mem_cons_self)).2 b rfl
    have hsame : normalizePairAnswer (.user b) (toolUseIds m) = (.user b, false) := by
      rw [normalizePairAnswer]
      dsimp only
      rw [if_pos]
      simp only [hfirst, Bool.true_and, Bool.and_eq_true, List.all_eq_true, List.contains_iff_mem]
      exact ⟨fun id hid => (hids id).mp hid, fun id hid => (hids id).mpr hid⟩
    have hopen : openCalls b (toolUseIds m) = [] :=
      List.eq_nil_iff_forall_not_mem.mpr fun id hid =>
        (mem_openCalls.mp hid).2 ((hids id).mpr (mem_openCalls.mp hid).1)
    rw [settle_pair hm hpre hb, hsame, hopen, List.nil_append, hrest]
    rfl
  | lost m queue hm hq ih =>
    cases queue with
    | nil => exact absurd h.2 hm
    | cons x queue =>
      obtain ⟨id, hid⟩ := List.exists_mem_of_ne_nil _ hm
      have hx := answersAny_eq_false_iff.mp (hq x List.mem_cons_self) id hid
      exact absurd ((h.2.1 id).mpr hid) hx

/-- A loop that says it changed nothing did not. -/
theorem settle_of_unchanged (queue : List Message) (h : (settle queue).changed = false) :
    (settle queue).history = queue := by
  induction queue using settle_induction with
  | nil => rw [settle]
  | plain m queue hm hr ih =>
    rw [settle_plain hm hr] at h ⊢
    exact congrArg (m :: ·) (ih h)
  | stray content queue hany ih =>
    rw [settle_stray hany] at h
    cases h
  | pair m pre b post hm hpre hb ih =>
    rw [settle_pair hm hpre hb] at h ⊢
    simp only [Bool.or_eq_false_iff, decide_eq_false_iff_not, not_lt, Nat.le_zero,
      List.length_eq_zero_iff] at h
    obtain ⟨⟨rfl, hsame⟩, hrest⟩ := h
    rcases normalizePairAnswer_eq b (toolUseIds m) with ⟨heq, -⟩ | heq
    · rw [heq]
      exact congrArg (fun l => m :: .user b :: l) (ih hrest)
    · rw [heq] at hsame
      cases hsame
  | lost m queue hm hq ih =>
    rw [settle_lost hm hq] at h
    cases h

theorem repairHistory_of_apiValid {history : List Message} (h : ApiValid history) :
    repairHistory history = ⟨history, false, []⟩ := by
  have hsame : withoutEmpty history = history :=
    List.filter_eq_self.mpr fun m hm => by simp [h.nonempty m hm]
  have hsettle := settle_of_paired history
    (fun m hm => ⟨h.nonempty m hm, fun content heq => h.results_first content (heq ▸ hm)⟩) h.paired
  rw [repairHistory, hsame, hsettle]
  split
  · rename_i content heq
    exact absurd heq (h.opening content)
  · simp

theorem repairHistory_of_unchanged {history : List Message}
    (h : (repairHistory history).changed = false) : (repairHistory history).history = history := by
  rcases repairHistory_eq history with ⟨heq, -⟩ | heq
  · rw [heq] at h ⊢
    simp only [Bool.or_eq_false_iff, decide_eq_false_iff_not, not_not] at h
    rw [settle_of_unchanged _ h.2]
    exact List.filter_eq_self.mpr (List.length_filter_eq_length_iff.mp h.1)
  · rw [heq] at h
    cases h

/-- **A second repair** finds nothing to do, and a repair says that it changed the history exactly
if it did. -/
theorem repairHistory_idempotent (history : List Message) :
    (repairHistory (repairHistory history).history).history = (repairHistory history).history ∧
      (repairHistory (repairHistory history).history).changed = false ∧
      ((repairHistory history).changed = true ↔ (repairHistory history).history ≠ history) ∧
      (ApiValid history → (repairHistory history).history = history) := by
  have hvalid := repairHistory_apiValid history
  rw [repairHistory_of_apiValid hvalid]
  refine ⟨rfl, rfl, ⟨fun hchanged hsame => ?_, fun hne => ?_⟩, fun h => ?_⟩
  · rw [hsame] at hvalid
    rw [repairHistory_of_apiValid hvalid] at hchanged
    cases hchanged
  · by_contra hsame
    exact hne (repairHistory_of_unchanged (Bool.eq_false_iff.mpr hsame))
  · rw [repairHistory_of_apiValid h]

end Valid

/-! ### What is lost -/

/-- The block stands in the message right after the call. -/
def Follows (history : List Message) (id : String) (b : ContentBlock) : Prop :=
  ∃ call answer, [call, answer] <:+: history ∧ id ∈ toolUseIds call ∧ b ∈ toolResults answer

/-- What a message of the user has besides results. -/
def withoutResults : Message → Message
  | .user content => .user (content.filter fun b => !b.isToolResult)
  | .assistant content => .assistant content

/-- The messages that answer no call of the history. -/
def bystanders (history : List Message) : List Message :=
  history.filter fun m => !answersAny m (history.flatMap toolUseIds)

/-- The blocks that are no results. -/
def otherBlocks (history : List Message) : List ContentBlock :=
  (history.flatMap contentOf).filter fun b => !b.isToolResult

/-- Nothing real is lost. -/
structure KeepsResults (history : List Message) (r : Repair) : Prop where
  /-- only a call without a result gets a marker -/
  honest : ∀ id ∈ r.lost, id ∉ history.flatMap resultIds
  /-- a result whose call is there follows the call -/
  kept : ∀ b ∈ history.flatMap toolResults, ∀ id ∈ history.flatMap toolUseIds,
    b.resultId = some id → Follows r.history id b
  /-- everything else is kept -/
  others : (otherBlocks history).Subperm (otherBlocks r.history)
  /-- and stays in its order -/
  order : (withoutEmpty ((bystanders history).map withoutResults)).Sublist r.history

/-- The results of each round are in one message, after their calls, and no other results with
them. -/
structure InPlace (history : List Message) : Prop where
  /-- no message answers a later one -/
  after : history.Pairwise fun x y => answersAny x (toolUseIds y) = false
  /-- no two answer the same -/
  whole : ∀ m ∈ history, history.countP (fun x => answersAny x (toolUseIds m)) ≤ 1
  /-- and none answers two -/
  single : ∀ x ∈ history, history.countP (fun m => answersAny x (toolUseIds m)) ≤ 1

section Lost

variable {history out queue pre post : List Message} {m n x y : Message} {id : String}
  {b : ContentBlock} {answer : List ContentBlock}

theorem Follows.cons (h : Follows out id b) (m : Message) : Follows (m :: out) id b := by
  obtain ⟨call, answer, hinfix, hcall, hanswer⟩ := h
  exact ⟨call, answer, List.infix_cons hinfix, hcall, hanswer⟩

theorem Follows.of_cons (h : Follows (m :: out) id b) (hm : id ∉ toolUseIds m) :
    Follows out id b := by
  obtain ⟨call, answer, hinfix, hcall, hanswer⟩ := h
  rcases List.infix_cons_iff.mp hinfix with hprefix | hinfix
  · obtain ⟨rfl, -⟩ := List.cons_prefix_cons.mp hprefix
    exact absurd hcall hm
  · exact ⟨call, answer, hinfix, hcall, hanswer⟩

theorem follows_head (hm : id ∈ toolUseIds m) (hn : b ∈ toolResults n) :
    Follows (m :: n :: out) id b :=
  ⟨m, n, (List.prefix_append [m, n] out).isInfix, hm, hn⟩

theorem Follows.mem (h : Follows out id b) :
    (∃ call ∈ out, id ∈ toolUseIds call) ∧ ∃ answer ∈ out, b ∈ toolResults answer := by
  obtain ⟨call, answer, hinfix, hcall, hanswer⟩ := h
  exact ⟨⟨call, hinfix.subset (by simp), hcall⟩, answer, hinfix.subset (by simp), hanswer⟩

/-- A call that is made once is followed by its own answer. -/
theorem Follows.head (h : Follows (m :: n :: out) id b) (hn : id ∉ toolUseIds n)
    (hout : ∀ x ∈ out, id ∉ toolUseIds x) : b ∈ toolResults n := by
  obtain ⟨call, answer, hinfix, hcall, hanswer⟩ := h
  rcases List.infix_cons_iff.mp hinfix with hprefix | hinfix
  · have heq := (List.cons_prefix_cons.mp (List.cons_prefix_cons.mp hprefix).2).1
    exact heq ▸ hanswer
  · have hmem : call ∈ n :: out := hinfix.subset (by simp)
    rcases List.mem_cons.mp hmem with rfl | hmem
    · exact absurd hcall hn
    · exact absurd hcall (hout call hmem)

@[simp] theorem answersAny_self (m : Message) : answersAny m (toolUseIds m) = false := by
  cases m with
  | user content => simp
  | assistant content => simp

theorem InPlace.sublist (h : InPlace history) (hsub : queue.Sublist history) : InPlace queue where
  after := h.after.sublist hsub
  whole m hm := hsub.countP_le.trans (h.whole m (hsub.subset hm))
  single x hx := hsub.countP_le.trans (h.single x (hsub.subset hx))

/-- A message that neither answers nor is answered may come first. -/
theorem InPlace.cons (h : InPlace queue)
    (hm : ∀ y ∈ queue, answersAny m (toolUseIds y) = false)
    (hq : ∀ y ∈ queue, answersAny y (toolUseIds m) = false) : InPlace (m :: queue) where
  after := List.pairwise_cons.mpr ⟨hm, h.after⟩
  whole := by
    refine List.forall_mem_cons.mpr ⟨?_, fun y hy => ?_⟩
    · rw [List.countP_eq_zero.mpr]
      · exact Nat.zero_le _
      · simpa using hq
    · rw [List.countP_cons_of_neg (by simp [hm y hy])]
      exact h.whole y hy
  single := by
    refine List.forall_mem_cons.mpr ⟨?_, fun y hy => ?_⟩
    · rw [List.countP_eq_zero.mpr]
      · exact Nat.zero_le _
      · simpa using hm
    · rw [List.countP_cons_of_neg (by simp [hq y hy])]
      exact h.single y hy

/-- So may a round with its answer. -/
theorem InPlace.pair (h : InPlace (pre ++ post)) (hm : toolUseIds m ≠ [])
    (hq : ∀ y ∈ pre ++ post, answersAny y (toolUseIds m) = false)
    (ha : ∀ y ∈ pre ++ post, answersAny (.user answer) (toolUseIds y) = false) :
    InPlace (m :: (pre ++ .user answer :: post)) := by
  obtain ⟨content, rfl⟩ := eq_assistant_of_toolUseIds hm
  have hperm : (pre ++ .user answer :: post).Perm (.user answer :: (pre ++ post)) :=
    List.perm_middle
  have hsplit : ∀ y ∈ pre ++ .user answer :: post, y = .user answer ∨ y ∈ pre ++ post :=
    fun y hy => List.mem_cons.mp (hperm.subset hy)
  refine ⟨?_, ?_, ?_⟩
  · refine List.pairwise_cons.mpr ⟨fun _ _ => rfl, ?_⟩
    obtain ⟨hpre, hpost, hacross⟩ := List.pairwise_append.mp h.after
    refine List.pairwise_append.mpr ⟨hpre, List.pairwise_cons.mpr
      ⟨fun y hy => ha y (List.mem_append_right pre hy), hpost⟩, fun x hx y hy => ?_⟩
    rcases List.mem_cons.mp hy with rfl | hy
    · exact answersAny_nil x
    · exact hacross x hx y hy
  · refine List.forall_mem_cons.mpr ⟨?_, fun y hy => ?_⟩
    · rw [List.countP_cons_of_neg (by simp), hperm.countP_eq, List.countP_cons,
        List.countP_eq_zero.mpr fun y hy => by simp [hq y hy]]
      split <;> omega
    · rw [List.countP_cons_of_neg (by simp), hperm.countP_eq]
      rcases hsplit y hy with rfl | hy
      · simp
      · rw [List.countP_cons_of_neg (by simp [ha y hy])]
        exact h.whole y hy
  · refine List.forall_mem_cons.mpr ⟨by simp, fun y hy => ?_⟩
    rw [List.countP_cons, hperm.countP_eq, List.countP_cons_of_neg (by simp)]
    rcases hsplit y hy with rfl | hy
    · rw [List.countP_eq_zero.mpr fun y hy => by simp [ha y hy]]
      split <;> omega
    · rw [if_neg (by simp [hq y hy])]
      exact h.single y hy

/-- Where all is in place, nobody else answers the round, and its answer answers nobody else. -/
theorem InPlace.alone (h : InPlace (m :: (pre ++ .user answer :: post)))
    (ha : answersAny (.user answer) (toolUseIds m) = true) :
    (∀ y ∈ pre ++ post, answersAny y (toolUseIds m) = false) ∧
      ∀ y ∈ pre ++ post, answersAny (.user answer) (toolUseIds y) = false := by
  have hperm : (pre ++ .user answer :: post).Perm (.user answer :: (pre ++ post)) :=
    List.perm_middle
  constructor
  · have hcount := h.whole m List.mem_cons_self
    rw [List.countP_cons_of_neg (by simp), hperm.countP_eq,
      List.countP_cons_of_pos (by exact ha)] at hcount
    have hzero : (pre ++ post).countP (fun x => answersAny x (toolUseIds m)) = 0 := by omega
    simpa using List.countP_eq_zero.mp hzero
  · have hcount := h.single (.user answer) (by simp)
    rw [List.countP_cons_of_pos (by exact ha), hperm.countP_eq,
      List.countP_cons_of_neg (by simp)] at hcount
    have hzero : (pre ++ post).countP (fun y => answersAny (.user answer) (toolUseIds y)) = 0 := by
      omega
    simpa using List.countP_eq_zero.mp hzero

/-- No two messages have an id in common. -/
def Apart (f : Message → List String) (history : List Message) : Prop :=
  history.Pairwise fun x y => ∀ id ∈ f x, id ∉ f y

theorem Apart.of_nodup {f : Message → List String} (h : (history.flatMap f).Nodup) :
    Apart f history :=
  (List.nodup_flatMap.mp h).2.imp fun hxy _ hx hy => hxy hx hy

theorem Apart.tail {f : Message → List String} (h : Apart f (m :: queue)) : Apart f queue :=
  (List.pairwise_cons.mp h).2

theorem Apart.rest {f : Message → List String} (h : Apart f (m :: (pre ++ x :: post))) :
    Apart f (pre ++ post) :=
  h.tail.sublist ((List.Sublist.refl pre).append (List.sublist_cons_self x post))

theorem Apart.middle {f : Message → List String} (h : Apart f (pre ++ x :: post)) :
    ∀ y ∈ pre ++ post, ∀ id ∈ f x, id ∉ f y := by
  have hsymm : Apart f (x :: (pre ++ post)) :=
    (List.pairwise_middle fun hxy id hy hx => hxy id hx hy).mp h
  exact (List.pairwise_cons.mp hsymm).1

/-- The calls of a history stay, in their order. -/
theorem toolUseIds_settle (queue : List Message) :
    (settle queue).history.flatMap toolUseIds = queue.flatMap toolUseIds := by
  induction queue using settle_induction with
  | nil => rw [settle]
  | plain m queue hm hr ih =>
    rw [settle_plain hm hr]
    simp [ih]
  | stray content queue hany ih =>
    rw [settle_stray hany]
    dsimp only
    split
    · simpa using ih
    · simpa using ih
  | pair m pre b post hm hpre hb ih =>
    obtain ⟨content', heq, -⟩ := exists_normalizePairAnswer b (toolUseIds m)
    rw [settle_pair hm hpre hb, heq]
    simpa using ih
  | lost m queue hm hq ih =>
    rw [settle_lost hm hq]
    simpa using ih

theorem mem_of_mem_lost (queue : List Message) :
    ∀ id ∈ (settle queue).lost, id ∈ queue.flatMap toolUseIds := by
  induction queue using settle_induction with
  | nil => simp [settle]
  | plain m queue hm hr ih =>
    rw [settle_plain hm hr]
    intro id hid
    simpa [hm] using ih id hid
  | stray content queue hany ih =>
    rw [settle_stray hany]
    intro id hid
    simpa using ih id hid
  | pair m pre b post hm hpre hb ih =>
    rw [settle_pair hm hpre hb]
    intro id hid
    rcases List.mem_append.mp hid with hid | hid
    · exact List.mem_flatMap.mpr ⟨m, List.mem_cons_self, (mem_openCalls.mp hid).1⟩
    · have hmem := ih id hid
      simp only [List.flatMap_append, List.flatMap_cons, List.mem_append] at hmem ⊢
      tauto
  | lost m queue hm hq ih =>
    rw [settle_lost hm hq]
    intro id hid
    rw [List.flatMap_cons]
    exact List.mem_append.mpr ((List.mem_append.mp hid).imp_right (ih id))

/-- A result of the repaired history was there, or is a marker. -/
theorem mem_toolResults_settle (queue : List Message) :
    ∀ m ∈ (settle queue).history, ∀ b ∈ toolResults m,
      b ∈ queue.flatMap toolResults ∨ ∃ id ∈ (settle queue).lost, b = lostResultBlock id := by
  induction queue using settle_induction with
  | nil => simp [settle]
  | plain m queue hm hr ih =>
    rw [settle_plain hm hr, List.flatMap_cons, hr]
    refine List.forall_mem_cons.mpr ⟨fun b hb => ?_, ih⟩
    rw [hr] at hb
    cases hb
  | stray content queue hany ih =>
    have htail : ∀ m ∈ (settle queue).history, ∀ b ∈ toolResults m,
        b ∈ (Message.user content :: queue).flatMap toolResults ∨
          ∃ id ∈ (settle queue).lost, b = lostResultBlock id := fun m hm b hb =>
      (ih m hm b hb).imp_left (List.mem_append_right _)
    rw [settle_stray hany]
    dsimp only
    split
    · exact htail
    · refine List.forall_mem_cons.mpr ⟨fun b hb => ?_, htail⟩
      rw [resultIds_eq_nil_iff.mp (resultIds_filter content)] at hb
      cases hb
  | pair m pre b post hm hpre hb ih =>
    rw [settle_pair hm hpre hb]
    obtain ⟨content, rfl⟩ := eq_assistant_of_toolUseIds hm
    refine List.forall_mem_cons.mpr ⟨(fun _ h => nomatch h), List.forall_mem_cons.mpr
      ⟨fun blk hblk => ?_, fun x hx blk hblk => ?_⟩⟩
    · rcases mem_toolResults_normalizePairAnswer.mp hblk with ⟨hmem, -⟩ | ⟨id, hid, heq⟩
      · exact .inl (List.mem_flatMap.mpr ⟨.user b, by simp, hmem⟩)
      · exact .inr ⟨id, List.mem_append_left _ hid, heq⟩
    · rcases ih x hx blk hblk with hmem | ⟨id, hid, heq⟩
      · left
        simp only [List.flatMap_append, List.flatMap_cons, List.mem_append] at hmem ⊢
        tauto
      · exact .inr ⟨id, List.mem_append_right _ hid, heq⟩
  | lost m queue hm hq ih =>
    rw [settle_lost hm hq]
    obtain ⟨content, rfl⟩ := eq_assistant_of_toolUseIds hm
    refine List.forall_mem_cons.mpr ⟨(fun _ h => nomatch h), List.forall_mem_cons.mpr
      ⟨fun blk hblk => ?_, fun x hx blk hblk => ?_⟩⟩
    · obtain ⟨id, hid, rfl⟩ := List.mem_map.mp (List.mem_filter.mp hblk).1
      exact .inr ⟨id, List.mem_append_left _ hid, rfl⟩
    · exact (ih x hx blk hblk).imp (List.mem_append_right _)
        fun ⟨id, hid, heq⟩ => ⟨id, List.mem_append_right _ hid, heq⟩

/-- What a run of the loop is asked for: its markers are honest, and results are kept. -/
def Keeps (queue : List Message) : Prop :=
  (∀ id ∈ (settle queue).lost, id ∉ queue.flatMap resultIds) ∧
    ∀ b ∈ queue.flatMap toolResults, ∀ id ∈ queue.flatMap toolUseIds,
      b.resultId = some id → Follows (settle queue).history id b

theorem mem_flatMap_pair {α : Type*} {f : Message → List α} {a : α} :
    a ∈ (m :: (pre ++ x :: post)).flatMap f ↔ a ∈ f m ∨ a ∈ f x ∨ a ∈ (pre ++ post).flatMap f := by
  simp only [List.flatMap_cons, List.flatMap_append, List.mem_append]
  tauto

theorem mem_flatMap_resultIds : id ∈ queue.flatMap resultIds ↔
    ∃ b ∈ queue.flatMap toolResults, b.resultId = some id := by
  simp only [List.mem_flatMap, mem_resultIds]
  constructor
  · rintro ⟨x, hx, b, hb, hid⟩
    exact ⟨b, ⟨x, hx, hb⟩, hid⟩
  · rintro ⟨b, ⟨x, hx, hb⟩, hid⟩
    exact ⟨x, hx, b, hb, hid⟩

theorem forall_answersAny_eq_false {ids : List String} :
    (∀ y ∈ queue, answersAny y ids = false) ↔ ∀ id ∈ ids, id ∉ queue.flatMap resultIds := by
  simp only [answersAny_eq_false_iff, List.mem_flatMap, not_exists, not_and]
  exact ⟨fun h id hid y hy => h y hy id hid, fun h y hy id hid => h id hid y hy⟩

/-- Results in place are kept. -/
theorem keeps_of_inPlace (queue : List Message) (h : InPlace queue) : Keeps queue := by
  induction queue using settle_induction with
  | nil => exact ⟨by simp [settle], by simp⟩
  | plain m queue hm hr ih =>
    have hrest := ih (h.sublist (List.sublist_cons_self m queue))
    refine ⟨?_, ?_⟩
    · rw [settle_plain hm hr, List.flatMap_cons, resultIds_eq_nil_iff.mpr hr]
      exact hrest.1
    · rw [settle_plain hm hr, List.flatMap_cons, List.flatMap_cons, hm, hr]
      exact fun b hb id hid heq => (hrest.2 b hb id hid heq).cons m
  | stray content queue hany ih =>
    have hrest := ih (h.sublist (List.sublist_cons_self _ queue))
    -- what is stripped answers nobody who is still to come
    have hstray : ∀ id ∈ queue.flatMap toolUseIds, id ∉ resultIds (.user content) := by
      intro id hid
      obtain ⟨y, hy, hid⟩ := List.mem_flatMap.mp hid
      exact answersAny_eq_false_iff.mp ((List.pairwise_cons.mp h.after).1 y hy) id hid
    refine ⟨fun id hid => ?_, fun b hb id hid heq => ?_⟩
    · rw [settle_stray hany] at hid
      rw [List.flatMap_cons, List.mem_append, not_or]
      exact ⟨hstray id (mem_of_mem_lost queue id hid), hrest.1 id hid⟩
    · rw [List.flatMap_cons, toolUseIds_user, List.nil_append] at hid
      have hb : b ∈ queue.flatMap toolResults := by
        rw [List.flatMap_cons] at hb
        refine (List.mem_append.mp hb).resolve_left fun hb => hstray id hid ?_
        exact mem_resultIds.mpr ⟨b, hb, heq⟩
      rw [settle_stray hany]
      dsimp only
      split
      · exact hrest.2 b hb id hid heq
      · exact (hrest.2 b hb id hid heq).cons _
  | pair m pre b post hm hpre hb ih =>
    obtain ⟨hothers, hother⟩ := h.alone hb
    rw [forall_answersAny_eq_false] at hothers
    have hrest := ih (h.sublist (((List.Sublist.refl pre).append
      (List.sublist_cons_self _ post)).cons m))
    obtain ⟨content, rfl⟩ := eq_assistant_of_toolUseIds hm
    have hanswer : ∀ id ∈ (pre ++ post).flatMap toolUseIds, id ∉ resultIds (.user b) := by
      intro id hid
      obtain ⟨y, hy, hid⟩ := List.mem_flatMap.mp hid
      exact answersAny_eq_false_iff.mp (hother y hy) id hid
    rw [Keeps, settle_pair hm hpre hb]
    refine ⟨fun id hid => ?_, fun blk hblk id hid heq => ?_⟩
    · rw [mem_flatMap_pair, resultIds_assistant]
      rcases List.mem_append.mp hid with hid | hid
      · obtain ⟨hmem, hnot⟩ := mem_openCalls.mp hid
        rintro (hid | hid | hid)
        · cases hid
        · exact hnot hid
        · exact hothers id hmem hid
      · rintro (hmem | hmem | hmem)
        · cases hmem
        · exact hanswer id (mem_of_mem_lost _ id hid) hmem
        · exact hrest.1 id hid hmem
    · rw [mem_flatMap_pair, toolResults_assistant] at hblk
      rw [mem_flatMap_pair, toolUseIds_user] at hid
      rcases hblk with hblk | hblk | hblk
      · cases hblk
      · -- a result of the answer is of this round
        rcases hid with hid | hid | hid
        · exact follows_head hid
            (mem_toolResults_normalizePairAnswer.mpr (.inl ⟨hblk, id, hid, heq⟩))
        · cases hid
        · exact absurd (mem_resultIds.mpr ⟨blk, hblk, heq⟩) (hanswer id hid)
      · -- and any other is of another
        rcases hid with hid | hid | hid
        · exact absurd (mem_flatMap_resultIds.mpr ⟨blk, hblk, heq⟩) (hothers id hid)
        · cases hid
        · exact ((hrest.2 blk hblk id hid heq).cons _).cons _
  | lost m queue hm hq ih =>
    rw [forall_answersAny_eq_false] at hq
    have hrest := ih (h.sublist (List.sublist_cons_self m queue))
    obtain ⟨content, rfl⟩ := eq_assistant_of_toolUseIds hm
    rw [Keeps, settle_lost hm (forall_answersAny_eq_false.mpr hq), List.flatMap_cons,
      List.flatMap_cons, List.flatMap_cons, resultIds_assistant, toolResults_assistant,
      List.nil_append, List.nil_append]
    refine ⟨fun id hid => ?_, fun blk hblk id hid heq => ?_⟩
    · exact (List.mem_append.mp hid).elim (hq id) (hrest.1 id)
    · rcases List.mem_append.mp hid with hid | hid
      · exact absurd (mem_flatMap_resultIds.mpr ⟨blk, hblk, heq⟩) (hq id hid)
      · exact ((hrest.2 blk hblk id hid heq).cons _).cons _

/-- What is lost when a result of `x` is dropped: it stays nowhere. -/
theorem not_follows_of_apart (hhonest : ∀ id ∈ (settle queue).lost, id ∉ resultIds x)
    (hapart : ∀ y ∈ queue, ∀ id ∈ resultIds x, id ∉ resultIds y) (hb : b ∈ toolResults x)
    (hid : b.resultId = some id) : ¬ Follows (settle queue).history id b := by
  intro hfollows
  obtain ⟨answer, hanswer, hmem⟩ := hfollows.mem.2
  have hx : id ∈ resultIds x := mem_resultIds.mpr ⟨b, hb, hid⟩
  rcases mem_toolResults_settle queue answer hanswer b hmem with hmem | ⟨id', hid', rfl⟩
  · obtain ⟨y, hy, hmem⟩ := List.mem_flatMap.mp hmem
    exact hapart y hy id hx (mem_resultIds.mpr ⟨b, hmem, hid⟩)
  · obtain rfl := Option.some.inj hid
    exact hhonest _ hid' hx

/-- And what is kept was in place. -/
theorem inPlace_of_keeps (queue : List Message) (hcalls : Apart toolUseIds queue)
    (hresults : Apart resultIds queue) (h : Keeps queue) : InPlace queue := by
  induction queue using settle_induction with
  | nil => exact ⟨.nil, by simp, by simp⟩
  | plain m queue hm hr ih =>
    rw [Keeps, settle_plain hm hr, List.flatMap_cons, List.flatMap_cons, List.flatMap_cons, hm, hr,
      resultIds_eq_nil_iff.mpr hr] at h
    refine InPlace.cons (ih hcalls.tail hresults.tail ⟨h.1, fun b hb id hid heq => ?_⟩)
      (fun y _ => ?_) fun y _ => by rw [hm, answersAny_nil]
    · exact (h.2 b hb id hid heq).of_cons (by simp [hm])
    · simp [answersAny_eq_false_iff, resultIds_eq_nil_iff.mpr hr]
  | stray content queue hany ih =>
    have hfollows : ∀ b id, Follows (settle (.user content :: queue)).history id b →
        Follows (settle queue).history id b := by
      intro b id hfollows
      rw [settle_stray hany] at hfollows
      dsimp only at hfollows
      split at hfollows
      · exact hfollows
      · exact hfollows.of_cons List.not_mem_nil
    have hlost : (settle (.user content :: queue)).lost = (settle queue).lost := by
      rw [settle_stray hany]
    have hhonest : ∀ id ∈ (settle queue).lost,
        id ∉ resultIds (.user content) ∧ id ∉ queue.flatMap resultIds := by
      intro id hid
      have hnot := h.1 id (hlost ▸ hid)
      rwa [List.flatMap_cons, List.mem_append, not_or] at hnot
    have hkept : ∀ b ∈ (Message.user content :: queue).flatMap toolResults,
        ∀ id ∈ queue.flatMap toolUseIds, b.resultId = some id →
          Follows (settle queue).history id b := fun b hb id hid heq =>
      hfollows b id (h.2 b hb id (by simpa using hid) heq)
    refine InPlace.cons (ih hcalls.tail hresults.tail ⟨fun id hid => (hhonest id hid).2,
      fun b hb id hid heq => hkept b (List.mem_append_right _ hb) id hid heq⟩)
      (fun y hy => answersAny_eq_false_iff.mpr fun id hid hmem => ?_)
      fun y _ => by rw [toolUseIds_user, answersAny_nil]
    obtain ⟨b, hb, heq⟩ := mem_resultIds.mp hmem
    exact not_follows_of_apart (fun id hid => (hhonest id hid).1) (List.pairwise_cons.mp hresults).1
      hb heq (hkept b (List.mem_append_left _ hb) id (List.mem_flatMap.mpr ⟨y, hy, hid⟩) heq)
  | pair m pre b post hm hpre hb ih =>
    obtain ⟨content', hanswer, -⟩ := exists_normalizePairAnswer b (toolUseIds m)
    have hown : ∀ y ∈ pre ++ post, ∀ id ∈ toolUseIds m, id ∉ toolUseIds y := fun y hy =>
      (List.pairwise_cons.mp hcalls).1 y
        (((List.Sublist.refl pre).append (List.sublist_cons_self _ post)).subset hy)
    have hapart : ∀ y ∈ pre ++ post, ∀ id ∈ resultIds (.user b), id ∉ resultIds y :=
      hresults.tail.middle
    rw [Keeps, settle_pair hm hpre hb] at h
    obtain ⟨hlost, hkept⟩ := h
    have hhonest : ∀ id ∈ (settle (pre ++ post)).lost,
        id ∉ resultIds (.user b) ∧ id ∉ (pre ++ post).flatMap resultIds := by
      intro id hid
      have hnot := hlost id (List.mem_append_right _ hid)
      rw [mem_flatMap_pair, not_or, not_or] at hnot
      exact hnot.2
    have hrest : ∀ blk, blk ∈ toolResults (.user b) ∨ blk ∈ (pre ++ post).flatMap toolResults →
        ∀ id ∈ (pre ++ post).flatMap toolUseIds, blk.resultId = some id →
          Follows (settle (pre ++ post)).history id blk := by
      intro blk hblk id hid heq
      obtain ⟨y, hy, hy'⟩ := List.mem_flatMap.mp hid
      exact ((hkept blk (mem_flatMap_pair.mpr (.inr hblk)) id
        (mem_flatMap_pair.mpr (.inr (.inr hid))) heq).of_cons fun hmem => hown y hy id hmem hy')
          |>.of_cons (by rw [hanswer]; exact List.not_mem_nil)
    refine InPlace.pair (ih hcalls.rest hresults.rest ⟨fun id hid => (hhonest id hid).2,
      fun blk hblk id hid heq => hrest blk (.inr hblk) id hid heq⟩) hm
      (fun y hy => answersAny_eq_false_iff.mpr fun id hid hmem => ?_)
      fun y hy => answersAny_eq_false_iff.mpr fun id hid hmem => ?_
    · -- a second answer to the round: its results are neither the first's nor markers
      obtain ⟨blk, hblk, heq⟩ := mem_resultIds.mp hmem
      have hblk' : blk ∈ (pre ++ post).flatMap toolResults := List.mem_flatMap.mpr ⟨y, hy, hblk⟩
      have hfollows := hkept blk (mem_flatMap_pair.mpr (.inr (.inr hblk'))) id
        (mem_flatMap_pair.mpr (.inl hid)) heq
      have hout : ∀ x ∈ (settle (pre ++ post)).history, id ∉ toolUseIds x := by
        intro x hx hmem
        have hmem : id ∈ (pre ++ post).flatMap toolUseIds := by
          rw [← toolUseIds_settle]
          exact List.mem_flatMap.mpr ⟨x, hx, hmem⟩
        obtain ⟨z, hz, hz'⟩ := List.mem_flatMap.mp hmem
        exact hown z hz id hid hz'
      rcases mem_toolResults_normalizePairAnswer.mp
        (hfollows.head (by rw [hanswer]; exact List.not_mem_nil) hout) with
        ⟨hmine, -⟩ | ⟨id', hid', rfl⟩
      · exact hapart y hy id (mem_resultIds.mpr ⟨blk, hmine, heq⟩) hmem
      · obtain rfl := Option.some.inj heq
        exact hlost _ (List.mem_append_left _ hid')
          (mem_flatMap_pair.mpr (.inr (.inr (List.mem_flatMap.mpr ⟨y, hy, hmem⟩))))
    · obtain ⟨blk, hblk, heq⟩ := mem_resultIds.mp hmem
      exact not_follows_of_apart (fun id hid => (hhonest id hid).1) hapart hblk heq
        (hrest blk (.inl hblk) id (List.mem_flatMap.mpr ⟨y, hy, hid⟩) heq)
  | lost m queue hm hq ih =>
    have hown : ∀ y ∈ queue, ∀ id ∈ toolUseIds m, id ∉ toolUseIds y :=
      (List.pairwise_cons.mp hcalls).1
    obtain ⟨content, rfl⟩ := eq_assistant_of_toolUseIds hm
    rw [Keeps, settle_lost hm hq, List.flatMap_cons, List.flatMap_cons, List.flatMap_cons,
      resultIds_assistant, toolResults_assistant, List.nil_append, List.nil_append] at h
    refine InPlace.cons (ih hcalls.tail hresults.tail
      ⟨fun id hid => h.1 id (List.mem_append_right _ hid), fun b hb id hid heq => ?_⟩)
      (fun _ _ => rfl) hq
    obtain ⟨y, hy, hy'⟩ := List.mem_flatMap.mp hid
    exact ((h.2 b hb id (List.mem_append_right _ hid) heq).of_cons fun hmem =>
      hown y hy id hmem hy').of_cons List.not_mem_nil

theorem otherBlocks_cons (m : Message) (queue : List Message) :
    otherBlocks (m :: queue)
      = (contentOf m).filter (fun b => !b.isToolResult) ++ otherBlocks queue := by
  rw [otherBlocks, List.flatMap_cons, List.filter_append, otherBlocks]

/-- What is no result is neither lost nor made up. -/
theorem otherBlocks_settle (queue : List Message) :
    (otherBlocks (settle queue).history).Perm (otherBlocks queue) := by
  induction queue using settle_induction with
  | nil => rw [settle]
  | plain m queue hm hr ih =>
    rw [settle_plain hm hr, otherBlocks_cons, otherBlocks_cons]
    exact ih.append_left _
  | stray content queue hany ih =>
    rw [settle_stray hany, otherBlocks_cons]
    dsimp only [contentOf]
    split
    · rename_i hkept
      rw [List.isEmpty_iff.mp hkept, List.nil_append]
      exact ih
    · rw [otherBlocks_cons, contentOf, List.filter_filter]
      simp only [Bool.and_self]
      exact ih.append_left _
  | pair m pre b post hm hpre hb ih =>
    obtain ⟨content', heq, -, hrest⟩ := exists_normalizePairAnswer b (toolUseIds m)
    have hperm : (otherBlocks (pre ++ .user b :: post)).Perm
        (otherBlocks (.user b :: (pre ++ post))) :=
      (List.perm_middle.flatMap_right contentOf).filter _
    rw [settle_pair hm hpre hb, heq, otherBlocks_cons, otherBlocks_cons, otherBlocks_cons m]
    refine List.Perm.append_left _ (List.Perm.trans ?_ hperm.symm)
    rw [otherBlocks_cons, contentOf, contentOf, hrest]
    exact ih.append_left _
  | lost m queue hm hq ih =>
    have hmarkers : ((toolUseIds m).map lostResultBlock).filter (fun b => !b.isToolResult) = [] :=
      List.filter_eq_nil_iff.mpr (by simp)
    rw [settle_lost hm hq, otherBlocks_cons, otherBlocks_cons, otherBlocks_cons m, contentOf,
      hmarkers, List.nil_append]
    exact ih.append_left _

theorem withoutEmpty_cons (m : Message) (queue : List Message) :
    withoutEmpty (m :: queue)
      = if (contentOf m).isEmpty then withoutEmpty queue else m :: withoutEmpty queue := by
  rw [withoutEmpty, List.filter_cons]
  cases (contentOf m).isEmpty <;> rfl

theorem withoutResults_of_toolResults (hm : toolResults m = []) : withoutResults m = m := by
  cases m with
  | assistant content => rfl
  | user content =>
    have hnone := List.filter_eq_nil_iff.mp hm
    exact congrArg Message.user (List.filter_eq_self.mpr fun b hb => by simpa using hnone b hb)

/-- Who answers none of the calls `ids` stays in line. -/
theorem bystanders_settle (queue : List Message) (ids : List String)
    (hids : ∀ id ∈ queue.flatMap toolUseIds, id ∈ ids) :
    (withoutEmpty ((queue.filter fun m => !answersAny m ids).map withoutResults)).Sublist
      (settle queue).history := by
  induction queue using settle_induction with
  | nil => rw [settle]; exact List.Sublist.refl _
  | plain m queue hm hr ih =>
    have hrest := ih fun id hid => hids id (List.mem_append_right _ hid)
    have hm' : answersAny m ids = false := by
      simp [answersAny_eq_false_iff, resultIds_eq_nil_iff.mpr hr]
    rw [settle_plain hm hr, List.filter_cons_of_pos (by simp [hm']), List.map_cons,
      withoutResults_of_toolResults hr, withoutEmpty_cons]
    split
    · exact hrest.cons m
    · exact hrest.cons_cons m
  | stray content queue hany ih =>
    have hrest := ih fun id hid => hids id (List.mem_append_right _ hid)
    rw [settle_stray hany, List.filter_cons]
    dsimp only
    split
    · rw [List.map_cons, withoutResults, withoutEmpty_cons, contentOf]
      split
      · exact hrest
      · exact hrest.cons_cons _
    · split
      · exact hrest
      · exact hrest.cons _
  | pair m pre b post hm hpre hb ih =>
    obtain ⟨content, rfl⟩ := eq_assistant_of_toolUseIds hm
    have hrest := ih fun id hid => hids id (mem_flatMap_pair.mpr (.inr (.inr hid)))
    -- the answer is no bystander
    have hb' : answersAny (.user b) ids = true := by
      obtain ⟨id, hid, hmem⟩ := answersAny_iff.mp hb
      exact answersAny_iff.mpr ⟨id, hids id (mem_flatMap_pair.mpr (.inl hid)), hmem⟩
    have hne : contentOf (.assistant content) ≠ [] := by
      rintro rfl
      exact hm rfl
    rw [settle_pair hm hpre hb, List.filter_cons_of_pos (by simp), List.filter_append,
      List.filter_cons_of_neg (by simp [hb']), ← List.filter_append, List.map_cons,
      withoutResults, withoutEmpty_cons, if_neg (by simpa using hne)]
    exact (hrest.cons _).cons_cons _
  | lost m queue hm hq ih =>
    obtain ⟨content, rfl⟩ := eq_assistant_of_toolUseIds hm
    have hrest := ih fun id hid => hids id (List.mem_append_right _ hid)
    have hne : contentOf (.assistant content) ≠ [] := by
      rintro rfl
      exact hm rfl
    rw [settle_lost hm hq, List.filter_cons_of_pos (by simp), List.map_cons, withoutResults,
      withoutEmpty_cons, if_neg (by simpa using hne)]
    exact (hrest.cons _).cons_cons _

/-! ### The whole repair -/

theorem flatMap_withoutEmpty {α : Type*} {f : Message → List α}
    (hf : ∀ m, contentOf m = [] → f m = []) (history : List Message) :
    (withoutEmpty history).flatMap f = history.flatMap f := by
  induction history with
  | nil => rfl
  | cons m history ih =>
    rw [withoutEmpty_cons, List.flatMap_cons, ← ih]
    split
    · rename_i hempty
      rw [hf m (List.isEmpty_iff.mp hempty), List.nil_append]
    · rfl

theorem toolUseIds_of_empty (h : contentOf m = []) : toolUseIds m = [] := by
  cases m with
  | user content => rfl
  | assistant content =>
    obtain rfl : content = [] := h
    rfl

theorem toolResults_of_empty (h : contentOf m = []) : toolResults m = [] := by
  cases m with
  | assistant content => rfl
  | user content =>
    obtain rfl : content = [] := h
    rfl

theorem countP_withoutEmpty {p : Message → Bool} (hp : ∀ m, contentOf m = [] → p m = false)
    (history : List Message) : (withoutEmpty history).countP p = history.countP p := by
  rw [withoutEmpty, List.countP_filter]
  refine List.countP_congr fun m _ => ?_
  cases hm : contentOf m with
  | nil => simp [hp m hm]
  | cons b content => simp

theorem withoutEmpty_bystanders (p : Message → Bool) (history : List Message) :
    withoutEmpty (((withoutEmpty history).filter p).map withoutResults)
      = withoutEmpty ((history.filter p).map withoutResults) := by
  induction history with
  | nil => rfl
  | cons m history ih =>
    rw [withoutEmpty_cons m, List.filter_cons]
    split
    · rename_i hempty
      have hm : (contentOf (withoutResults m)).isEmpty = true := by
        rw [withoutResults_of_toolResults (toolResults_of_empty (List.isEmpty_iff.mp hempty))]
        exact hempty
      rw [ih]
      split
      · rw [List.map_cons, withoutEmpty_cons (withoutResults m), if_pos hm]
      · rfl
    · rw [List.filter_cons]
      split
      · rw [List.map_cons, List.map_cons, withoutEmpty_cons, withoutEmpty_cons (withoutResults m),
          ih]
      · exact ih

/-- Empty messages are in nobody's way. -/
theorem inPlace_withoutEmpty (history : List Message) :
    InPlace (withoutEmpty history) ↔ InPlace history := by
  have hasks : ∀ m, contentOf m = [] → ∀ x, answersAny x (toolUseIds m) = false :=
    fun m hm x => by rw [toolUseIds_of_empty hm, answersAny_nil]
  have hmute : ∀ x, contentOf x = [] → ∀ m, answersAny x (toolUseIds m) = false := fun x hx m => by
    simp [answersAny_eq_false_iff, resultIds_eq_nil_iff.mpr (toolResults_of_empty hx)]
  have hmem : ∀ m ∈ history, contentOf m = [] ∨ m ∈ withoutEmpty history := fun m hm =>
    or_iff_not_imp_left.mpr fun hne => List.mem_filter.mpr ⟨hm, by simpa using hne⟩
  refine ⟨fun h => ⟨?_, fun m hm => ?_, fun x hx => ?_⟩, fun h => h.sublist List.filter_sublist⟩
  · refine (List.pairwise_filter.mp h.after).imp fun {x y} hxy => ?_
    by_cases hx : contentOf x = []
    · exact hmute x hx y
    by_cases hy : contentOf y = []
    · exact hasks y hy x
    · exact hxy (by simpa using hx) (by simpa using hy)
  · rcases hmem m hm with hempty | hm
    · simp [hasks m hempty]
    · rw [← countP_withoutEmpty fun x hx => hmute x hx m]
      exact h.whole m hm
  · rcases hmem x hx with hempty | hx
    · simp [hmute x hempty]
    · rw [← countP_withoutEmpty fun m hm => hasks m hm x]
      exact h.single x hx

/-- **Results are lost exactly when they are not in place**: split over several messages, in one
with the results of another round, or before their call. -/
theorem keepsResults_iff_inPlace {history : List Message}
    (hcalls : (history.flatMap toolUseIds).Nodup) (hresults : (history.flatMap resultIds).Nodup) :
    KeepsResults history (repairHistory history) ↔ InPlace history := by
  have huses := flatMap_withoutEmpty (fun m => toolUseIds_of_empty (m := m)) history
  have hblocks := flatMap_withoutEmpty (fun m => toolResults_of_empty (m := m)) history
  have hids := flatMap_withoutEmpty
    (fun m hm => resultIds_eq_nil_iff.mpr (toolResults_of_empty (m := m) hm)) history
  have hlost : (repairHistory history).lost = (settle (withoutEmpty history)).lost := by
    rcases repairHistory_eq history with ⟨heq, -⟩ | heq <;> rw [heq]
  have hfollows : ∀ id b, Follows (repairHistory history).history id b ↔
      Follows (settle (withoutEmpty history)).history id b := by
    intro id b
    rcases repairHistory_eq history with ⟨heq, -⟩ | heq
    · rw [heq]
    · rw [heq]
      exact ⟨fun h => h.of_cons List.not_mem_nil, fun h => h.cons _⟩
  have hsublist : (settle (withoutEmpty history)).history.Sublist
      (repairHistory history).history := by
    rcases repairHistory_eq history with ⟨heq, -⟩ | heq
    · rw [heq]
    · rw [heq]
      exact List.sublist_cons_self _ _
  rw [← inPlace_withoutEmpty]
  constructor
  · intro h
    refine inPlace_of_keeps _ (.of_nodup (huses ▸ hcalls)) (.of_nodup (hids ▸ hresults)) ⟨?_, ?_⟩
    · rw [hids, ← hlost]
      exact h.honest
    · rw [huses, hblocks]
      exact fun b hb id hid heq => (hfollows id b).mp (h.kept b hb id hid heq)
  · intro h
    have hkeeps := keeps_of_inPlace _ h
    rw [Keeps, huses, hblocks, hids, ← hlost] at hkeeps
    refine ⟨hkeeps.1, fun b hb id hid heq => (hfollows id b).mpr (hkeeps.2 b hb id hid heq), ?_, ?_⟩
    · have hsame : otherBlocks (withoutEmpty history) = otherBlocks history := by
        rw [otherBlocks, otherBlocks, flatMap_withoutEmpty fun _ hm => hm]
      rw [← hsame]
      exact (otherBlocks_settle _).symm.subperm.trans
        ((hsublist.flatMap contentOf).filter _).subperm
    · rw [bystanders, ← withoutEmpty_bystanders]
      refine (bystanders_settle (withoutEmpty history) _ fun id hid => ?_).trans hsublist
      rwa [huses] at hid

end Lost

/-- A round of one call, and what the user said meanwhile. -/
def interleaved : List Message :=
  [.assistant [.toolUse "a" "read_file" .null], .user [.text "you here?"],
    .user [.toolResult "a" (.string "one") false]]

theorem keepsResults_iff_inPlace_interleaved :
    KeepsResults interleaved (repairHistory interleaved) ↔ InPlace interleaved :=
  keepsResults_iff_inPlace (by decide) (by decide)

/-- A round of two calls whose results were appended one by one. -/
def splitAnswer : List Message :=
  [.user [.text "both, please"],
    .assistant [.toolUse "a" "read_file" .null, .toolUse "b" "read_file" .null],
    .user [.toolResult "a" (.string "one") false], .user [.toolResult "b" (.string "two") false]]

/-- The second result is dropped as a stray, and a marker says that it was never persisted. -/
theorem not_keepsResults : ¬ ∀ history : List Message,
    (history.flatMap toolUseIds).Nodup → (history.flatMap resultIds).Nodup →
      KeepsResults history (repairHistory history) := by
  intro h
  have hlost : (repairHistory splitAnswer).lost = ["b"] := by
    have hround := @settle_pair
      (.assistant [.toolUse "a" "read_file" .null, .toolUse "b" "read_file" .null]) []
      [.user [.toolResult "b" (.string "two") false]] [.toolResult "a" (.string "one") false]
      (by decide) (by simp) (by decide)
    have hsettle : (settle splitAnswer).lost = ["b"] := by
      rw [splitAnswer, settle_plain rfl rfl]
      refine (congrArg Repair.lost hround).trans ?_
      rw [List.nil_append, settle_stray rfl, settle]
      decide
    rcases repairHistory_eq splitAnswer with ⟨heq, -⟩ | heq <;> rw [heq] <;> exact hsettle
  have hhonest := (h splitAnswer (by decide) (by decide)).honest "b" (by simp [hlost])
  exact hhonest (by decide)

end ApexOS.Agentd
