import ApexOS.Agentd.Provider
import ApexOS.Fabrica.Worker
import ApexOS.Lib.Table
import Mathlib.Data.List.Sort

/-!
# The parser of an OpenAI-compatible stream

`sse_to_chunks` in `agentd/crates/agent/src/oai.rs`. The text of the message comes in pieces, and so
do its tool calls, each under an index; whatever there is when the stream ends is emitted then.

## Main definitions

* `Fragment`, `Delta`: what an event holds, as it is read and as it is written
* `apply`, `parser`: what is put together, and what is emitted
* `Call`: a tool call, with its fragments
* `Rendered`: a stream that carries a text and some calls

## Main results

* `get?_run`: what is kept under an index
* `sseToChunks_rendered`: the text of a stream is emitted, and then its calls by index
-/

namespace ApexOS.Agentd.Oai

open Fabrica (trim)
open Sse

/-! ### Events -/

/-- A piece of a tool call. -/
structure Fragment where
  index : UInt64
  id : Option String
  name : Option String
  args : Option String

/-- What an event holds. -/
structure Delta where
  content : Option String
  toolCalls : List Fragment

/-- `val[key].as_str()`. -/
def strField? (val : Json) (key : String) : Option String := (val.get? key).bind Json.asStr

/-- The fragment of an entry. -/
def Fragment.ofJson (tc : Json) : Fragment where
  index := indexField tc
  id := strField? tc "id"
  name := strField? (field tc "function") "name"
  args := strField? (field tc "function") "arguments"

/-- The delta of an event's first choice, if it has one. -/
def Delta.ofJson? (val : Json) : Option Delta :=
  ((field val "choices").asArray.bind List.head?).map fun choice =>
    let delta := field choice "delta"
    { content := strField? delta "content"
      toolCalls := (((delta.get? "tool_calls").bind Json.asArray).getD []).map .ofJson }

/-- A field that may be left out. -/
def optField (key : String) : Option String → List (String × Json)
  | none => []
  | some s => [(key, .string s)]

/-- A fragment as it is written. -/
def Fragment.json (f : Fragment) : Json :=
  .object (("index", .number (.posInt f.index)) :: optField "id" f.id ++
    [("function", .object (optField "name" f.name ++ optField "arguments" f.args))])

/-- A delta as it is written. -/
def Delta.json (d : Delta) : Json :=
  .object [("choices", .array [.object [("delta",
    .object (optField "content" d.content ++
      [("tool_calls", .array (d.toolCalls.map Fragment.json))]))]])]

@[simp] theorem Fragment.ofJson_json (f : Fragment) : ofJson f.json = f := by
  obtain ⟨index, _ | id, _ | name, _ | args⟩ := f <;>
    simp [ofJson, json, optField, strField?, indexField, field, Json.get?, Json.asStr, Json.asU64,
      Json.lookup_cons_eq]

/-- What is written is read. -/
theorem Delta.ofJson?_json (d : Delta) : ofJson? d.json = some d := by
  obtain ⟨_ | content, toolCalls⟩ := d <;>
    simp [ofJson?, json, optField, strField?, field, Json.get?, Json.asStr, Json.asArray,
      Json.lookup_cons_eq, Function.comp_def]

/-! ### The parser -/

/-- `ToolCallState`. -/
structure ToolCallState where
  id : String
  name : String
  args : String

/-- `Default`. -/
def ToolCallState.empty : ToolCallState := ⟨"", "", ""⟩

/-- A fragment is added. -/
def ToolCallState.push (s : ToolCallState) (f : Fragment) : ToolCallState where
  id := f.id.getD s.id
  name := f.name.getD s.name
  args := s.args ++ f.args.getD ""

/-- What has been put together. -/
structure State where
  textBuf : String
  toolCalls : Table UInt64 ToolCallState

/-- `tool_calls.entry(idx).or_default()`, and what is done with the entry. -/
def addFragment (toolCalls : Table UInt64 ToolCallState) (f : Fragment) :
    Table UInt64 ToolCallState :=
  toolCalls.insert f.index (((toolCalls.get? f.index).getD .empty).push f)

/-- What is emitted at once. -/
def Delta.chunks (d : Delta) : List Chunk :=
  match d.content with
  | none => []
  | some text => if text = "" then [] else [.textDelta text]

/-- A delta is handled. -/
def State.apply (s : State) (d : Delta) : State where
  textBuf := s.textBuf ++ d.content.getD ""
  toolCalls := d.toolCalls.foldl addFragment s.toolCalls

section

-- `serde_json::from_str`
variable (fromStr : String → Option Json)

/-- The calls are emitted, those without a name left out, up to one whose input is no JSON. -/
def emitCalls (toolCalls : Table UInt64 ToolCallState) : List UInt64 → List Item
  | [] => [.ok .done]
  | index :: indices =>
    match toolCalls.get? index with
    | none => emitCalls toolCalls indices
    | some tc =>
      if tc.name = "" then emitCalls toolCalls indices
      else
        match toolInput fromStr tc.args with
        | none => [.error .toolInput]
        | some input => .ok (.toolUse tc.id tc.name input) :: emitCalls toolCalls indices

/-- What is emitted when the stream has ended. -/
def State.finish (s : State) : List Item :=
  (if s.textBuf = "" then [] else [.ok (.textBlock s.textBuf)]) ++
    emitCalls fromStr s.toolCalls (s.toolCalls.keys.mergeSort fun a b => decide (a ≤ b))

/-- The parser. -/
def parser : Parser State where
  init := ⟨"", .empty⟩
  onData s data :=
    if trim data = "[DONE]" then ([], .stop s)
    else
      match (fromStr data).bind Delta.ofJson? with
      | none => ([], .next s)
      | some d => (d.chunks.map Except.ok, .next (s.apply d))
  finish := State.finish fromStr

end

/-! ### What is kept under an index -/

/-- The fragments of some deltas. -/
def fragments (deltas : List Delta) : List Fragment := deltas.flatMap Delta.toolCalls

theorem fragments_cons (d : Delta) (deltas : List Delta) :
    fragments (d :: deltas) = d.toolCalls ++ fragments deltas := List.flatMap_cons

/-- What a fragment does to the state under its index. -/
def track (s : Option ToolCallState) (f : Fragment) : Option ToolCallState :=
  some ((s.getD .empty).push f)

theorem get?_foldl_addFragment (toolCalls : Table UInt64 ToolCallState) (fs : List Fragment)
    (i : UInt64) : (fs.foldl addFragment toolCalls).get? i
      = (fs.filter fun f => f.index = i).foldl track (toolCalls.get? i) := by
  induction fs generalizing toolCalls with
  | nil => rfl
  | cons f fs ih =>
    rw [List.foldl_cons, ih, addFragment, Table.get?_insert]
    by_cases hi : f.index = i
    · obtain rfl := hi
      rw [if_pos rfl, List.filter_cons_of_pos (by simp)]
      rfl
    · rw [if_neg (Ne.symm hi), List.filter_cons_of_neg (by simpa using hi)]

/-- **What is kept under an index** is what the fragments of that index have made. -/
theorem get?_run (s : State) (deltas : List Delta) (i : UInt64) :
    (deltas.foldl State.apply s).toolCalls.get? i
      = ((fragments deltas).filter fun f => f.index = i).foldl track (s.toolCalls.get? i) := by
  have hcalls : (deltas.foldl State.apply s).toolCalls
      = (fragments deltas).foldl addFragment s.toolCalls := by
    induction deltas generalizing s with
    | nil => rfl
    | cons d deltas ih =>
      rw [List.foldl_cons, ih, fragments_cons, List.foldl_append]
      rfl
  rw [hcalls, get?_foldl_addFragment]

theorem textBuf_run (s : State) (deltas : List Delta) :
    (deltas.foldl State.apply s).textBuf
      = (deltas.map fun d => d.content.getD "").foldl (· ++ ·) s.textBuf := by
  induction deltas generalizing s with
  | nil => rfl
  | cons d deltas ih =>
    rw [List.foldl_cons, ih]
    rfl

/-! ### Calls and their pieces -/

/-- A tool call, with its fragments. The first one says what is called, and no other says
otherwise. -/
structure Call (fromStr : String → Option Json) where
  index : UInt64
  id : String
  name : String
  input : Json
  first : Fragment
  rest : List Fragment
  named : name ≠ ""
  begins : first.id = some id ∧ first.name = some name
  agrees : ∀ f ∈ rest, (∀ x, f.id = some x → x = id) ∧ ∀ x, f.name = some x → x = name
  indices : ∀ f ∈ first :: rest, f.index = index
  /-- what the pieces of its arguments make -/
  reads : toolInput fromStr (String.join ((first :: rest).map fun f => f.args.getD ""))
    = some input

/-- As it is emitted. -/
def Call.chunk {fromStr : String → Option Json} (c : Call fromStr) : Chunk :=
  .toolUse c.id c.name c.input

theorem foldl_track_rest {id name : String} {fs : List Fragment}
    (h : ∀ f ∈ fs, (∀ x, f.id = some x → x = id) ∧ ∀ x, f.name = some x → x = name)
    (args : String) : fs.foldl track (some ⟨id, name, args⟩)
      = some ⟨id, name, (fs.map fun f => f.args.getD "").foldl (· ++ ·) args⟩ := by
  induction fs generalizing args with
  | nil => rfl
  | cons f fs ih =>
    obtain ⟨⟨hid, hname⟩, hrest⟩ := List.forall_mem_cons.mp h
    have hid' : f.id.getD id = id := by
      cases hf : f.id with
      | none => rfl
      | some x => exact hid x hf
    have hname' : f.name.getD name = name := by
      cases hf : f.name with
      | none => rfl
      | some x => exact hname x hf
    rw [List.foldl_cons]
    show fs.foldl track (some ⟨f.id.getD id, f.name.getD name, args ++ f.args.getD ""⟩) = _
    rw [hid', hname', ih hrest]
    rfl

/-- The fragments of a call make the call. -/
theorem Call.foldl_track {fromStr : String → Option Json} (c : Call fromStr) :
    (c.first :: c.rest).foldl track none = some ⟨c.id, c.name,
      String.join ((c.first :: c.rest).map fun f => f.args.getD "")⟩ := by
  have hfirst : track none c.first = some ⟨c.id, c.name, "" ++ c.first.args.getD ""⟩ := by
    rw [track, Option.getD_none, ToolCallState.push, c.begins.1, c.begins.2]
    rfl
  rw [List.foldl_cons, hfirst, foldl_track_rest c.agrees]
  rfl

/-- The deltas of a text and these calls: the fragments of one call in order, and those of different
calls in any order. -/
structure Interleaved {fromStr : String → Option Json} (text : String)
    (calls : List (Call fromStr)) (deltas : List Delta) : Prop where
  text_eq : String.join (deltas.map fun d => d.content.getD "") = text
  indices : (calls.map Call.index).Nodup
  complete : ∀ c ∈ calls,
    (fragments deltas).filter (fun f => f.index = c.index) = c.first :: c.rest
  known : ∀ f ∈ fragments deltas, ∃ c ∈ calls, c.index = f.index

/-- The calls by index. -/
def byIndex {fromStr : String → Option Json} (calls : List (Call fromStr)) :
    List (Call fromStr) :=
  calls.mergeSort fun a b => decide (a.index ≤ b.index)

namespace Interleaved

variable {fromStr : String → Option Json} {text : String} {calls : List (Call fromStr)}
  {deltas : List Delta}

/-- What is kept when the stream has ended. -/
theorem get?_call (h : Interleaved text calls deltas) {c : Call fromStr} (hc : c ∈ calls) :
    (deltas.foldl State.apply ⟨"", .empty⟩).toolCalls.get? c.index = some ⟨c.id, c.name,
      String.join ((c.first :: c.rest).map fun f => f.args.getD "")⟩ := by
  rw [get?_run, h.complete c hc]
  exact c.foldl_track

/-- There is nothing under any other index. -/
theorem mem_keys_iff (h : Interleaved text calls deltas) (i : UInt64) :
    i ∈ (deltas.foldl State.apply ⟨"", .empty⟩).toolCalls.keys ↔ i ∈ calls.map Call.index := by
  constructor
  · intro hi
    by_contra hnone
    refine Table.get?_eq_none_iff.mp ?_ hi
    have hnil : (fragments deltas).filter (fun f => f.index = i) = [] := by
      refine List.filter_eq_nil_iff.mpr fun f hf hfi => hnone ?_
      obtain ⟨c, hc, hindex⟩ := h.known f hf
      exact List.mem_map.mpr ⟨c, hc, hindex.trans (of_decide_eq_true hfi)⟩
    rw [get?_run, hnil]
    rfl
  · intro hi
    obtain ⟨c, hc, rfl⟩ := List.mem_map.mp hi
    by_contra hnone
    have hget := h.get?_call hc
    rw [Table.get?_eq_none_iff.mpr hnone] at hget
    cases hget

theorem sorted_keys (h : Interleaved text calls deltas) :
    ((deltas.foldl State.apply ⟨"", .empty⟩).toolCalls.keys.mergeSort fun a b => decide (a ≤ b))
      = (byIndex calls).map Call.index := by
  have htrans : ∀ a b c : UInt64, decide (a ≤ b) = true → decide (b ≤ c) = true →
      decide (a ≤ c) = true := fun a b c hab hbc =>
    decide_eq_true (UInt64.le_trans (of_decide_eq_true hab) (of_decide_eq_true hbc))
  have htotal : ∀ a b : UInt64, (decide (a ≤ b) || decide (b ≤ a)) = true := fun a b => by
    simpa using UInt64.le_total a b
  have hperm : (deltas.foldl State.apply ⟨"", .empty⟩).toolCalls.keys.Perm
      (calls.map Call.index) :=
    (List.perm_ext_iff_of_nodup (Table.nodup _) h.indices).mpr h.mem_keys_iff
  rw [byIndex, List.map_mergeSort (s := fun a b => decide (a ≤ b)) fun _ _ _ _ => rfl]
  refine List.Perm.eq_of_pairwise (fun a b _ _ hab hba => ?_)
    (List.pairwise_mergeSort htrans htotal _) (List.pairwise_mergeSort htrans htotal _)
    (((List.mergeSort_perm _ _).trans hperm).trans (List.mergeSort_perm _ _).symm)
  exact UInt64.le_antisymm (of_decide_eq_true hab) (of_decide_eq_true hba)

end Interleaved

/-! ### Streams -/

section

variable {fromStr : String → Option Json}

/-- What a line of the stream says: a delta, or something that is passed over. -/
inductive LineOf (fromStr : String → Option Json) : List Char → Option Delta → Prop
  | delta (text : List Char) (n : ℕ) (d : Delta) : text.getLast? ≠ some '\r' →
      trim (String.ofList text) ≠ "[DONE]" → fromStr (String.ofList text) = some d.json →
      LineOf fromStr ("data: ".toList ++ text ++ List.replicate n '\r') (some d)
  | noChoice (text : List Char) (n : ℕ) (val : Json) : text.getLast? ≠ some '\r' →
      trim (String.ofList text) ≠ "[DONE]" → fromStr (String.ofList text) = some val →
      field val "choices" = .array [] →
      LineOf fromStr ("data: ".toList ++ text ++ List.replicate n '\r') none
  | bare (line : List Char) : ¬ "data: ".toList <+: line → LineOf fromStr line none

/-- The line that ends the message. -/
def doneLine (n : ℕ) : List Char := "data: ".toList ++ "[DONE]".toList ++ List.replicate n '\r'

/-- A stream that carries a text and some calls, up to the end of the message. -/
structure Rendered (fromStr : String → Option Json) (text : String) (calls : List (Call fromStr))
    (bytes : List UInt8) : Prop where
  carries : ∃ lines said n, Begins bytes (lines ++ [doneLine n]) ∧
    List.Forall₂ (LineOf fromStr) lines said ∧ Interleaved text calls (said.filterMap id)

theorem onData_delta {data : String} {d : Delta} (hdone : trim data ≠ "[DONE]")
    (hval : fromStr data = some d.json) (s : State) :
    (parser fromStr).onData s data = (d.chunks.map Except.ok, .next (s.apply d)) := by
  simp only [parser, if_neg hdone, hval, Option.bind_some, Delta.ofJson?_json]

theorem onData_noChoice {data : String} {val : Json} (hdone : trim data ≠ "[DONE]")
    (hval : fromStr data = some val) (hchoices : field val "choices" = .array []) (s : State) :
    (parser fromStr).onData s data = ([], .next s) := by
  have hnone : Delta.ofJson? val = none := by rw [Delta.ofJson?, hchoices]; rfl
  simp only [parser, if_neg hdone, hval, Option.bind_some, hnone]

theorem runLines_of_lineOf {lines : List (List Char)} {said : List (Option Delta)}
    (h : List.Forall₂ (LineOf fromStr) lines said) (s : State) :
    runLines (parser fromStr) s lines = (((said.filterMap id).flatMap Delta.chunks).map Except.ok,
      .next ((said.filterMap id).foldl State.apply s)) := by
  induction h generalizing s with
  | nil => rfl
  | @cons line d lines said hline _ ih =>
    rw [runLines]
    cases hline with
    | delta text n d hret hdone hval =>
      rw [dataOf_data hret]
      dsimp only
      rw [onData_delta hdone hval]
      dsimp only
      rw [ih, List.filterMap_cons_some (show id (some d) = some d from rfl), List.flatMap_cons,
        List.map_append]
      rfl
    | noChoice text n val hret hdone hval hchoices =>
      rw [dataOf_data hret]
      dsimp only
      rw [onData_noChoice hdone hval hchoices]
      exact ih s
    | bare _ hbare =>
      rw [dataOf_bare hbare]
      exact ih s

theorem runLines_doneLine (s : State) (n : ℕ) (more : List (List Char)) :
    runLines (parser fromStr) s (doneLine n :: more) = ([], .stop s) := by
  have hdone : trim (String.ofList "[DONE]".toList) = "[DONE]" := by decide
  have hdata : dataOf (doneLine n) = some (String.ofList "[DONE]".toList) :=
    dataOf_data (by decide) n
  rw [runLines, hdata]
  simp only [parser, if_pos hdone]

/-- The calls are emitted one after another. -/
theorem emitCalls_map {toolCalls : Table UInt64 ToolCallState} {order : List (Call fromStr)}
    (h : ∀ c ∈ order, toolCalls.get? c.index = some ⟨c.id, c.name,
      String.join ((c.first :: c.rest).map fun f => f.args.getD "")⟩) :
    emitCalls fromStr toolCalls (order.map Call.index)
      = (order.map Call.chunk ++ [Chunk.done]).map Except.ok := by
  induction order with
  | nil => rfl
  | cons c order ih =>
    obtain ⟨hc, horder⟩ := List.forall_mem_cons.mp h
    rw [List.map_cons, emitCalls, hc]
    dsimp only
    rw [if_neg c.named, c.reads]
    dsimp only
    rw [ih horder]
    rfl

/-- The text of the message, if it has one. -/
def textChunks (text : String) : List Chunk := if text = "" then [] else [.textBlock text]

/-- What is emitted at the end. -/
theorem Interleaved.finish {text : String} {calls : List (Call fromStr)} {deltas : List Delta}
    (h : Interleaved text calls deltas) :
    State.finish fromStr (deltas.foldl State.apply ⟨"", .empty⟩)
      = (textChunks text ++ (byIndex calls).map Call.chunk ++ [Chunk.done]).map Except.ok := by
  have htext : (deltas.foldl State.apply ⟨"", .empty⟩).textBuf = text := by
    rw [textBuf_run, ← h.text_eq]
    rfl
  have hcalls : ∀ c ∈ byIndex calls, (deltas.foldl State.apply ⟨"", .empty⟩).toolCalls.get? c.index
      = some ⟨c.id, c.name, String.join ((c.first :: c.rest).map fun f => f.args.getD "")⟩ :=
    fun c hc => h.get?_call ((List.mergeSort_perm calls _).mem_iff.mp hc)
  rw [State.finish, htext, h.sorted_keys, emitCalls_map hcalls, List.append_assoc, List.map_append,
    textChunks]
  split <;> simp

theorem filterMap_blockOf_chunks (deltas : List Delta) :
    ((deltas.flatMap Delta.chunks).map Except.ok : List Item).filterMap blockOf = [] := by
  refine List.filterMap_eq_nil_iff.mpr fun item hitem => ?_
  obtain ⟨chunk, hchunk, rfl⟩ := List.mem_map.mp hitem
  obtain ⟨d, -, hd⟩ := List.mem_flatMap.mp hchunk
  rw [Delta.chunks] at hd
  split at hd
  · cases hd
  · split at hd
    · cases hd
    · obtain rfl := List.mem_singleton.mp hd
      rfl

theorem filterMap_blockOf_blocks (text : String) (calls : List (Call fromStr)) :
    ((textChunks text ++ calls.map Call.chunk).map Except.ok : List Item).filterMap blockOf
      = textChunks text ++ calls.map Call.chunk := by
  have hcalls : ((calls.map Call.chunk).map Except.ok : List Item).filterMap blockOf
      = calls.map Call.chunk := by
    induction calls with
    | nil => rfl
    | cons c calls ih => exact congrArg (c.chunk :: ·) ih
  rw [List.map_append, List.filterMap_append, hcalls, textChunks]
  split <;> rfl

/-- **Nothing is lost**: the text of a stream is emitted, and then its calls by index. -/
theorem sseToChunks_rendered {text : String} {calls : List (Call fromStr)}
    {chunks : List (List UInt8)} (h : Rendered fromStr text calls chunks.flatten) :
    ∃ emitted : List Chunk,
      sseToChunks (parser fromStr) chunks = (emitted ++ [Chunk.done]).map Except.ok ∧
      (emitted.map Except.ok).filterMap blockOf
        = textChunks text ++ (byIndex calls).map Call.chunk := by
  obtain ⟨lines, said, n, hbegins, hlines, hsaid⟩ := h.carries
  obtain ⟨more, hmore⟩ := hbegins.linesOf
  refine ⟨(said.filterMap id).flatMap Delta.chunks ++ (textChunks text
    ++ (byIndex calls).map Call.chunk), ?_, ?_⟩
  · rw [sseToChunks_eq, hmore, List.append_assoc, runLines_append, runLines_of_lineOf hlines]
    dsimp only
    rw [List.singleton_append, runLines_doneLine]
    show (_ ++ []) ++
      State.finish fromStr ((said.filterMap id).foldl State.apply ⟨"", .empty⟩) = _
    rw [List.append_nil, hsaid.finish, ← List.map_append]
    simp only [List.append_assoc]
  · rw [List.map_append, List.filterMap_append, filterMap_blockOf_chunks,
      filterMap_blockOf_blocks]
    rfl

end

end ApexOS.Agentd.Oai
