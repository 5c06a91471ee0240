import ApexOS.Lib.Incremental
import ApexOS.Lib.Json
import Mathlib.Data.List.DropRight

/-!
# Providers

`agentd/crates/agent/src/provider.rs`: what a provider streams to the turn loop. And the loop of
`sse_to_chunks` in `anthropic.rs` and `oai.rs`: both read the network's chunks in one way, and
differ only in what they make of a line's data. Bytes are decoded as far as they are characters, the
rest is carried over; text is taken line by line, the rest is kept. Errors of the network are left
out.

## Main definitions

* `Chunk`: one streamed event
* `Parser`: what the two make of a line's data, and of the end
* `sseToChunks`: the loop
* `linesOf`: the lines of a whole stream

## Main results

* `sseToChunks_eq`: the loop is the parser run over the lines of all that came
* `sseToChunks_flatten`: so it does not matter how the stream is cut
-/

namespace ApexOS.Agentd

open Incremental

/-- `Chunk`. -/
inductive Chunk
  | textDelta (delta : String)
  | thinkingDelta (delta : String)
  | textBlock (text : String)
  | thinkingBlock (thinking signature : String)
  | toolUse (id name : String) (input : Json)
  | done

namespace Sse

/-- What makes the stream of chunks end in an error. -/
inductive StreamError
  /-- the input of a tool is not JSON -/
  | toolInput

/-- An item of the stream. -/
abbrev Item := Except StreamError Chunk

/-- How it goes on after a line. -/
inductive Flow (σ : Type)
  | next (s : σ)
  /-- the rest of the stream is not looked at -/
  | stop (s : σ)
  /-- an error was the last item -/
  | fail

/-- What a provider makes of its stream. -/
structure Parser (σ : Type) where
  init : σ
  /-- the data of a line -/
  onData : σ → String → List Item × Flow σ
  /-- the end of the stream -/
  finish : σ → List Item

variable {σ : Type} (p : Parser σ)

/-- The data of a line, without the carriage returns at its end. -/
def dataOf (line : List Char) : Option String :=
  (List.isPrefixOf? "data: ".toList (line.rdropWhile (· = '\r'))).map String.ofList

/-- The inner loop, over the lines that are complete. -/
def runLines : σ → List (List Char) → List Item × Flow σ
  | s, [] => ([], .next s)
  | s, line :: lines =>
    match dataOf line with
    | none => runLines s lines
    | some data =>
      match p.onData s data with
      | (items, .next s') =>
        let r := runLines s' lines
        (items ++ r.1, r.2)
      | r => r

/-- What is kept between two network chunks. -/
structure Stream (σ : Type) where
  carry : List UInt8
  buf : List Char
  state : σ

namespace Stream

/-- What is read after some bytes have come: lines, and what is left over. -/
def readBytes (st : Stream σ) (bytes : List UInt8) : List (List Char) × List UInt8 × List Char :=
  let (text, carry) := utf8.read (st.carry ++ bytes)
  let (lines, buf) := (upTo '\n').read (st.buf ++ text)
  (lines, carry, buf)

/-- The lines that have come with some bytes. -/
def lines (st : Stream σ) (bytes : List UInt8) : List (List Char) := (st.readBytes bytes).1

/-- And what is kept. -/
def after (st : Stream σ) (bytes : List UInt8) (s : σ) : Stream σ :=
  ⟨(st.readBytes bytes).2.1, (st.readBytes bytes).2.2, s⟩

end Stream

/-- The outer loop. After a stop it ends, whether the network has more or not. -/
def loop : Stream σ → List (List UInt8) → List Item
  | st, [] => p.finish st.state
  | st, bytes :: chunks =>
    match runLines p st.state (st.lines bytes) with
    | (items, .next s) => items ++ loop (st.after bytes s) chunks
    | (items, .stop s) => items ++ p.finish s
    | (items, .fail) => items

/-- `sse_to_chunks`. -/
def sseToChunks (chunks : List (List UInt8)) : List Item := loop p ⟨[], [], p.init⟩ chunks

/-! ### What both providers read -/

/-- `val[key].as_str().unwrap_or("")`. -/
def strField (val : Json) (key : String) : String := ((val.get? key).bind Json.asStr).getD ""

/-- `val["index"].as_u64().unwrap_or(0)`. -/
def indexField (val : Json) : UInt64 := ((val.get? "index").bind Json.asU64).getD 0

/-- `val[key]`. -/
def field (val : Json) (key : String) : Json := (val.get? key).getD .null

/-- The input of a tool, from the JSON that was put together for it. -/
def toolInput (fromStr : String → Option Json) (json : String) : Option Json :=
  if json = "" then some (.object []) else fromStr json

/-- A complete block among what is emitted. -/
def blockOf : Item → Option Chunk
  | .ok (.textBlock text) => some (.textBlock text)
  | .ok (.thinkingBlock thinking signature) => some (.thinkingBlock thinking signature)
  | .ok (.toolUse id name input) => some (.toolUse id name input)
  | _ => none

/-! ### Cutting -/

/-- The lines are run, and then the end comes. -/
def conclude : List Item × Flow σ → List Item
  | (items, .next s) => items ++ p.finish s
  | (items, .stop s) => items ++ p.finish s
  | (items, .fail) => items

variable {p}

theorem runLines_append (s : σ) (lines more : List (List Char)) :
    runLines p s (lines ++ more) =
      match runLines p s lines with
      | (items, .next s') => (items ++ (runLines p s' more).1, (runLines p s' more).2)
      | r => r := by
  induction lines generalizing s with
  | nil => rfl
  | cons line lines ih =>
    rw [List.cons_append, runLines, runLines]
    cases dataOf line with
    | none => exact ih s
    | some data =>
      dsimp only
      rcases p.onData s data with ⟨items, s' | s' | _⟩
      · dsimp only
        rw [ih s']
        rcases runLines p s' lines with ⟨items', s'' | s'' | _⟩
        · simp
        · rfl
        · rfl
      · rfl
      · rfl

namespace Stream

/-- Nothing that is kept is a character, or a line, by itself. -/
def Settled (st : Stream σ) : Prop := utf8.next st.carry = none ∧ (upTo '\n').next st.buf = none

theorem settled_after (st : Stream σ) (bytes : List UInt8) (s : σ) :
    (st.after bytes s).Settled :=
  ⟨Reader.next_read utf8 _, Reader.next_read (upTo '\n') _⟩

/-- The lines of what comes in two steps. -/
theorem lines_append (st : Stream σ) (bytes more : List UInt8) (s : σ) :
    st.lines (bytes ++ more) = st.lines bytes ++ (st.after bytes s).lines more := by
  show ((upTo '\n').read (st.buf ++ (utf8.read (st.carry ++ (bytes ++ more))).1)).1 = _
  rw [← List.append_assoc, Reader.read_append utf8]
  dsimp only
  rw [← List.append_assoc, Reader.read_append (upTo '\n')]
  rfl

theorem Settled.lines_nil {st : Stream σ} (h : st.Settled) : st.lines [] = [] := by
  show ((upTo '\n').read (st.buf ++ (utf8.read (st.carry ++ [])).1)).1 = []
  rw [List.append_nil, Reader.read_of_none h.1, List.append_nil, Reader.read_of_none h.2]

end Stream

theorem loop_eq {st : Stream σ} (h : st.Settled) (chunks : List (List UInt8)) :
    loop p st chunks = conclude p (runLines p st.state (st.lines chunks.flatten)) := by
  induction chunks generalizing st with
  | nil =>
    rw [List.flatten_nil, h.lines_nil]
    rfl
  | cons bytes chunks ih =>
    rw [loop, List.flatten_cons]
    cases hrun : runLines p st.state (st.lines bytes) with
    | mk items flow =>
      cases flow with
      | next s =>
        rw [st.lines_append bytes chunks.flatten s, runLines_append, hrun]
        dsimp only
        rw [ih (st.settled_after bytes s)]
        show items ++ conclude p (runLines p s _) = _
        cases runLines p s ((st.after bytes s).lines chunks.flatten) with
        | mk items' flow => cases flow <;> simp [conclude]
      | stop s =>
        rw [st.lines_append bytes chunks.flatten s, runLines_append, hrun]
        rfl
      | fail =>
        rw [st.lines_append bytes chunks.flatten st.state, runLines_append, hrun]
        rfl

/-- The lines of a whole stream. -/
def linesOf (bytes : List UInt8) : List (List Char) :=
  ((upTo '\n').read (utf8.read bytes).1).1

/-- **The loop is the parser run over the lines of all that came.** -/
theorem sseToChunks_eq (p : Parser σ) (chunks : List (List UInt8)) :
    sseToChunks p chunks = conclude p (runLines p p.init (linesOf chunks.flatten)) :=
  loop_eq ⟨rfl, rfl⟩ chunks

/-- **It does not matter how the stream is cut.** -/
theorem sseToChunks_flatten (p : Parser σ) {chunks chunks' : List (List UInt8)}
    (h : chunks.flatten = chunks'.flatten) : sseToChunks p chunks = sseToChunks p chunks' := by
  rw [sseToChunks_eq, sseToChunks_eq, h]

/-! ### What a line carries -/

/-- The data of a line of an event stream, whatever returns stand at its end. -/
theorem dataOf_data {text : List Char} (h : text.getLast? ≠ some '\r') (n : ℕ) :
    dataOf ("data: ".toList ++ text ++ List.replicate n '\r') = some (String.ofList text) := by
  have hlast : ∀ hl : "data: ".toList ++ text ≠ [],
      ¬ decide (("data: ".toList ++ text).getLast hl = '\r') = true := by
    intro hl
    rw [decide_eq_true_eq]
    by_cases htext : text = []
    · subst htext
      revert hl
      decide
    · rw [List.getLast_append_of_ne_nil _ htext]
      intro hret
      exact h (by rw [List.getLast?_eq_some_getLast htext, hret])
  have htrim : (("data: ".toList ++ text) ++ List.replicate n '\r').rdropWhile (· = '\r')
      = "data: ".toList ++ text := by
    induction n with
    | zero =>
      rw [List.replicate_zero, List.append_nil]
      exact List.rdropWhile_eq_self_iff.mpr hlast
    | succ n ih =>
      rw [List.replicate_succ', ← List.append_assoc, List.rdropWhile_concat_pos _ _ _ (by simp)]
      exact ih
  rw [dataOf, htrim, List.isPrefixOf?_eq_some_iff_append_eq.mpr rfl]
  rfl

/-- Other lines of an event stream carry none. -/
theorem dataOf_bare {line : List Char} (h : ¬ "data: ".toList <+: line) : dataOf line = none := by
  rw [dataOf, Option.map_eq_none_iff]
  refine Option.eq_none_iff_forall_ne_some.mpr fun rest hrest => h ?_
  have heq := List.isPrefixOf?_eq_some_iff_append_eq.mp hrest
  exact (heq ▸ List.prefix_append _ rest : "data: ".toList <+: _).trans (List.rdropWhile_prefix _ _)

/-- A stream that begins with these lines. -/
structure Begins (bytes : List UInt8) (lines : List (List Char)) : Prop where
  noNewline : ∀ line ∈ lines, '\n' ∉ line
  bytes_eq : ∃ rest, bytes = encode (lines.flatMap fun line => line ++ ['\n']) ++ rest

/-- Its lines are read, and then whatever follows. -/
theorem Begins.linesOf {bytes : List UInt8} {lines : List (List Char)} (h : Begins bytes lines) :
    ∃ more, linesOf bytes = lines ++ more := by
  obtain ⟨rest, rfl⟩ := h.bytes_eq
  rw [Sse.linesOf, utf8_read_encode, upTo_read_flatMap h.noNewline]
  exact ⟨_, rfl⟩

end Sse

end ApexOS.Agentd
