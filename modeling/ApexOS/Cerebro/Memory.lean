import ApexOS.Cerebro.Types
import ApexOS.Lib.Json

/-!
# Memories, as rows and as nodes

`MemoryNode` of `cerebro/crates/cerebro/src/models/memory.rs`, and `RawMemoryRow` of
`storage/sqlite.rs`, which is what a query hands out: texts and numbers. A row is read into a node
column by column, and the first column that does not parse is the error.

What the libraries for JSON and for times do, and the casts between machine numbers, is a parameter.

## Main definitions

* `MemoryType`, `MemoryLayer`, `EmotionalValence`: the enumerations, by the names they are stored
  under
* `MemoryNode`, `RawMemoryRow`
* `Codec`: the libraries
* `RawMemoryRow.intoMemoryNode`: a row is read
-/

namespace ApexOS.Cerebro

/-- `MemoryType`. -/
inductive MemoryType
  | episodic
  | semantic
  | procedural
  | affective
  | prospective
  | schematic
  deriving DecidableEq, Repr

/-- `MemoryLayer`. -/
inductive MemoryLayer
  | sensory
  | working
  | longTerm
  | cortex
  deriving DecidableEq, Repr

/-- `EmotionalValence`. -/
inductive EmotionalValence
  | positive
  | negative
  | neutral
  | mixed
  deriving DecidableEq, Repr

def MemoryType.str : MemoryType → String
  | episodic => "episodic"
  | semantic => "semantic"
  | procedural => "procedural"
  | affective => "affective"
  | prospective => "prospective"
  | schematic => "schematic"

def MemoryLayer.str : MemoryLayer → String
  | sensory => "sensory"
  | working => "working"
  | longTerm => "long_term"
  | cortex => "cortex"

def EmotionalValence.str : EmotionalValence → String
  | positive => "positive"
  | negative => "negative"
  | neutral => "neutral"
  | mixed => "mixed"

def Visibility.str : Visibility → String
  | priv => "private"
  | shared => "shared"
  | thread => "thread"

/-- The names of the variants, in the order of the source. -/
def variants {α : Type} (str : α → String) (all : List α) : List (String × α) :=
  all.map fun a => (str a, a)

def MemoryType.variants : List (String × MemoryType) :=
  Cerebro.variants str [episodic, semantic, procedural, affective, prospective, schematic]

def MemoryLayer.variants : List (String × MemoryLayer) :=
  Cerebro.variants str [sensory, working, longTerm, cortex]

def EmotionalValence.variants : List (String × EmotionalValence) :=
  Cerebro.variants str [positive, negative, neutral, mixed]

def Visibility.variants : List (String × Visibility) :=
  Cerebro.variants str [priv, shared, thread]

/-- `StrengthState`. -/
structure StrengthState where
  stability : ℚ
  difficulty : ℚ
  lastReview : Option DateTime
  deriving DecidableEq, Repr

/-- `MemoryNode`. -/
structure MemoryNode where
  id : MemoryId
  content : String
  memoryType : MemoryType
  layer : MemoryLayer
  salience : ℚ
  tags : List String
  agentId : Option AgentId
  visibility : Visibility
  threadId : Option String
  emotionalValence : Option EmotionalValence
  emotionalIntensity : ℚ
  createdAt : DateTime
  updatedAt : DateTime
  accessCount : ℕ
  accessTimes : List DateTime
  strength : StrengthState
  metadata : Json

/-- `RawMemoryRow`. -/
structure RawMemoryRow where
  id : String
  content : String
  memoryType : String
  layer : String
  salience : ℚ
  tags : String
  agentId : Option String
  visibility : String
  threadId : Option String
  emotionalValence : Option String
  emotionalIntensity : ℚ
  createdAt : String
  updatedAt : String
  accessCount : ℤ
  accessTimes : String
  fsrsStability : ℚ
  fsrsDifficulty : ℚ
  fsrsLastReview : Option String
  metadata : String
  deriving DecidableEq, Repr

/-- What is read from texts, and the cast to single precision. -/
structure Codec where
  /-- the text between quotes, as a JSON string -/
  unquote : String → Except String String
  unknownVariant : String → List String → String
  strings : String → Except String (List String)
  times : String → Except String (List DateTime)
  json : String → Except String Json
  parseFromRfc3339 : String → Except String DateTime
  single : ℚ → ℚ

namespace Codec

/-- `str_to_enum`. -/
def strToEnum {α : Type} (c : Codec) (variants : List (String × α)) (s : String) :
    Except String α := do
  let name ← c.unquote s
  match variants.lookup name with
  | some a => pure a
  | none => throw (c.unknownVariant name (variants.map Prod.fst))

end Codec

/-- `into_memory_node`. -/
def RawMemoryRow.intoMemoryNode (c : Codec) (row : RawMemoryRow) : Except String MemoryNode := do
  let memoryType ← c.strToEnum MemoryType.variants row.memoryType
  let layer ← c.strToEnum MemoryLayer.variants row.layer
  let tags ← c.strings row.tags
  let visibility ← c.strToEnum Visibility.variants row.visibility
  let emotionalValence ← row.emotionalValence.mapM (c.strToEnum EmotionalValence.variants)
  let createdAt ← c.parseFromRfc3339 row.createdAt
  let updatedAt ← c.parseFromRfc3339 row.updatedAt
  let accessTimes ← c.times row.accessTimes
  let lastReview ← row.fsrsLastReview.mapM c.parseFromRfc3339
  let metadata ← c.json row.metadata
  pure
    { id := row.id
      content := row.content
      memoryType
      layer
      salience := c.single row.salience
      tags
      agentId := row.agentId
      visibility
      threadId := row.threadId
      emotionalValence
      emotionalIntensity := c.single row.emotionalIntensity
      createdAt
      updatedAt
      accessCount := (row.accessCount % 2 ^ 32).toNat
      accessTimes
      strength := ⟨c.single row.fsrsStability, c.single row.fsrsDifficulty, lastReview⟩
      metadata }

end ApexOS.Cerebro
