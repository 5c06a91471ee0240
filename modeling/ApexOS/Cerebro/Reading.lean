import ApexOS.Cerebro.Graph
import ApexOS.Cerebro.Memory
import Mathlib.Data.List.Forall2

/-!
# What is read, and by whom

The calls of `cerebro-mcp/src/dispatch.rs` that read memories without the full-text index, and the
statements of `storage/sqlite.rs` behind them. A call carries the id of its agent, from which the
scope comes that each statement is to apply by itself.

The order in which the database hands out rows that a statement leaves unordered is a parameter, a
function of these rows; so are the functions of SQLite on texts. A limit is cast to a signed word,
and a negative one is none.

## Main definitions

* `Store`, `Store.select`: the tables; the rows of memories that a scope and a test let through
* `ReadTool`, `Store.read`: the calls and their replies
* `Store.DifferIn`: two stores that differ in what is private to one agent

## Main results

* `Store.select_eq`: a statement under another agent's scope answers alike
* `reads_alike_iff`: all replies are alike but those of one call
* `not_reads_alike`: the versions of a private memory are read by another agent
-/

namespace ApexOS.Cerebro.Reading

/-! ### Tables -/

/-- A row of `memories`. -/
structure StoredMemory where
  raw : RawMemoryRow
  deletedAt : Option String
  deriving DecidableEq, Repr

/-- A row of `memory_versions`. -/
structure VersionRow where
  id : ℤ
  memoryId : String
  content : String
  tagsJson : String
  salience : ℚ
  visibility : String
  editedBy : Option String
  editedAt : String
  changeNote : Option String
  deriving DecidableEq, Repr

/-- A row of `agents`. -/
structure AgentRow where
  id : String
  name : String
  description : Option String
  registeredAt : String
  lastSeen : Option String
  metadata : String
  deriving DecidableEq, Repr

/-- A row of `episodes`. -/
structure EpisodeRow where
  id : String
  title : Option String
  agentId : Option String
  threadId : Option String
  startedAt : String
  endedAt : Option String
  summary : Option String
  memoryIds : String
  deriving DecidableEq, Repr

/-- A row of `episode_steps`. -/
structure StepRow where
  episodeId : String
  memoryId : Option String
  deriving DecidableEq, Repr

/-- The tables that are read, and the graph in memory. -/
structure Store (γ : Type*) where
  memories : List StoredMemory
  versions : List VersionRow
  agents : List AgentRow
  episodes : List EpisodeRow
  steps : List StepRow
  graph : GraphStore γ

/-- The database's own doing: the order of rows, the values of a JSON array, the month of a time. -/
structure Engine where
  scan : ∀ {α : Type}, List α → List α
  scan_perm : ∀ {α : Type} (l : List α), (scan l).Perm l
  jsonEach : String → Except String (List String)
  month : String → Option String

/-- How values are written into a reply. -/
structure Wire where
  /-- a float -/
  num : ℚ → Json
  round2 : ℚ → ℚ
  time : DateTime → String
  rfc3339 : DateTime → String
  asF64 : JsonNumber → ℚ

/-- The libraries, and the graph's. -/
structure Libs (γ : Type*) where
  codec : Codec
  engine : Engine
  wire : Wire
  graph : CompactDigraph γ MemoryId AssociativeLink

/-! ### Statements -/

/-- `LIMIT`, of an unsigned word that is cast. -/
def limited {α : Type} (n : UInt64) (l : List α) : List α :=
  if n.toNat < 2 ^ 63 then l.take n.toNat else l

/-- `OFFSET`. -/
def offset {α : Type} (n : UInt64) (l : List α) : List α :=
  if n.toNat < 2 ^ 63 then l.drop n.toNat else l

/-- `sql_filter`, on the columns. -/
def admits (scope : VisibilityScope) (row : StoredMemory) : Bool :=
  if scope.sharedOnly then row.raw.visibility == "shared"
  else match scope.agentId with
    | none => true
    | some id => row.raw.visibility == "shared" ||
      (row.raw.visibility == "private" && row.raw.agentId == some id)

def StoredMemory.live (row : StoredMemory) : Bool := row.deletedAt.isNone

/-- `ListFilter`. -/
structure ListFilter where
  memoryType : Option MemoryType
  limit : UInt64
  offset : UInt64
  includeDeleted : Bool

/-- A character of a `LIKE` pattern. -/
inductive LikeToken
  | any
  | one
  | lit (c : Char)
  deriving DecidableEq, Repr

/-- A pattern with its escapes. -/
def likeTokens : List Char → List LikeToken
  | [] => []
  | '\\' :: c :: rest => .lit c :: likeTokens rest
  | '%' :: rest => .any :: likeTokens rest
  | '_' :: rest => .one :: likeTokens rest
  | c :: rest => .lit c :: likeTokens rest

/-- `LIKE`: letters of the basic alphabet match in either case. -/
def like : List LikeToken → List Char → Bool
  | [], s => s.isEmpty
  | .any :: ts, s => s.tails.any (like ts)
  | .one :: _, [] => false
  | .one :: ts, _ :: s => like ts s
  | .lit _ :: _, [] => false
  | .lit c :: ts, d :: s => c.toLower == d.toLower && like ts s

/-- A tag as it stands in the array, with the characters of patterns escaped. -/
def tagPattern (tag : String) : List Char :=
  '%' :: '"' :: tag.toList.flatMap (fun c =>
    if c = '\\' ∨ c = '%' ∨ c = '_' then ['\\', c] else [c]) ++ ['"', '%']

namespace Store

variable {γ : Type*} (L : Libs γ) (s : Store γ)

/-- The rows of memories that a scope lets through and that pass a test. -/
def select (scope : VisibilityScope) (p : StoredMemory → Bool) : List StoredMemory :=
  L.engine.scan (s.memories.filter fun row => admits scope row && p row)

/-- Rows are read into nodes. -/
def nodes (rows : List StoredMemory) : Except String (List MemoryNode) :=
  rows.mapM fun row => row.raw.intoMemoryNode L.codec

/-- `get_memory`. -/
def getMemory (id : String) (scope : VisibilityScope) : Except String (Option MemoryNode) :=
  match s.select L scope fun row => row.raw.id == id && row.live with
  | [] => pure none
  | row :: _ => some <$> row.raw.intoMemoryNode L.codec

/-- `get_memories_by_ids`. -/
def getMemoriesByIds (ids : List MemoryId) (scope : VisibilityScope) :
    Except String (List MemoryNode) :=
  if ids.isEmpty then pure []
  else nodes L (s.select L scope fun row => ids.contains row.raw.id && row.live)

/-- `list_memories_scoped`. -/
def listMemoriesScoped (scope : VisibilityScope) (filter : ListFilter) :
    Except String (List MemoryNode) :=
  let rows := s.select L scope fun row => (filter.includeDeleted || row.live) &&
    filter.memoryType.all fun t => row.raw.memoryType == t.str
  nodes L (limited filter.limit (offset filter.offset (rows.mergeSort fun x y =>
    y.raw.salience < x.raw.salience ||
      (x.raw.salience == y.raw.salience && !decide (x.raw.createdAt < y.raw.createdAt)))))

/-- `list_deleted_memories`. -/
def listDeletedMemories (scope : VisibilityScope) (limit : UInt64) :
    Except String (List MemoryNode) :=
  let rows := s.select L scope fun row => !row.live
  nodes L (limited limit (rows.mergeSort fun x y =>
    !decide (x.deletedAt.getD "" < y.deletedAt.getD "")))

/-- `find_by_tags`. -/
def findByTags (scope : VisibilityScope) (tags : List String) (limit : UInt64) :
    Except String (List MemoryNode) :=
  if tags.isEmpty then pure []
  else
    let rows := s.select L scope fun row => row.live &&
      tags.all fun tag => like (likeTokens (tagPattern tag)) row.raw.tags.toList
    nodes L (limited limit (rows.mergeSort fun x y => !decide (x.raw.createdAt < y.raw.createdAt)))

/-- `list_threads`. -/
def listThreads (scope : VisibilityScope) : List String :=
  let rows := s.select L scope fun row => row.live && row.raw.threadId.isSome
  ((rows.filterMap fun row => row.raw.threadId).mergeSort fun x y => !decide (y < x)).dedup

/-- `get_thread_memories`. -/
def getThreadMemories (threadId : String) (scope : VisibilityScope) :
    Except String (List MemoryNode) :=
  let rows := s.select L scope fun row => row.live && row.raw.threadId == some threadId
  nodes L (rows.mergeSort fun x y => !decide (y.raw.createdAt < x.raw.createdAt))

/-- How often each value stands in a list. -/
def counts {α : Type} [DecidableEq α] (l : List α) : List (α × ℕ) :=
  l.dedup.map fun a => (a, l.count a)

/-- `list_tags`. -/
def listTags (scope : VisibilityScope) : Except String (List (String × ℕ)) := do
  let rows := s.select L scope fun row => row.live
  let values ← rows.mapM fun row => L.engine.jsonEach row.raw.tags
  pure ((L.engine.scan (counts values.flatten)).mergeSort fun x y => y.2 ≤ x.2)

/-- `activation_heatmap`: how many memories there are of each type and month. -/
def activationHeatmap (scope : VisibilityScope) : Except String (List ((String × String) × ℕ)) := do
  let rows := s.select L scope fun row => row.live
  let keys ← rows.mapM fun row =>
    match L.engine.month row.raw.createdAt with
    | some month => pure (row.raw.memoryType, month)
    | none => throw "Invalid column type Null at index: 1, name: month"
  pure ((L.engine.scan (counts keys)).mergeSort fun x y => !decide (y.1.2 < x.1.2))

/-- `retrievability`, of `activation/fsrs.rs`. -/
def retrievability (elapsedDays stability : ℚ) : ℚ :=
  if stability ≤ 0 then 0
  else if elapsedDays ≤ 0 then 1
  else (1 + elapsedDays / (9 * stability))⁻¹

/-- What `activation_at_risk` says of a memory. -/
structure AtRisk where
  id : String
  content : String
  retrievability : ℚ
  stability : ℚ
  salience : ℚ
  memoryType : String

/-- `activation_at_risk`. -/
def activationAtRisk (now : DateTime) (scope : VisibilityScope) (threshold : ℚ) (limit : UInt64) :
    List AtRisk :=
  let rows := s.select L scope fun row => row.live && row.raw.fsrsLastReview.isSome
  let atRisk := rows.filterMap fun row =>
    match L.codec.parseFromRfc3339 (row.raw.fsrsLastReview.getD "") with
    | .ok lastReview =>
      let days : ℚ := (now - lastReview).tdiv (10 ^ 9) / 86400
      let r := retrievability (max days 0) (L.codec.single row.raw.fsrsStability)
      if r < threshold then
        some ⟨row.raw.id, row.raw.content, r, L.codec.single row.raw.fsrsStability,
          L.codec.single row.raw.salience, row.raw.memoryType⟩
      else none
    | .error _ => none
  (atRisk.mergeSort fun x y => x.retrievability ≤ y.retrievability).take limit.toNat

/-- `list_agents`. -/
def listAgents : List AgentRow :=
  (L.engine.scan s.agents).mergeSort fun x y => !decide (y.name < x.name)

/-- `list_episodes`. -/
def listEpisodes (agentId : Option String) (limit : UInt64) : List EpisodeRow :=
  limited limit ((L.engine.scan (s.episodes.filter fun row =>
    agentId.all fun id => row.agentId == some id)).mergeSort fun x y =>
      !decide (x.startedAt < y.startedAt))

/-- `get_episode_memory_ids`. -/
def getEpisodeMemoryIds (episodeId : String) : List MemoryId :=
  let stored := match s.episodes.find? fun row => row.id == episodeId with
    | some row => row.memoryIds
    | none => "[]"
  let ids := (L.codec.strings stored).toOption.getD []
  let ofSteps := (L.engine.scan (s.steps.filter fun row => row.episodeId == episodeId)).filterMap
    StepRow.memoryId
  (ids ++ ofSteps).dedup

/-- `get_memory_versions_raw`: whoever asks. -/
def getMemoryVersionsRaw (memoryId : String) (limit : UInt64) : List VersionRow :=
  limited limit ((L.engine.scan (s.versions.filter fun row =>
    row.memoryId == memoryId)).mergeSort fun x y => !decide (x.editedAt < y.editedAt))

/-- `neighbors`, of the graph. -/
def neighbors (id : MemoryId) : List MemoryId :=
  match s.graph.index.get? id with
  | some i => ((L.graph.edges s.graph.graph).filter fun x => x.1 = i).filterMap fun x =>
    (L.graph.nodes s.graph.graph)[x.2.1]?
  | none => []

/-- `get_common_neighbors`. -/
def getCommonNeighbors (a b : MemoryId) : List MemoryId :=
  ((s.neighbors L a).filter fun id => (s.neighbors L b).contains id).dedup

end Store

/-! ### Replies -/

/-- A value, or null. -/
def orNull {α : Type} (f : α → Json) : Option α → Json
  | some a => f a
  | none => .null

def natJson (n : ℕ) : Json := .number (.posInt (UInt64.ofNat n))

def strings (l : List String) : Json := .array (l.map .string)

/-- `wire_node`. -/
def wireNode (w : Wire) (n : MemoryNode) : Json :=
  .object ([("id", .string n.id), ("content", .string n.content),
    ("memory_type", .string n.memoryType.str), ("layer", .string n.layer.str),
    ("salience", w.num (w.round2 n.salience)), ("tags", strings n.tags),
    ("agent_id", orNull .string n.agentId), ("visibility", .string n.visibility.str),
    ("created_at", .string (w.time n.createdAt)), ("updated_at", .string (w.time n.updatedAt)),
    ("access_count", natJson n.accessCount)] ++
    (n.threadId.toList.map fun t => ("thread_id", .string t)) ++
    (n.emotionalValence.toList.flatMap fun v => [("emotional_valence", .string v.str),
      ("emotional_intensity", w.num (w.round2 n.emotionalIntensity))]) ++
    match n.metadata with
    | .null => []
    | metadata => [("metadata", metadata)])

def wireNodes (w : Wire) (nodes : List MemoryNode) : Json := .array (nodes.map (wireNode w))

def summaryHeadChars : ℕ := 200

/-- `wire_summary`. -/
def wireSummary (w : Wire) (n : MemoryNode) : Json :=
  .object [("id", .string n.id),
    ("content_head", .string (String.ofList (n.content.toList.take summaryHeadChars))),
    ("content_chars", natJson n.content.toList.length), ("memory_type", .string n.memoryType.str),
    ("tags", strings n.tags), ("salience", w.num (w.round2 n.salience)),
    ("agent_id", orNull .string n.agentId), ("created_at", .string (w.time n.createdAt))]

def wireSummaries (w : Wire) (nodes : List MemoryNode) : Json := .array (nodes.map (wireSummary w))

/-- A node as it is, for a backup. -/
def rawNode (w : Wire) (n : MemoryNode) : Json :=
  .object [("id", .string n.id), ("content", .string n.content),
    ("memory_type", .string n.memoryType.str), ("layer", .string n.layer.str),
    ("salience", w.num n.salience), ("tags", strings n.tags),
    ("agent_id", orNull .string n.agentId), ("visibility", .string n.visibility.str),
    ("thread_id", orNull .string n.threadId),
    ("emotional_valence", orNull (fun v => .string v.str) n.emotionalValence),
    ("emotional_intensity", w.num n.emotionalIntensity),
    ("created_at", .string (w.rfc3339 n.createdAt)),
    ("updated_at", .string (w.rfc3339 n.updatedAt)),
    ("access_count", natJson n.accessCount),
    ("access_times", strings (n.accessTimes.map w.rfc3339)),
    ("strength", .object [("stability", w.num n.strength.stability),
      ("difficulty", w.num n.strength.difficulty),
      ("last_review", orNull (fun t => .string (w.rfc3339 t)) n.strength.lastReview)]),
    ("metadata", n.metadata)]

def versionJson (w : Wire) (v : VersionRow) : Json :=
  .object [("id", .number (if 0 ≤ v.id then .posInt (UInt64.ofNat v.id.toNat) else
      .negInt (Int64.ofInt v.id))),
    ("memory_id", .string v.memoryId), ("content", .string v.content),
    ("tags_json", .string v.tagsJson), ("salience", w.num v.salience),
    ("visibility", .string v.visibility), ("edited_by", orNull .string v.editedBy),
    ("edited_at", .string v.editedAt), ("change_note", orNull .string v.changeNote)]

/-! ### Arguments -/

/-- A field of the arguments, or null. -/
def arg (args : Json) (key : String) : Json := (args.get? key).getD .null

/-- A string that must be there. -/
def required (args : Json) (key message : String) : Except String String :=
  match (arg args key).asStr with
  | some s => pure s
  | none => throw message

/-- An unsigned word, or its default. -/
def wordOr (args : Json) (key : String) (default : UInt64) : UInt64 :=
  (arg args key).asU64.getD default

/-- A float, or its default. -/
def floatOr (w : Wire) (args : Json) (key : String) (default : ℚ) : ℚ :=
  match arg args key with
  | .number n => w.asF64 n
  | _ => default

/-- `coerce_str_list`. -/
def coerceStrList : Json → List String
  | .array items => items.filterMap Json.asStr
  | .string s => [s]
  | _ => []

/-- `agent_scope`. -/
def agentScope (args : Json) : VisibilityScope :=
  match (arg args "agent_id").asStr with
  | some id => if id ≠ "" then .forAgent id else .everything
  | none => .everything

/-- A variant, as `serde_json` takes it from a value. -/
def variantOf {α : Type} (variants : List (String × α)) : Json → Option α
  | .string s => variants.lookup s
  | .object [(s, .null)] => variants.lookup s
  | _ => none

/-! ### Calls -/

/-- The calls. -/
inductive ReadTool
  | getMemory
  | getMemoryVersions
  | getThreadMemories
  | listDeleted
  | listAgents
  | listThreads
  | listTags
  | listEpisodes
  | listIntentions
  | listProcedures
  | listSchemas
  | findByTags
  | exportMemories
  | memoryNeighbors
  | commonNeighbors
  | getSchemaSources
  | getEpisodeMemories
  | activationAtRisk
  | activationCurve
  | activationHeatmap
  deriving DecidableEq, Repr

namespace Store

variable {γ : Type*} (L : Libs γ) (s : Store γ)

/-- A memory that must be there. -/
def theMemory (id : String) (scope : VisibilityScope) (message : String) :
    Except String MemoryNode := do
  match ← s.getMemory L id scope with
  | some n => pure n
  | none => throw message

/-- The memories of one type: a browse. -/
def browse (scope : VisibilityScope) (memoryType : MemoryType) (limit : UInt64)
    (keep : MemoryNode → Bool) : Except String Json := do
  let nodes ← s.listMemoriesScoped L scope ⟨some memoryType, limit, 0, false⟩
  pure (wireSummaries L.wire (nodes.filter keep))

/-- `route`, of these calls. -/
def read (now : DateTime) (tool : ReadTool) (args : Json) : Except String Json :=
  let scope := agentScope args
  match tool with
  | .getMemory => do
    let id ← required args "memory_id" "memory_id is required"
    wireNode L.wire <$> s.theMemory L id scope ("memory not found: " ++ id)
  | .getMemoryVersions => do
    let memoryId ← required args "memory_id" "memory_id required"
    pure (.array ((s.getMemoryVersionsRaw L memoryId (wordOr args "limit" 10)).map
      (versionJson L.wire)))
  | .getThreadMemories => do
    let threadId ← required args "thread_id" "thread_id is required"
    wireNodes L.wire <$> s.getThreadMemories L threadId scope
  | .listDeleted => wireNodes L.wire <$> s.listDeletedMemories L scope (wordOr args "limit" 50)
  | .listAgents => pure (.array ((s.listAgents L).map fun a =>
      .object [("id", .string a.id), ("name", .string a.name),
        ("description", orNull .string a.description), ("registered_at", .string a.registeredAt),
        ("last_seen", orNull .string a.lastSeen),
        ("metadata", (L.codec.json a.metadata).toOption.getD .null)]))
  | .listThreads => pure (strings (s.listThreads L scope))
  | .listTags => do
    let tags ← s.listTags L scope
    pure (.array (tags.map fun x => .object [("tag", .string x.1), ("count", natJson x.2)]))
  | .listEpisodes =>
    pure (.array ((s.listEpisodes L (arg args "agent_id").asStr (wordOr args "limit" 20)).map
      fun e => .object [("id", .string e.id), ("title", orNull .string e.title),
        ("agent_id", orNull .string e.agentId), ("thread_id", orNull .string e.threadId),
        ("started_at", .string e.startedAt), ("ended_at", orNull .string e.endedAt),
        ("summary", orNull .string e.summary)]))
  | .listIntentions =>
    let minSalience := L.codec.single (floatOr L.wire args "min_salience" (3 / 10))
    s.browse L scope .prospective (wordOr args "limit" 50) fun n => minSalience ≤ n.salience
  | .listProcedures =>
    let minSalience := L.codec.single (floatOr L.wire args "min_salience" 0)
    s.browse L scope .procedural (wordOr args "limit" 50) fun n =>
      minSalience ≤ n.salience && !n.tags.contains "undo_snapshot"
  | .listSchemas => s.browse L scope .schematic (wordOr args "limit" 50) fun _ => true
  | .findByTags => do
    let tags := coerceStrList (arg args "tags")
    if tags.isEmpty then throw "tags (non-empty) required"
    wireSummaries L.wire <$> s.findByTags L scope tags (max 1 (min (wordOr args "limit" 20) 200))
  | .exportMemories => do
    let nodes ← s.listMemoriesScoped L scope
      ⟨variantOf MemoryType.variants (arg args "memory_type"), wordOr args "limit" 1000, 0, false⟩
    pure (.array (nodes.map (rawNode L.wire)))
  | .memoryNeighbors => do
    let id ← required args "memory_id" "memory_id is required"
    wireNodes L.wire <$> s.getMemoriesByIds L (s.neighbors L id) scope
  | .commonNeighbors => do
    let a ← required args "memory_id_a" "memory_id_a is required"
    let b ← required args "memory_id_b" "memory_id_b is required"
    wireNodes L.wire <$> s.getMemoriesByIds L (s.getCommonNeighbors L a b) scope
  | .getSchemaSources => do
    let schemaId ← required args "schema_id" "schema_id required"
    let n ← s.theMemory L schemaId scope ("schema not found: " ++ schemaId)
    let sources := ((arg n.metadata "derived_from").asArray.getD []).filterMap Json.asStr
    pure (.object [("schema_id", .string schemaId), ("source_ids", strings sources)])
  | .getEpisodeMemories => do
    let episodeId ← required args "episode_id" "episode_id is required"
    wireNodes L.wire <$> s.getMemoriesByIds L (s.getEpisodeMemoryIds L episodeId) scope
  | .activationAtRisk =>
    let threshold := L.codec.single (floatOr L.wire args "threshold" (7 / 10))
    pure (.array ((s.activationAtRisk L now scope threshold (wordOr args "limit" 20)).map fun r =>
      .object [("id", .string r.id), ("content", .string r.content),
        ("retrievability", L.wire.num r.retrievability), ("stability", L.wire.num r.stability),
        ("salience", L.wire.num r.salience), ("memory_type", .string r.memoryType)]))
  | .activationCurve => do
    let id ← required args "memory_id" "memory_id is required"
    let n ← s.theMemory L id scope ("memory not found: " ++ id)
    pure (.object [("memory_id", .string id), ("access_count", natJson n.accessCount),
      ("access_times", strings (n.accessTimes.map L.wire.rfc3339)),
      ("fsrs_stability", L.wire.num n.strength.stability),
      ("fsrs_difficulty", L.wire.num n.strength.difficulty),
      ("fsrs_last_review", orNull (fun t => .string (L.wire.rfc3339 t)) n.strength.lastReview)])
  | .activationHeatmap => do
    let cells ← s.activationHeatmap L scope
    pure (.array (cells.map fun x =>
      .object [("type", .string x.1.1), ("month", .string x.1.2), ("count", natJson x.2)]))

end Store

/-! ### Two stores -/

/-- A memory is private to an agent. -/
def StoredMemory.privateTo (row : StoredMemory) (b : AgentId) : Bool :=
  row.raw.visibility == "private" && row.raw.agentId == some b

/-- The same memory, with another content, other tags and another salience. -/
def StoredMemory.withBody (row : StoredMemory) (content tags : String) (salience : ℚ) :
    StoredMemory :=
  { row with raw := { row.raw with content := content, tags := tags, salience := salience } }

namespace Store

variable {γ : Type*} {L : Libs γ} {s t : Store γ} {a b : AgentId}

/-- A memory of this id is private to an agent. -/
def ownedBy (s : Store γ) (b : AgentId) (id : String) : Bool :=
  s.memories.any fun row => row.raw.id == id && row.privateTo b

/-- **Two stores differ** in the contents, the tags, the salience and the versions of memories that
are private to one agent, and in nothing else. -/
structure DifferIn (b : AgentId) (s t : Store γ) : Prop where
  memories : List.Forall₂ (fun row row' => row' = row ∨ row.privateTo b = true ∧
    ∃ content tags salience, row' = row.withBody content tags salience) s.memories t.memories
  versions : (s.versions.filter fun v => !s.ownedBy b v.memoryId) =
    t.versions.filter fun v => !s.ownedBy b v.memoryId
  agents : s.agents = t.agents
  episodes : s.episodes = t.episodes
  steps : s.steps = t.steps
  graph : s.graph = t.graph

/-- What is private to one agent is not let through to another. -/
theorem admits_of_privateTo {row : StoredMemory} (hne : a ≠ b) (h : row.privateTo b = true) :
    admits (.forAgent a) row = false := by
  obtain ⟨hvis, hagent⟩ := Bool.and_eq_true_iff.mp h
  rw [beq_iff_eq] at hvis hagent
  simp [admits, VisibilityScope.forAgent, hvis, hagent, Ne.symm hne]

theorem filter_admits_eq {rows rows' : List StoredMemory}
    (h : List.Forall₂ (fun row row' => row' = row ∨ row.privateTo b = true ∧
      ∃ content tags salience, row' = row.withBody content tags salience) rows rows')
    (hne : a ≠ b) (p : StoredMemory → Bool) :
    rows.filter (fun row => admits (.forAgent a) row && p row)
      = rows'.filter fun row => admits (.forAgent a) row && p row := by
  induction h with
  | nil => rfl
  | cons hrow _ ih =>
    rcases hrow with rfl | ⟨hpriv, content, tags, salience, rfl⟩
    · rw [List.filter_cons, List.filter_cons, ih]
    · have hout := admits_of_privateTo hne hpriv
      have hout' : admits (.forAgent a) (StoredMemory.withBody _ content tags salience) = false :=
        hout
      rw [List.filter_cons_of_neg (by simp [hout]), List.filter_cons_of_neg (by simp [hout']), ih]

/-- **A statement** under the scope of another agent finds the same rows. -/
theorem select_eq (h : s.DifferIn b t) (hne : a ≠ b) (p : StoredMemory → Bool) :
    s.select L (.forAgent a) p = t.select L (.forAgent a) p :=
  congrArg L.engine.scan (filter_admits_eq h.memories hne p)

section Statements

variable (h : s.DifferIn b t) (hne : a ≠ b)
include h hne

theorem getMemory_eq (id : String) :
    s.getMemory L id (.forAgent a) = t.getMemory L id (.forAgent a) := by
  rw [getMemory, getMemory, select_eq h hne]

theorem getMemoriesByIds_eq (ids : List MemoryId) :
    s.getMemoriesByIds L ids (.forAgent a) = t.getMemoriesByIds L ids (.forAgent a) := by
  rw [getMemoriesByIds, getMemoriesByIds, select_eq h hne]

theorem listMemoriesScoped_eq (filter : ListFilter) :
    s.listMemoriesScoped L (.forAgent a) filter = t.listMemoriesScoped L (.forAgent a) filter := by
  rw [listMemoriesScoped, listMemoriesScoped, select_eq h hne]

theorem listDeletedMemories_eq (limit : UInt64) :
    s.listDeletedMemories L (.forAgent a) limit = t.listDeletedMemories L (.forAgent a) limit := by
  rw [listDeletedMemories, listDeletedMemories, select_eq h hne]

theorem findByTags_eq (tags : List String) (limit : UInt64) :
    s.findByTags L (.forAgent a) tags limit = t.findByTags L (.forAgent a) tags limit := by
  rw [findByTags, findByTags, select_eq h hne]

theorem listThreads_eq : s.listThreads L (.forAgent a) = t.listThreads L (.forAgent a) := by
  rw [listThreads, listThreads, select_eq h hne]

theorem getThreadMemories_eq (threadId : String) :
    s.getThreadMemories L threadId (.forAgent a) =
      t.getThreadMemories L threadId (.forAgent a) := by
  rw [getThreadMemories, getThreadMemories, select_eq h hne]

theorem listTags_eq : s.listTags L (.forAgent a) = t.listTags L (.forAgent a) := by
  rw [listTags, listTags, select_eq h hne]

theorem activationHeatmap_eq :
    s.activationHeatmap L (.forAgent a) = t.activationHeatmap L (.forAgent a) := by
  rw [activationHeatmap, activationHeatmap, select_eq h hne]

theorem activationAtRisk_eq (now : DateTime) (threshold : ℚ) (limit : UInt64) :
    s.activationAtRisk L now (.forAgent a) threshold limit =
      t.activationAtRisk L now (.forAgent a) threshold limit := by
  rw [activationAtRisk, activationAtRisk, select_eq h hne]

theorem theMemory_eq (id message : String) :
    s.theMemory L id (.forAgent a) message = t.theMemory L id (.forAgent a) message := by
  rw [theMemory, theMemory, getMemory_eq h hne]

theorem browse_eq (memoryType : MemoryType) (limit : UInt64) (keep : MemoryNode → Bool) :
    s.browse L (.forAgent a) memoryType limit keep =
      t.browse L (.forAgent a) memoryType limit keep := by
  rw [browse, browse, listMemoriesScoped_eq h hne]

/-- **Every call** but one is answered alike. -/
theorem read_eq (now : DateTime) {tool : ReadTool} (htool : tool ≠ .getMemoryVersions) {args : Json}
    (ha : agentScope args = .forAgent a) : s.read L now tool args = t.read L now tool args := by
  have hneighbors (id : MemoryId) : s.neighbors L id = t.neighbors L id := by
    rw [neighbors, neighbors, h.graph]
  have hcommon (x y : MemoryId) : s.getCommonNeighbors L x y = t.getCommonNeighbors L x y := by
    rw [getCommonNeighbors, getCommonNeighbors, hneighbors, hneighbors]
  have hepisode (id : String) : s.getEpisodeMemoryIds L id = t.getEpisodeMemoryIds L id := by
    rw [getEpisodeMemoryIds, getEpisodeMemoryIds, h.episodes, h.steps]
  cases tool with
  | getMemory => simp only [read, ha, theMemory_eq h hne]
  | getMemoryVersions => exact absurd rfl htool
  | getThreadMemories => simp only [read, ha, getThreadMemories_eq h hne]
  | listDeleted => simp only [read, ha, listDeletedMemories_eq h hne]
  | listAgents => simp only [read, listAgents, h.agents]
  | listThreads => simp only [read, ha, listThreads_eq h hne]
  | listTags => simp only [read, ha, listTags_eq h hne]
  | listEpisodes => simp only [read, listEpisodes, h.episodes]
  | listIntentions => simp only [read, ha, browse_eq h hne]
  | listProcedures => simp only [read, ha, browse_eq h hne]
  | listSchemas => simp only [read, ha, browse_eq h hne]
  | findByTags => simp only [read, ha, findByTags_eq h hne]
  | exportMemories => simp only [read, ha, listMemoriesScoped_eq h hne]
  | memoryNeighbors => simp only [read, ha, hneighbors, getMemoriesByIds_eq h hne]
  | commonNeighbors => simp only [read, ha, hcommon, getMemoriesByIds_eq h hne]
  | getSchemaSources => simp only [read, ha, theMemory_eq h hne]
  | getEpisodeMemories => simp only [read, ha, hepisode, getMemoriesByIds_eq h hne]
  | activationAtRisk => simp only [read, ha, activationAtRisk_eq h hne]
  | activationCurve => simp only [read, ha, theMemory_eq h hne]
  | activationHeatmap => simp only [read, ha, activationHeatmap_eq h hne]

end Statements

/-! ### One memory with one version -/

/-- A private memory with a version of it. -/
def oneVersion (L : Libs γ) (b : AgentId) (id content : String) : Store γ where
  memories := [
    { raw :=
        { id, content := "", memoryType := "semantic", layer := "working", salience := 0,
          tags := "[]", agentId := some b, visibility := "private", threadId := none,
          emotionalValence := none, emotionalIntensity := 0, createdAt := "", updatedAt := "",
          accessCount := 0, accessTimes := "[]", fsrsStability := 1, fsrsDifficulty := 5,
          fsrsLastReview := none, metadata := "null" }
      deletedAt := none }]
  versions := [⟨1, id, content, "[]", 0, "private", none, "", none⟩]
  agents := []
  episodes := []
  steps := []
  graph := GraphStore.new L.graph

theorem differIn_oneVersion (b : AgentId) (id content content' : String) :
    (oneVersion L b id content).DifferIn b (oneVersion L b id content') where
  memories := .cons (.inl rfl) .nil
  versions := by simp [oneVersion, ownedBy, StoredMemory.privateTo]
  agents := rfl
  episodes := rfl
  steps := rfl
  graph := rfl

/-- Its version is read under a limit. -/
theorem getMemoryVersionsRaw_oneVersion (b : AgentId) (id content : String) {limit : UInt64}
    (hlimit : limit ≠ 0) : (oneVersion L b id content).getMemoryVersionsRaw L id limit =
      [⟨1, id, content, "[]", 0, "private", none, "", none⟩] := by
  have hscan {α : Type} (x : α) : L.engine.scan [x] = [x] :=
    List.perm_singleton.mp (L.engine.scan_perm [x])
  have hpos : limit.toNat ≠ 0 := fun h => hlimit (UInt64.toNat_inj.mp h)
  simp only [getMemoryVersionsRaw, oneVersion, List.filter_cons, beq_self_eq_true, if_true,
    List.filter_nil, hscan, List.mergeSort_singleton, limited]
  split
  · obtain ⟨n, hn⟩ := Nat.exists_eq_succ_of_ne_zero hpos
    rw [hn, List.take_succ_cons, List.take_nil]
  · rfl

theorem read_getMemoryVersions (L : Libs γ) (s : Store γ) (now : DateTime) {args : Json}
    {id : String} (hid : (arg args "memory_id").asStr = some id) :
    s.read L now .getMemoryVersions args = .ok (.array
      ((s.getMemoryVersionsRaw L id (wordOr args "limit" 10)).map (versionJson L.wire))) := by
  simp only [read, required, hid]
  rfl

/-- The versions tell two such stores apart. -/
theorem read_oneVersion_ne (L : Libs γ) (now : DateTime) (b : AgentId) {args : Json} {id : String}
    (hid : (arg args "memory_id").asStr = some id) (hlimit : wordOr args "limit" 10 ≠ 0) :
    (oneVersion L b id "one").read L now .getMemoryVersions args ≠
      (oneVersion L b id "two").read L now .getMemoryVersions args := by
  rw [read_getMemoryVersions L _ now hid, read_getMemoryVersions L _ now hid,
    getMemoryVersionsRaw_oneVersion b id _ hlimit, getMemoryVersionsRaw_oneVersion b id _ hlimit]
  simp [versionJson]

/-- **The replies are alike** to an agent, whatever is private to another, of every call but the one
for the versions of a memory. -/
theorem reads_alike_iff (L : Libs γ) (now : DateTime) (tool : ReadTool) (args : Json) (a : AgentId)
    (ha : agentScope args = .forAgent a) :
    (∀ b, a ≠ b → ∀ s t : Store γ, s.DifferIn b t → s.read L now tool args = t.read L now tool args)
      ↔ ¬ (tool = .getMemoryVersions ∧ (∃ id, (arg args "memory_id").asStr = some id) ∧
        wordOr args "limit" 10 ≠ 0) := by
  constructor
  · rintro h ⟨rfl, ⟨id, hid⟩, hlimit⟩
    obtain ⟨b, hb⟩ : ∃ b, a ≠ b := ⟨a ++ "'", fun heq => by
      have := congrArg String.length heq
      simp at this⟩
    exact read_oneVersion_ne L now b hid hlimit (h b hb _ _ (differIn_oneVersion b id "one" "two"))
  · intro h b hb s t hdiffer
    by_cases htool : tool = .getMemoryVersions
    · subst htool
      cases hid : (arg args "memory_id").asStr with
      | none =>
        simp only [read, required, hid]
        rfl
      | some id =>
        have hlimit : wordOr args "limit" 10 = 0 := by
          by_contra hne
          exact h ⟨rfl, ⟨id, hid⟩, hne⟩
        rw [read_getMemoryVersions L s now hid, read_getMemoryVersions L t now hid, hlimit]
        simp [getMemoryVersionsRaw, limited]
    · exact read_eq hdiffer hb now htool ha

/-! ### A reading -/

/-- Libraries that do on the texts below what the real ones do. -/
def plain : Libs (List MemoryId × List (ℕ × ℕ × AssociativeLink)) where
  codec :=
    { unquote := .ok
      unknownVariant := fun name _ => name
      strings := fun s => if s = "[]" then .ok [] else .error s
      times := fun s => if s = "[]" then .ok [] else .error s
      json := fun s => if s = "null" then .ok .null else .error s
      parseFromRfc3339 := fun s => if s = "1970-01-01T00:00:00Z" then .ok 0 else .error s
      single := id }
  engine :=
    { scan := id
      scan_perm := fun l => .refl l
      jsonEach := fun s => if s = "[]" then .ok [] else .error s
      month := fun s => if s = "1970-01-01T00:00:00Z" then some "1970-01" else none }
  wire :=
    { num := fun x => .number (.posInt (UInt64.ofNat x.num.toNat))
      round2 := id
      time := fun _ => "1970-01-01T00:00:00Z"
      rfc3339 := fun _ => "1970-01-01T00:00:00Z"
      asF64 := fun _ => 0 }
  graph := CompactDigraph.ofLists _ _

/-- A private memory is asked for by another agent. -/
theorem reads_alike_getMemory :
    (oneVersion plain "bob" "m" "one").read plain 0 .getMemory
        (.object [("memory_id", .string "m"), ("agent_id", .string "ada")]) =
      (oneVersion plain "bob" "m" "two").read plain 0 .getMemory
        (.object [("memory_id", .string "m"), ("agent_id", .string "ada")]) :=
  (reads_alike_iff plain 0 .getMemory _ "ada" rfl).mpr (fun h => (nomatch h.1)) "bob" (by decide)
    _ _ (differIn_oneVersion _ _ _ _)

/-- **The versions** of a private memory are asked for by another agent. -/
theorem not_reads_alike : ¬ ∀ b, "ada" ≠ b → ∀ s t : Store _, s.DifferIn b t →
    s.read plain 0 .getMemoryVersions
        (.object [("memory_id", .string "m"), ("agent_id", .string "ada")]) =
      t.read plain 0 .getMemoryVersions
        (.object [("memory_id", .string "m"), ("agent_id", .string "ada")]) := by
  intro h
  exact read_oneVersion_ne plain 0 "bob" (by rfl) (by decide)
    (h "bob" (by decide) _ _ (differIn_oneVersion "bob" "m" "one" "two"))

end Store

end ApexOS.Cerebro.Reading
