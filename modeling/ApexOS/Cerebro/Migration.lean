import ApexOS.Cerebro.Reading
import ApexOS.Lib.OrIgnore

/-!
# The migration of a Python store

`migrate_from_python` of `cerebro/crates/cerebro/src/storage/sqlite.rs`, as each `SqliteStore::open`
does it: the first one that comes to its end copies the rows of the Python tables by
`INSERT OR IGNORE`, the next one drops the originals. A row is ignored where a column that must not
be null is, or where a key is taken.

## Main definitions

* `PythonDb`: the tables that are read
* `migrate`: `MIGRATION_SQL`
* `openStore`: one open
* `Lossless`: every row is there, and every memory can be read
* `Migratable`: the tables of which nothing is lost

## Main results

* `lossless_iff`: nothing is lost of exactly these
* `not_lossless`: of two agents with one name, one is lost
-/

namespace ApexOS.Cerebro.Migration

open Reading (StoredMemory AgentRow EpisodeRow)

/-! ### The Python tables -/

/-- A row of `memory_nodes`. -/
structure MemoryNodesRow where
  id : String
  content : String
  memoryType : String
  layer : String
  salience : ℚ
  tagsJson : Option String
  agentId : Option String
  visibility : String
  conversationThread : Option String
  valence : Option String
  arousal : Option ℚ
  createdAt : String
  lastAccessedAt : Option String
  accessCount : Option ℤ
  accessTimestampsJson : Option String
  stability : Option ℚ
  difficulty : Option ℚ
  metadataJson : Option String
  deletedAt : Option String

/-- A row of `associative_links`. -/
structure AssociativeLinksRow where
  sourceId : String
  targetId : String
  linkType : String
  weight : ℚ
  createdAt : String
  lastActivated : Option String
  activationCount : Option ℤ

/-- A row of `_py_agents`. -/
structure PyAgentsRow where
  id : String
  displayName : String
  specialization : Option String
  registeredAt : String
  symbol : Option String
  color : Option String
  generation : Option ℤ

/-- A row of `_py_episodes`. -/
structure PyEpisodesRow where
  id : String
  title : Option String
  agentId : Option String
  sessionId : Option String
  startedAt : Option String
  endedAt : Option String
  createdAt : String

/-- A row of `_py_episode_steps`. -/
structure PyEpisodeStepsRow where
  episodeId : String
  memoryId : Option String
  position : ℤ
  role : Option String
  timestamp : String

/-- The tables. Memories have their ids for a key. -/
structure PythonDb where
  memoryNodes : List MemoryNodesRow
  associativeLinks : List AssociativeLinksRow
  agents : List PyAgentsRow
  episodes : List PyEpisodesRow
  episodeSteps : List PyEpisodeStepsRow
  memoryKeys : (memoryNodes.map MemoryNodesRow.id).Nodup

/-! ### The tables they are copied to -/

/-- A row of `links`. -/
structure LinkRow where
  sourceId : String
  targetId : String
  linkType : String
  weight : ℚ
  createdAt : String
  lastTraversed : Option String
  traversalCount : ℤ
  deriving DecidableEq

/-- A row of `episode_steps`. -/
structure EpisodeStepRow where
  episodeId : String
  stepIndex : ℤ
  description : String
  memoryId : Option String
  timestamp : String
  deriving DecidableEq

structure Store where
  memories : List StoredMemory
  links : List LinkRow
  agents : List AgentRow
  episodes : List EpisodeRow
  episodeSteps : List EpisodeStepRow

def Store.empty : Store := ⟨[], [], [], [], []⟩

/-- The functions of the database. -/
structure Sqlite where
  /-- `strftime`, to a time in UTC; nothing of a text that is no time -/
  strftime : String → Option String
  /-- `json_each`, which fails on a text that is not JSON -/
  jsonEach : String → Except String (List Json)
  /-- `strftime` of a number of seconds -/
  unixepoch : Json → Option String
  jsonGroupArray : List (Option String) → String
  /-- `json_object`, of the symbol, the color and the generation -/
  jsonObject : String → String → ℤ → String

section

variable (sql : Sqlite) (c : Codec)

/-! ### The statements -/

/-- The list of access times. An aggregate is never null. -/
def accessTimes (json : Option String) : Except String String :=
  match json with
  | none => .ok (sql.jsonGroupArray [])
  | some text => (sql.jsonEach text).map fun values => sql.jsonGroupArray (values.map sql.unixepoch)

/-- A row of `memories`, if it can be inserted. -/
def memoryRow (m : MemoryNodesRow) : Option StoredMemory := do
  let times ← (accessTimes sql m.accessTimestampsJson).toOption
  let createdAt ← sql.strftime m.createdAt
  let updatedAt ← sql.strftime (m.lastAccessedAt.getD m.createdAt)
  some
    { raw :=
        { id := m.id
          content := m.content
          memoryType := m.memoryType
          layer := m.layer
          salience := m.salience
          tags := m.tagsJson.getD "[]"
          agentId := m.agentId
          visibility := m.visibility
          threadId := m.conversationThread
          emotionalValence := m.valence
          emotionalIntensity := m.arousal.getD (1 / 2)
          createdAt
          updatedAt
          accessCount := m.accessCount.getD 0
          accessTimes := times
          fsrsStability := m.stability.getD 1
          fsrsDifficulty := m.difficulty.getD 5
          fsrsLastReview := none
          metadata := m.metadataJson.getD "null" }
      deletedAt := m.deletedAt }

/-- A row of `links`. -/
def linkRow (l : AssociativeLinksRow) : Option LinkRow := do
  let createdAt ← sql.strftime l.createdAt
  some
    { sourceId := l.sourceId
      targetId := l.targetId
      linkType := l.linkType
      weight := l.weight
      createdAt
      lastTraversed := l.lastActivated.bind sql.strftime
      traversalCount := l.activationCount.getD 0 }

/-- A row of `agents`. -/
def agentRow (a : PyAgentsRow) : Option AgentRow := do
  let registeredAt ← sql.strftime a.registeredAt
  some
    { id := a.id
      name := a.displayName
      description := a.specialization
      registeredAt
      lastSeen := none
      metadata := sql.jsonObject (a.symbol.getD "A") (a.color.getD "#888888")
        (a.generation.getD 0) }

/-- A row of `episodes`. -/
def episodeRow (x : PyEpisodesRow) : Option EpisodeRow := do
  let startedAt ← sql.strftime (x.startedAt.getD x.createdAt)
  some
    { id := x.id
      title := x.title
      agentId := x.agentId
      threadId := x.sessionId
      startedAt
      endedAt := x.endedAt.bind sql.strftime
      summary := none
      memoryIds := "[]" }

/-- A row of `episode_steps`. -/
def episodeStepRow (x : PyEpisodeStepsRow) : Option EpisodeStepRow := do
  let timestamp ← sql.strftime x.timestamp
  some
    { episodeId := x.episodeId
      stepIndex := x.position
      description := x.role.getD ""
      memoryId := x.memoryId
      timestamp }

/-- A link has the ends and the type of another. -/
def LinkRow.sameKey (x y : LinkRow) : Bool :=
  x.sourceId == y.sourceId && x.targetId == y.targetId && x.linkType == y.linkType

/-- The tables after each row was inserted or ignored. -/
def copied (p : PythonDb) : Store where
  memories := insertOrIgnore (fun x y => x.raw.id == y.raw.id) []
    (p.memoryNodes.filterMap (memoryRow sql))
  links := insertOrIgnore LinkRow.sameKey [] (p.associativeLinks.filterMap (linkRow sql))
  agents := insertOrIgnore (fun x y => x.id == y.id || x.name == y.name) []
    (p.agents.filterMap (agentRow sql))
  episodes := insertOrIgnore (fun x y => x.id == y.id) [] (p.episodes.filterMap (episodeRow sql))
  episodeSteps := insertOrIgnore
    (fun x y => x.episodeId == y.episodeId && x.stepIndex == y.stepIndex) []
    (p.episodeSteps.filterMap (episodeStepRow sql))

/-- `MIGRATION_SQL`, which is one transaction. -/
def migrate (p : PythonDb) : Except String Store := do
  let _ ← p.memoryNodes.mapM fun m => accessTimes sql m.accessTimestampsJson
  pure (copied sql p)

/-- A database: as Python left it, with both sorts of tables, or without `memory_nodes`. -/
inductive Db
  | python (p : PythonDb)
  | migrated (p : PythonDb) (s : Store)
  | reaped (s : Store)

/-- What the tables of the store hold. -/
def Db.store : Db → Store
  | .python _ => .empty
  | .migrated _ s | .reaped s => s

/-- `open`, where so many of the originals can be dropped, `memory_nodes` first. -/
def openStore : Db → ℕ → Db
  | .python p, _ =>
    match migrate sql p with
    | .ok s => .migrated p s
    | .error _ => .python p
  | .migrated p s, dropped => if dropped = 0 then .migrated p s else .reaped s
  | .reaped s, _ => .reaped s

/-! ### What is promised -/

/-- The row has what the one of `memory_nodes` says. -/
structure CarriesMemory (m : MemoryNodesRow) (r : StoredMemory) : Prop where
  id : r.raw.id = m.id
  content : r.raw.content = m.content
  memoryType : r.raw.memoryType = m.memoryType
  layer : r.raw.layer = m.layer
  salience : r.raw.salience = m.salience
  tags : r.raw.tags = m.tagsJson.getD "[]"
  agentId : r.raw.agentId = m.agentId
  visibility : r.raw.visibility = m.visibility
  threadId : r.raw.threadId = m.conversationThread
  emotionalValence : r.raw.emotionalValence = m.valence
  emotionalIntensity : r.raw.emotionalIntensity = m.arousal.getD (1 / 2)
  createdAt : sql.strftime m.createdAt = some r.raw.createdAt
  updatedAt : sql.strftime (m.lastAccessedAt.getD m.createdAt) = some r.raw.updatedAt
  accessCount : r.raw.accessCount = m.accessCount.getD 0
  accessTimes : accessTimes sql m.accessTimestampsJson = .ok r.raw.accessTimes
  fsrsStability : r.raw.fsrsStability = m.stability.getD 1
  fsrsDifficulty : r.raw.fsrsDifficulty = m.difficulty.getD 5
  fsrsLastReview : r.raw.fsrsLastReview = none
  metadata : r.raw.metadata = m.metadataJson.getD "null"
  deletedAt : r.deletedAt = m.deletedAt

/-- A time that may be missing is there if it was. -/
def CarriesTime (old new : Option String) : Prop := old.map sql.strftime = new.map some

structure CarriesLink (l : AssociativeLinksRow) (r : LinkRow) : Prop where
  sourceId : r.sourceId = l.sourceId
  targetId : r.targetId = l.targetId
  linkType : r.linkType = l.linkType
  weight : r.weight = l.weight
  createdAt : sql.strftime l.createdAt = some r.createdAt
  lastTraversed : CarriesTime sql l.lastActivated r.lastTraversed
  traversalCount : r.traversalCount = l.activationCount.getD 0

structure CarriesAgent (a : PyAgentsRow) (r : AgentRow) : Prop where
  id : r.id = a.id
  name : r.name = a.displayName
  description : r.description = a.specialization
  registeredAt : sql.strftime a.registeredAt = some r.registeredAt
  lastSeen : r.lastSeen = none
  metadata : r.metadata = sql.jsonObject (a.symbol.getD "A") (a.color.getD "#888888")
    (a.generation.getD 0)

structure CarriesEpisode (x : PyEpisodesRow) (r : EpisodeRow) : Prop where
  id : r.id = x.id
  title : r.title = x.title
  agentId : r.agentId = x.agentId
  threadId : r.threadId = x.sessionId
  startedAt : sql.strftime (x.startedAt.getD x.createdAt) = some r.startedAt
  endedAt : CarriesTime sql x.endedAt r.endedAt
  summary : r.summary = none
  memoryIds : r.memoryIds = "[]"

structure CarriesStep (x : PyEpisodeStepsRow) (r : EpisodeStepRow) : Prop where
  episodeId : r.episodeId = x.episodeId
  stepIndex : r.stepIndex = x.position
  description : r.description = x.role.getD ""
  memoryId : r.memoryId = x.memoryId
  timestamp : sql.strftime x.timestamp = some r.timestamp

/-- Every row is there, and every memory can be read. -/
structure Lossless (p : PythonDb) (s : Store) : Prop where
  memories : ∀ m ∈ p.memoryNodes, ∃ r ∈ s.memories, CarriesMemory sql m r
  decodes : ∀ r ∈ s.memories, ∃ node, r.raw.intoMemoryNode c = .ok node
  links : ∀ l ∈ p.associativeLinks, ∃ r ∈ s.links, CarriesLink sql l r
  agents : ∀ a ∈ p.agents, ∃ r ∈ s.agents, CarriesAgent sql a r
  episodes : ∀ x ∈ p.episodes, ∃ r ∈ s.episodes, CarriesEpisode sql x r
  steps : ∀ x ∈ p.episodeSteps, ∃ r ∈ s.episodeSteps, CarriesStep sql x r

/-! ### The tables of which nothing is lost -/

/-- The database takes the text for a time. -/
def Dated (s : String) : Prop := (sql.strftime s).isSome = true

/-- And the time that it writes can be read. -/
def Timed (s : String) : Prop := ∃ t time, sql.strftime s = some t ∧ c.parseFromRfc3339 t = .ok time

/-- The values of a memory are such as can be read. -/
structure Sound (m : MemoryNodesRow) : Prop where
  memoryType : ∃ a, c.strToEnum MemoryType.variants m.memoryType = .ok a
  layer : ∃ a, c.strToEnum MemoryLayer.variants m.layer = .ok a
  tags : ∃ tags, c.strings (m.tagsJson.getD "[]") = .ok tags
  visibility : ∃ a, c.strToEnum Visibility.variants m.visibility = .ok a
  valence : ∀ v, m.valence = some v → ∃ a, c.strToEnum EmotionalValence.variants v = .ok a
  createdAt : Timed sql c m.createdAt
  updatedAt : Timed sql c (m.lastAccessedAt.getD m.createdAt)
  accessTimes : ∃ text times, accessTimes sql m.accessTimestampsJson = .ok text ∧
    c.times text = .ok times
  metadata : ∃ json, c.json (m.metadataJson.getD "null") = .ok json

/-- Two links say the same. -/
def SameLink (l l' : AssociativeLinksRow) : Prop :=
  l.sourceId = l'.sourceId ∧ l.targetId = l'.targetId ∧ l.linkType = l'.linkType ∧
    l.weight = l'.weight ∧ sql.strftime l.createdAt = sql.strftime l'.createdAt ∧
    l.lastActivated.bind sql.strftime = l'.lastActivated.bind sql.strftime ∧
    l.activationCount.getD 0 = l'.activationCount.getD 0

/-- Two rows of agents say the same. -/
def SameAgent (a b : PyAgentsRow) : Prop :=
  a.id = b.id ∧ a.displayName = b.displayName ∧ a.specialization = b.specialization ∧
    sql.strftime a.registeredAt = sql.strftime b.registeredAt ∧
    sql.jsonObject (a.symbol.getD "A") (a.color.getD "#888888") (a.generation.getD 0)
      = sql.jsonObject (b.symbol.getD "A") (b.color.getD "#888888") (b.generation.getD 0)

/-- Two rows of episodes say the same. -/
def SameEpisode (x y : PyEpisodesRow) : Prop :=
  x.id = y.id ∧ x.title = y.title ∧ x.agentId = y.agentId ∧ x.sessionId = y.sessionId ∧
    sql.strftime (x.startedAt.getD x.createdAt) = sql.strftime (y.startedAt.getD y.createdAt) ∧
    x.endedAt.bind sql.strftime = y.endedAt.bind sql.strftime

/-- Two rows of steps say the same. -/
def SameStep (x y : PyEpisodeStepsRow) : Prop :=
  x.episodeId = y.episodeId ∧ x.position = y.position ∧ x.role.getD "" = y.role.getD "" ∧
    x.memoryId = y.memoryId ∧ sql.strftime x.timestamp = sql.strftime y.timestamp

/-- Memories are sound, every time is one, and rows that share a key of the new table say the
same. -/
structure Migratable (p : PythonDb) : Prop where
  memories : ∀ m ∈ p.memoryNodes, Sound sql c m
  links : ∀ l ∈ p.associativeLinks, Dated sql l.createdAt ∧ ∀ t, l.lastActivated = some t →
    Dated sql t
  linkKeys : ∀ l ∈ p.associativeLinks, ∀ l' ∈ p.associativeLinks, l.sourceId = l'.sourceId ∧
    l.targetId = l'.targetId ∧ l.linkType = l'.linkType → SameLink sql l l'
  agents : ∀ a ∈ p.agents, Dated sql a.registeredAt
  agentKeys : ∀ a ∈ p.agents, ∀ b ∈ p.agents, a.id = b.id ∨ a.displayName = b.displayName →
    SameAgent sql a b
  episodes : ∀ x ∈ p.episodes, Dated sql (x.startedAt.getD x.createdAt) ∧
    ∀ t, x.endedAt = some t → Dated sql t
  episodeKeys : ∀ x ∈ p.episodes, ∀ y ∈ p.episodes, x.id = y.id → SameEpisode sql x y
  steps : ∀ x ∈ p.episodeSteps, Dated sql x.timestamp
  stepKeys : ∀ x ∈ p.episodeSteps, ∀ y ∈ p.episodeSteps,
    x.episodeId = y.episodeId ∧ x.position = y.position → SameStep sql x y

end

/-! ### Rows -/

section Proofs

variable {sql : Sqlite} {c : Codec} {p : PythonDb}

theorem exists_bind_ok {ε α β : Type} {x : Except ε α} {f : α → Except ε β} :
    (∃ b, (x >>= f) = .ok b) ↔ ∃ a, x = .ok a ∧ ∃ b, f a = .ok b := by
  cases x with
  | error e => simp [bind, Except.bind]
  | ok a => simp [bind, Except.bind]

theorem exists_mapM_option_ok {ε α β : Type} {o : Option α} {f : α → Except ε β} :
    (∃ b, o.mapM f = .ok b) ↔ ∀ a, o = some a → ∃ b, f a = .ok b := by
  cases o with
  | none => simp [pure, Except.pure]
  | some a => cases h : f a <;> simp [h, Functor.map, Except.map]

/-- A row is read if each of its columns is. -/
theorem intoMemoryNode_ok_iff {row : RawMemoryRow} : (∃ node, row.intoMemoryNode c = .ok node) ↔
    (∃ a, c.strToEnum MemoryType.variants row.memoryType = .ok a) ∧
    (∃ a, c.strToEnum MemoryLayer.variants row.layer = .ok a) ∧
    (∃ a, c.strings row.tags = .ok a) ∧
    (∃ a, c.strToEnum Visibility.variants row.visibility = .ok a) ∧
    (∀ v, row.emotionalValence = some v →
      ∃ a, c.strToEnum EmotionalValence.variants v = .ok a) ∧
    (∃ a, c.parseFromRfc3339 row.createdAt = .ok a) ∧
    (∃ a, c.parseFromRfc3339 row.updatedAt = .ok a) ∧
    (∃ a, c.times row.accessTimes = .ok a) ∧
    (∀ v, row.fsrsLastReview = some v → ∃ a, c.parseFromRfc3339 v = .ok a) ∧
    (∃ a, c.json row.metadata = .ok a) := by
  have hpure : ∀ node : MemoryNode, (∃ b, (pure node : Except String MemoryNode) = .ok b) ↔ True :=
    fun node => iff_true_intro ⟨node, rfl⟩
  simp only [RawMemoryRow.intoMemoryNode, exists_bind_ok, hpure, and_true, exists_and_right,
    exists_mapM_option_ok]

theorem memoryRow_eq_some_iff {m : MemoryNodesRow} {r : StoredMemory} :
    memoryRow sql m = some r ↔ CarriesMemory sql m r := by
  constructor
  · intro h
    simp only [memoryRow, Option.bind_eq_bind, Option.bind_eq_some_iff, Option.some.injEq] at h
    obtain ⟨times, htimes, createdAt, hcreated, updatedAt, hupdated, rfl⟩ := h
    have htimes' : accessTimes sql m.accessTimestampsJson = .ok times := by
      cases ht : accessTimes sql m.accessTimestampsJson with
      | error e => simp [ht, Except.toOption] at htimes
      | ok t => rw [ht] at htimes; exact congrArg _ (Option.some.inj htimes)
    exact ⟨rfl, rfl, rfl, rfl, rfl, rfl, rfl, rfl, rfl, rfl, rfl, hcreated, hupdated, rfl, htimes',
      rfl, rfl, rfl, rfl, rfl⟩
  · intro h
    obtain ⟨⟨⟩, _⟩ := r
    simp only [memoryRow, h.accessTimes, Except.toOption, h.createdAt, h.updatedAt,
      Option.bind_eq_bind, Option.bind_some, Option.some.injEq, StoredMemory.mk.injEq,
      RawMemoryRow.mk.injEq]
    exact ⟨⟨h.id.symm, h.content.symm, h.memoryType.symm, h.layer.symm, h.salience.symm,
      h.tags.symm, h.agentId.symm, h.visibility.symm, h.threadId.symm, h.emotionalValence.symm,
      h.emotionalIntensity.symm, trivial, trivial, h.accessCount.symm, trivial,
      h.fsrsStability.symm, h.fsrsDifficulty.symm, h.fsrsLastReview.symm, h.metadata.symm⟩,
      h.deletedAt.symm⟩

/-- A memory is sound if its row can be inserted and read. -/
theorem sound_iff {m : MemoryNodesRow} : Sound sql c m ↔
    ∃ r, CarriesMemory sql m r ∧ ∃ node, r.raw.intoMemoryNode c = .ok node := by
  constructor
  · intro h
    obtain ⟨created, time, hcreated, htime⟩ := h.createdAt
    obtain ⟨updated, time', hupdated, htime'⟩ := h.updatedAt
    obtain ⟨text, times, htext, htimes⟩ := h.accessTimes
    obtain ⟨r, hr⟩ : ∃ r, memoryRow sql m = some r := by
      simp [memoryRow, htext, hcreated, hupdated, Except.toOption]
    have hcarries := memoryRow_eq_some_iff.mp hr
    refine ⟨r, hcarries, intoMemoryNode_ok_iff.mpr ?_⟩
    rw [hcarries.memoryType, hcarries.layer, hcarries.tags, hcarries.visibility,
      hcarries.emotionalValence, hcarries.fsrsLastReview, hcarries.metadata,
      Option.some.inj (hcarries.createdAt.symm.trans hcreated),
      Option.some.inj (hcarries.updatedAt.symm.trans hupdated),
      Except.ok.inj (hcarries.accessTimes.symm.trans htext)]
    exact ⟨h.memoryType, h.layer, h.tags, h.visibility, h.valence, ⟨_, htime⟩, ⟨_, htime'⟩,
      ⟨_, htimes⟩, fun _ hnone => (by cases hnone), h.metadata⟩
  · rintro ⟨r, h, hnode⟩
    obtain ⟨hmemoryType, hlayer, htags, hvisibility, hvalence, ⟨time, hcreated⟩, ⟨time', hupdated⟩,
      ⟨times, htimes⟩, -, hmetadata⟩ := intoMemoryNode_ok_iff.mp hnode
    exact
      { memoryType := h.memoryType ▸ hmemoryType
        layer := h.layer ▸ hlayer
        tags := h.tags ▸ htags
        visibility := h.visibility ▸ hvisibility
        valence := h.emotionalValence ▸ hvalence
        createdAt := ⟨_, time, h.createdAt, hcreated⟩
        updatedAt := ⟨_, time', h.updatedAt, hupdated⟩
        accessTimes := ⟨_, times, h.accessTimes, htimes⟩
        metadata := h.metadata ▸ hmetadata }

/-- A time is carried if the database takes it for one. -/
theorem carriesTime_iff {old : Option String} :
    CarriesTime sql old (old.bind sql.strftime) ↔ ∀ t, old = some t → Dated sql t := by
  cases old with
  | none => simp [CarriesTime]
  | some t =>
    cases h : sql.strftime t <;> simp [CarriesTime, Dated, h]

theorem CarriesTime.eq_bind {old new : Option String} (h : CarriesTime sql old new) :
    new = old.bind sql.strftime := by
  cases old with
  | none =>
    cases new with
    | none => rfl
    | some t => cases h
  | some s =>
    cases new with
    | none => cases h
    | some t => exact (Option.some.inj h).symm

theorem carriesLink_iff {l : AssociativeLinksRow} {r : LinkRow} : CarriesLink sql l r ↔
    linkRow sql l = some r ∧ ∀ t, l.lastActivated = some t → Dated sql t := by
  constructor
  · intro h
    have htime := h.lastTraversed.eq_bind
    refine ⟨?_, carriesTime_iff.mp (htime ▸ h.lastTraversed)⟩
    obtain ⟨_, _, _, _, _, _, _⟩ := r
    simp only [linkRow, h.createdAt, Option.bind_eq_bind, Option.bind_some, Option.some.injEq,
      LinkRow.mk.injEq]
    exact ⟨h.sourceId.symm, h.targetId.symm, h.linkType.symm, h.weight.symm, trivial, htime.symm,
      h.traversalCount.symm⟩
  · rintro ⟨h, hdated⟩
    simp only [linkRow, Option.bind_eq_bind, Option.bind_eq_some_iff, Option.some.injEq] at h
    obtain ⟨createdAt, hcreated, rfl⟩ := h
    exact ⟨rfl, rfl, rfl, rfl, hcreated, carriesTime_iff.mpr hdated, rfl⟩

theorem carriesAgent_iff {a : PyAgentsRow} {r : AgentRow} :
    CarriesAgent sql a r ↔ agentRow sql a = some r := by
  constructor
  · intro h
    obtain ⟨_, _, _, _, _, _⟩ := r
    simp only [agentRow, h.registeredAt, Option.bind_eq_bind, Option.bind_some, Option.some.injEq,
      AgentRow.mk.injEq]
    exact ⟨h.id.symm, h.name.symm, h.description.symm, trivial, h.lastSeen.symm, h.metadata.symm⟩
  · intro h
    simp only [agentRow, Option.bind_eq_bind, Option.bind_eq_some_iff, Option.some.injEq] at h
    obtain ⟨registeredAt, hregistered, rfl⟩ := h
    exact ⟨rfl, rfl, rfl, hregistered, rfl, rfl⟩

theorem carriesEpisode_iff {x : PyEpisodesRow} {r : EpisodeRow} : CarriesEpisode sql x r ↔
    episodeRow sql x = some r ∧ ∀ t, x.endedAt = some t → Dated sql t := by
  constructor
  · intro h
    have htime := h.endedAt.eq_bind
    refine ⟨?_, carriesTime_iff.mp (htime ▸ h.endedAt)⟩
    obtain ⟨_, _, _, _, _, _, _, _⟩ := r
    simp only [episodeRow, h.startedAt, Option.bind_eq_bind, Option.bind_some, Option.some.injEq,
      EpisodeRow.mk.injEq]
    exact ⟨h.id.symm, h.title.symm, h.agentId.symm, h.threadId.symm, trivial, htime.symm,
      h.summary.symm, h.memoryIds.symm⟩
  · rintro ⟨h, hdated⟩
    simp only [episodeRow, Option.bind_eq_bind, Option.bind_eq_some_iff, Option.some.injEq] at h
    obtain ⟨startedAt, hstarted, rfl⟩ := h
    exact ⟨rfl, rfl, rfl, rfl, hstarted, carriesTime_iff.mpr hdated, rfl, rfl⟩

theorem carriesStep_iff {x : PyEpisodeStepsRow} {r : EpisodeStepRow} :
    CarriesStep sql x r ↔ episodeStepRow sql x = some r := by
  constructor
  · intro h
    obtain ⟨_, _, _, _, _⟩ := r
    simp only [episodeStepRow, h.timestamp, Option.bind_eq_bind, Option.bind_some,
      Option.some.injEq, EpisodeStepRow.mk.injEq]
    exact ⟨h.episodeId.symm, h.stepIndex.symm, h.description.symm, h.memoryId.symm, trivial⟩
  · intro h
    simp only [episodeStepRow, Option.bind_eq_bind, Option.bind_eq_some_iff,
      Option.some.injEq] at h
    obtain ⟨timestamp, htimestamp, rfl⟩ := h
    exact ⟨rfl, rfl, rfl, rfl, htimestamp⟩

/-! ### When a row can be inserted -/

theorem isSome_linkRow {l : AssociativeLinksRow} :
    (linkRow sql l).isSome = true ↔ Dated sql l.createdAt := by
  cases h : sql.strftime l.createdAt <;> simp [linkRow, Dated, h]

theorem isSome_agentRow {a : PyAgentsRow} :
    (agentRow sql a).isSome = true ↔ Dated sql a.registeredAt := by
  cases h : sql.strftime a.registeredAt <;> simp [agentRow, Dated, h]

theorem isSome_episodeRow {x : PyEpisodesRow} :
    (episodeRow sql x).isSome = true ↔ Dated sql (x.startedAt.getD x.createdAt) := by
  cases h : sql.strftime (x.startedAt.getD x.createdAt) <;> simp [episodeRow, Dated, h]

theorem isSome_episodeStepRow {x : PyEpisodeStepsRow} :
    (episodeStepRow sql x).isSome = true ↔ Dated sql x.timestamp := by
  cases h : sql.strftime x.timestamp <;> simp [episodeStepRow, Dated, h]

/-! ### Tables -/

theorem copied_memories : (∀ m ∈ p.memoryNodes, ∃ r ∈ (copied sql p).memories,
      CarriesMemory sql m r) ↔ ∀ m ∈ p.memoryNodes, (memoryRow sql m).isSome = true := by
  simp only [← memoryRow_eq_some_iff]
  refine forall_keyed_iff (fun x y => Bool.beq_comm) p.memoryKeys fun a b x y hx hy hxy => ?_
  rw [← (memoryRow_eq_some_iff.mp hx).id, ← (memoryRow_eq_some_iff.mp hy).id]
  exact eq_of_beq hxy

/-- The memories are there and can be read. -/
theorem copied_memories_decode : ((∀ m ∈ p.memoryNodes, ∃ r ∈ (copied sql p).memories,
      CarriesMemory sql m r) ∧ ∀ r ∈ (copied sql p).memories,
        ∃ node, r.raw.intoMemoryNode c = .ok node) ↔ ∀ m ∈ p.memoryNodes, Sound sql c m := by
  constructor
  · rintro ⟨hthere, hreads⟩ m hm
    obtain ⟨r, hr, hcarries⟩ := hthere m hm
    exact sound_iff.mpr ⟨r, hcarries, hreads r hr⟩
  · intro h
    refine ⟨copied_memories.mpr fun m hm => ?_, fun r hr => ?_⟩
    · obtain ⟨r, hcarries, -⟩ := sound_iff.mp (h m hm)
      rw [memoryRow_eq_some_iff.mpr hcarries]
      rfl
    · obtain hr | hr := insertOrIgnore_subset hr
      · cases hr
      · obtain ⟨m, hm, hrow⟩ := List.mem_filterMap.mp hr
        obtain ⟨r', hcarries, hnode⟩ := sound_iff.mp (h m hm)
        obtain rfl := Option.some.inj (hrow.symm.trans (memoryRow_eq_some_iff.mpr hcarries))
        exact hnode

theorem forall_exists_and {α β : Type} {l : List α} {t : List β} {A : α → β → Prop}
    {B : α → Prop} : (∀ a ∈ l, ∃ b ∈ t, A a b ∧ B a) ↔
      (∀ a ∈ l, ∃ b ∈ t, A a b) ∧ ∀ a ∈ l, B a :=
  ⟨fun h => ⟨fun a ha => (h a ha).imp fun _ hb => ⟨hb.1, hb.2.1⟩,
      fun a ha => (h a ha).elim fun _ hb => hb.2.2⟩,
    fun h a ha => (h.1 a ha).imp fun _ hb => ⟨hb.1, hb.2, h.2 a ha⟩⟩

/-- The links are there. -/
theorem copied_links : (∀ l ∈ p.associativeLinks, ∃ r ∈ (copied sql p).links,
      CarriesLink sql l r) ↔
    (∀ l ∈ p.associativeLinks, Dated sql l.createdAt ∧ ∀ t, l.lastActivated = some t →
      Dated sql t) ∧
    ∀ l ∈ p.associativeLinks, ∀ l' ∈ p.associativeLinks, l.sourceId = l'.sourceId ∧
      l.targetId = l'.targetId ∧ l.linkType = l'.linkType → SameLink sql l l' := by
  have hsymm : ∀ x y : LinkRow, x.sameKey y = y.sameKey x := fun x y => by
    rw [LinkRow.sameKey, LinkRow.sameKey, Bool.beq_comm (a := x.sourceId),
      Bool.beq_comm (a := x.targetId), Bool.beq_comm (a := x.linkType)]
  have hrow : ∀ {l : AssociativeLinksRow} {x : LinkRow}, linkRow sql l = some x →
      ∃ t, sql.strftime l.createdAt = some t ∧ x = ⟨l.sourceId, l.targetId, l.linkType, l.weight,
        t, l.lastActivated.bind sql.strftime, l.activationCount.getD 0⟩ := fun {l x} hx => by
    simp only [linkRow, Option.bind_eq_bind, Option.bind_eq_some_iff, Option.some.injEq] at hx
    exact hx.imp fun _ h => ⟨h.1, h.2.symm⟩
  simp only [carriesLink_iff]
  rw [forall_exists_and, copied, forall_clash_iff hsymm (SameLink sql)]
  · simp only [isSome_linkRow]
    rw [and_right_comm, ← forall₂_and]
  · intro l l' x y hx hy
    obtain ⟨t, -, rfl⟩ := hrow hx
    obtain ⟨t', -, rfl⟩ := hrow hy
    simp [LinkRow.sameKey, and_assoc]
  · intro l l' x y hx hy
    obtain ⟨t, ht, rfl⟩ := hrow hx
    obtain ⟨t', ht', rfl⟩ := hrow hy
    simp only [SameLink, ht, ht', LinkRow.mk.injEq, Option.some.injEq]

/-- The agents are there. -/
theorem copied_agents : (∀ a ∈ p.agents, ∃ r ∈ (copied sql p).agents, CarriesAgent sql a r) ↔
    (∀ a ∈ p.agents, Dated sql a.registeredAt) ∧
    ∀ a ∈ p.agents, ∀ b ∈ p.agents, a.id = b.id ∨ a.displayName = b.displayName →
      SameAgent sql a b := by
  have hsymm : ∀ x y : AgentRow, (x.id == y.id || x.name == y.name)
      = (y.id == x.id || y.name == x.name) := fun x y => by
    rw [Bool.beq_comm, Bool.beq_comm (a := x.name)]
  have hrow : ∀ {a : PyAgentsRow} {x : AgentRow}, agentRow sql a = some x →
      ∃ t, sql.strftime a.registeredAt = some t ∧ x = ⟨a.id, a.displayName, a.specialization, t,
        none, sql.jsonObject (a.symbol.getD "A") (a.color.getD "#888888")
          (a.generation.getD 0)⟩ := fun {a x} hx => by
    simp only [agentRow, Option.bind_eq_bind, Option.bind_eq_some_iff, Option.some.injEq] at hx
    exact hx.imp fun _ h => ⟨h.1, h.2.symm⟩
  simp only [carriesAgent_iff, ← isSome_agentRow]
  refine forall_clash_iff hsymm _ (fun a b x y hx hy => ?_) fun a b x y hx hy => ?_
  · obtain ⟨t, -, rfl⟩ := hrow hx
    obtain ⟨t', -, rfl⟩ := hrow hy
    simp
  · obtain ⟨t, ht, rfl⟩ := hrow hx
    obtain ⟨t', ht', rfl⟩ := hrow hy
    simp only [SameAgent, ht, ht', AgentRow.mk.injEq, Option.some.injEq, true_and]

/-- The episodes are there. -/
theorem copied_episodes : (∀ x ∈ p.episodes, ∃ r ∈ (copied sql p).episodes,
      CarriesEpisode sql x r) ↔
    (∀ x ∈ p.episodes, Dated sql (x.startedAt.getD x.createdAt) ∧
      ∀ t, x.endedAt = some t → Dated sql t) ∧
    ∀ x ∈ p.episodes, ∀ y ∈ p.episodes, x.id = y.id → SameEpisode sql x y := by
  have hrow : ∀ {x : PyEpisodesRow} {r : EpisodeRow}, episodeRow sql x = some r →
      ∃ t, sql.strftime (x.startedAt.getD x.createdAt) = some t ∧ r = ⟨x.id, x.title, x.agentId,
        x.sessionId, t, x.endedAt.bind sql.strftime, none, "[]"⟩ := fun {x r} hr => by
    simp only [episodeRow, Option.bind_eq_bind, Option.bind_eq_some_iff, Option.some.injEq] at hr
    exact hr.imp fun _ h => ⟨h.1, h.2.symm⟩
  simp only [carriesEpisode_iff]
  rw [forall_exists_and, copied,
    forall_clash_iff (fun x y : EpisodeRow => Bool.beq_comm) (SameEpisode sql)]
  · simp only [isSome_episodeRow]
    rw [and_right_comm, ← forall₂_and]
  · intro a b x y hx hy
    obtain ⟨t, -, rfl⟩ := hrow hx
    obtain ⟨t', -, rfl⟩ := hrow hy
    simp
  · intro a b x y hx hy
    obtain ⟨t, ht, rfl⟩ := hrow hx
    obtain ⟨t', ht', rfl⟩ := hrow hy
    simp only [SameEpisode, ht, ht', EpisodeRow.mk.injEq, Option.some.injEq, and_true]

/-- The steps are there. -/
theorem copied_steps : (∀ x ∈ p.episodeSteps, ∃ r ∈ (copied sql p).episodeSteps,
      CarriesStep sql x r) ↔ (∀ x ∈ p.episodeSteps, Dated sql x.timestamp) ∧
    ∀ x ∈ p.episodeSteps, ∀ y ∈ p.episodeSteps,
      x.episodeId = y.episodeId ∧ x.position = y.position → SameStep sql x y := by
  have hsymm : ∀ x y : EpisodeStepRow, (x.episodeId == y.episodeId && x.stepIndex == y.stepIndex)
      = (y.episodeId == x.episodeId && y.stepIndex == x.stepIndex) := fun x y => by
    rw [Bool.beq_comm, Bool.beq_comm (a := x.stepIndex)]
  have hrow : ∀ {x : PyEpisodeStepsRow} {r : EpisodeStepRow}, episodeStepRow sql x = some r →
      ∃ t, sql.strftime x.timestamp = some t ∧
        r = ⟨x.episodeId, x.position, x.role.getD "", x.memoryId, t⟩ := fun {x r} hr => by
    simp only [episodeStepRow, Option.bind_eq_bind, Option.bind_eq_some_iff,
      Option.some.injEq] at hr
    exact hr.imp fun _ h => ⟨h.1, h.2.symm⟩
  simp only [carriesStep_iff, ← isSome_episodeStepRow]
  refine forall_clash_iff hsymm _ (fun a b x y hx hy => ?_) fun a b x y hx hy => ?_
  · obtain ⟨t, -, rfl⟩ := hrow hx
    obtain ⟨t', -, rfl⟩ := hrow hy
    simp
  · obtain ⟨t, ht, rfl⟩ := hrow hx
    obtain ⟨t', ht', rfl⟩ := hrow hy
    simp only [SameStep, ht, ht', EpisodeStepRow.mk.injEq, Option.some.injEq]

theorem lossless_copied_iff : Lossless sql c p (copied sql p) ↔ Migratable sql c p := by
  constructor
  · intro h
    obtain ⟨hlinks, hlinkKeys⟩ := copied_links.mp h.links
    obtain ⟨hagents, hagentKeys⟩ := copied_agents.mp h.agents
    obtain ⟨hepisodes, hepisodeKeys⟩ := copied_episodes.mp h.episodes
    obtain ⟨hsteps, hstepKeys⟩ := copied_steps.mp h.steps
    exact
      { memories := copied_memories_decode.mp ⟨h.memories, h.decodes⟩
        links := hlinks
        linkKeys := hlinkKeys
        agents := hagents
        agentKeys := hagentKeys
        episodes := hepisodes
        episodeKeys := hepisodeKeys
        steps := hsteps
        stepKeys := hstepKeys }
  · intro h
    obtain ⟨hmemories, hdecodes⟩ := copied_memories_decode.mpr h.memories
    exact
      { memories := hmemories
        decodes := hdecodes
        links := copied_links.mpr ⟨h.links, h.linkKeys⟩
        agents := copied_agents.mpr ⟨h.agents, h.agentKeys⟩
        episodes := copied_episodes.mpr ⟨h.episodes, h.episodeKeys⟩
        steps := copied_steps.mpr ⟨h.steps, h.stepKeys⟩ }

/-! ### Opens -/

theorem exists_mapM_ok {α β ε : Type} {f : α → Except ε β} {l : List α} :
    (∃ bs, l.mapM f = .ok bs) ↔ ∀ a ∈ l, ∃ b, f a = .ok b := by
  induction l with
  | nil => simp [pure, Except.pure]
  | cons a l ih =>
    rw [List.mapM_cons, exists_bind_ok, List.forall_mem_cons, ← ih, ← exists_and_right]
    refine exists_congr fun b => and_congr_right fun _ => ?_
    rw [exists_bind_ok]
    exact exists_congr fun bs => and_iff_left ⟨_, rfl⟩

/-- The migration comes to its end where every list of access times is JSON. -/
theorem migrate_cases (sql : Sqlite) (p : PythonDb) :
    (migrate sql p = .ok (copied sql p) ∧ ∀ m ∈ p.memoryNodes,
        ∃ text, accessTimes sql m.accessTimestampsJson = .ok text) ∨
      (∃ e, migrate sql p = .error e) ∧ ∃ m ∈ p.memoryNodes,
        ∀ text, accessTimes sql m.accessTimestampsJson ≠ .ok text := by
  rw [migrate]
  cases h : p.memoryNodes.mapM fun m => accessTimes sql m.accessTimestampsJson with
  | ok ts => exact .inl ⟨rfl, exists_mapM_ok.mp ⟨ts, h⟩⟩
  | error e =>
    refine .inr ⟨⟨e, rfl⟩, ?_⟩
    by_contra hnone
    obtain ⟨ts, hts⟩ := exists_mapM_ok.mpr fun m hm => by_contra fun hno =>
      hnone ⟨m, hm, fun text htext => hno ⟨text, htext⟩⟩
    rw [hts] at h
    cases h

/-- Once the rows are copied, no open changes them. -/
theorem store_foldl_openStore {s : Store} {opens : List ℕ} : ∀ {d : Db}, d.store = s →
    (∀ p, d ≠ .python p) → (opens.foldl (openStore sql) d).store = s := by
  induction opens with
  | nil => exact fun h _ => h
  | cons n opens ih =>
    intro d hd hpython
    cases d with
    | python p => exact absurd rfl (hpython p)
    | migrated p s' =>
      rw [List.foldl_cons, openStore]
      split_ifs
      · exact ih hd hpython
      · exact ih hd fun _ h => by cases h
    | reaped s' => exact ih hd hpython

theorem foldl_openStore_error {e : String} (h : migrate sql p = .error e) (opens : List ℕ) :
    opens.foldl (openStore sql) (.python p) = .python p := by
  induction opens with
  | nil => rfl
  | cons n opens ih =>
    rw [List.foldl_cons, openStore, h]
    exact ih

/-- **Nothing is lost**, however often the store is opened, of exactly the tables that can be
migrated; the originals are gone only after an open. -/
theorem lossless_iff (sql : Sqlite) (c : Codec) (p : PythonDb) :
    (∀ opens : List ℕ, opens ≠ [] →
      Lossless sql c p (opens.foldl (openStore sql) (.python p)).store) ↔ Migratable sql c p := by
  obtain ⟨hmigrate, -⟩ | ⟨⟨e, hmigrate⟩, m, hm, hjson⟩ := migrate_cases sql p
  · have hstore : ∀ opens : List ℕ, opens ≠ [] →
        (opens.foldl (openStore sql) (.python p)).store = copied sql p := by
      intro opens hopens
      cases opens with
      | nil => exact absurd rfl hopens
      | cons n opens =>
        rw [List.foldl_cons, openStore, hmigrate]
        exact store_foldl_openStore rfl fun _ h => by cases h
    rw [← lossless_copied_iff]
    exact ⟨fun h => hstore [0] (by simp) ▸ h [0] (by simp),
      fun h opens hopens => (hstore opens hopens).symm ▸ h⟩
  · constructor
    · intro h
      have hempty := h [0] (by simp)
      rw [foldl_openStore_error hmigrate] at hempty
      obtain ⟨r, hr, -⟩ := hempty.memories m hm
      cases hr
    · intro h
      obtain ⟨text, -, htext, -⟩ := (h.memories m hm).accessTimes
      exact absurd htext (hjson text)

end Proofs

/-! ### Two agents of one name -/

/-- The database, for times that are written as `strftime` does and memories without accesses. -/
def sampleSql : Sqlite where
  strftime := some
  jsonEach _ := .ok []
  unixepoch _ := none
  jsonGroupArray _ := "[]"
  jsonObject _ _ _ := "\x7b\"symbol\":\"A\",\"color\":\"#888888\",\"generation\":0\x7d"

def sampleAgent (id : String) : PyAgentsRow where
  id
  displayName := "Claude"
  specialization := none
  registeredAt := "2026-01-01T00:00:00Z"
  symbol := none
  color := none
  generation := none

def twoAgents : PythonDb where
  memoryNodes := []
  associativeLinks := []
  agents := [sampleAgent "forge", sampleAgent "scout"]
  episodes := []
  episodeSteps := []
  memoryKeys := by decide

/-- Names are unique in the new table: the second agent is ignored, and dropped with the table that
it is in. -/
theorem not_lossless : ¬ ∀ (sql : Sqlite) (c : Codec) (p : PythonDb) (opens : List ℕ), opens ≠ [] →
    Lossless sql c p (opens.foldl (openStore sql) (.python p)).store := by
  intro h
  have hlossless := h sampleSql Reading.Store.plain.codec twoAgents [0, 6] (by simp)
  obtain ⟨r, hr, hcarries⟩ := hlossless.agents (sampleAgent "scout") (by simp [twoAgents])
  have htable : ([0, 6].foldl (openStore sampleSql) (.python twoAgents)).store.agents.map
      AgentRow.id = ["forge"] := by decide
  have hid : r.id ∈ ["forge"] := htable ▸ List.mem_map_of_mem hr
  rw [hcarries.id] at hid
  revert hid
  decide

end ApexOS.Cerebro.Migration
