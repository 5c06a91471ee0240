import ApexOS.Cerebro.Graph
import ApexOS.Lib.Run
import Mathlib.Tactic.Linarith
import Mathlib.Tactic.NormNum
import Mathlib.Tactic.Positivity

/-!
# The database and the graph

`StorageCoordinator` of `cerebro/crates/cerebro/src/storage/mod.rs`, with the statements of
`storage/sqlite.rs` on memories and links, the end of `remember` and `associate` of `cortex.rs`, and
the handlers of `cerebro-mcp/src/dispatch.rs` that store, link, delete, restore, purge and prune.

Each handler writes the database, and then does something about the graph, or nothing. The graph
should be what a rebuild makes of the database. A call that fails before anything is written changes
neither, and is left out; so is a `remember` that is refused, or that finds its content stored.

Ids of new memories, and what the queries for partners of a new memory answer, are inputs. Rows that
a query of live rows in scope could not have given are dropped from the answer.

## Main definitions

* `Db`: memories and links, whose ends exist
* `Db.network`: what the graph should be of
* `Coordinator`, `step`: the handlers
* `Agrees`: the graph is what a rebuild gives
* `Orderly`: new ids are new, what is restored is rebuilt, and no thread is pruned of anything

## Main results

* `represents_rebuild`: a rebuild is of the database's network
* `Agrees.step`: every other handler keeps the graph
* `graph_agrees_of_orderly`: and so does every run of them
* `not_graph_agrees`: a thread is pruned
-/

namespace ApexOS.Cerebro

/-! ### The tables -/

/-- What the statements read of a row of `memories`. -/
structure MemoryRow where
  agentId : Option AgentId
  visibility : Visibility
  threadId : Option String
  deletedAt : Option DateTime
  deriving DecidableEq, Repr

/-- A row of `links`, without its key. -/
structure LinkRow where
  weight : ℚ
  createdAt : DateTime
  lastTraversed : Option DateTime
  traversalCount : ℕ
  deriving DecidableEq, Repr

abbrev LinkKey := MemoryId × MemoryId × LinkType

/-- `into_link`. -/
def LinkRow.intoLink (key : LinkKey) (row : LinkRow) : AssociativeLink :=
  ⟨key.1, key.2.1, key.2.2, clampUnit row.weight, row.createdAt, row.lastTraversed,
    row.traversalCount⟩

@[simp] theorem LinkRow.key_intoLink (key : LinkKey) (row : LinkRow) :
    (row.intoLink key).key = key := rfl

def MemoryRow.live (row : MemoryRow) : Bool := row.deletedAt.isNone

def VisibilityScope.admitsRow (scope : VisibilityScope) (row : MemoryRow) : Bool :=
  scope.sqlFilter row.visibility row.agentId

/-- The database. Foreign keys are on. -/
structure Db where
  memories : Table MemoryId MemoryRow
  links : Table LinkKey LinkRow
  foreign : ∀ key row, links.get? key = some row →
    (memories.get? key.1).isSome = true ∧ (memories.get? key.2.1).isSome = true

namespace Db

def live (db : Db) (id : MemoryId) : Bool := (db.memories.get? id).any MemoryRow.live

/-- `list_all_memory_ids`. -/
def listAllMemoryIds (db : Db) : List MemoryId := db.memories.keysWhere fun _ row => row.live

/-- `list_all_links`. -/
def listAllLinks (db : Db) : List AssociativeLink :=
  (db.links.entries.filter fun x => db.live x.1.1 && db.live x.1.2.1).map fun x => x.2.intoLink x.1

/-- `insert_memory`. -/
def insertMemory (db : Db) (id : MemoryId) (row : MemoryRow) : Db where
  memories := db.memories.insert id row
  links := db.links
  foreign key link h := by
    obtain ⟨hs, ht⟩ := db.foreign key link h
    rw [Table.get?_insert, Table.get?_insert]
    constructor
    · split
      · rfl
      · exact hs
    · split
      · rfl
      · exact ht

/-- The row of a link, new or again. -/
def upsert (db : Db) (link : AssociativeLink) : LinkRow :=
  match db.links.get? link.key with
  | some row =>
    { row with
      weight := max row.weight link.weight
      lastTraversed := some link.createdAt
      traversalCount := row.traversalCount + 1 }
  | none => ⟨link.weight, link.createdAt, link.lastTraversed, link.traversalCount⟩

/-- `insert_link`; an end that does not exist is refused. -/
def insertLink (db : Db) (link : AssociativeLink) : Option Db :=
  if h : (db.memories.get? link.sourceId).isSome = true ∧
      (db.memories.get? link.targetId).isSome = true then
    some
    { memories := db.memories
      links := db.links.insert link.key (db.upsert link)
      foreign := by
        intro key row hrow
        rw [Table.get?_insert] at hrow
        split at hrow
        · rename_i heq
          rw [heq]
          exact h
        · exact db.foreign key row hrow }
  else none

/-- Rows are updated. -/
def update (db : Db) (f : MemoryId → MemoryRow → MemoryRow) : Db where
  memories := db.memories.mapValues f
  links := db.links
  foreign key row h := by
    simpa [Table.get?_mapValues] using db.foreign key row h

/-- `UPDATE memories SET deleted_at`, of the live rows that pass a test. -/
def softDelete (db : Db) (p : MemoryId → MemoryRow → Bool) (now : DateTime) : Db :=
  db.update fun id row => if row.live && p id row then { row with deletedAt := some now } else row

/-- Rows are purged, with the links at them. -/
def purge (db : Db) (p : MemoryId → MemoryRow → Bool) : Db where
  memories := db.memories.filter fun id row => !p id row
  links := db.links.filter fun key _ =>
    !((db.memories.get? key.1).any (p key.1) || (db.memories.get? key.2.1).any (p key.2.1))
  foreign key row h := by
    rw [Table.get?_filter] at h
    obtain ⟨hrow, hkeep⟩ := Option.filter_eq_some_iff.mp h
    obtain ⟨hs, ht⟩ := db.foreign key row hrow
    obtain ⟨source, hsource⟩ := Option.isSome_iff_exists.mp hs
    obtain ⟨target, htarget⟩ := Option.isSome_iff_exists.mp ht
    rw [hsource, htarget] at hkeep
    rw [Table.get?_filter, Table.get?_filter, hsource, htarget]
    simpa using hkeep

/-- What the graph should be of: the live memories, and the links of two of them. -/
def network (db : Db) : Network where
  nodes := {id | db.live id = true}
  weight key := if db.live key.1 && db.live key.2.1 then
    (db.links.get? key).map fun row => clampUnit row.weight else none

variable {db db' : Db} {id : MemoryId} {row : MemoryRow} {link : AssociativeLink}

theorem weight_eq_some {key : LinkKey} {w : ℚ} : db.network.weight key = some w ↔
    ∃ row, db.links.get? key = some row ∧ db.live key.1 = true ∧ db.live key.2.1 = true ∧
      clampUnit row.weight = w := by
  dsimp only [network]
  split
  · rename_i hlive
    obtain ⟨hs, ht⟩ := Bool.and_eq_true_iff.mp hlive
    simp [Option.map_eq_some_iff, hs, ht]
  · rename_i hlive
    refine ⟨nofun, fun ⟨_, _, hs, ht, _⟩ => ?_⟩
    exact absurd (Bool.and_eq_true_iff.mpr ⟨hs, ht⟩) hlive

theorem ends_of_weight (key : LinkKey) (w : ℚ) (h : db.network.weight key = some w) :
    key.1 ∈ db.network.nodes ∧ key.2.1 ∈ db.network.nodes := by
  obtain ⟨row, -, hs, ht, -⟩ := weight_eq_some.mp h
  exact ⟨hs, ht⟩

/-- The networks of two databases are compared by rows. -/
theorem network_ext {n : Network} (hnodes : ∀ id, db.live id = true ↔ id ∈ n.nodes)
    (hweight : ∀ key, db.network.weight key = n.weight key) : db.network = n :=
  Network.ext (Set.ext hnodes) (funext hweight)

theorem live_iff : db.live id = true ↔ ∃ row, db.memories.get? id = some row ∧ row.live = true :=
  Option.any_eq_true _ _

theorem network_insertMemory (hid : db.memories.get? id = none) (hrow : row.live = true) :
    (db.insertMemory id row).network = db.network.addNode id := by
  have hlive (id' : MemoryId) : (db.insertMemory id row).live id' = (id' == id || db.live id') := by
    rw [live, live]
    dsimp only [insertMemory]
    rw [Table.get?_insert]
    by_cases heq : id' = id
    · simp [heq, hrow]
    · simp [heq]
  refine network_ext (fun id' => ?_) fun key => ?_
  · rw [hlive, Bool.or_eq_true, beq_iff_eq]
    rfl
  · dsimp only [network, Network.addNode]
    rw [hlive, hlive]
    cases hrow : db.links.get? key with
    | none => simp [insertMemory, hrow]
    | some link =>
      obtain ⟨hs, ht⟩ := db.foreign key link hrow
      have hs' : key.1 ≠ id := fun heq => by simp [heq, hid] at hs
      have ht' : key.2.1 ≠ id := fun heq => by simp [heq, hid] at ht
      simp [insertMemory, hrow, hs', ht']

theorem network_insertLink (h : db.insertLink link = some db')
    (hsource : db.live link.sourceId = true) (htarget : db.live link.targetId = true)
    (hweight : clampUnit link.weight = link.weight) :
    db'.network = db.network.addLink link := by
  rw [insertLink] at h
  split at h
  case isFalse => cases h
  obtain rfl := Option.some.inj h
  refine network_ext (fun _ => Iff.rfl) fun key => ?_
  change (if db.live key.1 && db.live key.2.1 then _ else none) = _
  dsimp only [Network.addLink]
  rw [Function.update_apply, Table.get?_insert]
  by_cases heq : key = link.key
  · subst heq
    have hs : db.live link.key.1 = true := hsource
    have ht : db.live link.key.2.1 = true := htarget
    rw [if_pos rfl, if_pos rfl, if_pos (by rw [hs, ht]; rfl)]
    dsimp only [network]
    rw [hs, ht]
    cases hrow : db.links.get? link.key with
    | none => simp [upsert, hrow, hweight]
    | some row => simp [upsert, hrow, clampUnit_max, hweight]
  · rw [if_neg heq, if_neg heq]
    rfl

/-- Memories that are live no more take their links with them. -/
theorem network_without {gone : Set MemoryId}
    (hlive : ∀ id, db'.live id = true ↔ db.live id = true ∧ id ∉ gone)
    (hlinks : ∀ key : LinkKey, db'.live key.1 = true → db'.live key.2.1 = true →
      db'.links.get? key = db.links.get? key) : db'.network = db.network.without gone := by
  classical
  refine network_ext hlive fun key => ?_
  dsimp only [Network.without]
  by_cases hends : db'.live key.1 = true ∧ db'.live key.2.1 = true
  · obtain ⟨hs, ht⟩ := hends
    obtain ⟨hs', hsg⟩ := (hlive _).mp hs
    obtain ⟨ht', htg⟩ := (hlive _).mp ht
    rw [if_neg (not_or.mpr ⟨hsg, htg⟩)]
    dsimp only [network]
    rw [hs, ht, hs', ht', hlinks key hs ht]
  · have hnone : db'.network.weight key = none := if_neg fun h =>
      hends (Bool.and_eq_true_iff.mp h)
    rw [hnone]
    split
    · rfl
    · rename_i hgone
      rw [not_or] at hgone
      refine (if_neg fun h => hends ?_).symm
      obtain ⟨hs, ht⟩ := Bool.and_eq_true_iff.mp h
      exact ⟨(hlive _).mpr ⟨hs, hgone.1⟩, (hlive _).mpr ⟨ht, hgone.2⟩⟩

theorem network_softDelete (p : MemoryId → MemoryRow → Bool) (now : DateTime) :
    (db.softDelete p now).network =
      db.network.without {id | (db.memories.get? id).any fun row => row.live && p id row} := by
  refine network_without (fun id => ?_) fun _ _ _ => rfl
  rw [live, live]
  dsimp only [softDelete, update]
  rw [Table.get?_mapValues]
  cases hrow : db.memories.get? id with
  | none => simp
  | some row =>
    simp only [Option.map_some, Option.any_some, Set.mem_ofPred_eq, hrow]
    cases hp : row.live && p id row with
    | true => simp [MemoryRow.live]
    | false => simp

theorem network_purge (p : MemoryId → MemoryRow → Bool) :
    (db.purge p).network = db.network.without {id | (db.memories.get? id).any (p id)} := by
  have hmem (id : MemoryId) : (db.purge p).live id = true ↔
      db.live id = true ∧ id ∉ {id | (db.memories.get? id).any (p id) = true} := by
    rw [live, live]
    dsimp only [purge]
    rw [Table.get?_filter]
    cases hrow : db.memories.get? id with
    | none => simp
    | some row =>
      cases hp : p id row with
      | true => simp [hrow, hp]
      | false => simp [hrow, hp]
  refine network_without hmem fun key hs ht => ?_
  dsimp only [purge]
  rw [Table.get?_filter]
  have hsource := ((hmem _).mp hs).2
  have htarget := ((hmem _).mp ht).2
  rw [Set.mem_ofPred_eq, Bool.not_eq_true] at hsource htarget
  rw [hsource, htarget]
  cases db.links.get? key with
  | none => rfl
  | some row => rfl

end Db

/-! ### Partners of a new memory -/

/-- What the three queries answer: with the number of tags, and of concepts, that are shared, and
with the emotional intensity. -/
structure Partners where
  byTag : List (MemoryId × ℕ)
  byConcept : List (MemoryId × ℕ)
  byValence : List (MemoryId × ℚ)

/-- The rows that a query can have given. -/
def Partners.among (p : Partners) (ok : MemoryId → Bool) : Partners where
  byTag := p.byTag.filter fun x => ok x.1
  byConcept := p.byConcept.filter fun x => ok x.1
  byValence := p.byValence.filter fun x => ok x.1

/-- The first mention of each partner that something is shared with. -/
def firsts (seen : List MemoryId) : List (MemoryId × ℕ) → List (MemoryId × ℕ)
  | [] => []
  | (id, overlap) :: rest =>
    if 0 < overlap ∧ id ∉ seen then (id, overlap) :: firsts (id :: seen) rest
    else firsts seen rest

/-- The links of `auto_link_locked`. -/
def autoLinks (id : MemoryId) (intensity : ℚ) (now : DateTime) (p : Partners) :
    List AssociativeLink :=
  let link (linkType : LinkType) (target : MemoryId) (weight : ℚ) : AssociativeLink :=
    ⟨id, target, linkType, weight, now, none, 0⟩
  let byTag := firsts [] p.byTag
  let seen := byTag.map Prod.fst
  let scored := (p.byConcept.filter fun x => x.1 ∉ seen && 0 < x.2).mergeSort fun x y => y.2 ≤ x.2
  byTag.map (fun x => link .semantic x.1 (min (3 / 10 + 1 / 10 * x.2) (8 / 10))) ++
    (firsts seen (scored.take 5)).map
      (fun x => link .semantic x.1 (min (3 / 10 + 15 / 100 * x.2) (9 / 10))) ++
    p.byValence.map fun x =>
      link .affective x.1 (max (7 / 10 - |intensity - x.2| * (1 / 2)) (3 / 10))

theorem mem_of_mem_firsts {x : MemoryId × ℕ} {seen : List MemoryId} {l : List (MemoryId × ℕ)}
    (h : x ∈ firsts seen l) : x ∈ l := by
  induction l generalizing seen with
  | nil => exact h
  | cons y l ih =>
    obtain ⟨id, overlap⟩ := y
    rw [firsts] at h
    split at h
    · rcases List.mem_cons.mp h with rfl | h
      · exact List.mem_cons_self
      · exact List.mem_cons_of_mem _ (ih h)
    · exact List.mem_cons_of_mem _ (ih h)

/-- A new memory's links go from it to rows that a query can have given, with weights that are not
cut. -/
theorem mem_autoLinks {id : MemoryId} {intensity : ℚ} {now : DateTime} {p : Partners}
    {ok : MemoryId → Bool} {link : AssociativeLink}
    (h : link ∈ autoLinks id intensity now (p.among ok)) :
    link.sourceId = id ∧ ok link.targetId = true ∧ clampUnit link.weight = link.weight := by
  simp only [autoLinks, List.mem_append, List.mem_map] at h
  rcases h with (⟨x, hx, rfl⟩ | ⟨x, hx, rfl⟩) | ⟨x, hx, rfl⟩
  · refine ⟨rfl, (List.mem_filter.mp (mem_of_mem_firsts hx)).2, clampUnit_of_mem ?_ ?_⟩
    · exact le_min (by positivity) (by norm_num)
    · exact (min_le_right _ _).trans (by norm_num)
  · have hmem := List.mem_mergeSort.mp (List.mem_of_mem_take (mem_of_mem_firsts hx))
    refine ⟨rfl, (List.mem_filter.mp (List.mem_filter.mp hmem).1).2, clampUnit_of_mem ?_ ?_⟩
    · exact le_min (by positivity) (by norm_num)
    · exact (min_le_right _ _).trans (by norm_num)
  · refine ⟨rfl, (List.mem_filter.mp hx).2, clampUnit_of_mem ?_ ?_⟩
    · exact (by norm_num : (0 : ℚ) ≤ 3 / 10).trans (le_max_right _ _)
    · refine max_le ?_ (by norm_num)
      have := abs_nonneg (intensity - x.2)
      linarith

/-! ### The handlers -/

variable {γ : Type*} (G : CompactDigraph γ MemoryId AssociativeLink)

/-- `rebuild_from_db`. -/
def rebuild (db : Db) : GraphStore γ :=
  db.listAllLinks.foldl (GraphStore.addEdge G)
    (db.listAllMemoryIds.foldl (GraphStore.addNode G) (GraphStore.new G))

/-- The two of them; vectors are left out. -/
structure Coordinator (γ : Type*) where
  db : Db
  graph : GraphStore γ

/-- The calls, with the times they happen at. -/
inductive Call
  /-- a new memory, of a thread perhaps; how many of its links get into the database -/
  | remember (id : MemoryId) (agentId : Option AgentId) (visibility : Visibility)
    (threadId : Option String) (intensity : ℚ) (now : DateTime) (partners : Partners) (linked : ℕ)
  | associate (source target : MemoryId) (linkType : LinkType) (weight : ℚ) (now : DateTime)
  | deleteMemory (id : MemoryId) (scope : VisibilityScope) (now : DateTime)
  | bulkDelete (ids : List MemoryId) (scope : VisibilityScope) (now : DateTime)
  /-- and whether the rebuild goes well -/
  | restoreMemory (id : MemoryId) (scope : VisibilityScope) (rebuilt : Bool)
  | purgeMemory (id : MemoryId) (scope : VisibilityScope)
  | purgeAllDeleted (scope : VisibilityScope)
  | pruneThread (threadId : String) (scope : VisibilityScope) (now : DateTime)

namespace Coordinator

/-- `StorageCoordinator::new`. -/
def new (db : Db) : Coordinator γ := ⟨db, rebuild G db⟩

/-- A link goes to the database, and then to the graph. -/
def addLink (s : Coordinator γ) (link : AssociativeLink) : Option (Coordinator γ) :=
  (s.db.insertLink link).map fun db => ⟨db, s.graph.addEdge G link⟩

/-- Links, up to the first that is refused. -/
def addLinks (s : Coordinator γ) : List AssociativeLink → Coordinator γ
  | [] => s
  | link :: links =>
    match s.addLink G link with
    | some s' => s'.addLinks links
    | none => s

/-- The end of `remember_with_visibility`. -/
def remember (s : Coordinator γ) (id : MemoryId) (agentId : Option AgentId)
    (visibility : Visibility) (threadId : Option String) (intensity : ℚ) (now : DateTime)
    (partners : Partners) (linked : ℕ) : Coordinator γ :=
  let s : Coordinator γ :=
    ⟨s.db.insertMemory id ⟨agentId, visibility, threadId, none⟩, s.graph.addNode G id⟩
  let scope := match agentId with
    | some agent => VisibilityScope.forAgent agent
    | none => VisibilityScope.everything
  let ok (other : MemoryId) : Bool := other != id &&
    (s.db.memories.get? other).any fun row => row.live && scope.admitsRow row
  s.addLinks G ((autoLinks id intensity now (partners.among ok)).take linked)

/-- `associate`. -/
def associate (s : Coordinator γ) (source target : MemoryId) (linkType : LinkType) (weight : ℚ)
    (now : DateTime) : Coordinator γ :=
  if (s.graph.index.get? source).isSome && (s.graph.index.get? target).isSome then
    (s.addLink G (.new source target linkType weight now)).getD s
  else s

/-- `delete_memory`: the node goes if the row did. -/
def deleteMemory (s : Coordinator γ) (id : MemoryId) (scope : VisibilityScope) (now : DateTime) :
    Coordinator γ where
  db := s.db.softDelete (fun i row => i == id && scope.admitsRow row) now
  graph := if (s.db.memories.get? id).any fun row => row.live && scope.admitsRow row then
    s.graph.removeNode G id else s.graph

/-- `bulk_delete`: the nodes go of the rows that did. -/
def bulkDelete (s : Coordinator γ) (ids : List MemoryId) (scope : VisibilityScope)
    (now : DateTime) : Coordinator γ where
  db := s.db.softDelete (fun i row => ids.contains i && scope.admitsRow row) now
  graph := (s.db.memories.keysWhere fun i row =>
    row.live && (ids.contains i && scope.admitsRow row)).foldl (GraphStore.removeNode G) s.graph

/-- A deleted row that may be restored. -/
def restorable (s : Coordinator γ) (id : MemoryId) (scope : VisibilityScope) : Bool :=
  (s.db.memories.get? id).any fun row => !row.live && scope.admitsRow row

/-- `restore_memory`: the graph is rebuilt. -/
def restoreMemory (s : Coordinator γ) (id : MemoryId) (scope : VisibilityScope) (rebuilt : Bool) :
    Coordinator γ :=
  let db := s.db.update fun i row =>
    if i == id && !row.live && scope.admitsRow row then { row with deletedAt := none } else row
  ⟨db, if s.restorable id scope && rebuilt then rebuild G db else s.graph⟩

/-- `purge_memory`. -/
def purgeMemory (s : Coordinator γ) (id : MemoryId) (scope : VisibilityScope) : Coordinator γ where
  db := s.db.purge fun i row => i == id && scope.admitsRow row
  graph := if (s.db.memories.get? id).any scope.admitsRow then s.graph.removeNode G id else s.graph

/-- `purge_all_deleted`, on the database alone. -/
def purgeAllDeleted (s : Coordinator γ) (scope : VisibilityScope) : Coordinator γ :=
  { s with db := s.db.purge fun _ row => !row.live && scope.admitsRow row }

/-- `prune_thread`, on the database alone. -/
def pruneThread (s : Coordinator γ) (threadId : String) (scope : VisibilityScope)
    (now : DateTime) : Coordinator γ where
  db := s.db.softDelete (fun _ row => row.threadId == some threadId && scope.admitsRow row) now
  graph := s.graph

/-- One call. -/
def step (s : Coordinator γ) : Call → Coordinator γ × Unit
  | .remember id agentId visibility threadId intensity now partners linked =>
    (s.remember G id agentId visibility threadId intensity now partners linked, ())
  | .associate source target linkType weight now =>
    (s.associate G source target linkType weight now, ())
  | .deleteMemory id scope now => (s.deleteMemory G id scope now, ())
  | .bulkDelete ids scope now => (s.bulkDelete G ids scope now, ())
  | .restoreMemory id scope rebuilt => (s.restoreMemory G id scope rebuilt, ())
  | .purgeMemory id scope => (s.purgeMemory G id scope, ())
  | .purgeAllDeleted scope => (s.purgeAllDeleted scope, ())
  | .pruneThread threadId scope now => (s.pruneThread threadId scope now, ())

/-- **The graph agrees** with the database: its nodes are the live memories, the map is a bijection
onto the node indices, there is one edge for each link of two live memories, with the weight it is
read with, and a rebuild would give the same nodes and edges. -/
structure Agrees (s : Coordinator γ) : Prop where
  nodes : ∀ id, id ∈ G.nodes s.graph.graph ↔ s.db.live id = true
  index : ∀ id i, s.graph.index.get? id = some i ↔ (G.nodes s.graph.graph)[i]? = some id
  ends : ∀ x ∈ G.edges s.graph.graph, (G.nodes s.graph.graph)[x.1]? = some x.2.2.sourceId ∧
    (G.nodes s.graph.graph)[x.2.1]? = some x.2.2.targetId
  edge : ∀ key w, (∃ x ∈ G.edges s.graph.graph, x.2.2.key = key ∧ x.2.2.weight = w) ↔
    ∃ row, s.db.links.get? key = some row ∧ s.db.live key.1 = true ∧ s.db.live key.2.1 = true ∧
      clampUnit row.weight = w
  unique : ((G.edges s.graph.graph).map fun x => x.2.2.key).Nodup
  rebuilt : (G.nodes s.graph.graph).Perm (G.nodes (rebuild G s.db).graph) ∧
    ((G.edges s.graph.graph).map fun x => (x.2.2.key, x.2.2.weight)).Perm
      ((G.edges (rebuild G s.db).graph).map fun x => (x.2.2.key, x.2.2.weight))

/-- The id of a new memory is new; a restored memory is followed by a rebuild; and a thread that is
pruned has no live memory that the caller's scope lets through. -/
def Orderly (s : Coordinator γ) : Call → Prop
  | .remember id .. => s.db.memories.get? id = none
  | .restoreMemory id scope rebuilt => s.restorable id scope = true → rebuilt = true
  | .pruneThread threadId scope _ => ∀ id row, s.db.memories.get? id = some row →
    row.live = true → row.threadId = some threadId → scope.admitsRow row = false
  | _ => True

instance (s : Coordinator γ) (call : Call) : Decidable (Orderly s call) :=
  match call with
  | .remember id .. => inferInstanceAs (Decidable (s.db.memories.get? id = none))
  | .restoreMemory id scope rebuilt =>
    inferInstanceAs (Decidable (s.restorable id scope = true → rebuilt = true))
  | .pruneThread threadId scope _ =>
    decidable_of_iff (∀ x ∈ s.db.memories.entries, x.2.live = true →
      x.2.threadId = some threadId → scope.admitsRow x.2 = false)
      ⟨fun h id row hrow => h (id, row) (Table.mem_of_get? hrow),
        fun h x hx => h x.1 x.2 (Table.mem_iff_get?.mp hx)⟩
  | .associate .. | .deleteMemory .. | .bulkDelete .. | .purgeMemory .. | .purgeAllDeleted .. =>
    isTrue trivial

variable {G} {s : Coordinator γ}

/-- The graph is of the database's network. -/
abbrev InSync (G : CompactDigraph γ MemoryId AssociativeLink) (s : Coordinator γ) : Prop :=
  s.graph.Represents G s.db.network

/-- **A rebuild** is of the database's network. -/
theorem represents_rebuild (db : Db) : (rebuild G db).Represents G db.network := by
  have hids : {id | id ∈ db.listAllMemoryIds} = db.network.nodes := Set.ext fun id => by
    rw [Set.mem_ofPred_eq, Db.listAllMemoryIds, Table.mem_keysWhere]
    exact Db.live_iff.symm
  have hlinks (link : AssociativeLink) : link ∈ db.listAllLinks ↔
      ∃ key row, db.links.get? key = some row ∧ db.live key.1 = true ∧ db.live key.2.1 = true ∧
        row.intoLink key = link := by
    simp only [Db.listAllLinks, List.mem_map, List.mem_filter, Bool.and_eq_true, Prod.exists,
      Table.mem_iff_get?]
    simp only [and_assoc]
  have hkeys : (db.listAllLinks.map AssociativeLink.key).Nodup := by
    rw [Db.listAllLinks, List.map_map]
    exact db.links.nodup.sublist (List.Sublist.map _ List.filter_sublist)
  let base := db.listAllMemoryIds.foldl Network.addNode Network.empty
  have hbase : base.nodes = db.network.nodes := by
    rw [← hids]
    exact (Network.nodes_foldl_addNode _ _).trans (Set.empty_union _)
  have hnone (key : LinkKey) : base.weight key = none := by
    rw [Network.weight_foldl_addNode]
    rfl
  have hnodes := (GraphStore.Represents.new (G := G)).addNodes
    (db.memories.nodup_keysWhere fun _ row => row.live) fun id _ h => h
  have h := hnodes.addEdges (fun link (hlink : link ∈ db.listAllLinks) => by
    obtain ⟨key, row, -, hs, ht, rfl⟩ := (hlinks link).mp hlink
    change _ ∈ base.nodes ∧ _ ∈ base.nodes
    rw [hbase]
    exact ⟨hs, ht⟩)
  have hnetwork : db.listAllLinks.foldl Network.addLink base = db.network := by
    refine Network.ext ((Network.nodes_foldl_addLink _ _).trans hbase) (funext fun key => ?_)
    refine Option.ext fun w => ?_
    rw [Network.weight_foldl_addLink hkeys fun link _ => hnone link.key, hnone,
      Db.weight_eq_some, or_iff_right nofun]
    constructor
    · rintro ⟨link, hlink, rfl, hw⟩
      obtain ⟨key, row, hrow, hs, ht, rfl⟩ := (hlinks link).mp hlink
      exact ⟨row, hrow, hs, ht, hw⟩
    · rintro ⟨row, hrow, hs, ht, hw⟩
      exact ⟨row.intoLink key, (hlinks _).mpr ⟨key, row, hrow, hs, ht, rfl⟩, rfl, hw⟩
  rw [← hnetwork]
  exact h

/-! ### One call -/

theorem InSync.addLink (h : InSync G s) {link : AssociativeLink} {s' : Coordinator γ}
    (hs' : s.addLink G link = some s') (hsource : s.db.live link.sourceId = true)
    (htarget : s.db.live link.targetId = true) (hweight : clampUnit link.weight = link.weight) :
    InSync G s' ∧ s'.db.live = s.db.live := by
  obtain ⟨db, hdb, rfl⟩ := Option.map_eq_some_iff.mp hs'
  refine ⟨?_, ?_⟩
  · change (s.graph.addEdge G link).Represents G db.network
    rw [Db.network_insertLink hdb hsource htarget hweight]
    exact GraphStore.Represents.addEdge h hsource htarget
  · rw [Db.insertLink] at hdb
    split at hdb
    · obtain rfl := Option.some.inj hdb
      rfl
    · cases hdb

theorem InSync.addLinks {links : List AssociativeLink} (h : InSync G s)
    (hlinks : ∀ link ∈ links, s.db.live link.sourceId = true ∧ s.db.live link.targetId = true ∧
      clampUnit link.weight = link.weight) : InSync G (s.addLinks G links) := by
  induction links generalizing s with
  | nil => exact h
  | cons link links ih =>
    rw [Coordinator.addLinks]
    split
    · rename_i s' hs'
      obtain ⟨hsource, htarget, hweight⟩ := hlinks link List.mem_cons_self
      obtain ⟨h', hlive⟩ := h.addLink hs' hsource htarget hweight
      refine ih h' fun link' hlink' => ?_
      rw [hlive]
      exact hlinks link' (List.mem_cons_of_mem _ hlink')
    · exact h

theorem InSync.remember (h : InSync G s) {id : MemoryId} (hid : s.db.memories.get? id = none)
    (agentId : Option AgentId) (visibility : Visibility) (threadId : Option String) (intensity : ℚ)
    (now : DateTime) (partners : Partners) (linked : ℕ) :
    InSync G (s.remember G id agentId visibility threadId intensity now partners linked) := by
  have hgone : id ∉ s.db.network.nodes := by
    intro hlive
    obtain ⟨row, hrow, -⟩ := Db.live_iff.mp hlive
    rw [hid] at hrow
    cases hrow
  refine InSync.addLinks ?_ fun link hlink => ?_
  · change (s.graph.addNode G id).Represents G (s.db.insertMemory id _).network
    rw [Db.network_insertMemory hid rfl]
    exact GraphStore.Represents.addNode h hgone
  · obtain ⟨hsource, htarget, hweight⟩ := mem_autoLinks (List.mem_of_mem_take hlink)
    refine ⟨Db.live_iff.mpr ?_, Db.live_iff.mpr ?_, hweight⟩
    · rw [hsource]
      refine ⟨⟨agentId, visibility, threadId, none⟩, ?_, rfl⟩
      dsimp only [Db.insertMemory]
      rw [Table.get?_insert, if_pos rfl]
    · obtain ⟨row, hrow, hlive⟩ := (Option.any_eq_true _ _).mp (Bool.and_eq_true_iff.mp htarget).2
      exact ⟨row, hrow, (Bool.and_eq_true_iff.mp hlive).1⟩

theorem InSync.associate (h : InSync G s) (source target : MemoryId) (linkType : LinkType)
    (weight : ℚ) (now : DateTime) : InSync G (s.associate G source target linkType weight now) := by
  rw [Coordinator.associate]
  split
  · rename_i hends
    obtain ⟨hs, ht⟩ := Bool.and_eq_true_iff.mp hends
    have hlive {id : MemoryId} (hid : (s.graph.index.get? id).isSome = true) :
        s.db.live id = true := by
      obtain ⟨i, hi⟩ := Option.isSome_iff_exists.mp hid
      exact (h.nodes id).mp (List.mem_of_getElem? ((h.index id i).mp hi))
    cases hadd : s.addLink G (.new source target linkType weight now) with
    | none => exact h
    | some s' => exact (h.addLink hadd (hlive hs) (hlive ht) (clampUnit_clampUnit weight)).1
  · exact h

/-- A node goes, if its memory does. -/
theorem represents_removeIf (h : InSync G s) (id : MemoryId) (p : MemoryRow → Bool) :
    (if (s.db.memories.get? id).any p then s.graph.removeNode G id else s.graph).Represents G
      (s.db.network.without {i | (s.db.memories.get? i).any fun row => i == id && p row}) := by
  have hset : {i | ((s.db.memories.get? i).any fun row => i == id && p row) = true} =
      {i | i = id ∧ (s.db.memories.get? id).any p = true} := Set.ext fun i => by
    rw [Set.mem_ofPred_eq, Set.mem_ofPred_eq, Option.any_eq_true, Option.any_eq_true]
    constructor
    · rintro ⟨row, hrow, hp⟩
      obtain ⟨heq, hp'⟩ := Bool.and_eq_true_iff.mp hp
      obtain rfl := beq_iff_eq.mp heq
      exact ⟨rfl, row, hrow, hp'⟩
    · rintro ⟨rfl, row, hrow, hp⟩
      exact ⟨row, hrow, by rw [hp, beq_self_eq_true]; rfl⟩
  rw [hset]
  split
  · rename_i hany
    have hone : {i | i = id ∧ (s.db.memories.get? id).any p = true} = {id} :=
      Set.ext fun i => and_iff_left hany
    rw [hone, ← Network.remove_eq_without]
    exact GraphStore.Represents.removeNode h id
  · rename_i hany
    rw [Network.without_eq_self (fun i hi => absurd hi.2 hany) Db.ends_of_weight]
    exact h

theorem InSync.deleteMemory (h : InSync G s) (id : MemoryId) (scope : VisibilityScope)
    (now : DateTime) : InSync G (s.deleteMemory G id scope now) := by
  change GraphStore.Represents G _ (s.db.softDelete _ now).network
  rw [Db.network_softDelete]
  have h' := represents_removeIf h id fun row => row.live && scope.admitsRow row
  simp only [Bool.and_left_comm (_ == id)] at h' ⊢
  exact h'

theorem InSync.bulkDelete (h : InSync G s) (ids : List MemoryId) (scope : VisibilityScope)
    (now : DateTime) : InSync G (s.bulkDelete G ids scope now) := by
  change GraphStore.Represents G _ (s.db.softDelete _ now).network
  rw [Db.network_softDelete]
  have h' := GraphStore.Represents.removeNodes h (s.db.memories.keysWhere fun i row =>
    row.live && (ids.contains i && scope.admitsRow row))
  refine Eq.subst (motive := fun gone => GraphStore.Represents G _ (s.db.network.without gone))
    (Set.ext fun i => ?_) h'
  rw [Set.mem_ofPred_eq, Set.mem_ofPred_eq, Table.mem_keysWhere, Option.any_eq_true]

theorem InSync.restoreMemory (h : InSync G s) (id : MemoryId) (scope : VisibilityScope)
    {rebuilt : Bool} (hrebuilt : s.restorable id scope = true → rebuilt = true) :
    InSync G (s.restoreMemory G id scope rebuilt) := by
  change GraphStore.Represents G (if s.restorable id scope && rebuilt then _ else s.graph) _
  cases hr : s.restorable id scope with
  | true =>
    rw [hrebuilt hr]
    exact represents_rebuild _
  | false =>
    have hsame : (s.restoreMemory G id scope rebuilt).db.memories.get? = s.db.memories.get? := by
      funext i
      refine Table.get?_mapValues.trans ?_
      cases hrow : s.db.memories.get? i with
      | none => rfl
      | some row =>
        refine congrArg some (if_neg fun hp => ?_)
        simp only [Bool.and_eq_true, beq_iff_eq, and_assoc] at hp
        obtain ⟨rfl, hp⟩ := hp
        rw [restorable, hrow, Option.any_some, Bool.and_eq_true_iff.mpr hp] at hr
        cases hr
    have hnetwork : (s.restoreMemory G id scope rebuilt).db.network = s.db.network := by
      rw [Db.network, Db.network]
      simp only [Db.live, hsame]
      rfl
    rw [hnetwork]
    exact h

theorem InSync.purgeMemory (h : InSync G s) (id : MemoryId) (scope : VisibilityScope) :
    InSync G (s.purgeMemory G id scope) := by
  change GraphStore.Represents G _ (s.db.purge _).network
  rw [Db.network_purge]
  exact represents_removeIf h id scope.admitsRow

/-- What is not live is in no network. -/
theorem InSync.purgeAllDeleted (h : InSync G s) (scope : VisibilityScope) :
    InSync G (s.purgeAllDeleted scope) := by
  change s.graph.Represents G (s.db.purge _).network
  rw [Db.network_purge, Network.without_eq_self (fun id hgone hlive => ?_) Db.ends_of_weight]
  · exact h
  · obtain ⟨row, hrow, hlive⟩ := Db.live_iff.mp hlive
    rw [Set.mem_ofPred_eq, hrow, Option.any_some, hlive] at hgone
    cases hgone

theorem InSync.pruneThread (h : InSync G s) {threadId : String} {scope : VisibilityScope}
    (hempty : ∀ id row, s.db.memories.get? id = some row → row.live = true →
      row.threadId = some threadId → scope.admitsRow row = false) (now : DateTime) :
    InSync G (s.pruneThread threadId scope now) := by
  change s.graph.Represents G (s.db.softDelete _ now).network
  rw [Db.network_softDelete,
    Network.without_eq_self (fun id hgone hlive => ?_) Db.ends_of_weight]
  · exact h
  · obtain ⟨row, hrow, hp⟩ := (Option.any_eq_true _ _).mp hgone
    simp only [Bool.and_eq_true, beq_iff_eq] at hp
    obtain ⟨hlive, hthread, hadmits⟩ := hp
    rw [hempty id row hrow hlive hthread] at hadmits
    cases hadmits

/-- **Every other call** keeps the graph. -/
theorem InSync.step (h : InSync G s) {call : Call} (hcall : Orderly s call) :
    InSync G (s.step G call).1 := by
  cases call with
  | remember id agentId visibility threadId intensity now partners linked =>
    exact h.remember hcall agentId visibility threadId intensity now partners linked
  | associate source target linkType weight now =>
      exact h.associate source target linkType weight now
  | deleteMemory id scope now => exact h.deleteMemory id scope now
  | bulkDelete ids scope now => exact h.bulkDelete ids scope now
  | restoreMemory id scope rebuilt => exact h.restoreMemory id scope hcall
  | purgeMemory id scope => exact h.purgeMemory id scope
  | purgeAllDeleted scope => exact h.purgeAllDeleted scope
  | pruneThread threadId scope now => exact h.pruneThread hcall now

theorem InSync.agrees (h : InSync G s) : Agrees G s where
  nodes := h.nodes
  index := h.index
  ends := h.ends
  edge key w := (h.weight key w).symm.trans Db.weight_eq_some
  unique := h.unique
  rebuilt := GraphStore.Represents.same h (represents_rebuild s.db)

/-! ### Runs -/

/-- **The graph agrees** at the end of every orderly run, over every database. -/
theorem graph_agrees_of_orderly (G : CompactDigraph γ MemoryId AssociativeLink) (db : Db)
    (calls : List Call)
    (horderly : Run.Always (step G) (Coordinator.new G db) (fun _ s call => Orderly s call) calls) :
    Agrees G (Run.final (step G) (Coordinator.new G db) calls) :=
  InSync.agrees (Run.invariant (I := fun _ s => InSync G s) (represents_rebuild db)
    (fun _ _ _ h hcall => h.step hcall) horderly)

/-- One memory, of a thread. -/
def ofThread : Db where
  memories := Table.empty.insert "old" ⟨some "ada", .shared, some "thread", none⟩
  links := Table.empty
  foreign := nofun

/-- A memory is stored and linked, deleted and restored; a thread of nothing is pruned. -/
theorem graph_agrees_of_orderly_restored :
    Agrees (CompactDigraph.ofLists MemoryId AssociativeLink)
      (Run.final (step (CompactDigraph.ofLists _ _)) (.new (CompactDigraph.ofLists _ _) ofThread)
        [.remember "new" (some "ada") .shared none 0 5 ⟨[("old", 2)], [], []⟩ 1,
          .associate "old" "new" .causal (1 / 2) 6, .deleteMemory "new" .everything 7,
          .restoreMemory "new" (.forAgent "ada") true, .pruneThread "other" .everything 8,
          .purgeAllDeleted .everything]) :=
  graph_agrees_of_orderly _ _ _ (by decide +kernel)

/-- **A thread is pruned**: its memory is live no more, and its node is there. -/
theorem not_graph_agrees : ¬ Agrees (CompactDigraph.ofLists MemoryId AssociativeLink)
    (Run.final (step (CompactDigraph.ofLists _ _)) (.new (CompactDigraph.ofLists _ _) ofThread)
      [.pruneThread "thread" (.forAgent "ada") 5]) := by
  intro h
  have hlive := (h.nodes "old").mp (by decide +kernel)
  revert hlive
  decide +kernel

end Coordinator

end ApexOS.Cerebro
