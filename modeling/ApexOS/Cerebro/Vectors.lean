import ApexOS.Cerebro.Reading
import ApexOS.Cerebro.Remember

/-!
# The vectors of the contents

What the calls of `cerebro-mcp` do to the contents of memories and to their vectors, with the
statements of `storage/sqlite.rs` and `storage/vector.rs` behind them. A vector stands in a column
of its memory's row, and once more in `memory_vectors`, under the number of the row, which has a use
again when a row is gone.

The embedder is a function of the text that may fail at a call. That two rows of `memory_vectors` do
not have one number is a rule of the index itself.

## Main definitions

* `Row`, `State`: memories, their versions, the index
* `Db.storeEmbedding`, `Db.insertMemory`, `Db.purge`, `Db.writeBack`: the writes
* `Db.step`: a call
* `Db.Described`: every vector, in a column or in the index, is that of the current content
* `Db.Careful`: a content that has a vector is not changed without it

## Main results

* `Db.Described.storeEmbedding`, `insertMemory`, `purge`: what each write does to the vectors
* `Db.described_of_careful`: careful runs keep to the law, and no other step does
* `Db.not_described`: a version is restored
-/

namespace ApexOS.Cerebro.Vectors

open Remember (Ask)

variable {V : Type}

/-- A row of `memories`. -/
structure Row (V : Type) where
  rowid : ℤ
  content : String
  agentId : Option AgentId
  visibility : Visibility
  deleted : Bool
  embedding : Option V
  deriving DecidableEq

/-- `memory_versions`: the memory of each and its content; a number is not given twice. -/
structure Versions where
  last : ℤ
  rows : Table ℤ (MemoryId × String)

/-- The tables: memories, their versions, and the index. -/
structure State (V : Type) where
  rows : Table MemoryId (Row V)
  versions : Versions
  vectors : Table ℤ V

/-- The database and the embedder. -/
structure Db (V : Type) where
  vecAvailable : Bool
  embed : String → V
  /-- a number for a new row, next to those in use -/
  nextRowid : List ℤ → ℤ
  nextRowid_notMem : ∀ l, nextRowid l ∉ l
  /-- `LIMIT 1` -/
  first : List MemoryId → Option MemoryId
  /-- `ORDER BY created_at` -/
  oldest : List (MemoryId × Row V) → List (MemoryId × Row V)
  oldest_subset : ∀ l, oldest l ⊆ l

/-- The fields of `update_memory` that matter here. -/
structure Update where
  content : Option String
  /-- `effective_set_agent_id` -/
  setAgentId : Except String (Option AgentId)
  /-- the visibility of a name, when one is given -/
  visibility : Option (Option Visibility)

/-- The calls. -/
inductive Action
  | remember (ask : Ask) (id : MemoryId) (embeds : Bool)
  | updateMemory (id : MemoryId) (scope : VisibilityScope) (update : Update) (embeds : Bool)
  | restoreVersion (version : ℤ) (scope : VisibilityScope)
  | restoreMemory (id : MemoryId) (scope : VisibilityScope)
  | deleteMemory (id : MemoryId) (scope : VisibilityScope)
  | purgeMemory (id : MemoryId) (scope : VisibilityScope)
  | purgeAllDeleted (scope : VisibilityScope)
  | backfillEmbeddings (limit : UInt64) (embeds : MemoryId → Bool)

/-- What a scope lets through. -/
def Row.seen (scope : VisibilityScope) (r : Row V) : Bool := scope.sqlFilter r.visibility r.agentId

/-- The node that `update_memory` writes back, unless it refuses. -/
def Update.apply (u : Update) (r : Row V) : Option (Row V) :=
  match u.setAgentId with
  | .error _ => none
  | .ok claimed =>
    if claimed.isSome && r.agentId.isSome then none
    else
      let agentId := claimed.or r.agentId
      match u.visibility with
      | none => some { r with content := u.content.getD r.content, agentId }
      | some none => none
      | some (some visibility) =>
        if visibility = .priv && agentId.isNone then none
        else some { r with content := u.content.getD r.content, agentId, visibility }

/-- The columns that are written back. -/
def Row.over (new r : Row V) : Row V :=
  { r with content := new.content, agentId := new.agentId, visibility := new.visibility }

/-- `get_memory`. -/
def getMemory (s : State V) (id : MemoryId) (scope : VisibilityScope) : Option (Row V) :=
  (s.rows.get? id).filter fun r => !r.deleted && r.seen scope

/-- `log_memory_version`. -/
def snapshot (s : State V) (id : MemoryId) (content : String) : State V :=
  let n := s.versions.last + 1
  { s with versions := ⟨n, s.versions.rows.insert n (id, content)⟩ }

/-- `update_memory_noted`. -/
def writeBack (s : State V) (id : MemoryId) (new : Row V) : State V :=
  match s.rows.get? id with
  | none => s
  | some old =>
    if old.deleted then s
    else
      let s := if old.content = new.content then s else snapshot s id old.content
      { s with rows := s.rows.modify id new.over }

namespace Db

variable (db : Db V)

/-- `find_exact_content`. -/
def findExactContent (s : State V) (content : String) (agentId : Option AgentId) :
    Option MemoryId :=
  db.first (s.rows.keysWhere fun _ r => r.content = content && r.agentId = agentId && !r.deleted)

/-- `store_raw_embedding`, and the end of `embed_and_store`. -/
def storeEmbedding (s : State V) (id : MemoryId) (v : V) : State V :=
  { s with
    rows := s.rows.modify id fun r => { r with embedding := some v }
    vectors := match s.rows.get? id with
      | some r => if db.vecAvailable then s.vectors.insert r.rowid v else s.vectors
      | none => s.vectors }

/-- The vectors of memories are deleted from the index. -/
def dropVectors (s : State V) (p : MemoryId → Row V → Bool) : Table ℤ V :=
  if db.vecAvailable then
    s.vectors.filter fun n _ => !s.rows.entries.any fun x => p x.1 x.2 && x.2.rowid = n
  else s.vectors

/-- `insert_memory`. -/
def insertMemory (s : State V) (id : MemoryId) (a : Ask) : State V :=
  { s with
    rows := s.rows.insert id
      ⟨db.nextRowid ((s.rows.erase id).values.map Row.rowid), a.content, a.scope.agentId,
        a.visible, false, none⟩
    vectors := db.dropVectors s fun k _ => k = id }

/-- `purge_memory` and `purge_all_deleted`, of the memories they are for. -/
def purge (s : State V) (p : MemoryId → Row V → Bool) : State V where
  rows := s.rows.filter fun id r => !p id r
  versions := ⟨s.versions.last, s.versions.rows.filter fun _ x =>
    !s.rows.entries.any fun y => p y.1 y.2 && y.1 = x.1⟩
  vectors := db.dropVectors s p

/-- A call. -/
def step (s : State V) : Action → State V
  | .remember a id embeds =>
    if a.ownerless || a.gatedOut then s
    else
      let existing := if a.isMessage then none else
        (db.findExactContent s a.content a.scope.agentId).bind fun id => getMemory s id a.scope
      if existing.isSome then s
      else
        let s := db.insertMemory s id a
        if embeds then db.storeEmbedding s id (db.embed a.content) else s
  | .updateMemory id scope u embeds =>
    match (getMemory s id scope).bind u.apply with
    | none => s
    | some new =>
      let s := writeBack s id new
      if u.content.isSome && embeds then db.storeEmbedding s id (db.embed new.content) else s
  | .restoreVersion version scope =>
    match s.versions.rows.get? version with
    | none => s
    | some (id, content) =>
      match getMemory s id scope with
      | none => s
      | some r => writeBack (snapshot s id r.content) id { r with content }
  | .restoreMemory id scope =>
    { s with rows := s.rows.modify id fun r =>
        if r.deleted && r.seen scope then { r with deleted := false } else r }
  | .deleteMemory id scope =>
    { s with rows := s.rows.modify id fun r =>
        if !r.deleted && r.seen scope then { r with deleted := true } else r }
  | .purgeMemory id scope => db.purge s fun k r => k = id && r.seen scope
  | .purgeAllDeleted scope => db.purge s fun _ r => r.deleted && r.seen scope
  | .backfillEmbeddings limit embeds =>
    let missing := Reading.limited limit
      (db.oldest (s.rows.entries.filter fun x => x.2.embedding.isNone && !x.2.deleted))
    missing.foldl (fun s x =>
      if embeds x.1 then db.storeEmbedding s x.1 (db.embed x.2.content) else s) s

/-! ### The law -/

/-- The vector in the column of a memory is that of its content. -/
def Current (s : State V) (id : MemoryId) : Prop :=
  ∀ {r v}, s.rows.get? id = some r → r.embedding = some v → v = db.embed r.content

/-- A row of the index is that of a memory, with the vector of its column. -/
structure Indexed (s : State V) : Prop where
  rowids : ∀ {id id' r r'}, s.rows.get? id = some r → s.rows.get? id' = some r' →
    r.rowid = r'.rowid → id = id'
  index : ∀ {n v}, s.vectors.get? n = some v →
    ∃ id r, s.rows.get? id = some r ∧ r.rowid = n ∧ r.embedding = some v
  unavailable : db.vecAvailable = false → s.vectors = .empty

/-- **The vectors are those of the contents.** -/
structure Described (s : State V) : Prop where
  indexed : db.Indexed s
  current : ∀ id, db.Current s id

/-- A content that has a vector is changed to one of the same vector, or is embedded. -/
def Careful (s : State V) : Action → Prop
  | .updateMemory id scope u embeds => ∀ r content, getMemory s id scope = some r →
      (u.apply r).isSome = true → u.content = some content →
      embeds = true ∨ r.embedding = none ∨ db.embed content = db.embed r.content
  | .restoreVersion version scope => ∀ id r content,
      s.versions.rows.get? version = some (id, content) → getMemory s id scope = some r →
      r.embedding = none ∨ db.embed content = db.embed r.content
  | _ => True

variable {db} {s : State V}

/-! ### What the writes do -/

theorem get?_of_getMemory {id : MemoryId} {scope : VisibilityScope} {r : Row V}
    (h : getMemory s id scope = some r) : s.rows.get? id = some r ∧ r.deleted = false := by
  obtain ⟨hget, hseen⟩ := Option.filter_eq_some_iff.mp h
  exact ⟨hget, by simpa using (Bool.and_eq_true_iff.mp hseen).1⟩

/-- A change of a row that keeps its number keeps the numbers apart. -/
theorem Indexed.rowids_modify (h : db.Indexed s) {id : MemoryId} {f : Row V → Row V}
    (hf : ∀ r, (f r).rowid = r.rowid) {k k' : MemoryId} {r r' : Row V}
    (hr : (s.rows.modify id f).get? k = some r) (hr' : (s.rows.modify id f).get? k' = some r')
    (heq : r.rowid = r'.rowid) : k = k' := by
  have hback {k r} (hr : (s.rows.modify id f).get? k = some r) :
      ∃ r₀, s.rows.get? k = some r₀ ∧ r₀.rowid = r.rowid := by
    rw [Table.get?_modify] at hr
    split at hr
    · rename_i hk
      obtain ⟨r₀, hr₀, rfl⟩ := Option.map_eq_some_iff.mp hr
      exact ⟨r₀, hk ▸ hr₀, (hf r₀).symm⟩
    · exact ⟨r, hr, rfl⟩
  obtain ⟨_, hr₀, hn⟩ := hback hr
  obtain ⟨_, hr₀', hn'⟩ := hback hr'
  exact h.rowids hr₀ hr₀' (hn.trans (heq.trans hn'.symm))

/-- A change of a row that keeps its number and its vector keeps the index. -/
theorem Indexed.modify (h : db.Indexed s) (id : MemoryId) {f : Row V → Row V}
    (hf : ∀ r, (f r).rowid = r.rowid ∧ (f r).embedding = r.embedding)
    (versions : Versions) :
    db.Indexed ⟨s.rows.modify id f, versions, s.vectors⟩ := by
  refine ⟨h.rowids_modify fun r => (hf r).1, fun hv => ?_, h.unavailable⟩
  · obtain ⟨k, r, hr, hn, hembedding⟩ := h.index hv
    by_cases hk : k = id
    · subst hk
      exact ⟨k, f r, by rw [Table.get?_modify_self, hr, Option.map_some], (hf r).1.trans hn,
        (hf r).2.trans hembedding⟩
    · exact ⟨k, r, (Table.get?_modify_of_ne hk).trans hr, hn, hembedding⟩

/-- Storing a vector keeps the index. -/
theorem Indexed.storeEmbedding (h : db.Indexed s) (id : MemoryId) (v : V) :
    db.Indexed (db.storeEmbedding s id v) := by
  have hrows : (db.storeEmbedding s id v).rows =
    s.rows.modify id fun r => { r with embedding := some v } := rfl
  -- a row of the index from before, unless it is that of this memory
  have hold {n u} (hu : s.vectors.get? n = some u)
      (hne : ∀ r, s.rows.get? id = some r → r.rowid ≠ n) :
      ∃ k r, (db.storeEmbedding s id v).rows.get? k = some r ∧ r.rowid = n ∧
        r.embedding = some u := by
    obtain ⟨k, r, hr, hn, hembedding⟩ := h.index hu
    have hk : k ≠ id := fun hk => hne r (hk ▸ hr) hn
    exact ⟨k, r, (Table.get?_modify_of_ne hk).trans hr, hn, hembedding⟩
  have hrowid : ∀ r : Row V, Row.rowid { r with embedding := some v } = r.rowid := fun _ => rfl
  refine ⟨h.rowids_modify hrowid, fun {n u} hu => ?_, fun havailable => ?_⟩
  · rw [Db.storeEmbedding] at hu
    dsimp only at hu
    cases hid : s.rows.get? id with
    | none =>
      rw [hid] at hu
      exact hold hu fun r hr => by simp [hid] at hr
    | some r =>
      rw [hid] at hu
      dsimp only at hu
      by_cases havailable : db.vecAvailable = true
      · rw [if_pos havailable, Table.get?_insert] at hu
        by_cases hn : n = r.rowid
        · rw [if_pos hn] at hu
          exact ⟨id, { r with embedding := some v }, by
            rw [hrows, Table.get?_modify_self, hid, Option.map_some], hn.symm, hu⟩
        · rw [if_neg hn] at hu
          refine hold hu fun r' hr' heq => hn ?_
          obtain rfl := Option.some.inj (hid.symm.trans hr')
          exact heq.symm
      · rw [if_neg havailable, h.unavailable (by simpa using havailable)] at hu
        cases hu
  · rw [Db.storeEmbedding]
    dsimp only
    split
    · rw [if_neg (by simp [havailable])]
      exact h.unavailable havailable
    · exact h.unavailable havailable

/-- **Storing the vector of the content** mends the column. -/
theorem Described.storeEmbedding (h : db.Indexed s) {id : MemoryId}
    (hcurrent : ∀ k, k ≠ id → db.Current s k) {content : String}
    (hcontent : ∀ r, s.rows.get? id = some r → r.content = content) :
    db.Described (db.storeEmbedding s id (db.embed content)) := by
  refine ⟨h.storeEmbedding id _, fun k r v hr hv => ?_⟩
  have hr' : (s.rows.modify id fun r => { r with embedding := some (db.embed content) }).get? k =
    some r := hr
  by_cases hk : k = id
  · subst hk
    rw [Table.get?_modify_self] at hr'
    obtain ⟨r₀, hr₀, rfl⟩ := Option.map_eq_some_iff.mp hr'
    rw [← Option.some.inj hv, hcontent r₀ hr₀]
  · rw [Table.get?_modify_of_ne hk] at hr'
    exact hcurrent k hk hr' hv

/-- The index without the vectors of some memories. -/
theorem get?_dropVectors {p : MemoryId → Row V → Bool} (h : db.Indexed s) {n : ℤ} {v : V}
    (hv : (db.dropVectors s p).get? n = some v) :
    ∃ id r, s.rows.get? id = some r ∧ p id r = false ∧ r.rowid = n ∧ r.embedding = some v := by
  rw [dropVectors] at hv
  split at hv
  · rw [Table.get?_filter, Option.filter_eq_some_iff] at hv
    obtain ⟨id, r, hr, hn, hembedding⟩ := h.index hv.1
    refine ⟨id, r, hr, ?_, hn, hembedding⟩
    by_contra hp
    refine absurd hv.2 ?_
    simp only [Bool.not_eq_true, Bool.not_eq_false', List.any_eq_true, Bool.and_eq_true,
      decide_eq_true_eq]
    exact ⟨(id, r), Table.mem_of_get? hr, by simpa using hp, hn⟩
  · rename_i havailable
    rw [h.unavailable (by simpa using havailable)] at hv
    cases hv

theorem dropVectors_unavailable (h : db.Indexed s) (p : MemoryId → Row V → Bool)
    (havailable : db.vecAvailable = false) : db.dropVectors s p = .empty := by
  rw [dropVectors, if_neg (by simp [havailable])]
  exact h.unavailable havailable

/-- **A purge** takes the vectors along. -/
theorem Described.purge (h : db.Described s) (p : MemoryId → Row V → Bool) :
    db.Described (db.purge s p) := by
  have hback {k r} (hr : (db.purge s p).rows.get? k = some r) : s.rows.get? k = some r := by
    have hr' : (s.rows.filter fun id r => !p id r).get? k = some r := hr
    rw [Table.get?_filter, Option.filter_eq_some_iff] at hr'
    exact hr'.1
  refine ⟨⟨fun hr hr' heq => h.indexed.rowids (hback hr) (hback hr') heq, fun hv => ?_,
    dropVectors_unavailable h.indexed p⟩, fun k r v hr hv => h.current k (hback hr) hv⟩
  obtain ⟨id, r, hr, hp, hn, hembedding⟩ := get?_dropVectors h.indexed hv
  refine ⟨id, r, ?_, hn, hembedding⟩
  have hkept : (s.rows.filter fun id r => !p id r).get? id = some r := by
    rw [Table.get?_filter, Option.filter_eq_some_iff]
    exact ⟨hr, by simp [hp]⟩
  exact hkept

/-- **A new row** has no vector, in the column or in the index. -/
theorem Described.insertMemory (h : db.Described s) (id : MemoryId) (a : Ask) :
    db.Described (db.insertMemory s id a) := by
  have hcases {k r} (hr : (db.insertMemory s id a).rows.get? k = some r) :
      (k = id ∧ r.embedding = none ∧
        r.rowid = db.nextRowid ((s.rows.erase id).values.map Row.rowid)) ∨
      (k ≠ id ∧ s.rows.get? k = some r) := by
    rw [Db.insertMemory] at hr
    dsimp only at hr
    rw [Table.get?_insert] at hr
    split at hr
    · rename_i hk
      obtain rfl := Option.some.inj hr
      exact .inl ⟨hk, rfl, rfl⟩
    · rename_i hk
      exact .inr ⟨hk, hr⟩
  have hfresh {k r} (hk : k ≠ id) (hr : s.rows.get? k = some r) :
      r.rowid ≠ db.nextRowid ((s.rows.erase id).values.map Row.rowid) := by
    have hkept : (s.rows.erase id).get? k = some r := by
      rw [Table.get?_erase, if_neg hk]
      exact hr
    have hmem : r.rowid ∈ (s.rows.erase id).values.map Row.rowid :=
      List.mem_map_of_mem (List.mem_map_of_mem (Table.mem_of_get? hkept))
    intro heq
    rw [heq] at hmem
    exact db.nextRowid_notMem _ hmem
  refine ⟨⟨fun hr hr' heq => ?_, fun hv => ?_,
    dropVectors_unavailable h.indexed fun k _ => decide (k = id)⟩, fun k r v hr hv => ?_⟩
  · rcases hcases hr with ⟨hk, -, hn⟩ | ⟨hk, hold⟩ <;>
      rcases hcases hr' with ⟨hk', -, hn'⟩ | ⟨hk', hold'⟩
    · rw [hk, hk']
    · exact absurd (heq.symm.trans hn) (hfresh hk' hold')
    · exact absurd (heq.trans hn') (hfresh hk hold)
    · exact h.indexed.rowids hold hold' heq
  · obtain ⟨k, r, hr, hk, hn, hembedding⟩ := get?_dropVectors h.indexed hv
    refine ⟨k, r, ?_, hn, hembedding⟩
    exact (Table.get?_insert).trans ((if_neg (by simpa using hk)).trans hr)
  · rcases hcases hr with ⟨-, hnone, -⟩ | ⟨-, hold⟩
    · rw [hnone] at hv
      cases hv
    · exact h.current k hold hv

/-- A row is written back. -/
theorem writeBack_eq {id : MemoryId} {old new : Row V} (hget : s.rows.get? id = some old)
    (hlive : old.deleted = false) : ∃ versions,
      writeBack s id new = ⟨s.rows.modify id new.over, versions, s.vectors⟩ := by
  rw [writeBack, hget]
  dsimp only
  rw [if_neg (by simp [hlive])]
  split
  · exact ⟨_, rfl⟩
  · exact ⟨_, rfl⟩

/-- **A content is written**: the columns stay current exactly if the vector of the row, if it has
one, is that of the new content. -/
theorem described_modify_iff (h : db.Described s) {id : MemoryId} {r : Row V}
    (hget : s.rows.get? id = some r) {f : Row V → Row V}
    (hf : ∀ r, (f r).rowid = r.rowid ∧ (f r).embedding = r.embedding)
    (versions : Versions) :
    db.Described ⟨s.rows.modify id f, versions, s.vectors⟩ ↔
      (r.embedding = none ∨ db.embed (f r).content = db.embed r.content) := by
  constructor
  · intro hnext
    cases hv : r.embedding with
    | none => exact .inl rfl
    | some v =>
      right
      have hnew : (s.rows.modify id f).get? id = some (f r) := by
        rw [Table.get?_modify_self, hget, Option.map_some]
      exact (hnext.current id hnew ((hf r).2.trans hv)).symm.trans (h.current id hget hv)
  · intro hsame
    refine ⟨h.indexed.modify id hf versions, fun k r' v hr' hv => ?_⟩
    have hr : (s.rows.modify id f).get? k = some r' := hr'
    by_cases hk : k = id
    · subst hk
      rw [Table.get?_modify_self, hget, Option.map_some] at hr
      obtain rfl := Option.some.inj hr
      rw [(hf r).2] at hv
      rcases hsame with hnone | hsame
      · rw [hnone] at hv
        cases hv
      · rw [hsame]
        exact h.current k hget hv
    · rw [Table.get?_modify_of_ne hk] at hr
      exact h.current k hr hv

/-- A change of a row that keeps the content keeps to the law. -/
theorem Described.modify (h : db.Described s) (id : MemoryId) {f : Row V → Row V}
    (hf : ∀ r, (f r).rowid = r.rowid ∧ (f r).embedding = r.embedding)
    (hcontent : ∀ r, (f r).content = r.content) :
    db.Described { s with rows := s.rows.modify id f } := by
  cases hget : s.rows.get? id with
  | none =>
    rw [Table.modify_of_none hget]
    exact h
  | some r => exact (described_modify_iff h hget hf s.versions).mpr (.inr (by rw [hcontent]))

theorem over_keeps (new r : Row V) :
    (new.over r).rowid = r.rowid ∧ (new.over r).embedding = r.embedding := ⟨rfl, rfl⟩

/-- What an update writes has the content that is given, or the old one. -/
theorem content_of_apply {u : Update} {r new : Row V} (h : u.apply r = some new) :
    new.content = u.content.getD r.content := by
  rw [Update.apply] at h
  split at h
  · cases h
  split at h
  · cases h
  dsimp only at h
  split at h
  · cases h
    rfl
  · cases h
  · split at h
    · cases h
    · cases h
      rfl

theorem Described.backfill (h : db.Described s) (embeds : MemoryId → Bool)
    (l : List (MemoryId × Row V)) (hl : ∀ x ∈ l, ∀ r, s.rows.get? x.1 = some r →
      r.content = x.2.content) :
    db.Described (l.foldl (fun s x =>
      if embeds x.1 then db.storeEmbedding s x.1 (db.embed x.2.content) else s) s) := by
  induction l generalizing s with
  | nil => exact h
  | cons x l ih =>
    rw [List.foldl_cons]
    split
    · refine ih (Described.storeEmbedding h.indexed (fun k _ => h.current k)
        (hl x List.mem_cons_self)) fun y hy r hr => ?_
      have hr' : (s.rows.modify x.1 fun r =>
        { r with embedding := some (db.embed x.2.content) }).get? y.1 = some r := hr
      rw [Table.get?_modify] at hr'
      split at hr'
      · rename_i hk
        obtain ⟨r₀, hr₀, rfl⟩ := Option.map_eq_some_iff.mp hr'
        exact hl y (List.mem_cons_of_mem _ hy) r₀ (hk ▸ hr₀)
      · exact hl y (List.mem_cons_of_mem _ hy) r hr'
    · exact ih h fun y hy => hl y (List.mem_cons_of_mem _ hy)

/-! ### What a call does -/

theorem Described.remember (h : db.Described s) (a : Ask) (id : MemoryId) (embeds : Bool) :
    db.Described (db.step s (.remember a id embeds)) := by
  rw [step]
  split
  · exact h
  dsimp only
  generalize (if a.isMessage then none else
    (db.findExactContent s a.content a.scope.agentId).bind fun id => getMemory s id a.scope) =
      existing
  cases existing with
  | some existing => exact h
  | none =>
    have hinsert := h.insertMemory id a
    cases embeds with
    | false => exact hinsert
    | true =>
      refine Described.storeEmbedding hinsert.indexed (fun k _ => hinsert.current k) fun r hr => ?_
      have hnew : r = _ := Option.some.inj (hr.symm.trans (Table.get?_insert.trans (if_pos rfl)))
      rw [hnew]

theorem described_updateMemory_iff (h : db.Described s) (id : MemoryId) (scope : VisibilityScope)
    (u : Update) (embeds : Bool) :
    db.Described (db.step s (.updateMemory id scope u embeds)) ↔
      db.Careful s (.updateMemory id scope u embeds) := by
  rw [step, Careful]
  cases hr : getMemory s id scope with
  | none =>
    exact iff_of_true h fun r content hr' => nomatch hr'
  | some r =>
    rw [Option.bind_some]
    cases hnew : u.apply r with
    | none =>
      refine iff_of_true h fun r' content hr' happlied => ?_
      obtain rfl := Option.some.inj hr'
      rw [hnew] at happlied
      cases happlied
    | some new =>
      obtain ⟨hget, hlive⟩ := get?_of_getMemory hr
      obtain ⟨versions, hwrite⟩ : ∃ versions,
          writeBack s id new = ⟨s.rows.modify id new.over, versions, s.vectors⟩ :=
        writeBack_eq hget hlive
      have hcontent := content_of_apply hnew
      dsimp only
      rw [hwrite]
      cases hu : u.content with
      | none =>
        rw [hu] at hcontent
        refine iff_of_true ?_ (by simp)
        exact (described_modify_iff h hget (over_keeps new) versions).mpr (.inr (by
          rw [Row.over, hcontent]
          rfl))
      | some content =>
        rw [hu] at hcontent
        cases embeds with
        | false =>
          refine (described_modify_iff h hget (over_keeps new) versions).trans ?_
          have hover : (new.over r).content = content := hcontent
          rw [hover]
          constructor
          · rintro hsame r' content' hr' - hgiven
            obtain rfl := Option.some.inj hr'
            obtain rfl := Option.some.inj hgiven
            exact .inr hsame
          · intro hcareful
            exact (hcareful r content rfl (by rw [hnew]; rfl) rfl).resolve_left (by simp)
        | true =>
          refine iff_of_true ?_ (by simp)
          refine Described.storeEmbedding (h.indexed.modify id (over_keeps new) versions)
            (fun k hk r' v hr' hv => ?_) fun r' hr' => ?_
          · exact h.current k ((Table.get?_modify_of_ne hk).symm.trans hr') hv
          · have hover : (s.rows.modify id new.over).get? id = some r' := hr'
            rw [Table.get?_modify_self, hget, Option.map_some] at hover
            rw [← Option.some.inj hover]
            rfl

theorem described_restoreVersion_iff (h : db.Described s) (version : ℤ) (scope : VisibilityScope) :
    db.Described (db.step s (.restoreVersion version scope)) ↔
      db.Careful s (.restoreVersion version scope) := by
  rw [step, Careful]
  cases hversion : s.versions.rows.get? version with
  | none => simpa using h
  | some x =>
    obtain ⟨id, content⟩ := x
    dsimp only
    cases hr : getMemory s id scope with
    | none => 
      refine iff_of_true h ?_
      rintro id' r content' heq hr'
      obtain ⟨rfl, rfl⟩ := Prod.mk.inj (Option.some.inj heq)
      rw [hr] at hr'
      cases hr'
    | some r =>
      obtain ⟨hget, hlive⟩ := get?_of_getMemory hr
      obtain ⟨versions, hwrite⟩ : ∃ versions,
          writeBack (snapshot s id r.content) id { r with content } =
            ⟨s.rows.modify id (Row.over { r with content }), versions, s.vectors⟩ :=
        writeBack_eq hget hlive
      dsimp only
      rw [hwrite]
      refine (described_modify_iff h hget (over_keeps _) versions).trans ?_
      constructor
      · rintro hsame id' r' content' heq hr'
        obtain ⟨rfl, rfl⟩ := Prod.mk.inj (Option.some.inj heq)
        obtain rfl := Option.some.inj (hr.symm.trans hr')
        exact hsame
      · exact fun hcareful => hcareful id r content rfl hr

/-- **A call** keeps to the law exactly if it is careful. -/
theorem described_step_iff (h : db.Described s) (e : Action) :
    db.Described (db.step s e) ↔ db.Careful s e := by
  cases e with
  | remember a id embeds => exact iff_of_true (h.remember a id embeds) trivial
  | updateMemory id scope u embeds => exact described_updateMemory_iff h id scope u embeds
  | restoreVersion version scope => exact described_restoreVersion_iff h version scope
  | restoreMemory id scope =>
    refine iff_of_true (h.modify id (fun r => ?_) fun r => ?_) trivial
    · split <;> exact ⟨rfl, rfl⟩
    · split <;> rfl
  | deleteMemory id scope =>
    refine iff_of_true (h.modify id (fun r => ?_) fun r => ?_) trivial
    · split <;> exact ⟨rfl, rfl⟩
    · split <;> rfl
  | purgeMemory id scope => exact iff_of_true (h.purge _) trivial
  | purgeAllDeleted scope => exact iff_of_true (h.purge _) trivial
  | backfillEmbeddings limit embeds =>
    refine iff_of_true (h.backfill embeds _ fun x hx r hr => ?_) trivial
    have hmem : x ∈ s.rows.entries := by
      rw [Reading.limited] at hx
      have hx' : x ∈ db.oldest (s.rows.entries.filter fun x => x.2.embedding.isNone &&
          !x.2.deleted) := by
        split at hx
        · exact List.mem_of_mem_take hx
        · exact hx
      exact (List.mem_filter.mp (db.oldest_subset _ hx')).1
    rw [Table.mem_iff_get?.mp hmem] at hr
    rw [Option.some.inj hr]

/-- A call, with no answer to look at. -/
def call (db : Db V) (s : State V) (e : Action) : State V × Unit := (db.step s e, ())

/-- **A careful run** keeps to the law, from any store that does. And no call that is not careful
does. -/
theorem described_of_careful (db : Db V) :
    (∀ (s : State V) (es : List Action), db.Described s →
      Run.Always db.call s (fun _ t e => db.Careful t e) es →
      db.Described (Run.final db.call s es)) ∧
    ∀ (s : State V) (e : Action), db.Described s →
      (db.Described (db.step s e) ↔ db.Careful s e) := by
  refine ⟨fun s es h hcareful => ?_, fun s e h => described_step_iff h e⟩
  exact Run.invariant (I := fun _ t => db.Described t) h
    (fun _ t e ht hstep => (described_step_iff ht e).mpr hstep) hcareful

/-! ### Runs -/

/-- A text is its own vector, and the numbers of rows go up. -/
def plain : Db String where
  vecAvailable := true
  embed := id
  nextRowid := fun l => l.foldr max 0 + 1
  nextRowid_notMem := by
    have hle : ∀ (l : List ℤ), ∀ x ∈ l, x ≤ l.foldr max 0 := by
      intro l
      induction l with
      | nil => simp
      | cons y l ih =>
        intro x hx
        rcases List.mem_cons.mp hx with rfl | hx
        · exact le_max_left _ _
        · exact (ih x hx).trans (le_max_right _ _)
    intro l hmem
    have := hle l _ hmem
    omega
  first := List.head?
  oldest := id
  oldest_subset := fun l => List.Subset.refl l

/-- An empty store. -/
def empty : State V := ⟨.empty, ⟨0, .empty⟩, .empty⟩

theorem described_empty (db : Db V) : db.Described empty :=
  ⟨⟨fun hr => (nomatch hr), fun hv => (nomatch hv), fun _ => rfl⟩, fun _ _ _ hr => (nomatch hr)⟩

def oldText : String := "the pump needs a new seal"

def newText : String := "the pump has a new seal"

/-- A note is made, and changed. -/
def edited (embeds : Bool) : List Action :=
  [.remember ⟨oldText, none, .forAgent "ada", none⟩ "m" true,
    .updateMemory "m" (.forAgent "ada") ⟨some newText, .ok none, none⟩ embeds]

/-- The note is embedded again. -/
theorem described_edited : plain.Described (Run.final plain.call empty (edited true)) := by
  refine (described_of_careful plain).1 empty (edited true) (described_empty plain) ?_
  rw [edited, Run.always_cons, Run.always_cons]
  exact ⟨trivial, fun _ _ _ _ _ => .inl rfl, Run.Always.nil⟩

/-- **A version is restored**, and the vector stays that of the text before; and so it is when the
embedder fails. -/
theorem not_described :
    ¬ plain.Described (Run.final plain.call empty
      (edited true ++ [.restoreVersion 1 (.forAgent "ada")])) ∧
    ¬ plain.Described (Run.final plain.call empty (edited false)) := by
  constructor
  · intro h
    have hget : (Run.final plain.call empty
        (edited true ++ [.restoreVersion 1 (.forAgent "ada")])).rows.get? "m" =
          some ⟨1, oldText, some "ada", .shared, false, some newText⟩ := by rfl
    exact absurd (h.current "m" hget rfl) (by decide)
  · intro h
    have hget : (Run.final plain.call empty (edited false)).rows.get? "m" =
      some ⟨1, newText, some "ada", .shared, false, some oldText⟩ := by rfl
    exact absurd (h.current "m" hget rfl) (by decide)

end Db

end ApexOS.Cerebro.Vectors
