import ApexOS.Cerebro.Types
import ApexOS.Lib.CompactDigraph
import ApexOS.Lib.Table
import Mathlib.Data.Set.Insert

/-!
# The graph in memory

`cerebro/crates/cerebro/src/storage/graph.rs`: a graph of the live memories and their links, with a
map from memories to node indices. The graph library is an arbitrary `CompactDigraph`: a removed
node's index goes to the last one, and the map is mended.

What the graph is for is a `Network`: a set of memories, and a weight for each typed pair of them
that is linked. Every operation of the store is one on networks.

## Main definitions

* `GraphStore`, `addNode`, `addEdge`, `removeNode`: the store
* `Network`: what it is of
* `GraphStore.Represents`: the map is a bijection onto the indices, and every link has one edge

## Main results

* `Represents.addNode`, `Represents.addEdge`, `Represents.removeNode`: the operations
* `Represents.same`: two stores of one network differ in numbering and stamps only
-/

namespace ApexOS.Cerebro

variable {γ : Type*} (G : CompactDigraph γ MemoryId AssociativeLink)

/-- `GraphStore`. -/
structure GraphStore (γ : Type*) where
  graph : γ
  index : Table MemoryId ℕ

namespace GraphStore

/-- `GraphStore::new`. -/
def new : GraphStore γ := ⟨G.empty, Table.empty⟩

/-- `add_node`. -/
def addNode (gs : GraphStore γ) (id : MemoryId) : GraphStore γ :=
  let (graph, idx) := G.addNode gs.graph id
  ⟨graph, gs.index.insert id idx⟩

/-- The edge that a link of this type has already. -/
def existing (gs : GraphStore γ) (src tgt : ℕ) (linkType : LinkType) : Option ℕ :=
  (G.connecting gs.graph src tgt).find? fun k =>
    ((G.edges gs.graph)[k]?).any fun x => x.2.2.linkType = linkType

/-- `add_edge`; nothing is added for an end that is not there. -/
def addEdge (gs : GraphStore γ) (link : AssociativeLink) : GraphStore γ :=
  match gs.index.get? link.sourceId, gs.index.get? link.targetId with
  | some src, some tgt =>
    match gs.existing G src tgt link.linkType with
    | some k => { gs with graph := G.modifyEdge gs.graph k (·.reassert link) }
    | none => { gs with graph := G.addEdge gs.graph src tgt link }
  | _, _ => gs

/-- `remove_node`. -/
def removeNode (gs : GraphStore γ) (id : MemoryId) : GraphStore γ :=
  match gs.index.get? id with
  | some idx =>
    let graph := G.removeNode gs.graph idx
    let index := gs.index.erase id
    match (G.nodes graph)[idx]? with
    | some swappedId => ⟨graph, index.insert swappedId idx⟩
    | none => ⟨graph, index⟩
  | none => gs

end GraphStore

/-! ### Networks -/

/-- Memories, and the weights of their links. -/
@[ext] structure Network where
  nodes : Set MemoryId
  weight : MemoryId × MemoryId × LinkType → Option ℚ

namespace Network

def empty : Network := ⟨∅, fun _ => none⟩

def addNode (n : Network) (id : MemoryId) : Network := { n with nodes := insert id n.nodes }

/-- A link, or a link again: the greater weight. -/
def addLink (n : Network) (link : AssociativeLink) : Network where
  nodes := n.nodes
  weight := Function.update n.weight link.key (some (match n.weight link.key with
    | some w => max w link.weight
    | none => link.weight))

/-- A memory goes with its links. -/
def remove (n : Network) (id : MemoryId) : Network where
  nodes := n.nodes \ {id}
  weight key := if key.1 = id ∨ key.2.1 = id then none else n.weight key

open Classical in
/-- What is left when these memories go. -/
noncomputable def without (n : Network) (gone : Set MemoryId) : Network where
  nodes := n.nodes \ gone
  weight key := if key.1 ∈ gone ∨ key.2.1 ∈ gone then none else n.weight key

variable {n : Network}

theorem remove_eq_without (n : Network) (id : MemoryId) : n.remove id = n.without {id} := by
  refine Network.ext rfl (funext fun key => ?_)
  simp only [remove, without, Set.mem_singleton_iff]

theorem without_without (n : Network) (gone gone' : Set MemoryId) :
    (n.without gone).without gone' = n.without (gone ∪ gone') := by
  classical
  refine Network.ext Set.sdiff_sdiff (funext fun key => ?_)
  simp only [without, Set.mem_union]
  split
  · rename_i h
    rw [if_pos (h.imp .inr .inr)]
  · rename_i h
    refine if_congr ?_ rfl rfl
    tauto

/-- Memories that are not there, and have no links. -/
theorem without_eq_self {gone : Set MemoryId} (hgone : ∀ id ∈ gone, id ∉ n.nodes)
    (hends : ∀ key w, n.weight key = some w → key.1 ∈ n.nodes ∧ key.2.1 ∈ n.nodes) :
    n.without gone = n := by
  refine Network.ext (Set.ext fun id => ?_) (funext fun key => ?_)
  · exact ⟨And.left, fun h => ⟨h, fun hg => hgone id hg h⟩⟩
  · dsimp only [without]
    split
    · rename_i hend
      cases hw : n.weight key with
      | none => rfl
      | some w =>
        obtain ⟨hs, ht⟩ := hends key w hw
        rcases hend with hg | hg
        · exact absurd hs (hgone _ hg)
        · exact absurd ht (hgone _ hg)
    · rfl

theorem foldl_remove (n : Network) (ids : List MemoryId) :
    ids.foldl remove n = n.without {id | id ∈ ids} := by
  induction ids generalizing n with
  | nil =>
    refine Network.ext ?_ (funext fun key => ?_)
    · simp [without]
    · simp [without]
  | cons id ids ih =>
    rw [List.foldl_cons, ih, remove_eq_without, without_without]
    refine congrArg n.without (Set.ext fun x => ?_)
    simp

theorem nodes_foldl_addNode (n : Network) (ids : List MemoryId) :
    (ids.foldl addNode n).nodes = n.nodes ∪ {id | id ∈ ids} := by
  induction ids generalizing n with
  | nil => simp
  | cons id ids ih =>
    rw [List.foldl_cons, ih]
    refine Set.ext fun x => ?_
    simp only [addNode, Set.mem_union, Set.mem_insert_iff, Set.mem_ofPred_eq, List.mem_cons]
    tauto

theorem weight_foldl_addNode (n : Network) (ids : List MemoryId) :
    (ids.foldl addNode n).weight = n.weight := by
  induction ids generalizing n with
  | nil => rfl
  | cons id ids ih => exact ih _

theorem nodes_foldl_addLink (n : Network) (links : List AssociativeLink) :
    (links.foldl addLink n).nodes = n.nodes := by
  induction links generalizing n with
  | nil => rfl
  | cons link links ih => exact ih _

/-- New links, each of them once: the weights they have. -/
theorem weight_foldl_addLink {links : List AssociativeLink}
    (hunique : (links.map AssociativeLink.key).Nodup)
    (hnew : ∀ link ∈ links, n.weight link.key = none) (key : MemoryId × MemoryId × LinkType)
    (w : ℚ) : (links.foldl addLink n).weight key = some w ↔
      n.weight key = some w ∨ ∃ link ∈ links, link.key = key ∧ link.weight = w := by
  induction links generalizing n with
  | nil => simp
  | cons link links ih =>
    rw [List.map_cons, List.nodup_cons] at hunique
    obtain ⟨hfirst, hunique⟩ := hunique
    have hlink := hnew link List.mem_cons_self
    have hadd (k : MemoryId × MemoryId × LinkType) : (n.addLink link).weight k =
        if k = link.key then some link.weight else n.weight k := by
      simp only [addLink, Function.update_apply, hlink]
    rw [List.foldl_cons, ih hunique, hadd]
    · by_cases heq : key = link.key
      · subst heq
        rw [if_pos rfl, hlink]
        simp
      · simp [heq, Ne.symm heq]
    · intro link' hlink'
      have hne : link'.key ≠ link.key := fun heq => hfirst (heq ▸ List.mem_map_of_mem hlink')
      rw [hadd, if_neg hne]
      exact hnew link' (List.mem_cons_of_mem _ hlink')

end Network

/-- **The store is of a network**: the map and the nodes are inverse to each other, and there is one
edge for each link, between the indices of its ends and with its weight. -/
structure GraphStore.Represents (gs : GraphStore γ) (n : Network) : Prop where
  index : ∀ id i, gs.index.get? id = some i ↔ (G.nodes gs.graph)[i]? = some id
  nodes : ∀ id, id ∈ G.nodes gs.graph ↔ id ∈ n.nodes
  ends : ∀ x ∈ G.edges gs.graph, (G.nodes gs.graph)[x.1]? = some x.2.2.sourceId ∧
    (G.nodes gs.graph)[x.2.1]? = some x.2.2.targetId
  weight : ∀ key w, n.weight key = some w ↔
    ∃ x ∈ G.edges gs.graph, x.2.2.key = key ∧ x.2.2.weight = w
  unique : ((G.edges gs.graph).map fun x => x.2.2.key).Nodup

namespace GraphStore.Represents

variable {G} {gs gs' : GraphStore γ} {n : Network} {id : MemoryId} {link : AssociativeLink}

theorem new : (GraphStore.new G).Represents G Network.empty where
  index id i := by simp [GraphStore.new, G.nodes_empty]
  nodes id := by simp [GraphStore.new, G.nodes_empty, Network.empty]
  ends := by simp [GraphStore.new, G.edges_empty]
  weight := by simp [GraphStore.new, G.edges_empty, Network.empty]
  unique := by simp [GraphStore.new, G.edges_empty]

theorem index_isSome (h : gs.Represents G n) (hid : id ∈ n.nodes) :
    ∃ i, gs.index.get? id = some i := by
  obtain ⟨i, hi⟩ := List.getElem?_of_mem ((h.nodes id).mpr hid)
  exact ⟨i, (h.index id i).mpr hi⟩

theorem lt_length (h : gs.Represents G n) {i : ℕ} (hi : gs.index.get? id = some i) :
    i < (G.nodes gs.graph).length :=
  (List.getElem?_eq_some_iff.mp ((h.index id i).mp hi)).1

/-- A memory has one node. -/
theorem index_inj (h : gs.Represents G n) {i j : ℕ} (hi : (G.nodes gs.graph)[i]? = some id)
    (hj : (G.nodes gs.graph)[j]? = some id) : i = j :=
  Option.some.inj (((h.index id i).mpr hi).symm.trans ((h.index id j).mpr hj))

/-- The same nodes, and edges that are a rearrangement. -/
theorem of_perm {edges : List (ℕ × ℕ × AssociativeLink)}
    (hperm : (G.edges gs.graph).Perm edges)
    (index : ∀ id i, gs.index.get? id = some i ↔ (G.nodes gs.graph)[i]? = some id)
    (nodes : ∀ id, id ∈ G.nodes gs.graph ↔ id ∈ n.nodes)
    (ends : ∀ x ∈ edges, (G.nodes gs.graph)[x.1]? = some x.2.2.sourceId ∧
      (G.nodes gs.graph)[x.2.1]? = some x.2.2.targetId)
    (weight : ∀ key w, n.weight key = some w ↔ ∃ x ∈ edges, x.2.2.key = key ∧ x.2.2.weight = w)
    (unique : (edges.map fun x => x.2.2.key).Nodup) : gs.Represents G n where
  index := index
  nodes := nodes
  ends x hx := ends x (hperm.mem_iff.mp hx)
  weight key w := by
    rw [weight]
    exact exists_congr fun x => and_congr_left fun _ => hperm.mem_iff.symm
  unique := (hperm.map _).nodup_iff.mpr unique

theorem addNode (h : gs.Represents G n) (hid : id ∉ n.nodes) :
    (gs.addNode G id).Represents G (n.addNode id) := by
  have hnodes : G.nodes (gs.addNode G id).graph = G.nodes gs.graph ++ [id] :=
    G.nodes_addNode gs.graph id
  have hfresh : id ∉ G.nodes gs.graph := fun hmem => hid ((h.nodes id).mp hmem)
  refine of_perm (G.edges_addNode gs.graph id) (fun id' i => ?_) (fun id' => ?_) (fun x hx => ?_)
    h.weight h.unique
  · rw [hnodes]
    dsimp only [GraphStore.addNode]
    rw [Table.get?_insert, G.index_addNode]
    split
    · rename_i heq
      subst heq
      constructor
      · rintro ⟨⟩
        simp
      · intro hi
        rcases Nat.lt_trichotomy i (G.nodes gs.graph).length with hlt | heq | hgt
        · rw [List.getElem?_append_left hlt] at hi
          exact absurd (List.mem_of_getElem? hi) hfresh
        · rw [heq]
        · rw [List.getElem?_eq_none (by simp; omega)] at hi
          cases hi
    · rename_i hne
      rw [h.index]
      constructor
      · intro hi
        rw [List.getElem?_append_left (List.getElem?_eq_some_iff.mp hi).1]
        exact hi
      · intro hi
        rcases Nat.lt_or_ge i (G.nodes gs.graph).length with hlt | hge
        · rwa [List.getElem?_append_left hlt] at hi
        · rw [List.getElem?_append_right hge] at hi
          have hmem := List.mem_of_getElem? hi
          exact absurd (List.mem_singleton.mp hmem) hne
  · rw [hnodes, List.mem_append, List.mem_singleton, h.nodes]
    simp [Network.addNode, or_comm]
  · obtain ⟨hs, ht⟩ := h.ends x hx
    rw [hnodes, List.getElem?_append_left (List.getElem?_eq_some_iff.mp hs).1,
      List.getElem?_append_left (List.getElem?_eq_some_iff.mp ht).1]
    exact ⟨hs, ht⟩

/-- The edge that is found is the one of the link. -/
theorem key_of_existing (h : gs.Represents G n) {src tgt k : ℕ}
    (hsrc : gs.index.get? link.sourceId = some src) (htgt : gs.index.get? link.targetId = some tgt)
    (hk : gs.existing G src tgt link.linkType = some k) :
    ∃ l, (G.edges gs.graph)[k]? = some (src, tgt, l) ∧ l.key = link.key := by
  have hmem := List.mem_of_find?_eq_some hk
  have htype := List.find?_some hk
  obtain ⟨l, hl⟩ := (G.mem_connecting gs.graph src tgt k).mp hmem
  rw [hl] at htype
  obtain ⟨hs, ht⟩ := h.ends _ (List.mem_of_getElem? hl)
  refine ⟨l, hl, ?_⟩
  rw [(h.index _ _).mp hsrc] at hs
  rw [(h.index _ _).mp htgt] at ht
  have hty : l.linkType = link.linkType := by simpa using htype
  rw [AssociativeLink.key, AssociativeLink.key, hty]
  exact congrArg₂ (fun a b => (a, b, link.linkType)) (Option.some.inj hs).symm
    (Option.some.inj ht).symm

theorem key_ne_of_existing_eq_none (h : gs.Represents G n) {src tgt : ℕ}
    (hsrc : gs.index.get? link.sourceId = some src) (htgt : gs.index.get? link.targetId = some tgt)
    (hk : gs.existing G src tgt link.linkType = none) :
    ∀ x ∈ G.edges gs.graph, x.2.2.key ≠ link.key := by
  intro x hx hkey
  obtain ⟨k, hget⟩ := List.getElem?_of_mem hx
  obtain ⟨i, j, l⟩ := x
  simp only [AssociativeLink.key, Prod.mk.injEq] at hkey
  obtain ⟨hs, ht, hty⟩ := hkey
  obtain ⟨hi, hj⟩ := h.ends _ hx
  obtain rfl : i = src := h.index_inj hi (by rw [hs]; exact (h.index _ _).mp hsrc)
  obtain rfl : j = tgt := h.index_inj hj (by rw [ht]; exact (h.index _ _).mp htgt)
  have hnot := List.find?_eq_none.mp hk k ((G.mem_connecting _ _ _ _).mpr ⟨l, hget⟩)
  rw [hget] at hnot
  exact hnot (by simpa using hty)

/-- The edges when one of them is asserted again. -/
theorem mem_modify (h : gs.Represents G n) (link : AssociativeLink) {k src tgt : ℕ}
    {l : AssociativeLink}
    (hl : (G.edges gs.graph)[k]? = some (src, tgt, l)) (x : ℕ × ℕ × AssociativeLink) :
    x ∈ (G.edges gs.graph).modify k (fun x => (x.1, x.2.1, x.2.2.reassert link)) ↔
      x = (src, tgt, l.reassert link) ∨ x ∈ G.edges gs.graph ∧ x.2.2.key ≠ l.key := by
  rw [List.mem_iff_getElem?]
  constructor
  · rintro ⟨j, hj⟩
    rw [List.getElem?_modify] at hj
    by_cases heq : k = j
    · subst heq
      rw [hl] at hj
      exact .inl (by simpa using hj.symm)
    · have hget : (G.edges gs.graph)[j]? = some x := by simpa [heq] using hj
      refine .inr ⟨List.mem_of_getElem? hget, fun hkey => heq ?_⟩
      have hk : ((G.edges gs.graph).map fun x => x.2.2.key)[k]? = some l.key := by
        rw [List.getElem?_map, hl]
        rfl
      have hj : ((G.edges gs.graph).map fun x => x.2.2.key)[j]? = some l.key := by
        rw [List.getElem?_map, hget, ← hkey]
        rfl
      exact (List.getElem?_inj (List.getElem?_eq_some_iff.mp hk).1 h.unique).mp (hk.trans hj.symm)
  · rintro (rfl | ⟨hx, hne⟩)
    · exact ⟨k, by simp [hl]⟩
    · obtain ⟨j, hj⟩ := List.getElem?_of_mem hx
      have hkj : k ≠ j := by
        rintro rfl
        rw [hl] at hj
        exact hne (by rw [← Option.some.inj hj])
      exact ⟨j, by simpa [List.getElem?_modify, hkj] using hj⟩

/-- **A link** is added, or its edge takes the greater weight. -/
theorem addEdge (h : gs.Represents G n) (hsource : link.sourceId ∈ n.nodes)
    (htarget : link.targetId ∈ n.nodes) :
    (gs.addEdge G link).Represents G (n.addLink link) := by
  obtain ⟨src, hsrc⟩ := h.index_isSome hsource
  obtain ⟨tgt, htgt⟩ := h.index_isSome htarget
  simp only [GraphStore.addEdge, hsrc, htgt]
  cases hk : gs.existing G src tgt link.linkType with
  | some k =>
    obtain ⟨l, hl, hkey⟩ := h.key_of_existing hsrc htgt hk
    have hmem := h.mem_modify link hl
    have hmeml := List.mem_of_getElem? hl
    have hold : n.weight link.key = some l.weight :=
      (h.weight _ _).mpr ⟨_, hmeml, hkey, rfl⟩
    refine of_perm (.of_eq (G.edges_modifyEdge gs.graph k _)) ?_ ?_ ?_ ?_ ?_
    · rw [G.nodes_modifyEdge]
      exact h.index
    · rw [G.nodes_modifyEdge]
      exact h.nodes
    · intro x hx
      rw [G.nodes_modifyEdge]
      rcases (hmem x).mp hx with rfl | ⟨hx, -⟩
      · have hends := h.ends _ hmeml
        exact hends
      · exact h.ends x hx
    · intro key w
      by_cases heq : key = link.key
      · subst heq
        simp only [Network.addLink, hold, Function.update_self, Option.some.injEq]
        constructor
        · rintro rfl
          exact ⟨_, (hmem _).mpr (.inl rfl), hkey, rfl⟩
        · rintro ⟨x, hx, hxkey, hw⟩
          rcases (hmem x).mp hx with rfl | ⟨-, hne⟩
          · exact hw
          · exact absurd (hxkey.trans hkey.symm) hne
      · simp only [Network.addLink, Function.update_of_ne heq]
        rw [h.weight]
        refine exists_congr fun x => and_congr_left fun hx' => ?_
        have hxkey := hx'.1
        rw [hmem]
        constructor
        · intro hx
          exact .inr ⟨hx, fun hl => heq (hxkey.symm.trans (hl.trans hkey))⟩
        · rintro (rfl | ⟨hx, -⟩)
          · exact absurd (hxkey.symm.trans hkey) heq
          · exact hx
    · have hkeys : ((G.edges gs.graph).modify k fun x => (x.1, x.2.1, x.2.2.reassert link)).map
          (fun x => x.2.2.key) = (G.edges gs.graph).map fun x => x.2.2.key := by
        refine List.ext_getElem? fun j => ?_
        rw [List.getElem?_map, List.getElem?_map, List.getElem?_modify]
        cases (G.edges gs.graph)[j]? with
        | none => rfl
        | some x =>
          by_cases heq : k = j
          · simp [heq]
          · simp [heq]
      rw [hkeys]
      exact h.unique
  | none =>
    have hfresh := h.key_ne_of_existing_eq_none hsrc htgt hk
    have hnodes := G.nodes_addEdge gs.graph src tgt link (h.lt_length hsrc) (h.lt_length htgt)
    have hnone : n.weight link.key = none := by
      cases hw : n.weight link.key with
      | none => rfl
      | some w =>
        obtain ⟨x, hx, hxkey, -⟩ := (h.weight _ _).mp hw
        exact absurd hxkey (hfresh x hx)
    refine of_perm (G.edges_addEdge gs.graph src tgt link (h.lt_length hsrc) (h.lt_length htgt))
      ?_ ?_ ?_ ?_ ?_
    · rw [hnodes]
      exact h.index
    · rw [hnodes]
      exact h.nodes
    · rw [hnodes]
      rintro x (_ | ⟨_, hx⟩)
      · exact ⟨(h.index _ _).mp hsrc, (h.index _ _).mp htgt⟩
      · exact h.ends x hx
    · intro key w
      by_cases heq : key = link.key
      · subst heq
        simp only [Network.addLink, hnone, Function.update_self, List.mem_cons, exists_eq_or_imp]
        constructor
        · rintro ⟨⟩
          exact .inl ⟨trivial, rfl⟩
        · rintro (⟨-, rfl⟩ | ⟨x, hx, hxkey, -⟩)
          · rfl
          · exact absurd hxkey (hfresh x hx)
      · simp only [Network.addLink, Function.update_of_ne heq, List.mem_cons, exists_eq_or_imp]
        rw [h.weight, or_iff_right (fun hl => heq hl.1.symm)]
    · rw [List.map_cons, List.nodup_cons, List.mem_map]
      refine ⟨?_, h.unique⟩
      rintro ⟨x, hx, hxkey⟩
      exact hfresh x hx hxkey

/-- The nodes when one of them is removed: the last one is where it was. -/
theorem nodes_removeNode (h : gs.Represents G n) {i : ℕ} (hi : gs.index.get? id = some i)
    (id' : MemoryId) (j : ℕ) : (G.nodes (G.removeNode gs.graph i))[j]? = some id' ↔
      (G.nodes gs.graph)[if j = i then (G.nodes gs.graph).length - 1 else j]? = some id' ∧
        j + 1 < (G.nodes gs.graph).length := by
  rw [G.nodes_removeNode _ _ (h.lt_length hi), getElem?_swapRemove (h.lt_length hi)]
  split
  · rename_i hlt
    rw [and_iff_left hlt, apply_ite fun k => (G.nodes gs.graph)[k]?]
  · rename_i hge
    simp [hge]

/-- The map is mended. -/
theorem index_removeNode (h : gs.Represents G n) {i : ℕ} (hi : gs.index.get? id = some i)
    (id' : MemoryId) (j : ℕ) : (gs.removeNode G id).index.get? id' = some j ↔
      (G.nodes (gs.removeNode G id).graph)[j]? = some id' := by
  have hlt := h.lt_length hi
  have hnode := (h.index id i).mp hi
  have hnodes := h.nodes_removeNode hi
  have hgraph : (gs.removeNode G id).graph = G.removeNode gs.graph i := by
    simp only [GraphStore.removeNode, hi]
    split <;> rfl
  -- a node stays at its index, unless it is the one removed or the last one
  have hstays {id' : MemoryId} (hne : id' ≠ id)
      (hlast : (G.nodes gs.graph)[(G.nodes gs.graph).length - 1]? = some id' →
        i + 1 = (G.nodes gs.graph).length) :
      gs.index.get? id' = some j ↔ (G.nodes (G.removeNode gs.graph i))[j]? = some id' := by
    rw [h.index, hnodes]
    by_cases hji : j = i
    · subst hji
      rw [if_pos rfl]
      constructor
      · intro hj
        exact absurd (Option.some.inj (hj.symm.trans hnode)) hne
      · rintro ⟨hl, hj⟩
        have := hlast hl
        omega
    · rw [if_neg hji]
      refine ⟨fun hj => ⟨hj, ?_⟩, And.left⟩
      have hjlt := (List.getElem?_eq_some_iff.mp hj).1
      by_contra hnot
      have hjlast : j = (G.nodes gs.graph).length - 1 := by omega
      have := hlast (hjlast ▸ hj)
      omega
  rw [hgraph]
  simp only [GraphStore.removeNode, hi]
  split
  · rename_i last hlast
    obtain ⟨hlast, hlt'⟩ := (hnodes last i).mp hlast
    rw [if_pos rfl] at hlast
    dsimp only
    rw [Table.get?_insert]
    split
    · rename_i heq
      subst heq
      rw [hnodes]
      constructor
      · rintro ⟨⟩
        exact ⟨by rwa [if_pos rfl], hlt'⟩
      · rintro ⟨hj, hjlt⟩
        split at hj
        · rename_i heq
          rw [heq]
        · have := h.index_inj hj hlast
          omega
    · rename_i hne
      rw [Table.get?_erase]
      split
      · rename_i heq
        subst heq
        rw [hnodes]
        refine ⟨fun hj => absurd hj.symm (Option.some_ne_none j), ?_⟩
        rintro ⟨hj, hjlt⟩
        split at hj
        · exact absurd (Option.some.inj (hj.symm.trans hlast)) hne
        · exact absurd (h.index_inj hj hnode) ‹_›
      · rename_i hne'
        exact hstays hne' fun hl => absurd (Option.some.inj (hl.symm.trans hlast)) hne
  · rename_i hlast
    have hend : i + 1 = (G.nodes gs.graph).length := by
      by_contra hnot
      have hget : (G.nodes gs.graph)[(G.nodes gs.graph).length - 1]? ≠ none := by
        rw [List.getElem?_eq_getElem (by omega)]
        exact Option.some_ne_none _
      obtain ⟨last, hl⟩ := Option.ne_none_iff_exists'.mp hget
      have := (hnodes last i).mpr ⟨by rwa [if_pos rfl], by omega⟩
      rw [hlast] at this
      cases this
    dsimp only
    rw [Table.get?_erase]
    split
    · rename_i heq
      subst heq
      rw [hnodes]
      refine ⟨fun hj => absurd hj.symm (Option.some_ne_none j), ?_⟩
      rintro ⟨hj, hjlt⟩
      rw [if_neg (by omega)] at hj
      have := h.index_inj hj hnode
      omega
    · rename_i hne
      exact hstays hne fun _ => hend

/-- A node that was not removed is where its new label says. -/
theorem getElem?_relabel (h : gs.Represents G n) {i k : ℕ} (hi : gs.index.get? id = some i)
    (hne : k ≠ i) {id' : MemoryId} (hk : (G.nodes gs.graph)[k]? = some id') :
    (G.nodes (G.removeNode gs.graph i))[relabel i ((G.nodes gs.graph).length - 1) k]? =
      some id' := by
  have hlt := h.lt_length hi
  have hklt := (List.getElem?_eq_some_iff.mp hk).1
  rw [h.nodes_removeNode hi, relabel]
  split
  · rename_i heq
    rw [if_pos rfl, ← heq]
    exact ⟨hk, by omega⟩
  · exact ⟨hk, by omega⟩

/-- The ends of a link are there. -/
theorem mem_of_weight (h : gs.Represents G n) {key : MemoryId × MemoryId × LinkType} {w : ℚ}
    (hw : n.weight key = some w) : key.1 ∈ n.nodes ∧ key.2.1 ∈ n.nodes := by
  obtain ⟨x, hx, rfl, -⟩ := (h.weight key w).mp hw
  obtain ⟨hs, ht⟩ := h.ends x hx
  exact ⟨(h.nodes _).mp (List.mem_of_getElem? hs), (h.nodes _).mp (List.mem_of_getElem? ht)⟩

/-- A memory that is not there. -/
theorem remove_of_notMem (h : gs.Represents G n) (hid : id ∉ n.nodes) : n.remove id = n := by
  rw [Network.remove_eq_without]
  refine Network.without_eq_self (fun id' heq => ?_) fun key w => h.mem_of_weight
  obtain rfl := Set.mem_singleton_iff.mp heq
  exact hid

/-- **A memory** goes with the edges at it. -/
theorem removeNode (h : gs.Represents G n) (id : MemoryId) :
    (gs.removeNode G id).Represents G (n.remove id) := by
  cases hi : gs.index.get? id with
  | none =>
    have hid : id ∉ n.nodes := by
      intro hmem
      obtain ⟨i, hi'⟩ := h.index_isSome hmem
      rw [hi] at hi'
      cases hi'
    rw [h.remove_of_notMem hid]
    simpa [GraphStore.removeNode, hi] using h
  | some i =>
    have hlt := h.lt_length hi
    have hnode := (h.index id i).mp hi
    have hgraph : (gs.removeNode G id).graph = G.removeNode gs.graph i := by
      simp only [GraphStore.removeNode, hi]
      split <;> rfl
    have hedges := G.edges_removeNode gs.graph i hlt
    rw [← hgraph] at hedges
    refine of_perm hedges (h.index_removeNode hi) (fun id' => ?_) (fun x' hx' => ?_)
      (fun key w => ?_) ?_
    · rw [hgraph, List.mem_iff_getElem?]
      constructor
      · rintro ⟨j, hj⟩
        obtain ⟨hj, hjlt⟩ := (h.nodes_removeNode hi id' j).mp hj
        refine ⟨(h.nodes id').mp (List.mem_of_getElem? hj), ?_⟩
        rintro rfl
        have := h.index_inj hj hnode
        split at this
        · omega
        · exact absurd this ‹_›
      · rintro ⟨hmem, hne⟩
        obtain ⟨k, hk⟩ := h.index_isSome hmem
        have hkget := (h.index id' k).mp hk
        refine ⟨_, h.getElem?_relabel hi ?_ hkget⟩
        rintro rfl
        exact hne (Option.some.inj (hkget.symm.trans hnode))
    · obtain ⟨x, hx, rfl⟩ := List.mem_map.mp hx'
      obtain ⟨hx, hne⟩ := List.mem_filter.mp hx
      obtain ⟨hs, ht⟩ := h.ends x hx
      obtain ⟨hnes, hnet⟩ : x.1 ≠ i ∧ x.2.1 ≠ i := by simpa using hne
      rw [hgraph]
      exact ⟨h.getElem?_relabel hi hnes hs, h.getElem?_relabel hi hnet ht⟩
    · have hends {x : ℕ × ℕ × AssociativeLink} (hx : x ∈ G.edges gs.graph) :
          (x.1 ≠ i ∧ x.2.1 ≠ i) ↔ ¬ (x.2.2.sourceId = id ∨ x.2.2.targetId = id) := by
        obtain ⟨hs, ht⟩ := h.ends x hx
        rw [not_or]
        refine and_congr (not_congr ⟨?_, ?_⟩) (not_congr ⟨?_, ?_⟩)
        · intro heq
          exact Option.some.inj (hs.symm.trans (heq ▸ hnode))
        · intro heq
          exact h.index_inj hs (heq ▸ hnode)
        · intro heq
          exact Option.some.inj (ht.symm.trans (heq ▸ hnode))
        · intro heq
          exact h.index_inj ht (heq ▸ hnode)
      dsimp only [Network.remove]
      constructor
      · intro hw
        split at hw
        · cases hw
        · rename_i hnot
          obtain ⟨x, hx, rfl, hxw⟩ := (h.weight key w).mp hw
          refine ⟨_, List.mem_map.mpr ⟨x, List.mem_filter.mpr ⟨hx, ?_⟩, rfl⟩, rfl, hxw⟩
          simpa using (hends hx).mpr hnot
      · rintro ⟨x', hx', rfl, hxw⟩
        obtain ⟨x, hx, rfl⟩ := List.mem_map.mp hx'
        obtain ⟨hx, hne⟩ := List.mem_filter.mp hx
        have hnot := (hends hx).mp (by simpa using hne)
        exact (if_neg hnot).trans ((h.weight _ w).mpr ⟨x, hx, rfl, hxw⟩)
    · rw [List.map_map]
      exact h.unique.sublist (List.Sublist.map _ List.filter_sublist)

/-! ### One after the other -/

theorem addNodes {ids : List MemoryId} (h : gs.Represents G n) (hids : ids.Nodup)
    (hnew : ∀ id ∈ ids, id ∉ n.nodes) :
    (ids.foldl (GraphStore.addNode G) gs).Represents G (ids.foldl Network.addNode n) := by
  induction ids generalizing gs n with
  | nil => exact h
  | cons id ids ih =>
    obtain ⟨hid, hids⟩ := List.nodup_cons.mp hids
    refine ih (h.addNode (hnew id List.mem_cons_self)) hids fun id' hid' hmem => ?_
    rcases hmem with rfl | hmem
    · exact hid hid'
    · exact hnew id' (List.mem_cons_of_mem _ hid') hmem

theorem addEdges {links : List AssociativeLink} (h : gs.Represents G n)
    (hends : ∀ link ∈ links, link.sourceId ∈ n.nodes ∧ link.targetId ∈ n.nodes) :
    (links.foldl (GraphStore.addEdge G) gs).Represents G (links.foldl Network.addLink n) := by
  induction links generalizing gs n with
  | nil => exact h
  | cons link links ih =>
    obtain ⟨hsource, htarget⟩ := hends link List.mem_cons_self
    exact ih (h.addEdge hsource htarget) fun link' hlink' =>
      hends link' (List.mem_cons_of_mem _ hlink')

theorem removeNodes (h : gs.Represents G n) (ids : List MemoryId) :
    (ids.foldl (GraphStore.removeNode G) gs).Represents G (n.without {id | id ∈ ids}) := by
  rw [← Network.foldl_remove]
  induction ids generalizing gs n with
  | nil => exact h
  | cons id ids ih => exact ih (h.removeNode id)

/-- **Two stores of one network** have the same nodes, and the same edges but for the indices and
the stamps. -/
theorem same (h : gs.Represents G n) (h' : gs'.Represents G n) :
    (G.nodes gs.graph).Perm (G.nodes gs'.graph) ∧
      ((G.edges gs.graph).map fun x => (x.2.2.key, x.2.2.weight)).Perm
        ((G.edges gs'.graph).map fun x => (x.2.2.key, x.2.2.weight)) := by
  have hnodup {gs : GraphStore γ} (h : gs.Represents G n) : (G.nodes gs.graph).Nodup := by
    rw [List.nodup_iff_getElem?_ne_getElem?]
    intro i j hij hj heq
    have hi := List.getElem?_eq_getElem (l := G.nodes gs.graph) (hij.trans hj)
    have := h.index_inj hi (heq ▸ hi)
    omega
  have hedges {gs : GraphStore γ} (h : gs.Represents G n) :
      ((G.edges gs.graph).map fun x => (x.2.2.key, x.2.2.weight)).Nodup := by
    refine List.Nodup.of_map Prod.fst ?_
    rw [List.map_map]
    exact h.unique
  have hmem {gs : GraphStore γ} (h : gs.Represents G n) (y : (MemoryId × MemoryId × LinkType) × ℚ) :
      y ∈ (G.edges gs.graph).map (fun x => (x.2.2.key, x.2.2.weight)) ↔
        n.weight y.1 = some y.2 := by
    rw [h.weight, List.mem_map]
    exact exists_congr fun x => and_congr_right fun _ => Prod.ext_iff
  refine ⟨(List.perm_ext_iff_of_nodup (hnodup h) (hnodup h')).mpr fun id => ?_,
    (List.perm_ext_iff_of_nodup (hedges h) (hedges h')).mpr fun y => ?_⟩
  · rw [h.nodes, h'.nodes]
  · rw [hmem h, hmem h']

end GraphStore.Represents

end ApexOS.Cerebro
