import Mathlib.Data.List.Basic
import Mathlib.Data.List.Perm.Basic

/-!
# Directed graphs with compact indices

A graph type whose nodes are numbered from zero without gaps, as the documentation of such a library
has it: a new node gets the next index, and when a node is removed, the edges at it go and the last
node takes its index. Of the order of the edges only so much is said as is documented.

What a value of the type shows is the weights of its nodes by index, and its edges by index, each
with the indices of its ends. The laws are about what is shown; the type itself is arbitrary.

## Main definitions

* `swapRemove`: a list without one of its elements, the last one in its place
* `CompactDigraph`: the operations, with their laws
* `CompactDigraph.ofLists`: an implementation
-/

variable {α : Type*}

/-- A list without the element at an index: the last one takes its place. -/
def swapRemove (l : List α) (i : ℕ) : List α :=
  match l[l.length - 1]? with
  | some last => (l.set i last).dropLast
  | none => []

theorem getElem?_swapRemove {l : List α} {i : ℕ} (hi : i < l.length) (j : ℕ) :
    (swapRemove l i)[j]? =
      if j + 1 < l.length then (if j = i then l[l.length - 1]? else l[j]?) else none := by
  obtain ⟨last, hlast⟩ : ∃ last, l[l.length - 1]? = some last :=
    ⟨_, List.getElem?_eq_getElem (by omega)⟩
  simp only [swapRemove, hlast]
  rw [List.getElem?_dropLast, List.length_set]
  split
  · rename_i hj
    rw [if_pos (by omega), List.getElem?_set]
    by_cases heq : j = i
    · rw [if_pos heq.symm, if_pos hi, if_pos heq]
    · rw [if_neg (Ne.symm heq), if_neg heq]
  · rename_i hj
    rw [if_neg (by omega)]

/-- The index that a node has after another was removed. -/
def relabel (removed last j : ℕ) : ℕ := if j = last then removed else j

/-- A type of graphs, with weights for the nodes and for the edges. -/
structure CompactDigraph (γ ν ε : Type*) where
  empty : γ
  /-- the weights of the nodes, by index -/
  nodes : γ → List ν
  /-- the edges, by index: source, target, weight -/
  edges : γ → List (ℕ × ℕ × ε)
  addNode : γ → ν → γ × ℕ
  addEdge : γ → ℕ → ℕ → ε → γ
  /-- the indices of the edges from one node to another, in some order -/
  connecting : γ → ℕ → ℕ → List ℕ
  modifyEdge : γ → ℕ → (ε → ε) → γ
  removeNode : γ → ℕ → γ
  nodes_empty : nodes empty = []
  edges_empty : edges empty = []
  nodes_addNode : ∀ g w, nodes (addNode g w).1 = nodes g ++ [w]
  index_addNode : ∀ g w, (addNode g w).2 = (nodes g).length
  edges_addNode : ∀ g w, (edges (addNode g w).1).Perm (edges g)
  nodes_addEdge : ∀ g i j e, i < (nodes g).length → j < (nodes g).length →
    nodes (addEdge g i j e) = nodes g
  edges_addEdge : ∀ g i j e, i < (nodes g).length → j < (nodes g).length →
    (edges (addEdge g i j e)).Perm ((i, j, e) :: edges g)
  mem_connecting : ∀ g i j k, k ∈ connecting g i j ↔ ∃ e, (edges g)[k]? = some (i, j, e)
  nodes_modifyEdge : ∀ g k f, nodes (modifyEdge g k f) = nodes g
  edges_modifyEdge : ∀ g k f, edges (modifyEdge g k f) =
    (edges g).modify k fun x => (x.1, x.2.1, f x.2.2)
  nodes_removeNode : ∀ g i, i < (nodes g).length → nodes (removeNode g i) = swapRemove (nodes g) i
  edges_removeNode : ∀ g i, i < (nodes g).length → (edges (removeNode g i)).Perm
    (((edges g).filter fun x => x.1 ≠ i ∧ x.2.1 ≠ i).map fun x =>
      (relabel i ((nodes g).length - 1) x.1, relabel i ((nodes g).length - 1) x.2.1, x.2.2))

/-- Two lists, kept as the laws say. -/
def CompactDigraph.ofLists (ν ε : Type*) : CompactDigraph (List ν × List (ℕ × ℕ × ε)) ν ε where
  empty := ([], [])
  nodes := Prod.fst
  edges := Prod.snd
  addNode g w := ((g.1 ++ [w], g.2), g.1.length)
  addEdge g i j e := (g.1, (i, j, e) :: g.2)
  connecting g i j := (List.range g.2.length).filter fun k =>
    (g.2[k]?).any fun x => x.1 = i ∧ x.2.1 = j
  modifyEdge g k f := (g.1, g.2.modify k fun x => (x.1, x.2.1, f x.2.2))
  removeNode g i := (swapRemove g.1 i,
    (g.2.filter fun x => x.1 ≠ i ∧ x.2.1 ≠ i).map fun x =>
      (relabel i (g.1.length - 1) x.1, relabel i (g.1.length - 1) x.2.1, x.2.2))
  nodes_empty := rfl
  edges_empty := rfl
  nodes_addNode _ _ := rfl
  index_addNode _ _ := rfl
  edges_addNode _ _ := .refl _
  nodes_addEdge _ _ _ _ _ _ := rfl
  edges_addEdge _ _ _ _ _ _ := .refl _
  mem_connecting g i j k := by
    rw [List.mem_filter, List.mem_range]
    constructor
    · rintro ⟨hk, hany⟩
      rw [List.getElem?_eq_getElem hk] at hany ⊢
      obtain ⟨hi, hj⟩ : g.2[k].1 = i ∧ g.2[k].2.1 = j := by simpa using hany
      exact ⟨g.2[k].2.2, by rw [← hi, ← hj]⟩
    · rintro ⟨e, he⟩
      exact ⟨(List.getElem?_eq_some_iff.mp he).1, by simp [he]⟩
  nodes_modifyEdge _ _ _ := rfl
  edges_modifyEdge _ _ _ := rfl
  nodes_removeNode _ _ _ := rfl
  edges_removeNode _ _ _ := .refl _
