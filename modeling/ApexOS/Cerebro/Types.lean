import Mathlib.Algebra.Order.Field.Rat
import Mathlib.Order.Lattice

/-!
# The types of the memory store

`cerebro/crates/cerebro/src/types.rs` and `models/link.rs`. Weights are rational numbers: what is
done with them here is to compare and to clamp them, which is exact for the machine's numbers as
well.

## Main definitions

* `VisibilityScope`: who asks
* `VisibilityScope.canAccess`, `VisibilityScope.sqlFilter`: the two tests of what may be seen
* `AssociativeLink`: a typed link with its weight and its traversals

## Main results

* `VisibilityScope.canAccess_of_sqlFilter`: the test of the queries is the narrower one
* `VisibilityScope.canAccess_eq_sqlFilter`: the two differ on thread memories, and for the admin
-/

namespace ApexOS.Cerebro

abbrev MemoryId := String

abbrev AgentId := String

/-- A point in time. -/
abbrev DateTime := ℤ

/-- `LinkType`. -/
inductive LinkType
  | temporal
  | causal
  | semantic
  | affective
  | contextual
  | contradicts
  | supports
  | derivedFrom
  | partOf
  deriving DecidableEq, Repr

/-- `LinkType::activation_weight`. -/
def LinkType.activationWeight : LinkType → ℚ
  | causal => 9 / 10
  | semantic => 8 / 10
  | supports => 8 / 10
  | partOf => 8 / 10
  | contextual => 7 / 10
  | derivedFrom => 7 / 10
  | temporal => 6 / 10
  | affective => 5 / 10
  | contradicts => 3 / 10

/-- `Visibility`. -/
inductive Visibility
  | priv
  | shared
  | thread
  deriving DecidableEq, Repr

/-! ### Scopes -/

/-- `VisibilityScope`. -/
structure VisibilityScope where
  agentId : Option AgentId
  /-- for peers: nothing but what is shared -/
  sharedOnly : Bool
  deriving DecidableEq, Repr

namespace VisibilityScope

/-- `global`. -/
def everything : VisibilityScope := ⟨none, false⟩

/-- `for_agent`. -/
def forAgent (id : AgentId) : VisibilityScope := ⟨some id, false⟩

/-- `can_access`. -/
def canAccess (s : VisibilityScope) (visibility : Visibility) (nodeAgentId : Option AgentId) :
    Bool :=
  if s.sharedOnly then visibility = .shared
  else match visibility with
    | .shared => true
    | .priv => s.agentId = nodeAgentId
    | .thread => true

/-- The rows that the fragment of `sql_filter` lets through. A row without an agent is equal to no
parameter. -/
def sqlFilter (s : VisibilityScope) (visibility : Visibility) (agentId : Option AgentId) : Bool :=
  if s.sharedOnly then visibility = .shared
  else match s.agentId with
    | none => true
    | some id => visibility = .shared || (visibility = .priv && agentId = some id)

/-- **What the queries let through** to an agent or a peer may be accessed. -/
theorem canAccess_of_sqlFilter {s : VisibilityScope} (hs : s.agentId ≠ none ∨ s.sharedOnly = true)
    {visibility : Visibility} {agentId : Option AgentId}
    (h : s.sqlFilter visibility agentId = true) : s.canAccess visibility agentId = true := by
  obtain ⟨scopeAgent, sharedOnly⟩ := s
  cases sharedOnly with
  | true => simpa [sqlFilter, canAccess] using h
  | false =>
    cases scopeAgent with
    | none => simp at hs
    | some id =>
      cases visibility with
      | shared => rfl
      | thread => rfl
      | priv => simpa [sqlFilter, canAccess, eq_comm] using h

/-- For an agent the two tests differ on the memories of threads and on nothing else. -/
theorem canAccess_eq_sqlFilter (id : AgentId) (visibility : Visibility) (agentId : Option AgentId) :
    (forAgent id).canAccess visibility agentId =
      ((forAgent id).sqlFilter visibility agentId || visibility = .thread) := by
  cases visibility with
  | priv => simp [forAgent, canAccess, sqlFilter, eq_comm]
  | shared => simp [forAgent, canAccess, sqlFilter]
  | thread => simp [forAgent, canAccess, sqlFilter]

end VisibilityScope

/-! ### Links -/

/-- A weight, cut to the unit interval. -/
def clampUnit (w : ℚ) : ℚ := max 0 (min 1 w)

theorem clampUnit_of_mem {w : ℚ} (h : 0 ≤ w) (h' : w ≤ 1) : clampUnit w = w := by
  rw [clampUnit, min_eq_right h', max_eq_right h]

@[simp] theorem clampUnit_clampUnit (w : ℚ) : clampUnit (clampUnit w) = clampUnit w := by
  refine clampUnit_of_mem (le_max_left _ _) (max_le zero_le_one (min_le_left _ _))

/-- The cut of the greater of two weights. -/
theorem clampUnit_max (v w : ℚ) : clampUnit (max v w) = max (clampUnit v) (clampUnit w) := by
  rw [clampUnit, clampUnit, clampUnit, min_max_distrib_left, sup_sup_distrib_left]

/-- `AssociativeLink`. -/
structure AssociativeLink where
  sourceId : MemoryId
  targetId : MemoryId
  linkType : LinkType
  weight : ℚ
  createdAt : DateTime
  lastTraversed : Option DateTime
  traversalCount : ℕ
  deriving DecidableEq, Repr

namespace AssociativeLink

/-- The primary key of the table of links. -/
def key (l : AssociativeLink) : MemoryId × MemoryId × LinkType :=
  (l.sourceId, l.targetId, l.linkType)

/-- `AssociativeLink::new`. -/
def new (sourceId targetId : MemoryId) (linkType : LinkType) (weight : ℚ) (now : DateTime) :
    AssociativeLink :=
  ⟨sourceId, targetId, linkType, clampUnit weight, now, none, 0⟩

/-- The link is asserted again. -/
def reassert (l again : AssociativeLink) : AssociativeLink :=
  { l with
    weight := max l.weight again.weight
    lastTraversed := some again.createdAt
    traversalCount := l.traversalCount + 1 }

@[simp] theorem key_reassert (l again : AssociativeLink) : (l.reassert again).key = l.key := rfl

end AssociativeLink

end ApexOS.Cerebro
