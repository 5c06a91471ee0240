import ApexOS.Cerebro.Types
import ApexOS.Lib.Table
import Mathlib.Algebra.Order.Field.Basic
import Mathlib.Algebra.Order.Field.Rat
import Mathlib.Data.List.Dedup
import Mathlib.Logic.Relation
import Mathlib.Tactic.Linarith

/-!
# Spreading activation

`cerebro/crates/cerebro/src/activation/spreading.rs`. Activation goes out from the seeds hop by hop,
over links in either direction, to memories that the caller may see. A node that is reached for the
first time is in the frontier of the next hop; one that has activation already gets half of what
comes. `reachable_frontier` is a plain walk of as many hops, which says for which nodes it is worth
asking who may see them.

The arithmetic is a parameter, so that what does not depend on it holds of floats; so is the order
in which the set of each frontier is iterated, and the order of the edges at a node.

## Main definitions

* `Graph`, `Graph.edgesAt`: the graph, by the edges at each node
* `Arith`, `Arith.exact`: the arithmetic
* `spreadEvents`, `spreadTraced`, `reachableFrontier`: the functions
* `Step`: one delivery
* `Inv`: what holds of the state throughout

## Main results

* `hopLoop_congr`: what is not within reach does not matter
* `Inv.step`, `Inv.hopLoop`: the invariant
* `spread_frontier`: all of it
-/

namespace ApexOS.Cerebro.Spreading

/-! ### Graphs -/

inductive Direction
  | outgoing
  | incoming
  deriving DecidableEq, Repr

/-- An edge, as it comes out of the graph. -/
structure EdgeRef (ε : Type*) where
  id : ℕ
  source : ℕ
  target : ℕ
  weight : ε

/-- A graph, by the edges at a node in each direction, in the graph's own order. -/
structure Graph (ε : Type*) where
  edgesDirected : ℕ → Direction → List (EdgeRef ε)
  outgoing : ∀ n, ∀ e ∈ edgesDirected n .outgoing, e.source = n ∧
    e ∈ edgesDirected e.target .incoming
  incoming : ∀ n, ∀ e ∈ edgesDirected n .incoming, e.target = n ∧
    e ∈ edgesDirected e.source .outgoing
  nodup : ∀ n d, ((edgesDirected n d).map EdgeRef.id).Nodup

namespace Graph

variable {ε : Type*} (g : Graph ε)

/-- The edges at a node, as the loops go through them. -/
def edgesAt (node : ℕ) : List (EdgeRef ε) :=
  g.edgesDirected node .outgoing ++ g.edgesDirected node .incoming

/-- The edges of a list, by their place in it. -/
def refs (l : List (ℕ × ℕ × ε)) : List (EdgeRef ε) :=
  l.zipIdx.map fun x => ⟨x.2, x.1.1, x.1.2.1, x.1.2.2⟩

theorem nodup_refs (l : List (ℕ × ℕ × ε)) : ((refs l).map EdgeRef.id).Nodup := by
  have hids : (refs l).map EdgeRef.id = l.zipIdx.map Prod.snd := by
    rw [refs, List.map_map]
    rfl
  rw [hids, List.zipIdx_map_snd]
  exact List.nodup_range'

/-- The graph of a list of edges. -/
def ofEdges (l : List (ℕ × ℕ × ε)) : Graph ε where
  edgesDirected
    | n, .outgoing => (refs l).filter fun e => e.source = n
    | n, .incoming => (refs l).filter fun e => e.target = n
  outgoing n e he := by
    obtain ⟨hmem, hsource⟩ := List.mem_filter.mp he
    exact ⟨of_decide_eq_true hsource, List.mem_filter.mpr ⟨hmem, decide_eq_true rfl⟩⟩
  incoming n e he := by
    obtain ⟨hmem, htarget⟩ := List.mem_filter.mp he
    exact ⟨of_decide_eq_true htarget, List.mem_filter.mpr ⟨hmem, decide_eq_true rfl⟩⟩
  nodup n d := by
    cases d <;> exact (nodup_refs l).sublist (List.filter_sublist.map _)

end Graph

/-- The other end of an edge. -/
def neighbor {ε : Type*} (node : ℕ) (edge : EdgeRef ε) : ℕ :=
  if edge.source = node then edge.target else edge.source

/-- `SPREADING_MAX_HOPS`. -/
def maxHops : ℕ := 2

/-- `SPREADING_MAX_ACTIVATED`. -/
def maxActivated : ℕ := 50

/-- An order of iteration for the frontier of each hop. -/
structure Order where
  iter : ℕ → List ℕ → List ℕ
  perm : ∀ hop l, (iter hop l).Perm l

/-- The order of the list. -/
def Order.same : Order := ⟨fun _ l => l, fun _ l => .refl l⟩

/-! ### What is within reach -/

section

variable {ε : Type*} (g : Graph ε)

/-- `reached.insert(neighbor)`, with what is new. -/
def reachEdge (node : ℕ) (acc : List ℕ × List ℕ) (edge : EdgeRef ε) : List ℕ × List ℕ :=
  if neighbor node edge ∈ acc.1 then acc
  else (acc.1 ++ [neighbor node edge], acc.2 ++ [neighbor node edge])

def reachNode (acc : List ℕ × List ℕ) (node : ℕ) : List ℕ × List ℕ :=
  (g.edgesAt node).foldl (reachEdge node) acc

/-- The hops of `reachable_frontier`. -/
def reachLoop (order : Order) : List ℕ → List ℕ → List ℕ → List ℕ
  | [], reached, _ => reached
  | hop :: hops, reached, frontier =>
    if frontier.isEmpty then reached
    else
      let (reached, next) := (order.iter hop frontier).foldl (reachNode g) (reached, [])
      reachLoop order hops reached next

/-- `reachable_frontier`. -/
def reachableFrontier {K : Type*} (order : Order) (seeds : List (ℕ × K)) : List ℕ :=
  reachLoop g order (List.range maxHops) (seeds.map Prod.fst).dedup (seeds.map Prod.fst).dedup

end

/-! ### The arithmetic -/

/-- What the spread computes with: weights of links as they have decayed by now, of their types, and
of the hops, and the operations. -/
structure Arith (K ε : Type*) where
  zero : K
  threshold : K
  half : K
  /-- `f32::MIN` -/
  lowest : K
  mul : K → K → K
  add : K → K → K
  max : K → K → K
  div : K → K → K
  lt : K → K → Bool
  hopDecay : ℕ → K
  decayedLinkWeight : ε → K
  typeWeight : ε → K

/-- `LINK_DECAY_HALFLIFE_DAYS`. -/
def linkDecayHalflifeDays : ℚ := 30

/-- `decayed_link_weight`. -/
def decayedLinkWeight (now : DateTime) (link : AssociativeLink) (halflifeDays : ℚ) : ℚ :=
  match link.lastTraversed with
  | none => link.weight
  | some last =>
    if halflifeDays ≤ 0 then link.weight
    else
      let ageDays : ℚ := ((now - last).tdiv (10 ^ 9) : ℤ) / 86400
      if ageDays ≤ 0 then link.weight else link.weight * (1 + ageDays / (9 * halflifeDays))⁻¹

/-- The arithmetic without rounding. -/
def Arith.exact (now : DateTime) : Arith ℚ AssociativeLink where
  zero := 0
  threshold := 5 / 100
  half := 1 / 2
  lowest := -(2 ^ 128 - 2 ^ 104)
  mul x y := x * y
  add x y := x + y
  max x y := if x ≤ y then y else x
  div x y := x / y
  lt x y := decide (x < y)
  hopDecay hop := (6 / 10) ^ (hop + 1)
  decayedLinkWeight link := Spreading.decayedLinkWeight now link linkDecayHalflifeDays
  typeWeight link := link.linkType.activationWeight

/-! ### The spread -/

/-- `TraceEvent`. -/
structure TraceEvent (K : Type*) where
  hop : ℕ
  source : ℕ
  target : ℕ
  edge : ℕ
  amount : K
  deriving DecidableEq, Repr

/-- The variables of the loops. -/
structure State (K : Type*) where
  activated : Table ℕ K
  nextFrontier : List ℕ
  newCount : ℕ
  events : List (TraceEvent K)

section

variable {K ε : Type*} (A : Arith K ε) (g : Graph ε) (visible : ℕ → Option Bool) (hop : ℕ)

/-- `spread_amt`. -/
def Arith.amount (source : K) (edge : EdgeRef ε) : K :=
  A.mul (A.mul (A.mul source (A.decayedLinkWeight edge.weight)) (A.typeWeight edge.weight))
    (A.hopDecay hop)

/-- Activation comes to a node. -/
def State.deliver (s : State K) (node : ℕ) (edge : EdgeRef ε) (amount : K) : State K :=
  let target := neighbor node edge
  let events := s.events ++ [⟨hop + 1, node, target, edge.id, amount⟩]
  match s.activated.get? target with
  | some existing =>
    { s with
      activated := s.activated.insert target
        (A.max existing (A.add existing (A.mul amount A.half)))
      events := events }
  | none =>
    { activated := s.activated.insert target amount
      nextFrontier := s.nextFrontier ++ [target]
      newCount := s.newCount + 1
      events := events }

/-- The edges at a node, and whether the loop over the frontier is left. -/
def walkEdges (node : ℕ) (source : K) : List (EdgeRef ε) → State K → State K × Bool
  | [], s => (s, false)
  | edge :: edges, s =>
    if visible (neighbor node edge) = some true then
      if A.lt (A.amount hop source edge) A.threshold then walkEdges node source edges s
      else
        let s := s.deliver A hop node edge (A.amount hop source edge)
        if maxActivated ≤ s.newCount then (s, true) else walkEdges node source edges s
    else walkEdges node source edges s

/-- `'frontier`. -/
def walkNodes : List ℕ → State K → State K
  | [], s => s
  | node :: nodes, s =>
    let source := (s.activated.get? node).getD A.zero
    if A.lt source A.threshold then walkNodes nodes s
    else
      match walkEdges A visible hop node source (g.edgesAt node) s with
      | (s, true) => s
      | (s, false) => walkNodes nodes s

/-- The hops. -/
def hopLoop (order : Order) : List ℕ → List ℕ → State K → State K
  | [], _, s => s
  | hop :: hops, frontier, s =>
    if frontier.isEmpty || maxActivated ≤ s.newCount then s
    else
      let s := walkNodes A g visible hop (order.iter hop frontier) { s with nextFrontier := [] }
      hopLoop order hops s.nextFrontier s

/-- The largest value is scaled to one. -/
def normalise (activated : Table ℕ K) : Table ℕ K :=
  let maxVal := activated.values.foldl A.max A.lowest
  if A.lt A.zero maxVal then activated.mapValues fun _ v => A.div v maxVal else activated

def State.init (seeds : List (ℕ × K)) : State K where
  activated := Table.empty.insertAll seeds
  nextFrontier := []
  newCount := 0
  events := []

/-- The state after the hops. -/
def spreadState (seeds : List (ℕ × K)) (order : Order) : State K :=
  hopLoop A g visible order (List.range maxHops) (State.init seeds).activated.keys
    (State.init seeds)

/-- `spread_events`. -/
def spreadEvents (seeds : List (ℕ × K)) (order : Order) : Table ℕ K × List (TraceEvent K) :=
  if seeds.isEmpty then (Table.empty, [])
  else
    let s := spreadState A g visible seeds order
    (normalise A s.activated, s.events)

/-- The edges of events, each once. -/
def walked : List (TraceEvent K) → List ℕ → List ℕ
  | [], _ => []
  | e :: events, seen =>
    if e.edge ∈ seen then walked events seen else e.edge :: walked events (e.edge :: seen)

/-- `spread_traced`. -/
def spreadTraced (seeds : List (ℕ × K)) (order : Order) : Table ℕ K × List ℕ :=
  let (activated, events) := spreadEvents A g visible seeds order
  (activated, walked events [])

end

/-- A visibility map with the entries of some nodes alone. -/
def restrict (visible : ℕ → Option Bool) (nodes : List ℕ) (n : ℕ) : Option Bool :=
  if n ∈ nodes then visible n else none

/-! ### Reach -/

section Reach

variable {ε : Type*} {g : Graph ε}

/-- There is an edge from one node to another, in some direction. -/
def Adjacent (g : Graph ε) (a b : ℕ) : Prop := ∃ e ∈ g.edgesAt a, neighbor a e = b

/-- A node is within some hops of some nodes. -/
def Within (g : Graph ε) (base : List ℕ) : ℕ → ℕ → Prop
  | 0, n => n ∈ base
  | k + 1, n => Within g base k n ∨ ∃ m, Within g base k m ∧ Adjacent g m n

theorem Within.of_base {base : List ℕ} {n : ℕ} (h : n ∈ base) (k : ℕ) : Within g base k n := by
  induction k with
  | zero => exact h
  | succ k ih => exact .inl ih

theorem Within.mono {base base' : List ℕ} (hbase : base ⊆ base') {k n : ℕ}
    (h : Within g base k n) : Within g base' k n := by
  induction k generalizing n with
  | zero => exact hbase h
  | succ k ih =>
    obtain h | ⟨m, hm, hadj⟩ := h
    · exact .inl (ih h)
    · exact .inr ⟨m, ih hm, hadj⟩

/-- A hop taken at the start. -/
theorem Within.of_succ {base base' : List ℕ} (hbase : base ⊆ base')
    (hadj : ∀ n ∈ base, ∀ b, Adjacent g n b → b ∈ base') {k n : ℕ}
    (h : Within g base (k + 1) n) : Within g base' k n := by
  induction k generalizing n with
  | zero =>
    obtain h | ⟨m, hm, hadj'⟩ := h
    · exact hbase h
    · exact hadj m hm n hadj'
  | succ k ih =>
    obtain h | ⟨m, hm, hadj'⟩ := h
    · exact .inl (ih h)
    · exact .inr ⟨m, ih hm, hadj'⟩

theorem Within.succ_of {base base' : List ℕ} (hadj : ∀ x ∈ base', ∃ n ∈ base, Adjacent g n x)
    {k n : ℕ} (h : Within g base' k n) : Within g base (k + 1) n := by
  induction k generalizing n with
  | zero =>
    obtain ⟨m, hm, hadj'⟩ := hadj n h
    exact .inr ⟨m, hm, hadj'⟩
  | succ k ih =>
    obtain h | ⟨m, hm, hadj'⟩ := h
    · exact .inl (ih h)
    · exact .inr ⟨m, ih hm, hadj'⟩

/-- A set that is closed under hops has all that is within reach of it. -/
theorem Within.of_closed {base : List ℕ} (hadj : ∀ n ∈ base, ∀ b, Adjacent g n b → b ∈ base)
    {k n : ℕ} (h : Within g base k n) : n ∈ base := by
  induction k generalizing n with
  | zero => exact h
  | succ k ih =>
    obtain h | ⟨m, hm, hadj'⟩ := h
    · exact ih h
    · exact hadj m (ih hm) n hadj'

/-- What is reached grows, and what is new is noted. -/
structure Grows (acc acc' : List ℕ × List ℕ) : Prop where
  reached : acc.1 ⊆ acc'.1
  next : acc.2 ⊆ acc'.2
  noted : ∀ x ∈ acc'.1, x ∈ acc.1 ∨ x ∈ acc'.2

theorem Grows.refl (acc : List ℕ × List ℕ) : Grows acc acc :=
  ⟨fun _ h => h, fun _ h => h, fun _ h => .inl h⟩

theorem Grows.trans {a b c : List ℕ × List ℕ} (hab : Grows a b) (hbc : Grows b c) : Grows a c :=
  ⟨fun _ h => hbc.reached (hab.reached h), fun _ h => hbc.next (hab.next h), fun x h =>
    (hbc.noted x h).elim (fun h => (hab.noted x h).imp_right fun h => hbc.next h) .inr⟩

theorem grows_reachEdge (node : ℕ) (acc : List ℕ × List ℕ) (e : EdgeRef ε) :
    Grows acc (reachEdge node acc e) ∧ neighbor node e ∈ (reachEdge node acc e).1 := by
  rw [reachEdge]
  split
  · rename_i h
    exact ⟨.refl acc, h⟩
  · refine ⟨⟨List.subset_append_left _ _, List.subset_append_left _ _, fun x h => ?_⟩,
      List.mem_append_right _ (List.mem_singleton.mpr rfl)⟩
    exact (List.mem_append.mp h).imp_right fun h => List.mem_append_right _ h

theorem grows_reachEdges (node : ℕ) (edges : List (EdgeRef ε)) (acc : List ℕ × List ℕ) :
    Grows acc (edges.foldl (reachEdge node) acc) ∧
      ∀ e ∈ edges, neighbor node e ∈ (edges.foldl (reachEdge node) acc).1 := by
  induction edges generalizing acc with
  | nil => exact ⟨.refl acc, by simp⟩
  | cons e edges ih =>
    obtain ⟨hgrows, hmem⟩ := grows_reachEdge node acc e
    obtain ⟨hgrows', hmem'⟩ := ih (reachEdge node acc e)
    exact ⟨hgrows.trans hgrows',
      List.forall_mem_cons.mpr ⟨hgrows'.reached hmem, hmem'⟩⟩

theorem grows_reachNodes (nodes : List ℕ) (acc : List ℕ × List ℕ) :
    Grows acc (nodes.foldl (reachNode g) acc) ∧
      ∀ n ∈ nodes, ∀ b, Adjacent g n b → b ∈ (nodes.foldl (reachNode g) acc).1 := by
  induction nodes generalizing acc with
  | nil => exact ⟨.refl acc, by simp⟩
  | cons n nodes ih =>
    obtain ⟨hgrows, hmem⟩ := grows_reachEdges n (g.edgesAt n) acc
    obtain ⟨hgrows', hmem'⟩ := ih (reachNode g acc n)
    refine ⟨hgrows.trans hgrows', List.forall_mem_cons.mpr ⟨?_, hmem'⟩⟩
    rintro b ⟨e, he, rfl⟩
    exact hgrows'.reached (hmem e he)

/-- **The plain walk** finds all that is within as many hops. -/
theorem mem_reachLoop (order : Order) {hops reached frontier : List ℕ}
    (hclosed : ∀ n ∈ reached, n ∉ frontier → ∀ b, Adjacent g n b → b ∈ reached) {n : ℕ}
    (h : Within g reached hops.length n) : n ∈ reachLoop g order hops reached frontier := by
  induction hops generalizing reached frontier with
  | nil => exact h
  | cons hop hops ih =>
    rw [reachLoop]
    split
    · rename_i hempty
      rw [List.isEmpty_iff] at hempty
      exact h.of_closed fun m hm => hclosed m hm (by simp [hempty])
    · obtain ⟨hgrows, hmem⟩ := grows_reachNodes (g := g) (order.iter hop frontier) (reached, [])
      have hadj : ∀ m ∈ reached, ∀ b, Adjacent g m b →
          b ∈ ((order.iter hop frontier).foldl (reachNode g) (reached, [])).1 := by
        intro m hm b hb
        by_cases hfrontier : m ∈ frontier
        · exact hmem m ((order.perm hop frontier).mem_iff.mpr hfrontier) b hb
        · exact hgrows.reached (hclosed m hm hfrontier b hb)
      refine ih (fun m hm hnext => ?_) (h.of_succ hgrows.reached hadj)
      exact hadj m ((hgrows.noted m hm).resolve_right hnext)

end Reach

/-! ### What is out of reach does not matter -/

section Congr

variable {K ε : Type*} {A : Arith K ε} {g : Graph ε} {v v' : ℕ → Option Bool} {hop : ℕ}

theorem walkEdges_congr {node : ℕ} {source : K} {edges : List (EdgeRef ε)}
    (h : ∀ e ∈ edges, v (neighbor node e) = v' (neighbor node e)) (s : State K) :
    walkEdges A v hop node source edges s = walkEdges A v' hop node source edges s := by
  induction edges generalizing s with
  | nil => rfl
  | cons e edges ih =>
    have hih := ih fun e' he' => h e' (List.mem_cons_of_mem _ he')
    rw [walkEdges, walkEdges, h e List.mem_cons_self]
    simp only [hih]

theorem walkNodes_congr {nodes : List ℕ} (h : ∀ n ∈ nodes, ∀ b, Adjacent g n b → v b = v' b)
    (s : State K) : walkNodes A g v hop nodes s = walkNodes A g v' hop nodes s := by
  induction nodes generalizing s with
  | nil => rfl
  | cons n nodes ih =>
    have hih := ih fun m hm => h m (List.mem_cons_of_mem _ hm)
    have hedges : ∀ source (s : State K), walkEdges A v hop n source (g.edgesAt n) s
        = walkEdges A v' hop n source (g.edgesAt n) s := fun source s =>
      walkEdges_congr (fun e he => h n List.mem_cons_self _ ⟨e, he, rfl⟩) s
    rw [walkNodes, walkNodes]
    simp only [hih, hedges]

theorem nextFrontier_deliver (s : State K) (node : ℕ) (e : EdgeRef ε) (amount : K) :
    ∀ x ∈ (s.deliver A hop node e amount).nextFrontier,
      x ∈ s.nextFrontier ∨ x = neighbor node e := by
  rw [State.deliver]
  cases s.activated.get? (neighbor node e) with
  | some existing => exact fun x hx => .inl hx
  | none => exact fun x hx => (List.mem_append.mp hx).imp_right List.mem_singleton.mp

theorem nextFrontier_walkEdges {node : ℕ} {source : K} (edges : List (EdgeRef ε)) (s : State K) :
    ∀ x ∈ (walkEdges A v hop node source edges s).1.nextFrontier,
      x ∈ s.nextFrontier ∨ ∃ e ∈ edges, neighbor node e = x := by
  induction edges generalizing s with
  | nil => exact fun x hx => .inl hx
  | cons e edges ih =>
    have hlift : ∀ {s' : State K},
        (∀ x ∈ s'.nextFrontier, x ∈ s.nextFrontier ∨ x = neighbor node e) →
        ∀ x ∈ (walkEdges A v hop node source edges s').1.nextFrontier,
          x ∈ s.nextFrontier ∨ ∃ e' ∈ e :: edges, neighbor node e' = x := by
      intro s' hs' x hx
      obtain hx | ⟨e', he', rfl⟩ := ih s' x hx
      · exact (hs' x hx).imp_right fun h => ⟨e, List.mem_cons_self, h.symm⟩
      · exact .inr ⟨e', List.mem_cons_of_mem _ he', rfl⟩
    rw [walkEdges]
    split
    · split
      · exact hlift fun x hx => .inl hx
      · dsimp only
        split
        · exact fun x hx => (nextFrontier_deliver s node e _ x hx).imp_right fun h =>
            ⟨e, List.mem_cons_self, h.symm⟩
        · exact hlift (nextFrontier_deliver s node e _)
    · exact hlift fun x hx => .inl hx

theorem nextFrontier_walkNodes (nodes : List ℕ) (s : State K) :
    ∀ x ∈ (walkNodes A g v hop nodes s).nextFrontier,
      x ∈ s.nextFrontier ∨ ∃ n ∈ nodes, Adjacent g n x := by
  induction nodes generalizing s with
  | nil => exact fun x hx => .inl hx
  | cons n nodes ih =>
    have hlift : ∀ {s' : State K}, (∀ x ∈ s'.nextFrontier, x ∈ s.nextFrontier ∨ Adjacent g n x) →
        ∀ x ∈ (walkNodes A g v hop nodes s').nextFrontier,
          x ∈ s.nextFrontier ∨ ∃ m ∈ n :: nodes, Adjacent g m x := by
      intro s' hs' x hx
      obtain hx | ⟨m, hm, hadj⟩ := ih s' x hx
      · exact (hs' x hx).imp_right fun h => ⟨n, List.mem_cons_self, h⟩
      · exact .inr ⟨m, List.mem_cons_of_mem _ hm, hadj⟩
    have hwalk : ∀ x ∈ (walkEdges A v hop n ((s.activated.get? n).getD A.zero) (g.edgesAt n)
        s).1.nextFrontier, x ∈ s.nextFrontier ∨ Adjacent g n x := nextFrontier_walkEdges _ s
    rw [walkNodes]
    split
    · exact hlift fun x hx => .inl hx
    · split
      · rename_i s' heq
        rw [heq] at hwalk
        exact fun x hx => (hwalk x hx).imp_right fun h => ⟨n, List.mem_cons_self, h⟩
      · rename_i s' heq
        rw [heq] at hwalk
        exact hlift hwalk

/-- **What is out of reach** of the frontier in the hops that are left does not matter. -/
theorem hopLoop_congr (order : Order) {hops frontier : List ℕ}
    (h : ∀ n, Within g frontier hops.length n → v n = v' n) (s : State K) :
    hopLoop A g v order hops frontier s = hopLoop A g v' order hops frontier s := by
  induction hops generalizing frontier s with
  | nil => rfl
  | cons hop hops ih =>
    have hnear : ∀ n ∈ order.iter hop frontier, ∀ b, Adjacent g n b → v b = v' b := by
      intro n hn b hb
      have hbase : n ∈ frontier := (order.perm hop frontier).mem_iff.mp hn
      exact h b (.inr ⟨n, .of_base hbase _, hb⟩)
    rw [hopLoop, hopLoop, walkNodes_congr hnear]
    split
    · rfl
    · refine ih (fun n hn => h n (hn.succ_of fun x hx => ?_)) _
      obtain hx | ⟨m, hm, hadj⟩ := nextFrontier_walkNodes _ _ x hx
      · cases hx
      · exact ⟨m, (order.perm hop frontier).mem_iff.mp hm, hadj⟩

end Congr

/-! ### What holds throughout -/

section Invariant

variable {K ε : Type*} {A : Arith K ε} {g : Graph ε} {v : ℕ → Option Bool} {hop : ℕ}

/-- One delivery. -/
inductive Step (A : Arith K ε) (v : ℕ → Option Bool) (hop : ℕ) (s : State K) : State K → Prop
  | deliver (node : ℕ) (e : EdgeRef ε) (amount : K) : v (neighbor node e) = some true →
      A.lt amount A.threshold = false → s.newCount < maxActivated →
      Step A v hop s (s.deliver A hop node e amount)

/-- The loop over edges is deliveries, and it is left when the budget is spent. -/
theorem walkEdges_steps {node : ℕ} {source : K} (edges : List (EdgeRef ε)) {s : State K}
    (hs : s.newCount < maxActivated) :
    Relation.ReflTransGen (Step A v hop) s (walkEdges A v hop node source edges s).1 ∧
      ((walkEdges A v hop node source edges s).2 = false →
        (walkEdges A v hop node source edges s).1.newCount < maxActivated) := by
  induction edges generalizing s with
  | nil => exact ⟨.refl, fun _ => hs⟩
  | cons e edges ih =>
    rw [walkEdges]
    split
    · rename_i hv
      split
      · exact ih hs
      · rename_i hlt
        dsimp only
        have hstep : Step A v hop s (s.deliver A hop node e (A.amount hop source e)) :=
          .deliver node e _ hv (by simpa using hlt) hs
        split
        · exact ⟨.single hstep, fun h => by cases h⟩
        · rename_i hcount
          obtain ⟨hrun, hend⟩ := ih (not_le.mp hcount)
          exact ⟨.head hstep hrun, hend⟩
    · exact ih hs

/-- So is the loop over the frontier. -/
theorem walkNodes_steps (nodes : List ℕ) {s : State K} (hs : s.newCount < maxActivated) :
    Relation.ReflTransGen (Step A v hop) s (walkNodes A g v hop nodes s) := by
  induction nodes generalizing s with
  | nil => exact .refl
  | cons n nodes ih =>
    obtain ⟨hrun, hend⟩ : Relation.ReflTransGen (Step A v hop) s
        (walkEdges A v hop n ((s.activated.get? n).getD A.zero) (g.edgesAt n) s).1 ∧ _ :=
      walkEdges_steps (g.edgesAt n) hs
    rw [walkNodes]
    split
    · exact ih hs
    · split
      · rename_i s' heq
        rw [heq] at hrun
        exact hrun
      · rename_i s' heq
        rw [heq] at hrun hend
        exact hrun.trans (ih (hend rfl))

/-- **The invariant**, before the hop `h`. -/
structure Inv (v : ℕ → Option Bool) (seeds : List ℕ) (h : ℕ) (s : State K) : Prop where
  seen : ∀ n ∈ s.activated.keys, n ∈ seeds ∨ v n = some true
  seeded : ∀ n ∈ seeds, n ∈ s.activated.keys
  counted : (s.activated.keys.filter fun n => n ∉ seeds).length = s.newCount
  bounded : s.newCount ≤ maxActivated
  hops : ∀ e ∈ s.events, 1 ≤ e.hop ∧ e.hop ≤ h
  ordered : s.events.Pairwise fun e e' => e.hop ≤ e'.hop

theorem mem_keys_iff {t : Table ℕ K} {n : ℕ} : n ∈ t.keys ↔ ∃ x, t.get? n = some x := by
  rw [← not_iff_not, ← Table.get?_eq_none_iff]
  cases t.get? n <;> simp

theorem mem_keys_insert {t : Table ℕ K} {k n : ℕ} {x : K} :
    n ∈ (t.insert k x).keys ↔ n = k ∨ n ∈ t.keys := by
  rw [mem_keys_iff, mem_keys_iff, Table.get?_insert]
  by_cases h : n = k <;> simp [h]

/-- How many of the keys are other than some, after an insertion. -/
theorem length_keys_insert (seeds : List ℕ) (t : Table ℕ K) (k : ℕ) (x : K) :
    ((t.insert k x).keys.filter fun n => n ∉ seeds).length =
      (t.keys.filter fun n => n ∉ seeds).length +
        if k ∈ t.keys ∨ k ∈ seeds then 0 else 1 := by
  by_cases hk : k ∈ t.keys
  · have hperm : (t.insert k x).keys.Perm t.keys :=
      (List.perm_ext_iff_of_nodup (Table.nodup _) (Table.nodup _)).mpr fun n =>
        mem_keys_insert.trans (or_iff_right_of_imp fun h => h ▸ hk)
    rw [if_pos (.inl hk), (hperm.filter _).length_eq, Nat.add_zero]
  · have hkeys : (t.insert k x).keys = t.keys ++ [k] := by
      rw [Table.keys, Table.entries_insert_of_fresh (Table.get?_eq_none_iff.mpr hk),
        List.map_append]
      rfl
    by_cases hseed : k ∈ seeds <;> simp [hkeys, hk, hseed]

theorem Inv.mono {seeds : List ℕ} {h h' : ℕ} {s : State K} (hle : h ≤ h')
    (hs : Inv v seeds h s) : Inv v seeds h' s :=
  { hs with hops := fun e he => ⟨(hs.hops e he).1, (hs.hops e he).2.trans hle⟩ }

/-- **A delivery keeps the invariant.** -/
theorem Inv.step {seeds : List ℕ} {s s' : State K} (hs : Inv v seeds (hop + 1) s)
    (hstep : Step A v hop s s') : Inv v seeds (hop + 1) s' := by
  obtain ⟨node, e, amount, hv, -, hcount⟩ := hstep
  have hevents : ∀ last : TraceEvent K, last.hop = hop + 1 →
      (∀ x ∈ s.events ++ [last], 1 ≤ x.hop ∧ x.hop ≤ hop + 1) ∧
      (s.events ++ [last]).Pairwise fun x y => x.hop ≤ y.hop := by
    intro last hlast
    refine ⟨fun x hx => ?_,
      List.pairwise_append.mpr ⟨hs.ordered, List.pairwise_singleton _ _, fun x hx y hy => ?_⟩⟩
    · obtain hx | hx := List.mem_append.mp hx
      · exact hs.hops x hx
      · rw [List.mem_singleton.mp hx, hlast]
        exact ⟨Nat.le_add_left 1 hop, le_rfl⟩
    · rw [List.mem_singleton.mp hy, hlast]
      exact (hs.hops x hx).2
  rw [State.deliver]
  cases hget : s.activated.get? (neighbor node e) with
  | some existing =>
    have hmem : neighbor node e ∈ s.activated.keys := mem_keys_iff.mpr ⟨existing, hget⟩
    have hkeys : ∀ x n, n ∈ (s.activated.insert (neighbor node e) x).keys ↔
        n ∈ s.activated.keys := fun x n => by
      rw [mem_keys_insert]
      exact or_iff_right_of_imp fun h => h ▸ hmem
    exact
      { seen := fun n hn => hs.seen n ((hkeys _ n).mp hn)
        seeded := fun n hn => (hkeys _ n).mpr (hs.seeded n hn)
        counted := by rw [length_keys_insert, if_pos (.inl hmem)]; exact hs.counted
        bounded := hs.bounded
        hops := (hevents _ rfl).1
        ordered := (hevents _ rfl).2 }
  | none =>
    have hnot : neighbor node e ∉ s.activated.keys := Table.get?_eq_none_iff.mp hget
    have hseed : neighbor node e ∉ seeds := fun h => hnot (hs.seeded _ h)
    exact
      { seen := fun n hn => (mem_keys_insert.mp hn).elim (fun h => .inr (h ▸ hv)) (hs.seen n)
        seeded := fun n hn => mem_keys_insert.mpr (.inr (hs.seeded n hn))
        counted := by
          rw [length_keys_insert, if_neg (not_or.mpr ⟨hnot, hseed⟩), hs.counted]
        bounded := hcount
        hops := (hevents _ rfl).1
        ordered := (hevents _ rfl).2 }

theorem Inv.steps {seeds : List ℕ} {s s' : State K} (hs : Inv v seeds (hop + 1) s)
    (hrun : Relation.ReflTransGen (Step A v hop) s s') : Inv v seeds (hop + 1) s' := by
  induction hrun with
  | refl => exact hs
  | tail _ hstep ih => exact ih.step hstep

/-- **All the hops keep the invariant.** -/
theorem Inv.hopLoop {seeds : List ℕ} (order : Order) {hops frontier : List ℕ} {h m : ℕ}
    {s : State K} (hs : Inv v seeds h s) (hhops : hops.Pairwise (· < ·))
    (hrange : ∀ hop ∈ hops, h ≤ hop ∧ hop < m) (hm : h ≤ m) :
    Inv v seeds m (Spreading.hopLoop A g v order hops frontier s) := by
  induction hops generalizing h frontier s with
  | nil => exact hs.mono hm
  | cons hop hops ih =>
    obtain ⟨hle, hlt⟩ := hrange hop List.mem_cons_self
    rw [Spreading.hopLoop]
    split
    · exact hs.mono hm
    · rename_i hgo
      have hcount : s.newCount < maxActivated := by
        by_contra hnot
        exact hgo (by simp [not_lt.mp hnot])
      have hstart : Inv v seeds (hop + 1) { s with nextFrontier := [] } :=
        { hs.mono (hle.trans (Nat.le_succ hop)) with }
      exact ih (hstart.steps (walkNodes_steps _ hcount)) (List.pairwise_cons.mp hhops).2
        (fun hop' hmem => ⟨(List.pairwise_cons.mp hhops).1 hop' hmem,
          (hrange hop' (List.mem_cons_of_mem _ hmem)).2⟩) hlt

theorem mem_keys_init {seeds : List (ℕ × K)} {n : ℕ} :
    n ∈ (State.init seeds).activated.keys ↔ n ∈ seeds.map Prod.fst := by
  rw [mem_keys_iff]
  constructor
  · rintro ⟨x, hx⟩
    obtain h | h := Table.mem_of_get?_insertAll hx
    · exact List.mem_map_of_mem h
    · cases h
  · exact fun h => Table.contains_iff.mp (Table.contains_insertAll (.inl h))

theorem inv_init (v : ℕ → Option Bool) (seeds : List (ℕ × K)) :
    Inv v (seeds.map Prod.fst) 0 (State.init seeds) where
  seen n hn := .inl (mem_keys_init.mp hn)
  seeded n hn := mem_keys_init.mpr hn
  counted := List.length_eq_zero_iff.mpr (List.filter_eq_nil_iff.mpr fun n hn => by
    simpa using mem_keys_init.mp hn)
  bounded := Nat.zero_le _
  hops e he := by cases he
  ordered := List.Pairwise.nil

theorem inv_spreadState (A : Arith K ε) (g : Graph ε) (v : ℕ → Option Bool)
    (seeds : List (ℕ × K)) (order : Order) :
    Inv v (seeds.map Prod.fst) maxHops (spreadState A g v seeds order) :=
  (inv_init v seeds).hopLoop order List.pairwise_lt_range
    (fun _ hmem => ⟨Nat.zero_le _, List.mem_range.mp hmem⟩) (Nat.zero_le _)

theorem keys_normalise (t : Table ℕ K) : (normalise A t).keys = t.keys := by
  rw [normalise]
  split
  · simp [Table.keys, Table.mapValues]
  · rfl

/-- The edges of events are told once each. -/
theorem walked_spec (events : List (TraceEvent K)) (seen : List ℕ) :
    (walked events seen).Nodup ∧
      ∀ k, k ∈ walked events seen ↔ k ∉ seen ∧ ∃ e ∈ events, e.edge = k := by
  induction events generalizing seen with
  | nil => exact ⟨List.nodup_nil, by simp [walked]⟩
  | cons e events ih =>
    rw [walked]
    split
    · rename_i hseen
      refine ⟨(ih seen).1, fun k => ?_⟩
      rw [(ih seen).2, List.exists_mem_cons_iff]
      exact and_congr_right fun hk => (or_iff_right fun h : e.edge = k => hk (h ▸ hseen)).symm
    · rename_i hseen
      obtain ⟨hnodup, hmem⟩ := ih (e.edge :: seen)
      refine ⟨List.nodup_cons.mpr ⟨fun h => ((hmem _).mp h).1 List.mem_cons_self, hnodup⟩,
        fun k => ?_⟩
      rw [List.mem_cons, hmem, List.mem_cons, List.exists_mem_cons_iff]
      by_cases hk : k = e.edge
      · simp [hk, hseen]
      · simp [hk, Ne.symm hk]

end Invariant

/-! ### Without rounding -/

section Exact

variable {now : DateTime} {g : Graph AssociativeLink} {v : ℕ → Option Bool} {hop : ℕ}

def NonNeg (t : Table ℕ ℚ) : Prop := ∀ x ∈ t.values, 0 ≤ x

theorem NonNeg.step {s s' : State ℚ} (hs : NonNeg s.activated)
    (hstep : Step (Arith.exact now) v hop s s') : NonNeg s'.activated := by
  obtain ⟨node, e, amount, -, hlt, -⟩ := hstep
  have hamount : (5 / 100 : ℚ) ≤ amount := not_lt.mp (of_decide_eq_false hlt)
  rw [State.deliver]
  cases hget : s.activated.get? (neighbor node e) with
  | some existing =>
    have hexisting : 0 ≤ existing := hs existing
      (List.mem_map_of_mem (Table.mem_of_get? hget))
    intro x hx
    obtain rfl | hx := Table.mem_values_insert hx
    · change 0 ≤ if existing ≤ existing + amount * (1 / 2) then existing + amount * (1 / 2)
        else existing
      split <;> linarith
    · exact hs x hx
  | none =>
    intro x hx
    obtain rfl | hx := Table.mem_values_insert hx
    · linarith
    · exact hs x hx

theorem NonNeg.steps {s s' : State ℚ} (hs : NonNeg s.activated)
    (hrun : Relation.ReflTransGen (Step (Arith.exact now) v hop) s s') : NonNeg s'.activated := by
  induction hrun with
  | refl => exact hs
  | tail _ hstep ih => exact ih.step hstep

theorem NonNeg.hopLoop (order : Order) {hops frontier : List ℕ} {s : State ℚ}
    (hs : NonNeg s.activated) :
    NonNeg (Spreading.hopLoop (Arith.exact now) g v order hops frontier s).activated := by
  induction hops generalizing frontier s with
  | nil => exact hs
  | cons hop hops ih =>
    rw [Spreading.hopLoop]
    split
    · exact hs
    · rename_i hgo
      have hcount : s.newCount < maxActivated := by
        by_contra hnot
        exact hgo (by simp [not_lt.mp hnot])
      exact ih (NonNeg.steps (s := { s with nextFrontier := [] }) hs (walkNodes_steps _ hcount))

theorem le_foldl_max (now : DateTime) (l : List ℚ) (b : ℚ) : b ≤ l.foldl (Arith.exact now).max b ∧
    ∀ x ∈ l, x ≤ l.foldl (Arith.exact now).max b := by
  induction l generalizing b with
  | nil => exact ⟨le_rfl, by simp⟩
  | cons y l ih =>
    obtain ⟨hb, hl⟩ := ih ((Arith.exact now).max b y)
    have hmax : b ≤ (Arith.exact now).max b y ∧ y ≤ (Arith.exact now).max b y := by
      change b ≤ (if b ≤ y then y else b) ∧ y ≤ if b ≤ y then y else b
      split
      · exact ⟨‹_›, le_rfl⟩
      · exact ⟨le_rfl, (not_le.mp ‹_›).le⟩
    exact ⟨hmax.1.trans hb, List.forall_mem_cons.mpr ⟨hmax.2.trans hb, hl⟩⟩

/-- **Scaled values** lie between zero and one. -/
theorem normalise_mem {t : Table ℕ ℚ} (ht : NonNeg t) {n : ℕ} {x : ℚ}
    (hx : (normalise (Arith.exact now) t).get? n = some x) : 0 ≤ x ∧ x ≤ 1 := by
  have hle := (le_foldl_max now t.values (Arith.exact now).lowest).2
  rw [normalise] at hx
  split at hx
  · rename_i hpos
    have hmax : 0 < t.values.foldl (Arith.exact now).max (Arith.exact now).lowest :=
      of_decide_eq_true hpos
    rw [Table.get?_mapValues, Option.map_eq_some_iff] at hx
    obtain ⟨y, hy, rfl⟩ := hx
    have hmem : y ∈ t.values := List.mem_map_of_mem (Table.mem_of_get? hy)
    exact ⟨div_nonneg (ht y hmem) hmax.le, (div_le_one hmax).mpr (hle y hmem)⟩
  · rename_i hpos
    have hmem : x ∈ t.values := List.mem_map_of_mem (Table.mem_of_get? hx)
    have hmax : ¬ 0 < t.values.foldl (Arith.exact now).max (Arith.exact now).lowest := fun h =>
      hpos (decide_eq_true h)
    exact ⟨ht x hmem, (hle x hmem).trans ((not_lt.mp hmax).trans zero_le_one)⟩

theorem mem_unit_spreadEvents {seeds : List (ℕ × ℚ)} (hseeds : ∀ x ∈ seeds, 0 ≤ x.2)
    (order : Order) {n : ℕ} {x : ℚ}
    (hx : (spreadEvents (Arith.exact now) g v seeds order).1.get? n = some x) : 0 ≤ x ∧ x ≤ 1 := by
  rw [spreadEvents] at hx
  split at hx
  · cases hx
  · refine normalise_mem (NonNeg.hopLoop order fun y hy => ?_) hx
    obtain ⟨⟨k, y⟩, hk, rfl⟩ := List.mem_map.mp hy
    obtain h | h := Table.mem_of_get?_insertAll (Table.mem_iff_get?.mp hk)
    · exact hseeds _ h
    · cases h

end Exact

/-- With the visibility of what is within reach alone, the spread is the same. -/
theorem spreadState_restrict {K ε : Type*} (A : Arith K ε) (g : Graph ε)
    (visible : ℕ → Option Bool) (seeds : List (ℕ × K)) (order order' : Order) :
    spreadState A g (restrict visible (reachableFrontier g order' seeds)) seeds order
      = spreadState A g visible seeds order := by
  refine hopLoop_congr order (fun n hn => if_pos ?_) _
  refine mem_reachLoop order' (fun m hm hnot => absurd hm hnot) (hn.mono fun m hm => ?_)
  exact List.mem_dedup.mpr (mem_keys_init.mp hm)

/-- **The bounded fetch**: with the visibility of what is within reach alone, the spread is the
same; it goes to seeds and to visible nodes, to so many new ones at most, hop by hop; its edges are
those of the events; and without rounding the values lie between zero and one. -/
theorem spread_frontier {K ε : Type*} (A : Arith K ε) (g : Graph ε) (visible : ℕ → Option Bool)
    (seeds : List (ℕ × K)) (order order' : Order) :
    spreadEvents A g (restrict visible (reachableFrontier g order' seeds)) seeds order
      = spreadEvents A g visible seeds order ∧
    (∀ n ∈ (spreadEvents A g visible seeds order).1.keys,
      n ∈ seeds.map Prod.fst ∨ visible n = some true) ∧
    ((spreadEvents A g visible seeds order).1.keys.filter fun n => n ∉ seeds.map Prod.fst).length
      ≤ maxActivated ∧
    ((spreadEvents A g visible seeds order).2.Pairwise fun e e' => e.hop ≤ e'.hop) ∧
    (∀ e ∈ (spreadEvents A g visible seeds order).2, 1 ≤ e.hop ∧ e.hop ≤ maxHops) ∧
    (spreadTraced A g visible seeds order).2.Nodup ∧
    (∀ k, k ∈ (spreadTraced A g visible seeds order).2 ↔
      ∃ e ∈ (spreadEvents A g visible seeds order).2, e.edge = k) ∧
    ∀ (now : DateTime) (links : Graph AssociativeLink) (weighted : List (ℕ × ℚ)),
      (∀ x ∈ weighted, 0 ≤ x.2) → ∀ n x,
      (spreadEvents (Arith.exact now) links visible weighted order).1.get? n = some x →
      0 ≤ x ∧ x ≤ 1 := by
  have hwalked := walked_spec (spreadEvents A g visible seeds order).2 []
  have hinv := inv_spreadState A g visible seeds order
  have hcases : spreadEvents A g visible seeds order = (Table.empty, []) ∨
      (spreadEvents A g visible seeds order).1.keys
        = (spreadState A g visible seeds order).activated.keys ∧
      (spreadEvents A g visible seeds order).2 = (spreadState A g visible seeds order).events := by
    rw [spreadEvents]
    split
    · exact .inl rfl
    · exact .inr ⟨keys_normalise _, rfl⟩
  refine ⟨by rw [spreadEvents, spreadEvents, spreadState_restrict], ?_, ?_, ?_, ?_, hwalked.1,
    fun k => ?_, fun now links weighted hw n x hx => mem_unit_spreadEvents hw order hx⟩
  · obtain hnil | ⟨hkeys, -⟩ := hcases
    · rw [hnil]
      exact fun n hn => by cases hn
    · rw [hkeys]
      exact hinv.seen
  · obtain hnil | ⟨hkeys, -⟩ := hcases
    · rw [hnil]
      exact Nat.zero_le _
    · rw [hkeys, hinv.counted]
      exact hinv.bounded
  · obtain hnil | ⟨-, hevents⟩ := hcases
    · rw [hnil]
      exact List.Pairwise.nil
    · rw [hevents]
      exact hinv.ordered
  · obtain hnil | ⟨-, hevents⟩ := hcases
    · rw [hnil]
      exact fun e he => by cases he
    · rw [hevents]
      exact hinv.hops
  · exact (hwalked.2 k).trans (and_iff_right List.not_mem_nil)

end ApexOS.Cerebro.Spreading
