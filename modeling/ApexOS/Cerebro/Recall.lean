import ApexOS.Cerebro.Reading
import ApexOS.Cerebro.Spreading

/-!
# Recall within a scope

`recall_traced` of `cerebro/crates/cerebro/src/cortex.rs`: the candidates of the search are the
seeds of a spread over the graph, and the memories that either names are loaded and ranked. Two
tests say what the caller sees: the queries have `sql_filter`, the spread asks `can_access`.

To be closed in its scope, a recall has to come to the same when the memories that the queries do
not match are taken out of the store, with their links. The edges and the nodes that stay keep
their names, so an order of iteration of what stays is one for both.

## Main definitions

* `recallTraced`: the function, up to the reinforcement of what it returns
* `Brain.remove`: the store without what a scope does not match
* `ScopeClosed`: what is promised
* `Brain.Closed`: the condition for it

## Main results

* `spreadState_without`: nodes that are not visible can be taken out of the graph
* `recallTraced_remove`: within the condition the recall is the same
-/

namespace ApexOS.Cerebro.Recall

open Spreading Reading

/-! ### The store -/

/-- The rows of `memories`, and the graph of links with the names of its nodes and edges. -/
structure Brain where
  rows : List StoredMemory
  nodup : (rows.map fun row => row.raw.id).Nodup
  graph : Graph AssociativeLink
  nodeWeight : ℕ → Option MemoryId
  index : MemoryId → Option ℕ
  nodeWeight_of_index : ∀ {id n}, index id = some n → nodeWeight n = some id
  edgeWeight : ℕ → Option AssociativeLink

namespace Brain

variable (b : Brain)

/-- The row of a memory that is not deleted. -/
def liveRow (id : MemoryId) : Option StoredMemory :=
  b.rows.find? fun row => row.raw.id == id && row.live

/-- The visibility that a text of the column is read as. -/
def readVisibility : String → Visibility
  | "private" => .priv
  | "thread" => .thread
  | _ => .shared

/-- `get_visibility_meta`. -/
def getVisibilityMeta (id : MemoryId) : Option (Visibility × Option AgentId) :=
  (b.liveRow id).map fun row => (readVisibility row.raw.visibility, row.raw.agentId)

/-- Whether the spread may go to a node. -/
def visible (scope : VisibilityScope) (n : ℕ) : Bool :=
  if scope.agentId.isNone && !scope.sharedOnly then true
  else
    match (b.nodeWeight n).bind b.getVisibilityMeta with
    | some (visibility, owner) => scope.canAccess visibility owner
    | none => true

end Brain

/-! ### Ranking -/

/-- The functions of the library of floats. -/
structure Floats where
  /-- `powf(-ACTR_DECAY_RATE)` -/
  decayed : ℚ → ℚ
  ln : ℚ → ℚ
  exp : ℚ → ℚ

section

variable (F : Floats)

/-- `num_seconds` of a difference. -/
def numSeconds (now t : DateTime) : ℤ := (now - t).tdiv (10 ^ 9)

/-- `actr_activation`; nothing stands for the least float. -/
def actrActivation (accessTimes : List DateTime) (now : DateTime) : Option ℚ :=
  if accessTimes.isEmpty then none
  else
    let sum := (accessTimes.map fun t => F.decayed (max (numSeconds now t) 1)).sum
    if sum ≤ 0 then none else some (F.ln sum)

/-- `recall_probability`, at the threshold 0 and the noise 0.4. -/
def recallProbability : Option ℚ → ℚ
  | none => 0
  | some activation => 1 / (1 + F.exp (-(max (-20) (min 20 (activation / (4 / 10))))))

/-- `recall_score`. -/
def recallScore (vectorSim : ℚ) (baseLevel : Option ℚ) (associative fsrs salience : ℚ) : ℚ :=
  clampUnit (35 / 100 * clampUnit vectorSim +
    30 / 100 * recallProbability F (baseLevel.map (· + associative)) +
    20 / 100 * clampUnit fsrs + 15 / 100 * clampUnit salience)

/-- The score of a memory. -/
def score (now : DateTime) (sims assoc : Table MemoryId ℚ) (node : MemoryNode) : ℚ :=
  let elapsedDays : ℚ := match node.strength.lastReview with
    | some lastReview => (max (numSeconds now lastReview) 0 : ℤ) / 86400
    | none => 0
  recallScore F ((sims.get? node.id).getD 0) (actrActivation F node.accessTimes now)
    ((assoc.get? node.id).getD 0) (Store.retrievability elapsedDays node.strength.stability)
    node.salience

/-- `rank_results`. -/
def rankResults (now : DateTime) (nodes : List MemoryNode) (sims assoc : Table MemoryId ℚ) :
    List (MemoryId × ℚ) :=
  (nodes.map fun node => (node.id, score F now sims assoc node)).mergeSort fun x y => y.2 ≤ x.2

/-! ### The recall -/

/-- What a recall comes to: the memories with their scores, the links that are stamped, and the
activation after the spread. -/
structure Recalled where
  results : List (MemoryNode × ℚ)
  walkedKeys : List (MemoryId × MemoryId × LinkType)
  activated : Table MemoryId ℚ

/-- `get_memories_by_ids`. -/
def getMemoriesByIds (codec : Codec) (engine : Engine) (rows : List StoredMemory)
    (ids : List MemoryId) (scope : VisibilityScope) : Except String (List MemoryNode) :=
  if ids.isEmpty then pure []
  else
    (engine.scan (rows.filter fun row =>
      admits scope row && (ids.contains row.raw.id && row.live))).mapM fun row =>
        row.raw.intoMemoryNode codec

/-- It is the one of the store. -/
theorem getMemoriesByIds_store {γ : Type} (L : Libs γ) (s : Store γ) (ids : List MemoryId)
    (scope : VisibilityScope) :
    s.getMemoriesByIds L ids scope = getMemoriesByIds L.codec L.engine s.memories ids scope := rfl

/-- The candidates that are in the graph. -/
def Brain.seeds (b : Brain) (candidates : List (MemoryId × ℚ)) : List (ℕ × ℚ) :=
  candidates.filterMap fun x => (b.index x.1).map (·, x.2)

/-- The spread of a recall. -/
def Brain.spread (b : Brain) (scope : VisibilityScope) (candidates : List (MemoryId × ℚ))
    (now : DateTime) (order order' : Order) : Table ℕ ℚ × List (TraceEvent ℚ) :=
  spreadEvents (Arith.exact now) b.graph
    (restrict (fun n => some (b.visible scope n))
      (reachableFrontier b.graph order' (b.seeds candidates)))
    (b.seeds candidates) order

/-- The activation by memory. -/
def Brain.assocMap (b : Brain) (activated : Table ℕ ℚ) : Table MemoryId ℚ :=
  Table.empty.insertAll (activated.entries.filterMap fun x => (b.nodeWeight x.1).map (·, x.2))

/-- `recall_traced`, from the candidates on. -/
def recallTraced (codec : Codec) (engine : Engine) (b : Brain) (scope : VisibilityScope)
    (candidates : List (MemoryId × ℚ)) (k : ℕ) (now : DateTime) (order order' : Order) :
    Except String Recalled :=
  if candidates.isEmpty then pure ⟨[], [], Table.empty⟩
  else do
    let spread := b.spread scope candidates now order order'
    let walkedKeys := (walked spread.2 []).filterMap fun edge =>
      (b.edgeWeight edge).map fun link => (link.sourceId, link.targetId, link.linkType)
    let sims := Table.empty.insertAll candidates
    let assoc := b.assocMap spread.1
    let ids := sims.keys ++ assoc.keys.filter fun id => !sims.contains id
    let nodes ← getMemoriesByIds codec engine b.rows ids scope
    let ranked := (rankResults F now nodes sims assoc).take k
    let results := ranked.filterMap fun x =>
      (nodes.find? fun node => node.id == x.1).map (·, x.2)
    pure ⟨results, walkedKeys, assoc⟩

end

/-! ### What is promised -/

/-- A graph without some nodes. -/
def without {ε : Type*} (g : Graph ε) (dead : ℕ → Bool) : Graph ε where
  edgesDirected n d := (g.edgesDirected n d).filter fun e => !dead e.source && !dead e.target
  outgoing n e he := by
    obtain ⟨hmem, hlive⟩ := List.mem_filter.mp he
    obtain ⟨hsource, hback⟩ := g.outgoing n e hmem
    exact ⟨hsource, List.mem_filter.mpr ⟨hback, hlive⟩⟩
  incoming n e he := by
    obtain ⟨hmem, hlive⟩ := List.mem_filter.mp he
    obtain ⟨htarget, hback⟩ := g.incoming n e hmem
    exact ⟨htarget, List.mem_filter.mpr ⟨hback, hlive⟩⟩
  nodup n d := (g.nodup n d).sublist (List.filter_sublist.map _)

/-- A node is a memory that the queries do not match. -/
def Brain.hidden (b : Brain) (scope : VisibilityScope) (n : ℕ) : Bool :=
  match (b.nodeWeight n).bind b.liveRow with
  | some row => !admits scope row
  | none => false

/-- The store without the memories that the queries do not match, and without their links. -/
def Brain.remove (b : Brain) (scope : VisibilityScope) : Brain where
  rows := b.rows.filter fun row => admits scope row
  nodup := b.nodup.sublist (List.filter_sublist.map _)
  graph := without b.graph (b.hidden scope)
  nodeWeight n := if b.hidden scope n then none else b.nodeWeight n
  index id := (b.index id).filter fun n => !b.hidden scope n
  nodeWeight_of_index {id n} h := by
    obtain ⟨hindex, hlive⟩ := Option.filter_eq_some_iff.mp h
    rw [if_neg (by simpa using hlive)]
    exact b.nodeWeight_of_index hindex
  edgeWeight := b.edgeWeight

/-- A memory is matched by the queries. -/
def Brain.Matches (b : Brain) (scope : VisibilityScope) (id : MemoryId) : Prop :=
  ∃ row, b.liveRow id = some row ∧ admits scope row = true

/-- Two recalls are the same as far as what is matched goes. -/
structure Same (b : Brain) (scope : VisibilityScope) (r r' : Recalled) : Prop where
  activated : ∀ id, b.Matches scope id → r.activated.get? id = r'.activated.get? id
  walked : ∀ key : MemoryId × MemoryId × LinkType, b.Matches scope key.1 →
    b.Matches scope key.2.1 → (key ∈ r.walkedKeys ↔ key ∈ r'.walkedKeys)
  results : r.results = r'.results

/-- The same answer, or the same failure. -/
def SameAnswer (b : Brain) (scope : VisibilityScope) : (x y : Except String Recalled) → Prop
  | .ok r, .ok r' => Same b scope r r'
  | .error e, .error e' => e = e'
  | _, _ => False

/-- What is not matched does not matter. -/
def ScopeClosed (F : Floats) (codec : Codec) (engine : Engine) (b : Brain)
    (scope : VisibilityScope) (candidates : List (MemoryId × ℚ)) : Prop :=
  ∀ (k : ℕ) (now : DateTime) (order order' : Order),
    SameAnswer b scope (recallTraced F codec engine b scope candidates k now order order')
      (recallTraced F codec engine (b.remove scope) scope candidates k now order order')

/-- Within as many links of the candidates as the spread has hops, `can_access` admits only what
the queries match. -/
def Brain.Closed (b : Brain) (scope : VisibilityScope) (candidates : List (MemoryId × ℚ)) : Prop :=
  ∀ n, Within b.graph ((b.seeds candidates).map Prod.fst) maxHops n →
    b.visible scope n = true → b.hidden scope n = false

/-! ### A graph without some nodes -/

section Without

variable {K ε : Type*} {A : Arith K ε} {g : Graph ε} {v : ℕ → Option Bool} {hop : ℕ}
  {dead : ℕ → Bool}

theorem edgesAt_without (n : ℕ) : (without g dead).edgesAt n =
    (g.edgesAt n).filter fun e => !dead e.source && !dead e.target := by
  rw [Graph.edgesAt, Graph.edgesAt, List.filter_append]
  rfl

/-- At a node that stays, the edges stay whose other end does. -/
theorem stays_iff {n : ℕ} (hn : dead n = false) {e : EdgeRef ε} (he : e ∈ g.edgesAt n) :
    (!dead e.source && !dead e.target) = !dead (neighbor n e) := by
  rw [neighbor]
  split_ifs with hsource
  · rw [hsource, hn, Bool.not_false, Bool.true_and]
  · have htarget : e.target = n := by
      obtain hout | hin := List.mem_append.mp he
      · exact absurd (g.outgoing n e hout).1 hsource
      · exact (g.incoming n e hin).1
    rw [htarget, hn, Bool.not_false, Bool.and_true]

/-- An edge that stays has a node that stays at its other end. -/
theorem alive_of_adjacent {n m : ℕ} (h : Adjacent (without g dead) n m) : dead m = false := by
  obtain ⟨e, he, rfl⟩ := h
  rw [edgesAt_without] at he
  obtain ⟨-, hstays⟩ := List.mem_filter.mp he
  simp only [Bool.and_eq_true, Bool.not_eq_true'] at hstays
  rw [neighbor]
  split_ifs
  · exact hstays.2
  · exact hstays.1

theorem walkEdges_filter {node : ℕ} {source : K} {p : EdgeRef ε → Bool} (edges : List (EdgeRef ε))
    (h : ∀ e ∈ edges, v (neighbor node e) = some true → p e = true) (s : State K) :
    walkEdges A v hop node source (edges.filter p) s = walkEdges A v hop node source edges s := by
  induction edges generalizing s with
  | nil => rfl
  | cons e edges ih =>
    have hih := ih fun e' he' => h e' (List.mem_cons_of_mem _ he')
    by_cases hp : p e = true
    · rw [List.filter_cons_of_pos hp, walkEdges, walkEdges]
      simp only [hih]
    · have hv : v (neighbor node e) ≠ some true := fun hv => hp (h e List.mem_cons_self hv)
      rw [List.filter_cons_of_neg hp, hih, walkEdges, if_neg hv]

theorem walkNodes_without (hv : ∀ n, v n = some true → dead n = false) {nodes : List ℕ}
    (h : ∀ n ∈ nodes, dead n = false) (s : State K) :
    walkNodes A (without g dead) v hop nodes s = walkNodes A g v hop nodes s := by
  induction nodes generalizing s with
  | nil => rfl
  | cons n nodes ih =>
    have hih := ih fun m hm => h m (List.mem_cons_of_mem _ hm)
    have hedges : ∀ source (s : State K),
        walkEdges A v hop n source ((without g dead).edgesAt n) s
          = walkEdges A v hop n source (g.edgesAt n) s := by
      intro source s
      rw [edgesAt_without]
      refine walkEdges_filter _ (fun e he hve => ?_) s
      rw [stays_iff (h n List.mem_cons_self) he, hv _ hve, Bool.not_false]
    rw [walkNodes, walkNodes]
    simp only [hih, hedges]

theorem hopLoop_without (hv : ∀ n, v n = some true → dead n = false) (order : Order)
    {hops frontier : List ℕ} (h : ∀ n ∈ frontier, dead n = false) (s : State K) :
    hopLoop A (without g dead) v order hops frontier s = hopLoop A g v order hops frontier s := by
  induction hops generalizing frontier s with
  | nil => rfl
  | cons hop hops ih =>
    have hiter : ∀ n ∈ order.iter hop frontier, dead n = false := fun n hn =>
      h n ((order.perm hop frontier).mem_iff.mp hn)
    have hnext : ∀ x ∈ (walkNodes A g v hop (order.iter hop frontier)
        { s with nextFrontier := [] }).nextFrontier, dead x = false := by
      intro x hx
      rw [← walkNodes_without hv hiter] at hx
      obtain hx | ⟨m, -, hadj⟩ := nextFrontier_walkNodes _ _ x hx
      · cases hx
      · exact alive_of_adjacent hadj
    rw [hopLoop, hopLoop, walkNodes_without hv hiter]
    split
    · rfl
    · exact ih hnext _

/-- **Nodes that are not visible** can be taken out, if no seed is one. -/
theorem spreadState_without (hv : ∀ n, v n = some true → dead n = false)
    {seeds : List (ℕ × K)} (hseeds : ∀ n ∈ seeds.map Prod.fst, dead n = false) (order : Order) :
    spreadState A (without g dead) v seeds order = spreadState A g v seeds order :=
  hopLoop_without hv order (fun n hn => hseeds n (mem_keys_init.mp hn)) _

theorem within_without {base : List ℕ} (hbase : ∀ n ∈ base, dead n = false) {k n : ℕ}
    (h : Within (without g dead) base k n) : dead n = false := by
  induction k generalizing n with
  | zero => exact hbase n h
  | succ k ih =>
    obtain h | ⟨m, -, hadj⟩ := h
    · exact ih h
    · exact alive_of_adjacent hadj

end Without

/-! ### The store without what is not matched -/

namespace Brain

variable {b : Brain} {scope : VisibilityScope} {candidates : List (MemoryId × ℚ)}

theorem liveRow_eq_some_iff {id : MemoryId} {row : StoredMemory} :
    b.liveRow id = some row ↔ row ∈ b.rows ∧ row.raw.id = id ∧ row.live = true := by
  constructor
  · intro h
    have htest := List.find?_some h
    simp only [Bool.and_eq_true, beq_iff_eq] at htest
    exact ⟨List.mem_of_find?_eq_some h, htest⟩
  · rintro ⟨hmem, hid, hlive⟩
    cases hfind : b.liveRow id with
    | none => simpa [hid, hlive] using List.find?_eq_none.mp hfind row hmem
    | some other =>
      have htest := List.find?_some hfind
      simp only [Bool.and_eq_true, beq_iff_eq] at htest
      rw [List.inj_on_of_nodup_map b.nodup (List.mem_of_find?_eq_some hfind) hmem
        (htest.1.trans hid.symm)]

theorem liveRow_remove (id : MemoryId) :
    (b.remove scope).liveRow id = (b.liveRow id).filter fun row => admits scope row := by
  refine Option.ext fun row => ?_
  rw [liveRow_eq_some_iff, Option.filter_eq_some_iff, liveRow_eq_some_iff, Brain.remove,
    List.mem_filter]
  tauto

theorem nodeWeight_remove {n : ℕ} (h : b.hidden scope n = false) :
    (b.remove scope).nodeWeight n = b.nodeWeight n :=
  if_neg (by simp [h])

theorem hidden_of_matches {n : ℕ} {id : MemoryId} (hn : b.nodeWeight n = some id)
    (h : b.Matches scope id) : b.hidden scope n = false := by
  obtain ⟨row, hrow, hadmits⟩ := h
  rw [hidden, hn, Option.bind_some, hrow]
  simp [hadmits]

/-- Of a node that stays, the spread is told the same. -/
theorem visible_remove {n : ℕ} (h : b.hidden scope n = false) :
    (b.remove scope).visible scope n = b.visible scope n := by
  have hmeta : ((b.remove scope).nodeWeight n).bind (b.remove scope).getVisibilityMeta
      = (b.nodeWeight n).bind b.getVisibilityMeta := by
    rw [nodeWeight_remove h]
    cases hn : b.nodeWeight n with
    | none => rfl
    | some id =>
      rw [hidden, hn, Option.bind_some] at h
      rw [Option.bind_some, Option.bind_some, getVisibilityMeta, getVisibilityMeta,
        liveRow_remove]
      cases hrow : b.liveRow id with
      | none => rfl
      | some row =>
        rw [hrow] at h
        rw [Option.filter_some, if_pos (by simpa using h)]
  rw [visible, visible, hmeta]

theorem hidden_seeds (hmatch : ∀ x ∈ candidates, b.Matches scope x.1) :
    ∀ n ∈ (b.seeds candidates).map Prod.fst, b.hidden scope n = false := by
  intro n hn
  obtain ⟨seed, hseed, rfl⟩ := List.mem_map.mp hn
  obtain ⟨x, hx, hindex⟩ := List.mem_filterMap.mp hseed
  obtain ⟨m, hm, rfl⟩ := Option.map_eq_some_iff.mp hindex
  exact hidden_of_matches (b.nodeWeight_of_index hm) (hmatch x hx)

theorem index_remove (id : MemoryId) :
    (b.remove scope).index id = (b.index id).filter fun n => !b.hidden scope n := rfl

theorem seeds_remove (hmatch : ∀ x ∈ candidates, b.Matches scope x.1) :
    (b.remove scope).seeds candidates = b.seeds candidates := by
  refine List.filterMap_congr fun x hx => ?_
  rw [index_remove]
  cases hindex : b.index x.1 with
  | none => rfl
  | some n =>
    have hlive := hidden_of_matches (b.nodeWeight_of_index hindex) (hmatch x hx)
    rw [Option.filter_some, if_pos (by simpa using hlive)]

/-- What the spread is told of a node, with nothing said of the hidden ones. -/
def told (b : Brain) (scope : VisibilityScope) (n : ℕ) : Option Bool :=
  if b.hidden scope n then some false else some (b.visible scope n)

theorem hidden_of_told {n : ℕ} (h : b.told scope n = some true) : b.hidden scope n = false := by
  rw [told] at h
  split_ifs at h with hhidden
  · cases h
  · exact Bool.eq_false_iff.mpr hhidden

theorem told_eq (hclosed : b.Closed scope candidates) {n : ℕ}
    (hn : Within b.graph ((b.seeds candidates).map Prod.fst) maxHops n) :
    some (b.visible scope n) = b.told scope n := by
  rw [told]
  split_ifs with hhidden
  · have hnot : b.visible scope n = false := Bool.eq_false_iff.mpr fun hvisible =>
      Bool.noConfusion (hhidden.symm.trans (hclosed n hn hvisible))
    rw [hnot]
  · rfl

/-- **The spread is the same**, and it goes to no hidden node. -/
theorem spread_remove (hmatch : ∀ x ∈ candidates, b.Matches scope x.1)
    (hclosed : b.Closed scope candidates) (now : DateTime) (order order' : Order) :
    (b.remove scope).spread scope candidates now order order'
        = b.spread scope candidates now order order' ∧
      ∀ n ∈ (b.spread scope candidates now order order').1.keys, b.hidden scope n = false := by
  have hseeds := hidden_seeds hmatch
  have htold : ∀ n, Within b.graph ((State.init (b.seeds candidates)).activated.keys) maxHops n →
      some (b.visible scope n) = b.told scope n := fun n hn =>
    told_eq hclosed (hn.mono fun m hm => mem_keys_init.mp hm)
  have htold' : ∀ n, Within (without b.graph (b.hidden scope))
      ((State.init (b.seeds candidates)).activated.keys) maxHops n →
      some ((b.remove scope).visible scope n) = b.told scope n := by
    intro n hn
    have hlive := within_without (fun m hm => hseeds m (mem_keys_init.mp hm)) hn
    rw [visible_remove hlive, told, if_neg (by simp [hlive])]
  have hstate : spreadState (Arith.exact now) b.graph
      (restrict (fun n => some (b.visible scope n))
        (reachableFrontier b.graph order' (b.seeds candidates))) (b.seeds candidates) order
      = spreadState (Arith.exact now) b.graph (b.told scope) (b.seeds candidates) order :=
    (spreadState_restrict _ _ _ _ _ _).trans (hopLoop_congr order htold _)
  have hstate' : spreadState (Arith.exact now) (without b.graph (b.hidden scope))
      (restrict (fun n => some ((b.remove scope).visible scope n))
        (reachableFrontier (without b.graph (b.hidden scope)) order' (b.seeds candidates)))
        (b.seeds candidates) order
      = spreadState (Arith.exact now) b.graph (b.told scope) (b.seeds candidates) order :=
    (spreadState_restrict _ _ _ _ _ _).trans <| (hopLoop_congr order htold' _).trans <|
      spreadState_without (fun n hn => hidden_of_told hn) hseeds order
  have hspread : (b.remove scope).spread scope candidates now order order'
      = b.spread scope candidates now order order' := by
    rw [spread, spread, seeds_remove hmatch, spreadEvents, spreadEvents, hstate]
    exact congrArg _ (by rw [← hstate']; rfl)
  refine ⟨hspread, fun n hn => ?_⟩
  rw [spread, spreadEvents] at hn
  split at hn
  · cases hn
  · rw [hstate, keys_normalise] at hn
    exact ((inv_spreadState _ _ _ _ _).seen n hn).elim (hseeds n) hidden_of_told

theorem assocMap_remove {activated : Table ℕ ℚ}
    (h : ∀ n ∈ activated.keys, b.hidden scope n = false) :
    (b.remove scope).assocMap activated = b.assocMap activated := by
  have hnames : activated.entries.filterMap (fun x =>
        ((b.remove scope).nodeWeight x.1).map fun id => (id, x.2))
      = activated.entries.filterMap fun x => (b.nodeWeight x.1).map fun id => (id, x.2) :=
    List.filterMap_congr fun x hx => by
      rw [nodeWeight_remove (h x.1 (List.mem_map_of_mem hx))]
  rw [assocMap, assocMap, hnames]

/-- The queries load the same. -/
theorem getMemoriesByIds_remove (codec : Codec) (engine : Engine) (ids : List MemoryId) :
    getMemoriesByIds codec engine (b.remove scope).rows ids scope
      = getMemoriesByIds codec engine b.rows ids scope := by
  have hrows : (b.remove scope).rows.filter (fun row =>
        admits scope row && (ids.contains row.raw.id && row.live))
      = b.rows.filter fun row => admits scope row && (ids.contains row.raw.id && row.live) := by
    rw [Brain.remove, List.filter_filter]
    refine List.filter_congr fun row _ => ?_
    cases admits scope row <;> simp
  rw [getMemoriesByIds, getMemoriesByIds, hrows]

end Brain

/-- **Where `can_access` admits only what the queries match**, a recall is closed in its scope. -/
theorem recallTraced_remove (F : Floats) (codec : Codec) (engine : Engine) (b : Brain)
    (scope : VisibilityScope) (candidates : List (MemoryId × ℚ))
    (hmatch : ∀ x ∈ candidates, b.Matches scope x.1) (hclosed : b.Closed scope candidates) :
    ScopeClosed F codec engine b scope candidates := by
  intro k now order order'
  obtain ⟨hspread, hlive⟩ := Brain.spread_remove hmatch hclosed now order order'
  have hrecall : recallTraced F codec engine (b.remove scope) scope candidates k now order order'
      = recallTraced F codec engine b scope candidates k now order order' := by
    rw [recallTraced, recallTraced, hspread]
    simp only [Brain.assocMap_remove hlive, Brain.getMemoriesByIds_remove]
    rfl
  rw [hrecall]
  cases recallTraced F codec engine b scope candidates k now order order' with
  | ok r => exact ⟨fun _ _ => rfl, fun _ _ _ => Iff.rfl, rfl⟩
  | error e => exact rfl

/-! ### A memory between two others -/

/-- A memory of an agent, at the epoch. -/
def memoryRow (id visibility : String) : StoredMemory where
  raw :=
    { id, content := "", memoryType := "semantic", layer := "working", salience := 0,
      tags := "[]", agentId := some "bob", visibility, threadId := none,
      emotionalValence := none, emotionalIntensity := 0, createdAt := "1970-01-01T00:00:00Z",
      updatedAt := "1970-01-01T00:00:00Z", accessCount := 0, accessTimes := "[]",
      fsrsStability := 1, fsrsDifficulty := 5, fsrsLastReview := none, metadata := "null" }
  deletedAt := none

def linkOf (sourceId targetId : MemoryId) : AssociativeLink where
  sourceId
  targetId
  linkType := .semantic
  weight := 1
  createdAt := 0
  lastTraversed := none
  traversalCount := 0

/-- Two shared memories, and one between them. -/
def between (visibility : String) : Brain where
  rows := [memoryRow "a" "shared", memoryRow "t" visibility, memoryRow "c" "shared"]
  nodup := by
    have hids : ["a", "t", "c"].Nodup := by decide
    exact hids
  graph := .ofEdges [(0, 1, linkOf "a" "t"), (1, 2, linkOf "t" "c")]
  nodeWeight n := ["a", "t", "c"][n]?
  index id :=
    if id = "a" then some 0 else if id = "t" then some 1 else if id = "c" then some 2 else none
  nodeWeight_of_index {id n} h := by
    split_ifs at h with ha ht hc
    · cases h
      exact congrArg some ha.symm
    · cases h
      exact congrArg some ht.symm
    · cases h
      exact congrArg some hc.symm
  edgeWeight n := [linkOf "a" "t", linkOf "t" "c"][n]?

/-- Of memories that were never accessed none of these is asked. -/
def unasked : Floats := ⟨fun _ => 1, fun _ => 0, fun _ => 1⟩

theorem matches_between (visibility : String) :
    (between visibility).Matches (.forAgent "ada") "a" ∧
      (between visibility).Matches (.forAgent "ada") "c" :=
  ⟨⟨memoryRow "a" "shared",
      Brain.liveRow_eq_some_iff.mpr ⟨List.mem_cons_self, rfl, rfl⟩, by decide⟩,
    ⟨memoryRow "c" "shared",
      Brain.liveRow_eq_some_iff.mpr ⟨by simp [between], rfl, rfl⟩, by decide⟩⟩

theorem matches_candidate (visibility : String) :
    ∀ x ∈ [("a", (1 : ℚ))], (between visibility).Matches (.forAgent "ada") x.1 :=
  fun _ hx => List.mem_singleton.mp hx ▸ (matches_between visibility).1

/-- A private memory of another agent does not matter. -/
theorem recallTraced_remove_between :
    ScopeClosed unasked Store.plain.codec Store.plain.engine (between "private") (.forAgent "ada")
      [("a", 1)] :=
  recallTraced_remove _ _ _ _ _ _ (matches_candidate "private") fun n _ hvisible => by
    match n with
    | 0 => decide +kernel
    | 1 => exact absurd hvisible (by decide +kernel)
    | 2 => decide +kernel
    | _ + 3 => rfl

theorem SameAnswer.activated {b : Brain} {scope : VisibilityScope} {x y : Except String Recalled}
    (h : SameAnswer b scope x y) {id : MemoryId} (hid : b.Matches scope id) :
    x.toOption.map (fun r => r.activated.get? id) =
      y.toOption.map fun r => r.activated.get? id := by
  cases x with
  | error e =>
    cases y with
    | error e' => rfl
    | ok r' => exact h.elim
  | ok r =>
    cases y with
    | error e' => exact h.elim
    | ok r' => exact congrArg some (Same.activated h id hid)

/-- A memory of a thread carries activation from one memory to the other. -/
theorem not_scopeClosed :
    ¬ ∀ (F : Floats) (codec : Codec) (engine : Engine) (b : Brain) (scope : VisibilityScope)
      (candidates : List (MemoryId × ℚ)), (∀ x ∈ candidates, b.Matches scope x.1) →
      ScopeClosed F codec engine b scope candidates := by
  intro h
  have hsame := h unasked Store.plain.codec Store.plain.engine (between "thread") (.forAgent "ada")
    [("a", 1)] (matches_candidate "thread") 0 0 .same .same
  have heq := hsame.activated (matches_between "thread").2
  revert heq
  decide +kernel

end ApexOS.Cerebro.Recall
