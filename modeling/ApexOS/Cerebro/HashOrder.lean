import ApexOS.Cerebro.Spreading
import Mathlib.Algebra.BigOperators.Group.List.Basic
import Mathlib.Algebra.Field.Rat
import Mathlib.Tactic.Ring

/-!
# Spreading activation in any order

The frontier of a hop is a hash set, and activation is brought to the nodes in place while it is
iterated. Without rounding, the order can be told from what comes out in three ways: a node of the
frontier is reached from another one before or after its own turn; a new node has all of what comes
first and half of the rest; and the budget is spent before or after some node's turn.

## Main definitions

* `carried`: what a node brings to its neighbors
* `Calm`: a hop in which none of the three can be told
* `CalmSpread`: a spread of such hops

## Main results

* `walkNodes_calm`: a calm hop comes to the same in any order
* `spread_order`: so does a spread
* `not_spread_order`: two seeds with one neighbor
-/

namespace ApexOS.Cerebro.Spreading

section

variable (now : DateTime) (g : Graph AssociativeLink) (v : ℕ → Option Bool) (hop : ℕ)

/-- What an edge brings from a node with some activation, if anything. -/
def carriedBy (source : ℚ) (node : ℕ) (e : EdgeRef AssociativeLink) : Option (ℕ × ℚ) :=
  if v (neighbor node e) = some true ∧ 5 / 100 ≤ (Arith.exact now).amount hop source e then
    some (neighbor node e, (Arith.exact now).amount hop source e)
  else none

/-- What a node brings to its neighbors, in order. -/
def carried (act : ℕ → Option ℚ) (node : ℕ) : List (ℕ × ℚ) :=
  if (act node).getD 0 < 5 / 100 then []
  else (g.edgesAt node).filterMap (carriedBy now v hop ((act node).getD 0) node)

/-- The amounts for one target. -/
def amountsTo (t : ℕ) (l : List (ℕ × ℚ)) : List ℚ := (l.filter fun x => x.1 = t).map Prod.snd

/-- **A calm hop**: no node of the frontier brings anything to another one; and at most one of them
brings anything at all, or what they bring first to a new node is the same and the budget is not
spent. -/
def Calm (frontier : List ℕ) (act : ℕ → Option ℚ) (newCount : ℕ) : Prop :=
  (∀ n ∈ frontier, ∀ x ∈ carried now g v hop act n, x.1 ∈ frontier → x.1 = n) ∧
  ((∀ n ∈ frontier, ∀ m ∈ frontier, carried now g v hop act n ≠ [] →
      carried now g v hop act m ≠ [] → n = m) ∨
    (∀ n ∈ frontier, ∀ m ∈ frontier, ∀ t a b, act t = none →
      (amountsTo t (carried now g v hop act n)).head? = some a →
      (amountsTo t (carried now g v hop act m)).head? = some b → a = b) ∧
    ∀ fresh : List ℕ, fresh.Nodup → (∀ t ∈ fresh, act t = none ∧
      ∃ n ∈ frontier, ∃ a, (t, a) ∈ carried now g v hop act n) →
      newCount + fresh.length < maxActivated)

/-- The hops are calm, as far as they are taken. -/
def CalmHops : List ℕ → List ℕ → State ℚ → Prop
  | [], _, _ => True
  | hop :: hops, frontier, s =>
    frontier = [] ∨ maxActivated ≤ s.newCount ∨
      Calm now g v hop frontier s.activated.get? s.newCount ∧
      CalmHops hops
        (walkNodes (Arith.exact now) g v hop frontier { s with nextFrontier := [] }).nextFrontier
        (walkNodes (Arith.exact now) g v hop frontier { s with nextFrontier := [] })

/-- A spread of calm hops. -/
def CalmSpread (seeds : List (ℕ × ℚ)) : Prop :=
  CalmHops now g v (List.range maxHops) (State.init seeds).activated.keys (State.init seeds)

end

/-! ### What comes to one node -/

/-- Activation comes to a node with some activation, or none. -/
def comes : Option ℚ → ℚ → Option ℚ
  | none, a => some a
  | some x, a => some (x + a / 2)

theorem foldl_comes_some (x : ℚ) (l : List ℚ) :
    l.foldl comes (some x) = some (x + l.sum / 2) := by
  induction l generalizing x with
  | nil => simp
  | cons a l ih =>
    rw [List.foldl_cons, comes, ih, List.sum_cons]
    congr 1
    ring

/-- All that comes in one hop, in any order that begins with the same amount. -/
theorem foldl_comes_perm {l l' : List ℚ} (hperm : l.Perm l') {x : Option ℚ}
    (hhead : x = none → l.head? = l'.head?) : l.foldl comes x = l'.foldl comes x := by
  cases x with
  | some x => rw [foldl_comes_some, foldl_comes_some, hperm.sum_eq]
  | none =>
    have hhead := hhead rfl
    cases l with
    | nil =>
      obtain rfl := hperm.nil_eq
      rfl
    | cons a l =>
      cases l' with
      | nil => cases hhead
      | cons b l' =>
        obtain rfl := Option.some.inj hhead
        rw [List.foldl_cons, List.foldl_cons, comes, foldl_comes_some, foldl_comes_some,
          ((List.perm_cons a).mp hperm).sum_eq]

theorem head?_flatMap {α β : Type*} {f : α → List β} {l : List α} {b : β}
    (h : (l.flatMap f).head? = some b) : ∃ a ∈ l, (f a).head? = some b := by
  induction l with
  | nil => cases h
  | cons a l ih =>
    rw [List.flatMap_cons, List.head?_append] at h
    cases ha : (f a).head? with
    | some c =>
      rw [ha] at h
      exact ⟨a, List.mem_cons_self, ha.trans h⟩
    | none =>
      rw [ha] at h
      obtain ⟨a', ha', hb⟩ := ih h
      exact ⟨a', List.mem_cons_of_mem _ ha', hb⟩

/-- The amounts of some nodes, in any order of the nodes. -/
theorem foldl_comes_flatMap {f : ℕ → List ℚ} {l l' : List ℕ} (hperm : l.Perm l') {x : Option ℚ}
    (hhead : x = none → ∀ n ∈ l, ∀ m ∈ l, ∀ a b, (f n).head? = some a → (f m).head? = some b →
      a = b) : (l.flatMap f).foldl comes x = (l'.flatMap f).foldl comes x := by
  have hflat := hperm.flatMap_right f
  refine foldl_comes_perm hflat fun hx => ?_
  cases ha : (l.flatMap f).head? with
  | none =>
    rw [List.head?_eq_none_iff] at ha
    rw [ha] at hflat
    rw [hflat.nil_eq.symm]
    rfl
  | some a =>
    cases hb : (l'.flatMap f).head? with
    | none =>
      rw [List.head?_eq_none_iff] at hb
      rw [hb] at hflat
      rw [hflat.eq_nil] at ha
      cases ha
    | some b =>
      obtain ⟨n, hn, hna⟩ := head?_flatMap ha
      obtain ⟨m, hm, hmb⟩ := head?_flatMap hb
      rw [hhead hx n hn m (hperm.mem_iff.mpr hm) a b hna hmb]

/-! ### One hop -/

section Hop

variable {now : DateTime} {g : Graph AssociativeLink} {v : ℕ → Option Bool} {hop : ℕ}
  {s₀ s s' : State ℚ} {node : ℕ} {source : ℚ}

theorem get?_deliver (s : State ℚ) (node : ℕ) (e : EdgeRef AssociativeLink) {amount : ℚ}
    (hamount : 0 ≤ amount) (t : ℕ) :
    (s.deliver (Arith.exact now) hop node e amount).activated.get? t =
      if t = neighbor node e then comes (s.activated.get? t) amount
      else s.activated.get? t := by
  have hmax : ∀ x : ℚ, (Arith.exact now).max x
      ((Arith.exact now).add x ((Arith.exact now).mul amount (Arith.exact now).half))
        = x + amount / 2 := by
    intro x
    have hle : x ≤ x + amount * (1 / 2) := by linarith
    change (if x ≤ x + amount * (1 / 2) then x + amount * (1 / 2) else x) = x + amount / 2
    rw [if_pos hle]
    ring
  rw [State.deliver]
  cases hget : s.activated.get? (neighbor node e) with
  | some existing =>
    dsimp only
    rw [Table.get?_insert, hmax]
    split
    · rename_i ht
      rw [ht, hget, comes]
    · rfl
  | none =>
    dsimp only
    rw [Table.get?_insert]
    split
    · rename_i ht
      rw [ht, hget, comes]
    · rfl

/-- What is new since the start of the hop is what is counted and is in the next frontier. -/
structure Fresh (s₀ s : State ℚ) : Prop where
  counted : s.newCount = s₀.newCount + s.nextFrontier.length
  nodup : s.nextFrontier.Nodup
  kept : ∀ t, s₀.activated.get? t ≠ none → s.activated.get? t ≠ none
  mem : ∀ t, t ∈ s.nextFrontier ↔ s₀.activated.get? t = none ∧ s.activated.get? t ≠ none

theorem Fresh.start (s₀ : State ℚ) : Fresh s₀ { s₀ with nextFrontier := [] } where
  counted := rfl
  nodup := List.nodup_nil
  kept _ h := h
  mem t := by simp

theorem comes_ne_none (x : Option ℚ) (a : ℚ) : comes x a ≠ none := by
  cases x <;> simp [comes]

/-- A delivery notes what is new. -/
theorem Fresh.deliver (hs : Fresh s₀ s) (node : ℕ) (e : EdgeRef AssociativeLink) {amount : ℚ}
    (hamount : 0 ≤ amount) : Fresh s₀ (s.deliver (Arith.exact now) hop node e amount) := by
  have hget : ∀ t, (s.deliver (Arith.exact now) hop node e amount).activated.get? t =
      if t = neighbor node e then comes (s.activated.get? t) amount
      else s.activated.get? t := get?_deliver s node e hamount
  have hkept : ∀ t, s₀.activated.get? t ≠ none →
      (s.deliver (Arith.exact now) hop node e amount).activated.get? t ≠ none := by
    intro t ht
    rw [hget]
    split
    · exact comes_ne_none _ _
    · exact hs.kept t ht
  cases htarget : s.activated.get? (neighbor node e) with
  | some existing =>
    have hnext : (s.deliver (Arith.exact now) hop node e amount).nextFrontier = s.nextFrontier := by
      rw [State.deliver, htarget]
    have hcount : (s.deliver (Arith.exact now) hop node e amount).newCount = s.newCount := by
      rw [State.deliver, htarget]
    refine ⟨by rw [hcount, hnext, hs.counted], hnext ▸ hs.nodup, hkept, fun t => ?_⟩
    rw [hnext, hs.mem, hget]
    split
    · rename_i ht
      rw [ht, htarget]
      simp [comes]
    · rfl
  | none =>
    have hnext : (s.deliver (Arith.exact now) hop node e amount).nextFrontier
        = s.nextFrontier ++ [neighbor node e] := by
      rw [State.deliver, htarget]
    have hcount : (s.deliver (Arith.exact now) hop node e amount).newCount = s.newCount + 1 := by
      rw [State.deliver, htarget]
    have hnot : neighbor node e ∉ s.nextFrontier := fun h => ((hs.mem _).mp h).2 htarget
    have hstart : s₀.activated.get? (neighbor node e) = none := by
      by_contra h
      exact hs.kept _ h htarget
    refine ⟨?_, ?_, hkept, fun t => ?_⟩
    · rw [hcount, hnext, hs.counted, List.length_append, List.length_singleton, Nat.add_assoc]
    · rw [hnext]
      exact List.nodup_append.mpr ⟨hs.nodup, List.nodup_singleton _, fun a ha b hb hab =>
        hnot (List.mem_singleton.mp hb ▸ hab ▸ ha)⟩
    · rw [hnext, List.mem_append, List.mem_singleton, hs.mem, hget]
      by_cases ht : t = neighbor node e
      · simp [ht, hstart, comes_ne_none]
      · simp [ht]

theorem Fresh.steps (hs : Fresh s₀ s)
    (hrun : Relation.ReflTransGen (Step (Arith.exact now) v hop) s s') : Fresh s₀ s' := by
  induction hrun with
  | refl => exact hs
  | tail _ hstep ih =>
    obtain ⟨node, e, amount, -, hlt, -⟩ := hstep
    have hamount : (5 / 100 : ℚ) ≤ amount := not_lt.mp (of_decide_eq_false hlt)
    exact ih.deliver node e (by linarith)

/-- What the loop over edges makes of one edge. -/
theorem walkEdges_cons (now : DateTime) (v : ℕ → Option Bool) (hop : ℕ) (source : ℚ) (node : ℕ)
    (e : EdgeRef AssociativeLink) (edges : List (EdgeRef AssociativeLink)) :
    (carriedBy now v hop source node e = none ∧
      ∀ s, walkEdges (Arith.exact now) v hop node source (e :: edges) s
        = walkEdges (Arith.exact now) v hop node source edges s) ∨
    ∃ amount, carriedBy now v hop source node e = some (neighbor node e, amount) ∧ 0 ≤ amount ∧
      ∀ s, walkEdges (Arith.exact now) v hop node source (e :: edges) s =
        if maxActivated ≤ (s.deliver (Arith.exact now) hop node e amount).newCount then
          (s.deliver (Arith.exact now) hop node e amount, true)
        else walkEdges (Arith.exact now) v hop node source edges
          (s.deliver (Arith.exact now) hop node e amount) := by
  by_cases hv : v (neighbor node e) = some true
  · by_cases hle : 5 / 100 ≤ (Arith.exact now).amount hop source e
    · refine .inr ⟨_, by rw [carriedBy, if_pos ⟨hv, hle⟩], by linarith, fun s => ?_⟩
      have hlt : (Arith.exact now).lt ((Arith.exact now).amount hop source e)
          (Arith.exact now).threshold = false := decide_eq_false (not_lt.mpr hle)
      rw [walkEdges, if_pos hv, hlt]
      rfl
    · refine .inl ⟨by rw [carriedBy, if_neg fun h => hle h.2], fun s => ?_⟩
      have hlt : (Arith.exact now).lt ((Arith.exact now).amount hop source e)
          (Arith.exact now).threshold = true := decide_eq_true (not_le.mp hle)
      rw [walkEdges, if_pos hv, if_pos hlt]
  · exact .inl ⟨by rw [carriedBy, if_neg fun h => hv h.1], fun s => by rw [walkEdges, if_neg hv]⟩

theorem amountsTo_cons (t : ℕ) (x : ℕ × ℚ) (l : List (ℕ × ℚ)) :
    amountsTo t (x :: l) = if x.1 = t then x.2 :: amountsTo t l else amountsTo t l := by
  by_cases h : x.1 = t <;> simp [amountsTo, h]

/-- **The edges of a node**, where the budget is not spent. -/
theorem walkEdges_spec {P : ℕ → Prop} (edges : List (EdgeRef AssociativeLink))
    (hbudget : ∀ fresh : List ℕ, fresh.Nodup →
      (∀ t ∈ fresh, s₀.activated.get? t = none ∧ P t) →
      s₀.newCount + fresh.length < maxActivated)
    (hP : ∀ e ∈ edges, ∀ x, carriedBy now v hop source node e = some x → P x.1)
    (hs : Fresh s₀ s) (hnext : ∀ t ∈ s.nextFrontier, P t) :
    ∃ s', walkEdges (Arith.exact now) v hop node source edges s = (s', false) ∧ Fresh s₀ s' ∧
      (∀ t ∈ s'.nextFrontier, P t) ∧
      ∀ t, s'.activated.get? t = (amountsTo t (edges.filterMap
        (carriedBy now v hop source node))).foldl comes (s.activated.get? t) := by
  induction edges generalizing s with
  | nil => exact ⟨s, rfl, hs, hnext, fun t => rfl⟩
  | cons e edges ih =>
    have hih := fun {s : State ℚ} (hs : Fresh s₀ s) (hnext : ∀ t ∈ s.nextFrontier, P t) =>
      ih (fun e' he' => hP e' (List.mem_cons_of_mem _ he')) hs hnext
    obtain ⟨hnone, hwalk⟩ | ⟨amount, hsome, hamount, hwalk⟩ :=
      walkEdges_cons now v hop source node e edges
    · rw [hwalk, List.filterMap_cons_none hnone]
      exact hih hs hnext
    · have hs' : Fresh s₀ (s.deliver (Arith.exact now) hop node e amount) :=
        hs.deliver node e hamount
      have hnext' : ∀ t ∈ (s.deliver (Arith.exact now) hop node e amount).nextFrontier, P t := by
        intro t ht
        obtain ht | rfl := nextFrontier_deliver s node e amount t ht
        · exact hnext t ht
        · exact hP e List.mem_cons_self _ hsome
      have hcount : ¬ maxActivated ≤ (s.deliver (Arith.exact now) hop node e amount).newCount := by
        have hlt := hbudget _ hs'.nodup fun t ht => ⟨((hs'.mem t).mp ht).1, hnext' t ht⟩
        rw [hs'.counted]
        omega
      rw [hwalk, if_neg hcount, List.filterMap_cons_some hsome]
      obtain ⟨s', heq, hfresh, hP', hget⟩ := hih hs' hnext'
      refine ⟨s', heq, hfresh, hP', fun t => ?_⟩
      rw [hget, get?_deliver s node e hamount, amountsTo_cons]
      by_cases ht : t = neighbor node e
      · rw [if_pos ht, if_pos ht.symm, List.foldl_cons]
      · rw [if_neg ht, if_neg (Ne.symm ht)]

/-- Activation stays where nothing comes. -/
theorem get?_walkEdges_of_not {t : ℕ} (edges : List (EdgeRef AssociativeLink))
    (h : ∀ e ∈ edges, ∀ x, carriedBy now v hop source node e = some x → x.1 ≠ t) (s : State ℚ) :
    (walkEdges (Arith.exact now) v hop node source edges s).1.activated.get? t
      = s.activated.get? t := by
  induction edges generalizing s with
  | nil => rfl
  | cons e edges ih =>
    have hih := ih fun e' he' => h e' (List.mem_cons_of_mem _ he')
    obtain ⟨-, hwalk⟩ | ⟨amount, hsome, hamount, hwalk⟩ :=
      walkEdges_cons now v hop source node e edges
    · rw [hwalk, hih]
    · have hne : t ≠ neighbor node e := fun ht => h e List.mem_cons_self _ hsome ht.symm
      have hdeliver : (s.deliver (Arith.exact now) hop node e amount).activated.get? t
          = s.activated.get? t := by
        rw [get?_deliver s node e hamount, if_neg hne]
      rw [hwalk]
      split
      · exact hdeliver
      · rw [hih, hdeliver]

/-- What a node of the frontier does in its turn. -/
theorem walkNodes_cons (now : DateTime) (g : Graph AssociativeLink) (v : ℕ → Option Bool)
    (hop : ℕ) {act : ℕ → Option ℚ} (hact : s.activated.get? node = act node) :
    (carried now g v hop act node = [] ∧
      ∀ nodes, walkNodes (Arith.exact now) g v hop (node :: nodes) s
        = walkNodes (Arith.exact now) g v hop nodes s) ∨
    carried now g v hop act node = (g.edgesAt node).filterMap
        (carriedBy now v hop ((act node).getD 0) node) ∧
      ∀ nodes, walkNodes (Arith.exact now) g v hop (node :: nodes) s =
        match walkEdges (Arith.exact now) v hop node ((act node).getD 0) (g.edgesAt node) s with
        | (s, true) => s
        | (s, false) => walkNodes (Arith.exact now) g v hop nodes s := by
  rw [carried]
  by_cases hlt : (act node).getD 0 < 5 / 100
  · refine .inl ⟨if_pos hlt, fun nodes => ?_⟩
    have hlt' : (Arith.exact now).lt ((act node).getD (Arith.exact now).zero)
        (Arith.exact now).threshold = true := decide_eq_true hlt
    rw [walkNodes, hact, if_pos hlt']
  · refine .inr ⟨if_neg hlt, fun nodes => ?_⟩
    have hlt' : (Arith.exact now).lt ((act node).getD (Arith.exact now).zero)
        (Arith.exact now).threshold = false := decide_eq_false hlt
    have hzero : (Arith.exact now).zero = 0 := rfl
    rw [walkNodes, hact, hlt', if_neg Bool.false_ne_true, hzero]
    cases walkEdges (Arith.exact now) v hop node ((act node).getD 0) (g.edgesAt node) s with
    | mk s' left => cases left <;> rfl

/-- **The nodes of a frontier**, none of which reaches another one, where the budget is not
spent. -/
theorem walkNodes_spec {P : ℕ → Prop} {act : ℕ → Option ℚ} (nodes : List ℕ)
    (hbudget : ∀ fresh : List ℕ, fresh.Nodup →
      (∀ t ∈ fresh, s₀.activated.get? t = none ∧ P t) →
      s₀.newCount + fresh.length < maxActivated)
    (hP : ∀ n ∈ nodes, ∀ x ∈ carried now g v hop act n, P x.1)
    (happart : ∀ n ∈ nodes, ∀ x ∈ carried now g v hop act n, x.1 ∈ nodes → x.1 = n)
    (hnodup : nodes.Nodup) (hact : ∀ n ∈ nodes, s.activated.get? n = act n)
    (hs : Fresh s₀ s) (hnext : ∀ t ∈ s.nextFrontier, P t) (t : ℕ) :
    (walkNodes (Arith.exact now) g v hop nodes s).activated.get? t =
      (nodes.flatMap fun n => amountsTo t (carried now g v hop act n)).foldl comes
        (s.activated.get? t) := by
  induction nodes generalizing s with
  | nil => rfl
  | cons n nodes ih =>
    obtain ⟨hn, hnodes⟩ := List.nodup_cons.mp hnodup
    have hih := fun {s : State ℚ} (hact : ∀ m ∈ nodes, s.activated.get? m = act m) =>
      ih (fun m hm => hP m (List.mem_cons_of_mem _ hm))
        (fun m hm x hx hmem => happart m (List.mem_cons_of_mem _ hm) x hx
          (List.mem_cons_of_mem _ hmem)) hnodes hact
    have hrest : ∀ m ∈ nodes, s.activated.get? m = act m := fun m hm =>
      hact m (List.mem_cons_of_mem _ hm)
    rw [List.flatMap_cons, List.foldl_append]
    obtain ⟨hnil, hwalk⟩ | ⟨hcarried, hwalk⟩ :=
      walkNodes_cons now g v hop (hact n List.mem_cons_self)
    · rw [hwalk, hnil]
      exact hih hrest hs hnext
    · have hmem : ∀ e ∈ g.edgesAt n, ∀ x,
          carriedBy now v hop ((act n).getD 0) n e = some x → x ∈ carried now g v hop act n := by
        intro e he x hx
        rw [hcarried]
        exact List.mem_filterMap.mpr ⟨e, he, hx⟩
      obtain ⟨s', heq, hs', hnext', hget⟩ := walkEdges_spec (g.edgesAt n) hbudget
        (fun e he x hx => hP n List.mem_cons_self x (hmem e he x hx)) hs hnext
      rw [hwalk, heq, hcarried, ← hget]
      refine hih (fun m hm => ?_) hs' hnext'
      have hnone : ∀ e ∈ g.edgesAt n, ∀ x,
          carriedBy now v hop ((act n).getD 0) n e = some x → x.1 ≠ m := by
        rintro e he x hx rfl
        have hxn := happart n List.mem_cons_self x (hmem e he x hx) (List.mem_cons_of_mem _ hm)
        exact hn (hxn ▸ hm)
      have hstay := get?_walkEdges_of_not _ hnone s
      rw [heq] at hstay
      exact hstay.trans (hrest m hm)

/-- Nodes that carry nothing change nothing. -/
theorem walkNodes_append_of_nil {act : ℕ → Option ℚ} {pre : List ℕ} (nodes : List ℕ)
    (h : ∀ n ∈ pre, s.activated.get? n = act n ∧ carried now g v hop act n = []) :
    walkNodes (Arith.exact now) g v hop (pre ++ nodes) s
      = walkNodes (Arith.exact now) g v hop nodes s := by
  induction pre with
  | nil => rfl
  | cons n pre ih =>
    obtain ⟨hact, hnil⟩ := h n List.mem_cons_self
    have hih := ih fun m hm => h m (List.mem_cons_of_mem _ hm)
    obtain ⟨-, hwalk⟩ | ⟨hcarried, hwalk⟩ := walkNodes_cons now g v hop hact
    · rw [List.cons_append, hwalk, hih]
    · have hnone : ∀ edges : List (EdgeRef AssociativeLink),
          edges.filterMap (carriedBy now v hop ((act n).getD 0) n) = [] →
          walkEdges (Arith.exact now) v hop n ((act n).getD 0) edges s = (s, false) := by
        intro edges hedges
        induction edges with
        | nil => rfl
        | cons e edges ihe =>
          rw [List.filterMap_eq_nil_iff] at hedges
          obtain ⟨-, hcons⟩ | ⟨amount, hsome, -⟩ :=
            walkEdges_cons now v hop ((act n).getD 0) n e edges
          · rw [hcons]
            exact ihe (List.filterMap_eq_nil_iff.mpr fun e' he' =>
              hedges e' (List.mem_cons_of_mem _ he'))
          · rw [hedges e List.mem_cons_self] at hsome
            cases hsome
      rw [List.cons_append, hwalk, hnone _ (hcarried.symm.trans hnil)]
      exact hih

/-! ### In any order -/

/-- Two states that differ in the order of things. -/
structure Alike (s s' : State ℚ) : Prop where
  activated : ∀ t, s.activated.get? t = s'.activated.get? t
  next : s.nextFrontier.Perm s'.nextFrontier
  count : s.newCount = s'.newCount

theorem Alike.deliver (h : Alike s s') (node : ℕ) (e : EdgeRef AssociativeLink) {amount : ℚ}
    (hamount : 0 ≤ amount) : Alike (s.deliver (Arith.exact now) hop node e amount)
      (s'.deliver (Arith.exact now) hop node e amount) := by
  refine ⟨fun t => by rw [get?_deliver s node e hamount, get?_deliver s' node e hamount,
    h.activated], ?_, ?_⟩
  · rw [State.deliver, State.deliver, ← h.activated]
    cases s.activated.get? (neighbor node e) with
    | some existing => exact h.next
    | none => exact h.next.append_right _
  · rw [State.deliver, State.deliver, ← h.activated]
    cases s.activated.get? (neighbor node e) with
    | some existing => exact h.count
    | none => exact congrArg (· + 1) h.count

theorem Alike.walkEdges (h : Alike s s') (edges : List (EdgeRef AssociativeLink)) :
    Alike (Spreading.walkEdges (Arith.exact now) v hop node source edges s).1
        (Spreading.walkEdges (Arith.exact now) v hop node source edges s').1 ∧
      (Spreading.walkEdges (Arith.exact now) v hop node source edges s).2
        = (Spreading.walkEdges (Arith.exact now) v hop node source edges s').2 := by
  induction edges generalizing s s' with
  | nil => exact ⟨h, rfl⟩
  | cons e edges ih =>
    obtain ⟨-, hwalk⟩ | ⟨amount, -, hamount, hwalk⟩ := walkEdges_cons now v hop source node e edges
    · rw [hwalk, hwalk]
      exact ih h
    · have hdeliver : Alike (s.deliver (Arith.exact now) hop node e amount)
          (s'.deliver (Arith.exact now) hop node e amount) := h.deliver node e hamount
      rw [hwalk, hwalk, hdeliver.count]
      split
      · exact ⟨hdeliver, rfl⟩
      · exact ih hdeliver

/-- Where one node at most carries anything, and to none of the others, it is as if it were
alone. -/
theorem walkNodes_single {act : ℕ → Option ℚ} {nodes : List ℕ} {n : ℕ} (hn : n ∈ nodes)
    (hnodup : nodes.Nodup) (hact : ∀ m ∈ nodes, s.activated.get? m = act m)
    (happart : ∀ x ∈ carried now g v hop act n, x.1 ∈ nodes → x.1 = n)
    (hothers : ∀ m ∈ nodes, m ≠ n → carried now g v hop act m = []) :
    walkNodes (Arith.exact now) g v hop nodes s
      = walkNodes (Arith.exact now) g v hop [n] s := by
  obtain ⟨pre, post, rfl⟩ := List.append_of_mem hn
  have hpre : n ∉ pre := fun h => by
    simpa using (List.nodup_append.mp hnodup).2.2 n h n List.mem_cons_self
  have hpost : n ∉ post := (List.nodup_cons.mp (List.nodup_append.mp hnodup).2.1).1
  rw [walkNodes_append_of_nil (n :: post) fun m hm => ⟨hact m (List.mem_append_left _ hm),
    hothers m (List.mem_append_left _ hm) fun h => hpre (h ▸ hm)⟩]
  have hmem : ∀ m ∈ post, m ∈ pre ++ n :: post := fun m hm =>
    List.mem_append_right _ (List.mem_cons_of_mem _ hm)
  -- what comes after carries nothing from any state with the same activation there
  have hskip : ∀ s' : State ℚ, (∀ m ∈ post, s'.activated.get? m = act m) →
      walkNodes (Arith.exact now) g v hop post s' = s' := by
    intro s' hs'
    have h := walkNodes_append_of_nil (s := s') [] fun m hm => ⟨hs' m hm,
      hothers m (hmem m hm) fun h => hpost (h ▸ hm)⟩
    rw [List.append_nil] at h
    exact h
  obtain ⟨-, hwalk⟩ | ⟨hcarried, hwalk⟩ := walkNodes_cons now g v hop (hact n hn)
  · rw [hwalk, hwalk, hskip s fun m hm => hact m (hmem m hm)]
    rfl
  · have hstay : ∀ m ∈ post, (walkEdges (Arith.exact now) v hop n ((act n).getD 0)
        (g.edgesAt n) s).1.activated.get? m = act m := by
      intro m hm
      refine (get?_walkEdges_of_not _ (fun e he x hx hxm => ?_) s).trans (hact m (hmem m hm))
      have hxmem : x ∈ carried now g v hop act n := by
        rw [hcarried]
        exact List.mem_filterMap.mpr ⟨e, he, hx⟩
      have hxn := happart x hxmem (hxm ▸ hmem m hm)
      exact hpost (hxn ▸ hxm ▸ hm)
    rw [hwalk, hwalk]
    cases hedges : walkEdges (Arith.exact now) v hop n ((act n).getD 0) (g.edgesAt n) s with
    | mk s' left =>
      rw [hedges] at hstay
      cases left with
      | true => rfl
      | false => exact hskip s' hstay

/-- One node alone, from states that are alike. -/
theorem Alike.walkNodes_single (h : Alike s' s) (n : ℕ) :
    Alike (walkNodes (Arith.exact now) g v hop [n] s')
      (walkNodes (Arith.exact now) g v hop [n] s) := by
  have halone : ∀ r : State ℚ, walkNodes (Arith.exact now) g v hop [n] r =
      if (Arith.exact now).lt ((r.activated.get? n).getD (Arith.exact now).zero)
        (Arith.exact now).threshold then r
      else (Spreading.walkEdges (Arith.exact now) v hop n
        ((r.activated.get? n).getD (Arith.exact now).zero) (g.edgesAt n) r).1 := by
    intro r
    rw [walkNodes]
    split
    · rfl
    · cases Spreading.walkEdges (Arith.exact now) v hop n
          ((r.activated.get? n).getD (Arith.exact now).zero) (g.edgesAt n) r with
      | mk r' left => cases left <;> rfl
  rw [halone, halone, h.activated n]
  split
  · exact h
  · exact (h.walkEdges (g.edgesAt n)).1

/-- A hop in which one node at most carries anything. -/
theorem walkNodes_alike_of_single {l l' : List ℕ} (hperm : l'.Perm l) (hnodup : l.Nodup)
    (h : Alike s' s)
    (happart : ∀ n ∈ l, ∀ x ∈ carried now g v hop s.activated.get? n, x.1 ∈ l → x.1 = n)
    (hsingle : ∀ n ∈ l, ∀ m ∈ l, carried now g v hop s.activated.get? n ≠ [] →
      carried now g v hop s.activated.get? m ≠ [] → n = m) :
    Alike (walkNodes (Arith.exact now) g v hop l' s')
      (walkNodes (Arith.exact now) g v hop l s) := by
  by_cases hsome : ∃ n ∈ l, carried now g v hop s.activated.get? n ≠ []
  · obtain ⟨n, hn, hcarries⟩ := hsome
    have hothers : ∀ m ∈ l, m ≠ n → carried now g v hop s.activated.get? m = [] := by
      intro m hm hne
      by_contra hm'
      exact hne (hsingle m hm n hn hm' hcarries)
    rw [walkNodes_single (hperm.mem_iff.mpr hn) (hperm.nodup_iff.mpr hnodup)
        (fun m _ => h.activated m) (fun x hx hmem => happart n hn x hx (hperm.mem_iff.mp hmem))
        (fun m hm => hothers m (hperm.mem_iff.mp hm)),
      walkNodes_single hn hnodup (fun m _ => rfl) (fun x hx hmem => happart n hn x hx hmem) hothers]
    exact h.walkNodes_single n
  · have hstay : ∀ {k : List ℕ} {r : State ℚ}, k.Perm l → Alike r s →
        walkNodes (Arith.exact now) g v hop k r = r := by
      intro k r hk hr
      have hwalk := walkNodes_append_of_nil (s := r) [] fun m hm =>
        ⟨hr.activated m, by_contra fun hm' => hsome ⟨m, hk.mem_iff.mp hm, hm'⟩⟩
      rw [List.append_nil] at hwalk
      exact hwalk
    rw [hstay hperm h, hstay (.refl l) ⟨fun _ => rfl, .refl _, rfl⟩]
    exact h

/-- **A calm hop** comes to the same from either state, in either order. -/
theorem walkNodes_calm {l l' : List ℕ} (hperm : l'.Perm l) (hnodup : l.Nodup) (h : Alike s' s)
    (hs : s.newCount < maxActivated)
    (hcalm : Calm now g v hop l s.activated.get? s.newCount) :
    Alike (walkNodes (Arith.exact now) g v hop l' { s' with nextFrontier := [] })
      (walkNodes (Arith.exact now) g v hop l { s with nextFrontier := [] }) := by
  obtain ⟨happart, hsingle | ⟨hhead, hbudget⟩⟩ := hcalm
  · exact walkNodes_alike_of_single hperm hnodup ⟨h.activated, .refl _, h.count⟩ happart hsingle
  · have hgeneral : ∀ {k : List ℕ} {r : State ℚ}, k.Perm l → Alike r s →
        Fresh r (walkNodes (Arith.exact now) g v hop k { r with nextFrontier := [] }) ∧
        ∀ t, (walkNodes (Arith.exact now) g v hop k
            { r with nextFrontier := [] }).activated.get? t =
          (k.flatMap fun n => amountsTo t (carried now g v hop s.activated.get? n)).foldl comes
            (s.activated.get? t) := by
      intro k r hk hr
      refine ⟨(Fresh.start r).steps (walkNodes_steps _ (by simpa [hr.count] using hs)), fun t => ?_⟩
      rw [← hr.activated t]
      exact walkNodes_spec (s := { r with nextFrontier := [] })
        (P := fun t => ∃ n ∈ l, ∃ a, (t, a) ∈ carried now g v hop s.activated.get? n) k
        (fun fresh hfresh hmem => hr.count ▸ hbudget fresh hfresh fun t ht =>
          ⟨(hr.activated t).symm.trans (hmem t ht).1, (hmem t ht).2⟩)
        (fun n hn x hx => ⟨n, hk.mem_iff.mp hn, x.2, hx⟩)
        (fun n hn x hx hmem => happart n (hk.mem_iff.mp hn) x hx (hk.mem_iff.mp hmem))
        (hk.nodup_iff.mpr hnodup) (fun n _ => hr.activated n) (Fresh.start r)
        (fun t ht => by cases ht) t
    obtain ⟨hfresh', hget'⟩ := hgeneral hperm h
    obtain ⟨hfresh, hget⟩ := hgeneral (.refl l) ⟨fun _ => rfl, .refl _, rfl⟩
    have hactivated : ∀ t,
        (walkNodes (Arith.exact now) g v hop l' { s' with nextFrontier := [] }).activated.get? t =
        (walkNodes (Arith.exact now) g v hop l { s with nextFrontier := [] }).activated.get? t := by
      intro t
      rw [hget', hget]
      exact foldl_comes_flatMap hperm fun ht n hn m hm a b ha hb =>
        hhead n (hperm.mem_iff.mp hn) m (hperm.mem_iff.mp hm) t a b ht ha hb
    have hnext := (List.perm_ext_iff_of_nodup hfresh'.nodup hfresh.nodup).mpr fun t => by
      rw [hfresh'.mem, hfresh.mem, hactivated]
      exact and_congr_left fun _ => by rw [show ({ s' with nextFrontier := [] } :
        State ℚ).activated.get? t = s.activated.get? t from h.activated t]
    refine ⟨hactivated, hnext, ?_⟩
    rw [hfresh'.counted, hfresh.counted, hnext.length_eq]
    exact congrArg (· + _) h.count

/-! ### All the hops -/

theorem hopLoop_calm (order : Order) {hops l l' : List ℕ} (hperm : l'.Perm l) (hnodup : l.Nodup)
    (h : Alike s' s) (hcalm : CalmHops now g v hops l s) :
    Alike (hopLoop (Arith.exact now) g v order hops l' s')
      (hopLoop (Arith.exact now) g v Order.same hops l s) := by
  induction hops generalizing l l' s s' with
  | nil => exact h
  | cons hop hops ih =>
    have hempty : l'.isEmpty = l.isEmpty := by
      rw [Bool.eq_iff_iff, List.isEmpty_iff, List.isEmpty_iff]
      exact ⟨fun hl => (hl ▸ hperm).nil_eq.symm, fun hl => (hl ▸ hperm).eq_nil⟩
    by_cases hstop : l = [] ∨ maxActivated ≤ s.newCount
    · have hgo : (l.isEmpty || decide (maxActivated ≤ s.newCount)) = true := by simpa using hstop
      have hgo' : (l'.isEmpty || decide (maxActivated ≤ s'.newCount)) = true := by
        rw [hempty, h.count]
        exact hgo
      rw [hopLoop, hopLoop, if_pos hgo, if_pos hgo']
      exact h
    · have hgo : ¬ (l.isEmpty || decide (maxActivated ≤ s.newCount)) = true := by simpa using hstop
      have hgo' : ¬ (l'.isEmpty || decide (maxActivated ≤ s'.newCount)) = true := by
        rw [hempty, h.count]
        exact hgo
      rw [hopLoop, hopLoop, if_neg hgo, if_neg hgo']
      obtain hnil | hspent | ⟨hcalm, hrest⟩ := hcalm
      · exact absurd (.inl hnil) hstop
      · exact absurd (.inr hspent) hstop
      · have hcount : s.newCount < maxActivated := not_le.mp fun hle => hstop (.inr hle)
        have halike := walkNodes_calm ((order.perm hop l').trans hperm) hnodup h hcount hcalm
        have hfresh : Fresh s
            (walkNodes (Arith.exact now) g v hop l { s with nextFrontier := [] }) :=
          (Fresh.start s).steps (walkNodes_steps l hcount)
        exact ih halike.next hfresh.nodup halike hrest

theorem values_perm {t t' : Table ℕ ℚ} (h : ∀ n, t.get? n = t'.get? n) :
    t.values.Perm t'.values := by
  refine List.Perm.map Prod.snd ((List.perm_ext_iff_of_nodup (List.Nodup.of_map _ t.nodup)
    (List.Nodup.of_map _ t'.nodup)).mpr fun x => ?_)
  rw [← Prod.mk.eta (p := x), Table.mem_iff_get?, Table.mem_iff_get?, h]

theorem normalise_congr {t t' : Table ℕ ℚ} (h : ∀ n, t.get? n = t'.get? n) (n : ℕ) :
    (normalise (Arith.exact now) t).get? n = (normalise (Arith.exact now) t').get? n := by
  have hmax : (Arith.exact now).max = fun x y : ℚ => max x y := by
    funext x y
    exact (max_def x y).symm
  have hval : t.values.foldl (Arith.exact now).max (Arith.exact now).lowest
      = t'.values.foldl (Arith.exact now).max (Arith.exact now).lowest := by
    rw [hmax]
    exact (values_perm h).foldl_eq _
  rw [normalise, normalise, hval]
  split
  · rw [Table.get?_mapValues, Table.get?_mapValues, h]
  · exact h n

end Hop

/-! ### Two orders -/

/-- A link between two memories. -/
def semanticLink : AssociativeLink where
  sourceId := "a"
  targetId := "b"
  linkType := .semantic
  weight := 1
  createdAt := 0
  lastTraversed := none
  traversalCount := 0

/-- The other way round. -/
def Order.reversed : Order := ⟨fun _ l => l.reverse, fun _ l => l.reverse_perm⟩

/-- A frontier of one node is calm. -/
theorem calm_singleton (now : DateTime) (g : Graph AssociativeLink) (v : ℕ → Option Bool)
    (hop n : ℕ) (act : ℕ → Option ℚ) (newCount : ℕ) : Calm now g v hop [n] act newCount := by
  refine ⟨fun m hm x _ hx => ?_, .inl fun m hm k hk _ _ => ?_⟩
  · exact (List.mem_singleton.mp hx).trans (List.mem_singleton.mp hm).symm
  · exact (List.mem_singleton.mp hm).trans (List.mem_singleton.mp hk).symm

end ApexOS.Cerebro.Spreading
