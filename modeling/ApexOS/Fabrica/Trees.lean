import ApexOS.Fabrica.Cells
import ApexOS.Lib.Numeral

/-!
# The trees of mandalas

The laws of a tree of cells, and how it may grow. Everything here is about the records of
`Fabrica.Mandala` and the plans of `Fabrica.Cells`; who changes a tree, and when, is said in
`Fabrica.Growth`.

The addresses that a fan-out mints are paths of ordinals. The ordinals of a ring are below its
width, and no ring is wider than nine, so a segment is one digit and an address parses back from its
text.

`TreeLaw` is what every change keeps: it speaks of paths, so that a cell's parent is known to be
there. `MandalaLaw` is what follows from it, in the words of the source.

## Main definitions

* `Addr.path`: the address of a path of ordinals
* `TreeLaw`, `MandalaLaw`: the laws of a tree
* `Planned`: what `prepare_mandala_cells` checked

## Main results

* `Addr.parse_text`: a path of small ordinals parses back
* `TreeLaw.insert`, `TreeLaw.modify`: what a mint and a change of a cell preserve
* `planned_of_prepare`: what a plan that is not refused has passed
-/

namespace ApexOS.Fabrica

open ApexOS.Agentd (SessionId)

/-! ### Paths -/

namespace Addr

/-- The address of a path of ordinals, from the root down. -/
def path (ks : List ℕ) : Addr := ⟨"0" :: ks.map toString⟩

theorem root_eq_path : root = path [] := rfl

theorem toString_injective : Function.Injective (toString : ℕ → String) := by
  intro m n h
  refine Numeral.toDigits_injective (b := 10) (by decide) (by decide) ?_
  rw [← Nat.toList_repr, ← Nat.toList_repr]
  exact congrArg String.toList h

theorem path_injective : Function.Injective path := by
  intro ks js h
  have hsegs : ks.map toString = js.map toString := (List.cons.inj (congrArg segs h)).2
  exact List.map_injective_iff.mpr toString_injective hsegs

@[simp] theorem depth_path (ks : List ℕ) : (path ks).depth = ks.length := by simp [depth, path]

@[simp] theorem child_path (ks : List ℕ) (k : ℕ) : (path ks).child k = path (ks ++ [k]) := by
  simp [child, path]

theorem segs_path_concat (ks : List ℕ) (k : ℕ) :
    (path (ks ++ [k])).segs = (path ks).segs ++ [toString k] := by
  simp [path]

@[simp] theorem parent_path (ks : List ℕ) (k : ℕ) : (path (ks ++ [k])).parent = some (path ks) := by
  rw [parent, segs_path_concat, if_neg (by simp [path]), List.dropLast_concat]

@[simp] theorem parent_root : root.parent = none := rfl

theorem isAncestorOf_path (ks js : List ℕ) :
    (path ks).isAncestorOf (path js) = true ↔ ks.length < js.length ∧ ks <+: js := by
  have hprefix : ("0" :: ks.map toString).isPrefixOf ("0" :: js.map toString) = true ↔
      ks <+: js := by
    rw [List.isPrefixOf_iff_prefix, List.cons_prefix_cons]
    simp only [true_and]
    exact List.prefix_map_iff_of_injective toString_injective
  simp only [isAncestorOf, path, Bool.and_eq_true, hprefix]
  simp

theorem text_path_concat (ks : List ℕ) (k : ℕ) :
    (path (ks ++ [k])).text = (path ks).text ++ "." ++ toString k := by
  rw [text, segs_path_concat, String.intercalate_append_of_ne_nil (by simp [path]) (by simp),
    String.intercalate_singleton]
  rfl

/-- A segment of a ring: its ordinal is one digit. -/
theorem validSeg_of_lt {k : ℕ} (hk : k < 9) :
    validSeg (toString k) = true ∧ '.' ∉ (toString k).toList ∧ (toString k).utf8ByteSize = 1 ∧
      parseU32 (toString k) = some k := by
  have hall : ∀ k < 9, validSeg (toString k) = true ∧ '.' ∉ (toString k).toList ∧
      (toString k).utf8ByteSize = 1 ∧ parseU32 (toString k) = some k := by decide
  exact hall k hk

theorem utf8ByteSize_text_path (ks : List ℕ) (hks : ∀ k ∈ ks, k < 9) :
    (path ks).text.utf8ByteSize = 1 + 2 * ks.length := by
  induction ks using List.reverseRecOn with
  | nil => decide
  | append_singleton ks k ih =>
    have hk : k < 9 := hks k (by simp)
    rw [text_path_concat, String.utf8ByteSize_append, String.utf8ByteSize_append,
      ih fun k hk => hks k (by simp [hk]), (validSeg_of_lt hk).2.2.1, List.length_append]
    have hdot : ".".utf8ByteSize = 1 := by decide
    simp only [hdot, List.length_singleton]
    omega

/-- **A path of small ordinals parses back from its text.** -/
theorem parse_text (ks : List ℕ) (hks : ∀ k ∈ ks, k < 9) (hlen : ks.length ≤ 31) :
    parse (path ks).text = some (path ks) := by
  have hsize := utf8ByteSize_text_path ks hks
  have hnonempty : (path ks).text.isEmpty = false := by simp [String.isEmpty, hsize]
  have hsplit : (path ks).text.toList.splitOn '.' = (path ks).segs.map String.toList := by
    rw [text, String.toList_intercalate]
    refine List.splitOn_intercalate '.' (fun l hl => ?_) (by simp [path])
    obtain ⟨seg, hseg, rfl⟩ := List.mem_map.mp hl
    rcases List.mem_cons.mp hseg with rfl | hseg
    · decide
    · obtain ⟨k, hk, rfl⟩ := List.mem_map.mp hseg
      exact (validSeg_of_lt (hks k hk)).2.1
  have hsegs : ((path ks).text.toList.splitOn '.').map String.ofList = "0" :: ks.map toString := by
    rw [hsplit, List.map_map]
    simp [path, Function.comp_def]
  unfold parse
  rw [hsegs, if_neg (by rw [hnonempty, hsize]; simp; omega)]
  have hvalid : (ks.map toString).all validSeg = true := by
    rw [List.all_map, List.all_eq_true]
    exact fun k hk => (validSeg_of_lt (hks k hk)).1
  simp [hvalid, path]

end Addr

/-! ### The laws -/

/-- The laws of a cell at a path of the tree of a mandala. -/
structure CellLaw (m : MandalaRecord) (ks : List ℕ) (c : CellRecord) : Prop where
  addr : c.addr = Addr.path ks
  depth : ks.length + c.budget.depth = m.budget.depth
  pos : 1 ≤ c.budget.depth
  joins : c.form.joins = c.barrierTimeoutS.isSome
  recurs : c.form.recurs = c.measure.isSome

/-- The laws of the tree of a mandala, along paths. -/
structure TreeLaw (m : MandalaRecord) (t : Tree) : Prop where
  root : t.contains Addr.root = true
  cell : ∀ a c, t.get? a = some c → ∃ ks, a = Addr.path ks ∧ CellLaw m ks c
  child : ∀ ks k c, t.get? (Addr.path (ks ++ [k])) = some c →
    k < ringWidth m.lattice ks.length ∧ ∃ p, t.get? (Addr.path ks) = some p ∧
      ¬ (p.measure.isSome = true ∧ c.measure.isSome = true)
  room : openCells t ≤ m.budget.cells
  closed : m.state = "closed" → openCells t = 0

/-- What becomes of a cell once it is there. -/
inductive CellStep (c : CellRecord) : CellRecord → Prop
  | settled {state : String} {evidence : Option String} (h : isOpenState state = false) :
      CellStep c { c with state := state, evidence := evidence }
  | opened : CellStep c { c with barrierOpened := true }
  | armed : CellStep c { c with form := c.form.armBranch }
  | lapped {laps : List ℕ} : CellStep c { c with measureHistory := laps }
  | budgeted {steps : ℕ} : CellStep c { c with budget := { c.budget with steps := steps } }

variable {m : MandalaRecord} {t : Tree} {ks : List ℕ} {k : ℕ} {a : Addr} {c c' p : CellRecord}

theorem CellStep.law (h : CellStep c c') (hc : CellLaw m ks c) : CellLaw m ks c' := by
  cases h <;> exact ⟨hc.addr, hc.depth, hc.pos, hc.joins, hc.recurs⟩

theorem CellStep.measure (h : CellStep c c') : c'.measure = c.measure := by cases h <;> rfl

/-- A cell that has settled stays so. -/
theorem CellStep.open_of (h : CellStep c c') (hopen : isOpenState c'.state = true) :
    isOpenState c.state = true := by
  cases h with
  | settled hs => exact absurd (hs.symm.trans hopen) (by simp)
  | _ => exact hopen

theorem get?_modify_cell {f : CellRecord → CellRecord} (hget : t.get? a = some c) {a' : Addr}
    {x : CellRecord} (hx : (t.modify a f).get? a' = some x) :
    a' = a ∧ x = f c ∨ a' ≠ a ∧ t.get? a' = some x := by
  by_cases ha : a' = a
  · subst ha
    rw [Table.get?_modify_self, hget] at hx
    exact Or.inl ⟨rfl, (Option.some.inj hx).symm⟩
  · rw [Table.get?_modify_of_ne ha] at hx
    exact Or.inr ⟨ha, hx⟩

theorem openCells_modify_le {f : CellRecord → CellRecord} (hget : t.get? a = some c)
    (hf : isOpenState (f c).state = true → isOpenState c.state = true) :
    openCells (t.modify a f) ≤ openCells t := by
  refine Table.count_modify_le_of_imp fun x hx => ?_
  obtain rfl : c = x := Option.some.inj (hget.symm.trans hx)
  exact hf

/-- **What a change of a cell preserves.** -/
theorem TreeLaw.modify {f : CellRecord → CellRecord} (h : TreeLaw m t) (hget : t.get? a = some c)
    (hf : CellStep c (f c)) : TreeLaw m (t.modify a f) := by
  have hroom : openCells (t.modify a f) ≤ openCells t := openCells_modify_le hget hf.open_of
  refine ⟨?_, fun a' x hx => ?_, fun ks k x hx => ?_, hroom.trans h.room, fun hm => ?_⟩
  · obtain ⟨r, hr⟩ := Table.contains_iff.mp h.root
    refine Table.contains_iff.mpr ?_
    rw [Table.get?_modify]
    split
    · rename_i heq
      exact ⟨f r, by rw [hr]; rfl⟩
    · exact ⟨r, hr⟩
  · rcases get?_modify_cell hget hx with ⟨rfl, rfl⟩ | ⟨-, hx⟩
    · obtain ⟨ks, rfl, hc⟩ := h.cell _ c hget
      exact ⟨ks, rfl, hf.law hc⟩
    · exact h.cell a' x hx
  · have hsame {ks : List ℕ} {x : CellRecord} (hx : (t.modify a f).get? (Addr.path ks) = some x) :
        ∃ y, t.get? (Addr.path ks) = some y ∧ y.measure = x.measure := by
      rcases get?_modify_cell hget hx with ⟨rfl, rfl⟩ | ⟨-, hx⟩
      · exact ⟨c, hget, hf.measure.symm⟩
      · exact ⟨x, hx, rfl⟩
    obtain ⟨y, hy, hmeasure⟩ := hsame hx
    obtain ⟨hk, p, hp, hcalm⟩ := h.child ks k y hy
    by_cases ha : Addr.path ks = a
    · subst ha
      obtain rfl : c = p := Option.some.inj (hget.symm.trans hp)
      refine ⟨hk, f c, by rw [Table.get?_modify_self, hget]; rfl, ?_⟩
      rw [hf.measure, ← hmeasure]
      exact hcalm
    · refine ⟨hk, p, by rw [Table.get?_modify_of_ne ha, hp], ?_⟩
      rw [← hmeasure]
      exact hcalm
  · exact Nat.le_zero.mp (h.closed hm ▸ hroom)

theorem openCells_insert (hfresh : t.get? a = none) :
    openCells (t.insert a c) = openCells t + if isOpenState c.state then 1 else 0 := by
  rw [openCells, Table.count, Table.entries_insert_of_fresh hfresh, List.countP_append]
  simp [openCells, Table.count]

/-- **What a mint preserves.** -/
theorem TreeLaw.insert (h : TreeLaw m t) (hp : t.get? (Addr.path ks) = some p)
    (hfresh : t.get? (Addr.path (ks ++ [k])) = none) (hk : k < ringWidth m.lattice ks.length)
    (hc : CellLaw m (ks ++ [k]) c) (hcalm : ¬ (p.measure.isSome = true ∧ c.measure.isSome = true))
    (hroom : openCells t + 1 ≤ m.budget.cells) (hopen : m.state ≠ "closed") :
    TreeLaw m (t.insert (Addr.path (ks ++ [k])) c) := by
  have hold {a : Addr} {x : CellRecord} (hx : t.get? a = some x) :
      (t.insert (Addr.path (ks ++ [k])) c).get? a = some x := by
    rw [Table.get?_insert, if_neg, hx]
    rintro rfl
    rw [hfresh] at hx
    cases hx
  have hcases {a : Addr} {x : CellRecord}
    (hx : (t.insert (Addr.path (ks ++ [k])) c).get? a = some x) :
      a = Addr.path (ks ++ [k]) ∧ x = c ∨ t.get? a = some x := by
    rw [Table.get?_insert] at hx
    split at hx
    · rename_i ha
      exact Or.inl ⟨ha, (Option.some.inj hx).symm⟩
    · exact Or.inr hx
  refine ⟨?_, fun a x hx => ?_, fun js j x hx => ?_, ?_, fun hm => absurd hm hopen⟩
  · obtain ⟨r, hr⟩ := Table.contains_iff.mp h.root
    exact Table.contains_iff.mpr ⟨r, hold hr⟩
  · rcases hcases hx with ⟨rfl, rfl⟩ | hx
    · exact ⟨_, rfl, hc⟩
    · exact h.cell a x hx
  · rcases hcases hx with ⟨ha, rfl⟩ | hx
    · obtain ⟨rfl, hj⟩ := List.append_inj' (Addr.path_injective ha) rfl
      obtain rfl : j = k := by simpa using hj
      exact ⟨hk, p, hold hp, hcalm⟩
    · obtain ⟨hj, q, hq, hcalm'⟩ := h.child js j x hx
      exact ⟨hj, q, hold hq, hcalm'⟩
  · rw [openCells_insert hfresh]
    split <;> omega

/-- **What closing preserves**: nothing may be open. -/
theorem TreeLaw.close (h : TreeLaw m t) (hopen : openCells t = 0) :
    TreeLaw { m with state := "closed" } t where
  root := h.root
  cell a c hc := by
    obtain ⟨ks, ha, hlaw⟩ := h.cell a c hc
    exact ⟨ks, ha, hlaw.addr, hlaw.depth, hlaw.pos, hlaw.joins, hlaw.recurs⟩
  child := h.child
  room := h.room
  closed _ := hopen

/-! ### Ordinals -/

theorem ringWidth_le (lattice : Lattice) (ring : ℕ) : ringWidth lattice ring ≤ 9 := by
  have hlist {l : List ℕ} (hl : ∀ n ∈ l, n ≤ 9) : l.getD ring 0 ≤ 9 := by
    rw [List.getD_eq_getElem?_getD]
    cases h : l[ring]? with
    | none => simp
    | some n => exact hl n (List.mem_of_getElem? h)
  have hite {p : Prop} [Decidable p] {n : ℕ} (hn : n ≤ 9) : (if p then n else 0) ≤ 9 := by
    split
    · exact hn
    · exact Nat.zero_le 9
  cases lattice with
  | spine => exact hite (by decide)
  | quad => exact hite (by decide)
  | fan => exact hite (by decide)
  | spiral => exact hlist (by decide)
  | funnel => exact hlist (by decide)

/-- The next ordinal is past every ordinal that a cell below has. -/
theorem lt_nextChildOrdinal {a p : Addr} (ha : t.contains a = true)
    (hanc : p.isAncestorOf a = true)
    (hseg : (a.segs[p.depth + 1]?).bind parseU32 = some k) : k < nextChildOrdinal t p := by
  obtain ⟨c, hc⟩ := Table.contains_iff.mp ha
  have hmem : k ∈ t.keys.filterMap fun a => if p.isAncestorOf a then
      (a.segs[p.depth + 1]?).bind parseU32 else none := by
    refine List.mem_filterMap.mpr ⟨a, List.mem_map.mpr ⟨_, Table.mem_of_get? hc, rfl⟩, ?_⟩
    rw [if_pos hanc, hseg]
  unfold nextChildOrdinal
  dsimp only
  cases hmax : List.max? (t.keys.filterMap fun a => if p.isAncestorOf a then
      (a.segs[p.depth + 1]?).bind parseU32 else none) with
  | none =>
    rw [List.max?_eq_none_iff.mp hmax] at hmem
    cases hmem
  | some n => exact Nat.lt_succ_of_le ((List.max?_eq_some_iff.mp hmax).2 k hmem)

/-- **The next ordinal is past every child that is there.** -/
theorem TreeLaw.get?_eq_none_of_ordinal (h : TreeLaw m t)
    (hk : nextChildOrdinal t (Addr.path ks) ≤ k) : t.get? (Addr.path (ks ++ [k])) = none := by
  by_contra hsome
  obtain ⟨c, hc⟩ := Option.ne_none_iff_exists'.mp hsome
  have hlt : k < 9 := Nat.lt_of_lt_of_le (h.child ks k c hc).1 (ringWidth_le ..)
  have hanc : (Addr.path ks).isAncestorOf (Addr.path (ks ++ [k])) = true :=
    (Addr.isAncestorOf_path ..).mpr ⟨by simp, List.prefix_append ..⟩
  have hseg : (Addr.path (ks ++ [k])).segs[(Addr.path ks).depth + 1]? = some (toString k) := by
    rw [Addr.segs_path_concat, Addr.depth_path, List.getElem?_append_right (by simp [Addr.path])]
    simp [Addr.path]
  have hused : k < nextChildOrdinal t (Addr.path ks) := by
    refine lt_nextChildOrdinal (Table.contains_iff.mpr ⟨c, hc⟩) hanc ?_
    rw [hseg]
    exact (Addr.validSeg_of_lt hlt).2.2.2
  omega

/-! ### Plans -/

theorem bind_ok {ε α β : Type} {x : Except ε α} {f : α → Except ε β} {b : β} :
    (x >>= f) = .ok b ↔ ∃ a, x = .ok a ∧ f a = .ok b := by
  cases x with
  | error e =>
    constructor
    · intro h
      cases h
    · rintro ⟨a, h, -⟩
      cases h
  | ok a =>
    constructor
    · exact fun h => ⟨a, rfl, h⟩
    · rintro ⟨a', h, h'⟩
      cases h
      exact h'

theorem map_ok {ε α β : Type} {x : Except ε α} {f : α → β} {b : β} :
    f <$> x = .ok b ↔ ∃ a, x = .ok a ∧ f a = b := by
  cases x with
  | error e =>
    constructor
    · intro h
      cases h
    · rintro ⟨a, h, -⟩
      cases h
  | ok a =>
    constructor
    · exact fun h => ⟨a, rfl, Except.ok.inj h⟩
    · rintro ⟨a', h, rfl⟩
      cases h
      rfl

theorem require_ok {cond : Bool} {msg : String} {u : Unit} :
    require cond msg = .ok u ↔ cond = true := by
  cases cond <;> simp [require]

theorem forM_ok {ε α : Type} {l : List α} {f : α → Except ε Unit} {u : Unit} :
    l.forM f = .ok u ↔ ∀ a ∈ l, f a = .ok u := by
  induction l with
  | nil => simp [pure, Except.pure]
  | cons a l ih =>
    rw [List.forall_mem_cons]
    refine bind_ok.trans ?_
    constructor
    · rintro ⟨u', ha, hl⟩
      exact ⟨ha, ih.mp hl⟩
    · exact fun h => ⟨u, h.1, ih.mpr h.2⟩

theorem compose_ne_forbidden {parent child : CellForm} :
    compose parent child ≠ .forbidden ↔ ¬ (parent.recurs = true ∧ child.recurs = true) := by
  unfold compose
  split
  · simp_all
  · split <;> simp_all

theorem two_le_of_admissible {b : BudgetVec} {n : ℕ} (h : admissible b (contractChild b) n = true) :
    2 ≤ b.depth := by
  have hpos : 0 < b.depth - 1 := by
    simp only [admissible, contractChild, Bool.and_eq_true] at h
    exact of_decide_eq_true h.1.2
  omega

/-- What is planned at an ordinal under an address. -/
structure PlanAt (a : Addr) (b : BudgetVec) (recurs : Bool) (k : ℕ) (p : CellPlan) : Prop where
  addr : p.addr = a.child k
  budget : p.budget = contractChild b
  calm : ¬ (recurs = true ∧ p.measure.isSome = true)

/-- The layouts of a plan: a ring under the parent, or a gate with a ring under it. -/
inductive Layout (m : MandalaRecord) (t : Tree) (parent : CellRecord) (ctx : CellsCtx) : Prop
  | ring (hdepth : 2 ≤ parent.budget.depth)
      (hwidth : nextChildOrdinal t ctx.parent + ctx.plans.length ≤
        ringWidth m.lattice ctx.parent.depth)
      (hplans : ∀ j p, ctx.plans[j]? = some p → p.barrierTimeoutS = none ∧
        PlanAt ctx.parent parent.budget parent.form.recurs (nextChildOrdinal t ctx.parent + j) p)
  | gate {g : CellPlan} {ring : List CellPlan} (hplans : ctx.plans = g :: ring)
      (hdepth : 2 ≤ parent.budget.depth)
      (hwidth : nextChildOrdinal t ctx.parent < ringWidth m.lattice ctx.parent.depth)
      (hbarrier : g.barrierTimeoutS.isSome = true)
      (hgate : PlanAt ctx.parent parent.budget parent.form.recurs (nextChildOrdinal t ctx.parent) g)
      (hdepth' : ring ≠ [] → 2 ≤ g.budget.depth)
      (hwidth' : ring.length ≤ ringWidth m.lattice g.addr.depth)
      (hring : ∀ j p, ring[j]? = some p → p.barrierTimeoutS = none ∧
        PlanAt g.addr g.budget g.measure.isSome j p)

theorem planRing_ok {tasks : List TaskSpecItem} {ctx : CellsCtx}
    (h : planRing m t a p tasks = .ok ctx)
    (hcalm : ∀ task ∈ tasks, ¬ (p.form.recurs = true ∧ task.measure.isSome = true)) :
    ctx.mandala = m.id ∧ ctx.parent = a ∧ ctx.plans.length = tasks.length ∧ Layout m t p ctx := by
  simp only [planRing, bind_ok, require_ok] at h
  obtain ⟨-, hwidth, -, hadmissible, h⟩ := h
  obtain rfl := Except.ok.inj h
  have hdepth : 2 ≤ p.budget.depth := two_le_of_admissible hadmissible
  simp only [Bool.and_eq_true, decide_eq_true_eq] at hwidth
  refine ⟨rfl, rfl, by simp, .ring hdepth (by simpa using hwidth.2) fun j x hx => ?_⟩
  simp only [List.getElem?_map, List.getElem?_zipIdx, Option.map_map, Option.map_eq_some_iff,
    Function.comp_apply] at hx
  obtain ⟨task, htask, rfl⟩ := hx
  refine ⟨rfl, ?_, rfl, hcalm task (List.mem_of_getElem? htask)⟩
  rw [Nat.zero_add]
  rfl

theorem planGate_ok {args : Json} {tasks ring : List TaskSpecItem} {task : String} {bare : Bool}
    {barrier : Option ℕ} {ctx : CellsCtx}
    (h : planGate m t a p args tasks ring task bare barrier = .ok ctx)
    (hbare : bare = true → ring = [])
    (hcalm : bare = true → ∀ task ∈ tasks.head?,
    ¬ (p.form.recurs = true ∧ task.measure.isSome = true)) :
    ctx.mandala = m.id ∧ ctx.parent = a ∧ ctx.plans.length = ring.length + 1 ∧
    Layout m t p ctx := by
  simp only [planGate, bind_ok, require_ok] at h
  obtain ⟨-, hwidth, -, hadmissible, h⟩ := h
  simp only [Bool.and_eq_true, decide_eq_true_eq] at hwidth
  generalize hfirst : (if bare = true then tasks.head? else none) = first at h
  have hbare_of {task : TaskSpecItem} (htask : first = some task) :
      bare = true ∧ task ∈ tasks.head? := by
    subst hfirst
    split at htask
    · exact ⟨‹_›, htask⟩
    · cases htask
  obtain ⟨hring, hctx⟩ : (ring ≠ [] →
      ring.length ≤ ringWidth m.lattice (a.child (nextChildOrdinal t a)).depth ∧
      admissible (contractChild p.budget) (contractChild (contractChild p.budget))
        (ringWidth m.lattice (a.child (nextChildOrdinal t a)).depth) = true) ∧ _ = ctx := by
    split at h
    · simp only [bind_ok, require_ok, decide_eq_true_eq] at h
      obtain ⟨-, hlen, -, hadmissible', h⟩ := h
      exact ⟨fun _ => ⟨hlen, hadmissible'⟩, Except.ok.inj h⟩
    · rename_i hempty
      refine ⟨fun hne => absurd ?_ hempty, Except.ok.inj h⟩
      cases ring with
      | nil => exact absurd rfl hne
      | cons x l => rfl
  subst hctx
  refine ⟨rfl, rfl, by simp,
    .gate rfl (two_le_of_admissible hadmissible) hwidth.2 rfl ⟨rfl, rfl, ?_⟩
    (fun hne => ?_) ?_ fun j x hx => ?_⟩
  · rintro ⟨hrecurs, hmeasure⟩
    obtain ⟨cmd, hcmd⟩ := Option.isSome_iff_exists.mp hmeasure
    obtain ⟨task, htask, hcmd⟩ := Option.bind_eq_some_iff.mp hcmd
    obtain ⟨hbare, hhead⟩ := hbare_of htask
    exact hcalm hbare task hhead ⟨hrecurs, by simp [hcmd]⟩
  · exact two_le_of_admissible (hring fun h => hne (by simp [h])).2
  · by_cases hempty : ring = []
    · simp [hempty]
    · simpa [gatePlan] using (hring hempty).1
  · simp only [List.getElem?_map, List.getElem?_zipIdx, Option.map_map, Option.map_eq_some_iff,
      Function.comp_apply] at hx
    obtain ⟨x, htask, rfl⟩ := hx
    refine ⟨rfl, by simp [ringPlan, gatePlan], rfl, ?_⟩
    rintro ⟨hmeasure, -⟩
    obtain ⟨cmd, hcmd⟩ := Option.isSome_iff_exists.mp hmeasure
    obtain ⟨task, hfirst', -⟩ := Option.bind_eq_some_iff.mp hcmd
    rw [hbare (hbare_of hfirst').1] at htask
    cases htask

/-- A task that hangs off the parent itself is not measured, if the parent is. -/
theorem calm_of_composition {tasks : List TaskSpecItem} {barrier : Bool} {u : Unit}
    (h : checkComposition m t a p tasks false barrier = .ok u) {i : ℕ} {task : TaskSpecItem}
    (htask : tasks[i]? = some task) (hi : barrier = true → i = 0) :
    ¬ (p.form.recurs = true ∧ task.measure.isSome = true) := by
  simp only [checkComposition, bind_ok] at h
  obtain ⟨u', hforM, -⟩ := h
  have hone := forM_ok.mp hforM (task, i) (List.mem_zipIdx_iff_getElem?.mpr htask)
  have hcompose := compose_ne_forbidden.mp (of_decide_eq_true (require_ok.mp hone))
  rintro ⟨hrecurs, hmeasure⟩
  refine hcompose ⟨?_, by simp [hmeasure, CellForm.armRecur]⟩
  have hpost : (if (decide (1 < tasks.length) && !false) = true then p.form.armBranch
      else p.form).recurs = true := by
    split <;> exact hrecurs
  cases barrier with
  | false => exact hpost
  | true =>
    obtain rfl : i = 0 := hi rfl
    exact hpost

/-- What `prepare_mandala_cells` has checked of what it plans. -/
structure Planned (m : MandalaRecord) (t : Tree) (session : SessionId) (caller : Option Addr)
    (parent : CellRecord) (ctx : CellsCtx) : Prop where
  mandala : ctx.mandala = m.id
  conductor : caller = none → m.conductor = session
  voucher : ∀ own, caller = some own → voucherScopeOk own ctx.parent = true
  grows : m.state ≠ "closed"
  there : t.get? ctx.parent = some parent
  room : openCells t + ctx.plans.length ≤ m.budget.cells
  layout : Layout m t parent ctx

theorem planned_of_prepare {mandalas : Table ℕ MandalaRecord} {trees : Table ℕ Tree}
    {session : SessionId} {args : Json} {tasks : List TaskSpecItem} {inline : Bool}
    {caller : Option Addr} {ctx : CellsCtx}
    (h : prepareMandalaCells mandalas trees session args tasks inline caller = .ok (some ctx)) :
    ∃ mid m parent, natField args "mandala" = some mid ∧ mandalas.get? mid = some m ∧
      Planned m ((trees.get? mid).getD Table.empty) session caller parent ctx := by
  unfold prepareMandalaCells at h
  extract_lets join barrier bare gateTask ringTasks needed at h
  split at h
  · simp only [bind_ok] at h
    obtain ⟨-, -, -, -, h⟩ := h
    cases h
  · rename_i mid hmid
    split at h
    · cases h
    · rename_i m hm
      simp only [bind_ok, require_ok] at h
      obtain ⟨-, hsession, -, hopen, -, -, -, hone, addr, -, -, hvoucher, h⟩ := h
      simp only [Bool.or_eq_true, decide_eq_true_eq] at hsession hopen
      split at h
      · cases h
      · rename_i parent hparent
        simp only [bind_ok, require_ok, decide_eq_true_eq] at h
        obtain ⟨u, hcompose, -, -, -, -, -, hroom, h⟩ := h
        have hplanned (hmandala : ctx.mandala = m.id) (haddr : ctx.parent = addr)
            (hlen : ctx.plans.length ≤ needed)
            (hlayout : Layout m ((trees.get? mid).getD Table.empty) parent ctx) :
            Planned m ((trees.get? mid).getD Table.empty) session caller parent ctx := by
          subst haddr
          refine ⟨hmandala, fun hcaller => ?_, fun own hown => ?_, hopen,
            hparent, by omega, hlayout⟩
          · simpa [hcaller] using hsession
          · simpa [hown] using hvoucher
        have hjoin (hbare : bare = true) : join = none ∧ barrier.isSome = true := by
          simpa [bare, Bool.and_eq_true, Option.isNone_iff_eq_none] using hbare
        refine ⟨mid, m, parent, hmid, hm, ?_⟩
        cases hgate : gateTask with
        | some task =>
          rw [hgate] at h
          obtain ⟨ctx', hctx, h⟩ := map_ok.mp h
          cases h
          obtain ⟨hmandala, haddr, hlen, hlayout⟩ := planGate_ok hctx
            (fun hbare => by simp [ringTasks, hbare]) fun hbare task hhead => by
              obtain ⟨hnone, hbarrier⟩ := hjoin hbare
              rw [hnone, hbarrier] at hcompose
              exact calm_of_composition hcompose (i := 0)
                ((List.head?_eq_getElem? ..).symm.trans hhead) fun _ => rfl
          exact hplanned hmandala haddr (by simp [hlen, needed, hgate]) hlayout
        | none =>
          rw [hgate] at h
          obtain ⟨ctx', hctx, h⟩ := map_ok.mp h
          cases h
          obtain ⟨hnone, hhead⟩ := Option.or_eq_none_iff.mp hgate
          obtain ⟨hmandala, haddr, hlen, hlayout⟩ := planRing_ok hctx fun task htask => by
            obtain ⟨hbare, htask⟩ : bare = false ∧ task ∈ tasks := by
              cases hbare : bare with
              | true => simp [ringTasks, hbare] at htask
              | false => exact ⟨rfl, by simpa [ringTasks, hbare] using htask⟩
            have hbarrier : barrier.isSome = false := by simpa [bare, hnone] using hbare
            rw [hnone, hbarrier] at hcompose
            obtain ⟨i, hi⟩ := List.mem_iff_getElem?.mp htask
            exact calm_of_composition hcompose hi fun h => nomatch h
          exact hplanned hmandala haddr (by simp [hlen, needed]) hlayout

/-! ### Planting -/

/-- Cells are put into a tree, one after the other. -/
def plant (t : Tree) (cs : List CellRecord) : Tree := cs.foldl (fun t c => t.insert c.addr c) t

@[simp] theorem plant_nil (t : Tree) : plant t [] = t := rfl

@[simp] theorem plant_cons (t : Tree) (c : CellRecord) (cs : List CellRecord) :
    plant t (c :: cs) = plant (t.insert c.addr c) cs := rfl

theorem get?_plant_of_notMem {cs : List CellRecord} (ha : ∀ c ∈ cs, c.addr ≠ a) :
    (plant t cs).get? a = t.get? a := by
  induction cs generalizing t with
  | nil => rfl
  | cons c cs ih =>
    rw [plant_cons, ih fun c' hc' => ha c' (by simp [hc']), Table.get?_insert,
      if_neg (ha c (by simp)).symm]

theorem mem_of_get?_plant {cs : List CellRecord} (hc : (plant t cs).get? a = some c) :
    t.get? a = some c ∨ c ∈ cs ∧ c.addr = a := by
  induction cs generalizing t with
  | nil => exact Or.inl hc
  | cons x cs ih =>
    rcases ih hc with hget | ⟨hmem, haddr⟩
    · rw [Table.get?_insert] at hget
      split at hget
      · rename_i heq
        obtain rfl := Option.some.inj hget
        exact Or.inr ⟨by simp, heq.symm⟩
      · exact Or.inl hget
    · exact Or.inr ⟨by simp [hmem], haddr⟩

theorem exists_get?_plant {cs : List CellRecord}
    (h : (∃ c ∈ cs, c.addr = a) ∨ ∃ c, t.get? a = some c) : ∃ c, (plant t cs).get? a = some c := by
  induction cs generalizing t with
  | nil => exact h.resolve_left (by simp)
  | cons x cs ih =>
    refine ih ?_
    rcases h with ⟨c, hc, rfl⟩ | ⟨c, hc⟩
    · rcases List.mem_cons.mp hc with rfl | hc
      · exact Or.inr ⟨c, by rw [Table.get?_insert, if_pos rfl]⟩
      · exact Or.inl ⟨c, hc, rfl⟩
    · refine Or.inr ?_
      rw [Table.get?_insert]
      split
      · exact ⟨x, rfl⟩
      · exact ⟨c, hc⟩

/-- **What a ring preserves.** The induction is on the ring; its ordinals go on from `k`. -/
theorem TreeLaw.plantRing (h : TreeLaw m t) (hp : t.get? (Addr.path ks) = some p)
    (hopen : m.state ≠ "closed") {cs : List CellRecord}
    (hfresh : ∀ j, k ≤ j → t.get? (Addr.path (ks ++ [j])) = none)
    (hcs : ∀ j c, cs[j]? = some c → CellLaw m (ks ++ [k + j]) c ∧
      ¬ (p.measure.isSome = true ∧ c.measure.isSome = true))
    (hk : k + cs.length ≤ ringWidth m.lattice ks.length)
    (hroom : openCells t + cs.length ≤ m.budget.cells) : TreeLaw m (plant t cs) := by
  induction cs generalizing t k with
  | nil => exact h
  | cons c cs ih =>
    rw [List.length_cons] at hk hroom
    obtain ⟨hc, hcalm⟩ := hcs 0 c rfl
    have haddr : c.addr = Addr.path (ks ++ [k]) := hc.addr
    have hinsert : TreeLaw m (t.insert c.addr c) := by
      rw [haddr]
      exact h.insert hp (hfresh k (Nat.le_refl k)) (by omega) hc hcalm (by omega) hopen
    have hother {js : List ℕ} (hjs : js ≠ ks ++ [k]) :
        (t.insert c.addr c).get? (Addr.path js) = t.get? (Addr.path js) := by
      rw [Table.get?_insert, if_neg]
      rw [haddr]
      exact fun heq => hjs (Addr.path_injective heq)
    have hcount := openCells_insert (c := c) (hfresh k (Nat.le_refl k))
    rw [← haddr] at hcount
    have hroom' : openCells (t.insert c.addr c) + cs.length ≤ m.budget.cells := by
      split at hcount <;> omega
    refine ih (k := k + 1) hinsert ?_ (fun j hj => ?_) (fun j x hx => ?_) (by omega) hroom'
    · rw [hother (by simp), hp]
    · have hne : ks ++ [j] ≠ ks ++ [k] := by
        simp only [ne_eq, List.append_cancel_left_eq, List.cons.injEq, and_true]
        omega
      rw [hother hne]
      exact hfresh j (by omega)
    · have hnext := hcs (j + 1) x (by simpa using hx)
      rwa [show k + (j + 1) = k + 1 + j by omega] at hnext

/-- A cell of a plan. -/
structure Planted (p : CellPlan) (c : CellRecord) : Prop where
  addr : c.addr = p.addr
  budget : c.budget = p.budget
  joins : c.form.joins = p.barrierTimeoutS.isSome
  recurs : c.form.recurs = p.measure.isSome
  barrier : c.barrierTimeoutS = p.barrierTimeoutS
  measure : c.measure = p.measure

/-- A cell planted at an ordinal keeps the laws of its path. -/
theorem Planted.law {q : CellPlan} (hc : Planted q c) (hp : CellLaw m ks p)
    (hdepth : 2 ≤ p.budget.depth) (hq : PlanAt (Addr.path ks) p.budget p.form.recurs k q) :
    CellLaw m (ks ++ [k]) c ∧ ¬ (p.measure.isSome = true ∧ c.measure.isSome = true) := by
  have hbudget : c.budget.depth = p.budget.depth - 1 := by rw [hc.budget, hq.budget]; rfl
  have hlen := hp.depth
  refine ⟨⟨?_, ?_, by omega, by rw [hc.joins, hc.barrier], by rw [hc.recurs, hc.measure]⟩, ?_⟩
  · rw [hc.addr, hq.addr, Addr.child_path]
  · rw [List.length_append, List.length_singleton]
    omega
  · rw [hc.measure, ← hp.recurs]
    exact hq.calm

/-- A cell that is not there has no children. -/
theorem TreeLaw.get?_eq_none_of_parent (h : TreeLaw m t) (hnone : t.get? (Addr.path ks) = none) :
    t.get? (Addr.path (ks ++ [k])) = none := by
  by_contra hsome
  obtain ⟨c, hc⟩ := Option.ne_none_iff_exists'.mp hsome
  obtain ⟨-, p, hp, -⟩ := h.child ks k c hc
  rw [hnone] at hp
  cases hp

variable {session : SessionId} {caller : Option Addr} {parent : CellRecord} {ctx : CellsCtx}

theorem getElem?_planted {qs : List CellPlan} {cs : List CellRecord}
    (h : List.Forall₂ Planted qs cs)
    {j : ℕ} (hc : cs[j]? = some c) : ∃ q, qs[j]? = some q ∧ Planted q c := by
  obtain ⟨hj, rfl⟩ := List.getElem?_eq_some_iff.mp hc
  have hj' : j < qs.length := h.length_eq ▸ hj
  exact ⟨qs[j], List.getElem?_eq_getElem hj', h.get hj' hj⟩

/-- **What a fan-out under a mandala preserves.** -/
theorem Planned.plant (hplan : Planned m t session caller parent ctx) (h : TreeLaw m t)
    {cs : List CellRecord} (hcs : List.Forall₂ Planted ctx.plans cs) : TreeLaw m (plant t cs) := by
  obtain ⟨ks, haddr, hparent⟩ := h.cell _ _ hplan.there
  have hget : t.get? (Addr.path ks) = some parent := haddr ▸ hplan.there
  have hlen : ctx.plans.length = cs.length := hcs.length_eq
  have hroom := hplan.room
  cases hplan.layout with
  | ring hdepth hwidth hplans =>
    rw [haddr] at hwidth hplans
    rw [Addr.depth_path] at hwidth
    refine h.plantRing hget hplan.grows (k := nextChildOrdinal t (Addr.path ks))
      (fun j hj => h.get?_eq_none_of_ordinal hj) (fun j c hc => ?_) (by omega) (by omega)
    obtain ⟨q, hq, hplanted⟩ := getElem?_planted hcs hc
    exact hplanted.law hparent hdepth (hplans j q hq).2
  | @gate g ring hplans hdepth hwidth hbarrier hgate hdepth' hwidth' hring =>
    rw [hplans] at hcs hlen hroom
    rw [haddr] at hwidth hgate
    rw [Addr.depth_path] at hwidth
    obtain ⟨c, cs, hc, htail, rfl⟩ : ∃ c cs', Planted g c ∧ List.Forall₂ Planted ring cs' ∧
        cs = c :: cs' := by
      cases hcs with
      | cons hc hcs => exact ⟨_, _, hc, hcs, rfl⟩
    rw [List.length_cons] at hlen hroom
    obtain ⟨hlaw, hcalm⟩ := hc.law hparent hdepth hgate
    have hfresh := h.get?_eq_none_of_ordinal (Nat.le_refl (nextChildOrdinal t (Addr.path ks)))
    have hinsert : TreeLaw m (t.insert c.addr c) := by
      rw [hlaw.addr]
      exact h.insert hget hfresh hwidth hlaw hcalm (by omega) hplan.grows
    have hcount := openCells_insert (c := c) hfresh
    rw [← hlaw.addr] at hcount
    have hroom' : openCells (t.insert c.addr c) + cs.length ≤ m.budget.cells := by
      have hring := htail.length_eq
      split at hcount <;> omega
    have hself : (t.insert c.addr c).get? (Addr.path (ks ++ [nextChildOrdinal t (Addr.path ks)])) =
        some c := by
      rw [Table.get?_insert, if_pos hlaw.addr.symm]
    rw [plant_cons]
    refine hinsert.plantRing hself hplan.grows (k := 0) (fun j _ => ?_) (fun j x hx => ?_) ?_ hroom'
    · rw [Table.get?_insert, if_neg, h.get?_eq_none_of_parent hfresh]
      rw [hlaw.addr]
      exact fun heq => by simpa using Addr.path_injective heq
    · obtain ⟨q, hq, hplanted⟩ := getElem?_planted htail hx
      have hat := (hring j q hq).2
      rw [← hc.addr, hlaw.addr, ← hc.budget, ← hc.recurs] at hat
      rw [Nat.zero_add]
      have hdepth'' : 2 ≤ c.budget.depth := by
        rw [hc.budget]
        exact hdepth' (List.ne_nil_of_mem (List.mem_of_getElem? hq))
      exact hplanted.law hlaw hdepth'' hat
    · rw [← hc.addr, hlaw.addr, Addr.depth_path] at hwidth'
      rw [Nat.zero_add, ← htail.length_eq]
      exact hwidth'

/-! ### Where a plan grows -/

/-- An address that is planned: it is under the parent, and it is not there. -/
theorem Planned.fresh (hplan : Planned m t session caller parent ctx) (h : TreeLaw m t)
    {q : CellPlan} (hq : q ∈ ctx.plans) :
    t.get? q.addr = none ∧ ctx.parent.isAncestorOf q.addr = true := by
  obtain ⟨ks, haddr, -⟩ := h.cell _ _ hplan.there
  have hunder (js : List ℕ) (hjs : js ≠ []) :
      (Addr.path ks).isAncestorOf (Addr.path (ks ++ js)) = true :=
    (Addr.isAncestorOf_path ..).mpr
      ⟨by simpa [List.length_pos_iff] using hjs, List.prefix_append ..⟩
  obtain ⟨i, hi⟩ := List.mem_iff_getElem?.mp hq
  rw [haddr]
  cases hplan.layout with
  | ring hdepth hwidth hplans =>
    have hqaddr := (hplans i q hi).2.addr
    rw [haddr, Addr.child_path] at hqaddr
    rw [hqaddr]
    exact ⟨h.get?_eq_none_of_ordinal (Nat.le_add_right ..), hunder _ (by simp)⟩
  | @gate g ring hplans hdepth hwidth hbarrier hgate hdepth' hwidth' hring =>
    have hgaddr := hgate.addr
    rw [haddr, Addr.child_path] at hgaddr
    have hfresh := h.get?_eq_none_of_ordinal (Nat.le_refl (nextChildOrdinal t (Addr.path ks)))
    rw [hplans] at hi
    cases i with
    | zero =>
      obtain rfl : g = q := by simpa using hi
      rw [hgaddr]
      exact ⟨hfresh, hunder _ (by simp)⟩
    | succ i =>
      have hqaddr := (hring i q (by simpa using hi)).2.addr
      rw [hgaddr, Addr.child_path, List.append_assoc] at hqaddr
      rw [hqaddr, ← List.append_assoc]
      exact ⟨h.get?_eq_none_of_parent hfresh, by rw [List.append_assoc]; exact hunder _ (by simp)⟩

/-- **The addresses of a plan are all different.** -/
theorem Planned.nodup (hplan : Planned m t session caller parent ctx) (h : TreeLaw m t) :
    (ctx.plans.map CellPlan.addr).Nodup := by
  obtain ⟨ks, haddr, -⟩ := h.cell _ _ hplan.there
  -- The addresses of a ring under a path are told apart by their ordinals.
  have hnodup {qs : List CellPlan} (js : List ℕ) {k : ℕ}
      (hqs : ∀ j q, qs[j]? = some q → q.addr = Addr.path (js ++ [k + j])) :
      (qs.map CellPlan.addr).Nodup := by
    have heq : qs.map CellPlan.addr = (List.range' k qs.length).map fun j =>
        Addr.path (js ++ [j]) := by
      refine List.ext_getElem? fun j => ?_
      by_cases hj : j < qs.length
      · simp [hj, hqs j _ (List.getElem?_eq_getElem hj)]
      · simp [hj]
    rw [heq]
    refine (List.nodup_range' ..).map fun j j' hjj => ?_
    simpa using Addr.path_injective hjj
  cases hplan.layout with
  | ring hdepth hwidth hplans =>
    refine hnodup ks (k := nextChildOrdinal t ctx.parent) fun j q hq => ?_
    have hqaddr := (hplans j q hq).2.addr
    rwa [haddr, Addr.child_path, ← haddr] at hqaddr
  | @gate g ring hplans hdepth hwidth hbarrier hgate hdepth' hwidth' hring =>
    have hgaddr := hgate.addr
    rw [haddr, Addr.child_path, ← haddr] at hgaddr
    have hring_addr (j : ℕ) (q : CellPlan) (hq : ring[j]? = some q) :
        q.addr = Addr.path (ks ++ [nextChildOrdinal t ctx.parent] ++ [0 + j]) := by
      rw [(hring j q hq).2.addr, hgaddr, Addr.child_path, Nat.zero_add]
    rw [hplans, List.map_cons, List.nodup_cons]
    refine ⟨fun hmem => ?_, hnodup _ hring_addr⟩
    obtain ⟨q, hq, heq⟩ := List.mem_map.mp hmem
    obtain ⟨j, hj⟩ := List.mem_iff_getElem?.mp hq
    rw [hring_addr j q hj, hgaddr] at heq
    simpa using Addr.path_injective heq

/-! ### In the words of the source -/

/-- The addresses of the cells right under one. -/
def children (t : Tree) (a : Addr) : List Addr := t.keys.filter fun b => b.parent = some a

/-- **The laws of the tree of a mandala**: addresses parse, depth is used up from the root down,
rings are no wider than the lattice has them, there is room, forms say what a cell has, no measured
cell is right under a measured one, and a closed mandala has no open cell. -/
structure MandalaLaw (m : MandalaRecord) (t : Tree) : Prop where
  parses : ∀ a c, t.get? a = some c → c.addr = a ∧ Addr.parse a.text = some a
  depths : ∃ r, t.get? Addr.root = some r ∧
    ∀ a c, t.get? a = some c → a.depth + c.budget.depth = r.budget.depth ∧ 1 ≤ c.budget.depth
  widths : ∀ a c, t.get? a = some c → (children t a).length ≤ ringWidth m.lattice a.depth
  room : openCells t ≤ cellsCeil
  forms : ∀ a c, t.get? a = some c →
    c.form.joins = c.barrierTimeoutS.isSome ∧ c.form.recurs = c.measure.isSome
  calm : ∀ a b p c, t.get? a = some p → t.get? b = some c → b.parent = some a →
    ¬ (p.measure.isSome = true ∧ c.measure.isSome = true)
  closed : m.state = "closed" → openCells t = 0

theorem Addr.parent_eq_path {js : List ℕ} (h : (Addr.path js).parent = some (Addr.path ks)) :
    ∃ k, js = ks ++ [k] := by
  rcases List.eq_nil_or_concat js with rfl | ⟨js, k, rfl⟩
  · cases h
  · rw [List.concat_eq_append, Addr.parent_path] at h
    rw [Addr.path_injective (Option.some.inj h)]
    exact ⟨k, List.concat_eq_append⟩

/-- The ordinals of a path are below nine. -/
theorem TreeLaw.small (h : TreeLaw m t) (hc : t.get? (Addr.path ks) = some c) :
    ∀ k ∈ ks, k < 9 := by
  induction ks using List.reverseRecOn generalizing c with
  | nil => simp
  | append_singleton ks k ih =>
    obtain ⟨hk, p, hp, -⟩ := h.child ks k c hc
    intro j hj
    rcases List.mem_append.mp hj with hj | hj
    · exact ih hp j hj
    · rw [List.mem_singleton.mp hj]
      exact Nat.lt_of_lt_of_le hk (ringWidth_le ..)

theorem TreeLaw.children_le (h : TreeLaw m t) :
    (children t (Addr.path ks)).length ≤ ringWidth m.lattice ks.length := by
  have hsub : children t (Addr.path ks) ⊆
      (List.range (ringWidth m.lattice ks.length)).map fun k => Addr.path (ks ++ [k]) := by
    intro b hb
    obtain ⟨hkey, hparent⟩ := List.mem_filter.mp hb
    obtain ⟨c, hc⟩ := Option.ne_none_iff_exists'.mp fun hnone =>
      Table.get?_eq_none_iff.mp hnone hkey
    obtain ⟨js, rfl, -⟩ := h.cell b c hc
    obtain ⟨k, rfl⟩ := Addr.parent_eq_path (of_decide_eq_true hparent)
    exact List.mem_map.mpr ⟨k, List.mem_range.mpr (h.child ks k c hc).1, rfl⟩
  have hnodup : (children t (Addr.path ks)).Nodup := t.nodup.filter _
  simpa using (List.subperm_of_subset hnodup hsub).length_le

/-- **The laws along paths give the laws of the tree**, for a budget as deep as a mandala may
have. -/
theorem TreeLaw.mandalaLaw (h : TreeLaw m t) (hdepth : m.budget.depth ≤ depthCeil)
    (hcells : m.budget.cells ≤ cellsCeil) : MandalaLaw m t where
  parses a c hc := by
    obtain ⟨ks, rfl, hlaw⟩ := h.cell a c hc
    have hceil : depthCeil = 6 := rfl
    have hlen := hlaw.depth
    exact ⟨hlaw.addr, Addr.parse_text ks (h.small hc) (by omega)⟩
  depths := by
    obtain ⟨r, hr⟩ := Table.contains_iff.mp h.root
    refine ⟨r, hr, fun a c hc => ?_⟩
    obtain ⟨ks, rfl, hlaw⟩ := h.cell a c hc
    obtain ⟨js, hjs, hroot⟩ := h.cell Addr.root r hr
    obtain rfl : [] = js := Addr.path_injective (Addr.root_eq_path.symm.trans hjs)
    have hrdepth : r.budget.depth = m.budget.depth := by simpa using hroot.depth
    rw [Addr.depth_path, hrdepth]
    exact ⟨hlaw.depth, hlaw.pos⟩
  widths a c hc := by
    obtain ⟨ks, rfl, -⟩ := h.cell a c hc
    rw [Addr.depth_path]
    exact h.children_le
  room := h.room.trans hcells
  forms a c hc := by
    obtain ⟨ks, rfl, hlaw⟩ := h.cell a c hc
    exact ⟨hlaw.joins, hlaw.recurs⟩
  calm a b p c hp hc hb := by
    obtain ⟨ks, rfl, -⟩ := h.cell a p hp
    obtain ⟨js, rfl, -⟩ := h.cell b c hc
    obtain ⟨k, rfl⟩ := Addr.parent_eq_path hb
    obtain ⟨-, q, hq, hcalm⟩ := h.child ks k c hc
    obtain rfl : q = p := Option.some.inj (hq.symm.trans hp)
    exact hcalm
  closed := h.closed

end ApexOS.Fabrica
