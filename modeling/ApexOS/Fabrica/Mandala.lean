import ApexOS.Lib.Table
import Mathlib.Data.List.Sort
import Mathlib.Algebra.Group.Nat.Defs

/-!
# Mandalas: trees of cells

`agentd/crates/agentd/src/mandala.rs`: the addresses, forms, budgets and ring widths of a mandala,
its cells, and what is read off a tree of them. Everything here is pure; the worker driver grows the
trees and keeps them on disk.

An address is kept as its dot-separated segments. The digest of the invariant's text is a parameter
of the driver, and the epoch and orbit fields of a mandala's record are left out.

## Main definitions

* `Addr`: a cell's address, with parsing, ancestry and children
* `CellForm`, `compose`: the three risk bits, and what may stand over what
* `BudgetVec`, `admissible`, `contractChild`; `Lattice`, `ringWidth`
* `CellRecord`, `MandalaRecord`, `Tree`, `descendants`, `openDescendants`, `nextChildOrdinal`
* `kStalled`, `renewalGrant`: the measure law
-/

namespace ApexOS.Fabrica

/-! ### Addresses -/

/-- `Addr`: the segments of a dotted address. -/
structure Addr where
  segs : List String
  deriving DecidableEq, Repr

/-- The decimal number a segment spells, if it fits 32 bits. -/
def parseU32 (seg : String) : Option ℕ :=
  let digits := seg.toList
  if digits.isEmpty || !digits.all Char.isDigit then none
  else
    let n := digits.foldl (fun n c => 10 * n + (c.toNat - '0'.toNat)) 0
    if n < 2 ^ 32 then some n else none

namespace Addr

/-- `Addr::ROOT`. -/
def root : Addr := ⟨["0"]⟩

/-- The address as the source has it. -/
def text (a : Addr) : String := ".".intercalate a.segs

/-- A segment below the root: one to six digits. -/
def validSeg (seg : String) : Bool :=
  !seg.isEmpty && seg.utf8ByteSize ≤ 6 && seg.toList.all Char.isDigit

/-- `Addr::parse`. -/
def parse (s : String) : Option Addr :=
  if s.isEmpty || 64 < s.utf8ByteSize then none
  else match (s.toList.splitOn '.').map String.ofList with
    | "0" :: segs => if segs.all validSeg then some ⟨"0" :: segs⟩ else none
    | _ => none

/-- `Addr::parent`. -/
def parent (a : Addr) : Option Addr :=
  if a.segs.length ≤ 1 then none else some ⟨a.segs.dropLast⟩

/-- The addresses above, nearest first. -/
def ancestors (a : Addr) : List Addr := (a.segs.dropLast.inits.tail.reverse).map Addr.mk

/-- `Addr::depth`. -/
def depth (a : Addr) : ℕ := a.segs.length - 1

/-- `Addr::child`. -/
def child (a : Addr) (n : ℕ) : Addr := ⟨a.segs ++ [toString n]⟩

/-- `Addr::is_ancestor_of`. -/
def isAncestorOf (a b : Addr) : Bool :=
  a.segs.length < b.segs.length && a.segs.isPrefixOf b.segs

/-- `Addr::branch`. -/
def branch (a : Addr) : String := "apex/w/" ++ a.text

end Addr

/-! ### Forms -/

/-- `CellForm`: joins, recurs, branches. -/
structure CellForm where
  joins : Bool
  recurs : Bool
  branches : Bool
  deriving DecidableEq, Repr

namespace CellForm

/-- `CellForm::SPINE`. -/
def spine : CellForm := ⟨false, false, false⟩

/-- `CellForm::GATE`. -/
def gate : CellForm := ⟨true, false, false⟩

/-- `arm_join`. -/
def armJoin (f : CellForm) : CellForm := { f with joins := true }

/-- `arm_recur`. -/
def armRecur (f : CellForm) : CellForm := { f with recurs := true }

/-- `arm_branch`. -/
def armBranch (f : CellForm) : CellForm := { f with branches := true }

/-- `CellForm::name`. -/
def name (f : CellForm) : String :=
  match f.branches, f.recurs, f.joins with
  | false, false, false => "spine"
  | false, false, true => "gate"
  | false, true, false => "spiral"
  | false, true, true => "forge"
  | true, false, false => "fan"
  | true, false, true => "diamond"
  | true, true, false => "swarm"
  | true, true, true => "mandala"

end CellForm

/-- `Compose`. -/
inductive Compose
  | free
  | conditional
  | forbidden
  deriving DecidableEq, Repr

/-- `compose`: a child's form under a parent's. -/
def compose (parent child : CellForm) : Compose :=
  if parent.recurs && child.recurs then .forbidden
  else if parent.branches && child.branches then .conditional
  else .free

/-! ### Budgets and rings -/

/-- `BudgetVec`. -/
structure BudgetVec where
  depth : ℕ
  cells : ℕ
  steps : ℕ
  deadlineS : ℕ
  deriving DecidableEq, Repr

/-- `DEPTH_CEIL`. -/
def depthCeil : ℕ := 6

/-- `CELLS_CEIL`. -/
def cellsCeil : ℕ := 64

/-- `admissible`. -/
def admissible (parent child : BudgetVec) (ringFree : ℕ) : Bool :=
  child.depth < parent.depth && child.cells ≤ parent.cells && 1 ≤ child.cells && 1 ≤ ringFree &&
    child.steps ≤ parent.steps && child.deadlineS ≤ parent.deadlineS && 0 < child.depth &&
    0 < child.steps

/-- `contract_child`. -/
def contractChild (parent : BudgetVec) : BudgetVec where
  depth := parent.depth - 1
  cells := 1
  steps := max (parent.steps / 2) 1
  deadlineS := parent.deadlineS

/-- `Lattice`. -/
inductive Lattice
  | spine
  | quad
  | fan
  | spiral
  | funnel
  deriving DecidableEq, Repr

/-- `Lattice::parse`. -/
def Lattice.parse (s : String) : Option Lattice :=
  if s = "spine" then some .spine
  else if s = "quad" then some .quad
  else if s = "fan" then some .fan
  else if s = "spiral" then some .spiral
  else if s = "funnel" then some .funnel
  else none

/-- `{:?}`. -/
def Lattice.debug : Lattice → String
  | spine => "Spine"
  | quad => "Quad"
  | fan => "Fan"
  | spiral => "Spiral"
  | funnel => "Funnel"

/-- `format!("{lattice:?}").to_lowercase()`. -/
def Lattice.name : Lattice → String
  | spine => "spine"
  | quad => "quad"
  | fan => "fan"
  | spiral => "spiral"
  | funnel => "funnel"

/-- `ring_width`. -/
def ringWidth (lattice : Lattice) (ring : ℕ) : ℕ :=
  match lattice with
  | .spine => if ring < 6 then 2 else 0
  | .quad => if ring < 3 then 4 else 0
  | .fan => if ring < 2 then 8 else 0
  | .spiral => [1, 1, 2, 3, 5].getD ring 0
  | .funnel => [9, 4, 1].getD ring 0

/-! ### Records -/

/-- `Invariant`: the root's contract, with the digest of its text. -/
structure Invariant where
  objective : String
  doneWhen : String
  verify : String
  hash : String
  deriving DecidableEq, Repr

/-- `Invariant::directive_block`. -/
def Invariant.directiveBlock (i : Invariant) : String :=
  s!"MANDALA INVARIANT [{String.ofList (i.hash.toList.take 12)}] — the root's exact contract; " ++
    "it never changes at any depth:\n" ++
    s!"OBJECTIVE: {i.objective}\nDONE WHEN: {i.doneWhen}\nVERIFY WITH: `{i.verify}` " ++
    "(run it through your normal tools before claiming done)"

/-- `CellRecord`. -/
structure CellRecord where
  addr : Addr
  form : CellForm
  task : String
  budget : BudgetVec
  invariantHash : String
  worker : Option ℕ
  /-- `"open"`, or the terminal state of the worker as a string. -/
  state : String
  evidence : Option String
  reparentedTo : Option Addr
  createdEpoch : ℕ
  barrierTimeoutS : Option ℕ
  barrierOpened : Bool
  measure : Option String
  measureHistory : List ℕ
  voucher : Bool
  node : Option String
  deriving DecidableEq, Repr

/-- `MandalaRecord`, up to its epochs. -/
structure MandalaRecord where
  id : ℕ
  conductor : UInt64
  lattice : Lattice
  budget : BudgetVec
  invariant : Invariant
  state : String
  repo : Option String
  createdEpoch : ℕ
  deriving DecidableEq, Repr

/-- `is_open_state`. -/
def isOpenState (state : String) : Bool :=
  !(state = "done" || state = "failed" || state = "cancelled")

/-! ### Trees -/

/-- The cells of one mandala, by address. -/
abbrev Tree := Table Addr CellRecord

/-- `reparent_orphans`: a cell whose parent is gone is given its nearest living ancestor. -/
def reparentOrphans (t : Tree) : Tree :=
  t.keys.foldl (fun t addr =>
    match addr.parent with
    | none => t
    | some parent =>
      if t.contains parent then t
      else match (addr.ancestors.drop 1).find? t.contains with
        | none => t
        | some living => t.modify addr fun c => { c with reparentedTo := some living }) t

/-- `next_child_ordinal`. -/
def nextChildOrdinal (t : Tree) (parent : Addr) : ℕ :=
  let ordinals := t.keys.filterMap fun a =>
    if parent.isAncestorOf a then (a.segs[parent.depth + 1]?).bind parseU32 else none
  (ordinals.max?).elim 0 (· + 1)

/-- `open_cells`. -/
def openCells (t : Tree) : ℕ := t.count fun c => isOpenState c.state

/-- Addresses in the order of their texts. -/
def sortAddrs (as : List Addr) : List Addr := as.insertionSort fun a b => a.text ≤ b.text

/-- `open_descendants`. -/
def openDescendants (t : Tree) (addr : Addr) : List Addr :=
  sortAddrs ((t.values.filter fun c => addr.isAncestorOf c.addr && isOpenState c.state).map
    CellRecord.addr)

/-- `descendants`. -/
def descendants (t : Tree) (addr : Addr) : List Addr :=
  sortAddrs ((t.values.filter fun c => addr.isAncestorOf c.addr).map CellRecord.addr)

/-- `breadth_product_ok`: the children actually there down the path, times the new width. -/
def breadthProductOk (t : Tree) (parent : Addr) (newWidth cellsBudget : ℕ) : Bool :=
  let direct (a : Addr) := (t.keys.filter fun k => a.isAncestorOf k && k.depth = a.depth + 1).length
  ((parent :: parent.ancestors).foldl (fun p a => p * max (direct a) 1) (max newWidth 1)) ≤
    cellsBudget

/-! ### The measure law -/

/-- `MEASURE_HISTORY_CAP`. -/
def measureHistoryCap : ℕ := 64

/-- `k_stalled`: the last two laps did not decrease. -/
def kStalled (history : List ℕ) : Bool :=
  match history.reverse with
  | c :: b :: a :: _ => b ≤ c && a ≤ b
  | _ => false

/-- `renewal_grant`: half of what the parent has left, if the last lap decreased. -/
def renewalGrant (parentSteps : ℕ) (history : List ℕ) : Option ℕ :=
  match history.reverse with
  | b :: a :: _ => if b < a && 2 ≤ parentSteps then some (max (parentSteps / 2) 1) else none
  | _ => none

/-- `voucher_scope_ok`. -/
def voucherScopeOk (own parent : Addr) : Bool := own = parent || own.isAncestorOf parent

end ApexOS.Fabrica
