import ApexOS.Cerebro.Vectors
import ApexOS.Lib.Nearest

/-!
# Searching by vector

`search_seeded` and `vec_search_blob` of `cerebro/crates/cerebro/src/storage/vector.rs`. The index
is asked for the nearest five times as many rows as are wanted, and only then are rows dropped that
are deleted or out of scope; when none is left, keywords are searched instead.

`ORDER BY distance LIMIT n` answers with some `n` nearest rows; which of several at one distance is
a parameter, and so is the answer of the search by keywords.

## Main definitions

* `Engine`: the database's answers
* `vecSearchBlob`, `searchSeeded`: the search
* `visibleHits`: the live memories that the scope lets through, with their distances
* `Complete`: an answer has the nearest of these

## Main results

* `searchSeeded_complete_iff`: when the answer is complete
* `not_complete`: vectors of others lie nearer
-/

namespace ApexOS.Cerebro.VectorSearch

open Vectors (State Row)

variable {V : Type}

/-- A memory with its distance from the query. -/
abbrev Hit := MemoryId × ℚ

/-- What the database answers. -/
structure Engine (V : Type) where
  distance : V → V → ℚ
  /-- `ORDER BY d LIMIT n` -/
  nearest : ∀ {α : Type}, (α → ℚ) → ℕ → List α → List α
  nearest_spec : ∀ {α : Type} (d : α → ℚ) (n : ℕ) (l : List α), IsNearest d n l (nearest d n l)
  /-- `fts5_search`, of the query at hand -/
  fts5Search : UInt64 → VisibilityScope → List (MemoryId × ℚ)

/-- A limit, cast to a signed word: a negative one is none. -/
def limitOf {α : Type} (n : UInt64) (l : List α) : ℕ :=
  if n.toNat < 2 ^ 63 then n.toNat else l.length

section

variable (e : Engine V) (s : State V) (scope : VisibilityScope) (query : V)

/-- A row of the index, joined with its memory, if that is live and in scope. -/
def hit (x : ℤ × V) : Option Hit :=
  (s.rows.entries.find? fun y => y.2.rowid = x.1 && (!y.2.deleted && y.2.seen scope)).map fun y =>
    (y.1, e.distance query x.2)

/-- The candidates that are live and in scope. -/
def candidateHits (k : UInt64) : List Hit :=
  (e.nearest (fun x => e.distance query x.2) (limitOf (k * 5) s.vectors.entries)
    s.vectors.entries).filterMap (hit e s scope query)

/-- `vec_search_blob`, before the scores are made of the distances. -/
def nearestHits (k : UInt64) : List Hit :=
  let hits := candidateHits e s scope query k
  e.nearest Prod.snd (limitOf k hits) hits

/-- `vec_search_blob`. -/
def vecSearchBlob (k : UInt64) : List (MemoryId × ℚ) :=
  (nearestHits e s scope query k).map fun h => (h.1, clampUnit (1 - h.2))

/-- `search_seeded`. -/
def searchSeeded (vecAvailable : Bool) (queryVec : Option V) (k : UInt64) : List (MemoryId × ℚ) :=
  match vecAvailable, queryVec with
  | true, some query =>
    let results := vecSearchBlob e s scope query k
    if results.isEmpty then e.fts5Search k scope else results
  | _, _ => e.fts5Search k scope

/-- What can be found: the live memories with a vector that the scope lets through. -/
def visibleHits : List Hit := s.vectors.entries.filterMap (hit e s scope query)

/-- **An answer is complete**: it has the nearest memories that can be found, as many as are
wanted. -/
def Complete (k : UInt64) (answer : List (MemoryId × ℚ)) : Prop :=
  ∃ hits, IsNearest Prod.snd k.toNat (visibleHits e s scope query) hits ∧
    answer.map Prod.fst = hits.map Prod.fst

/-- How many memories come out of the search by vector. -/
def found (k : UInt64) : ℕ :=
  min (limitOf k (candidateHits e s scope query k)) (candidateHits e s scope query k).length

end

variable {e : Engine V} {s : State V} {scope : VisibilityScope} {query : V} {k : UInt64}

theorem hit_distance {x : ℤ × V} {y : Hit} (h : hit e s scope query x = some y) :
    y.2 = e.distance query x.2 := by
  obtain ⟨z, -, rfl⟩ := Option.map_eq_some_iff.mp h
  rfl

/-- The candidates lie nearer than what is left of what can be found. -/
theorem candidateHits_part (e : Engine V) (s : State V) (scope : VisibilityScope) (query : V)
    (k : UInt64) : ∃ out, (candidateHits e s scope query k ++ out).Perm
        (visibleHits e s scope query) ∧
      ∀ x ∈ candidateHits e s scope query k, ∀ y ∈ out, x.2 ≤ y.2 :=
  (e.nearest_spec _ _ _).filterMap fun _ _ => hit_distance

theorem length_nearestHits : (nearestHits e s scope query k).length = found e s scope query k :=
  (e.nearest_spec _ _ _).length

/-- **The search by vector** is complete if enough memories come out. -/
theorem isNearest_nearestHits_iff : IsNearest Prod.snd k.toNat (visibleHits e s scope query)
      (nearestHits e s scope query k) ↔
    found e s scope query k = min k.toNat (visibleHits e s scope query).length := by
  rw [← length_nearestHits]
  exact IsNearest.of_part_iff (candidateHits_part e s scope query k) (e.nearest_spec _ _ _)

theorem complete_vecSearchBlob_iff :
    Complete e s scope query k (vecSearchBlob e s scope query k) ↔
      found e s scope query k = min k.toNat (visibleHits e s scope query).length := by
  have hids : (vecSearchBlob e s scope query k).map Prod.fst =
      (nearestHits e s scope query k).map Prod.fst := by
    rw [vecSearchBlob, List.map_map]
    rfl
  constructor
  · rintro ⟨hits, hnearest, heq⟩
    have hlength := congrArg List.length (hids.symm.trans heq)
    rw [List.length_map, List.length_map, length_nearestHits] at hlength
    exact hlength.trans hnearest.length
  · intro hfound
    exact ⟨_, isNearest_nearestHits_iff.mpr hfound, hids⟩

/-- **The answer is complete** if as many memories in scope are among the candidates as are wanted
and can be found; or if none is, and the search by keywords happens to find the right ones. -/
theorem searchSeeded_complete_iff (e : Engine V) (s : State V) (scope : VisibilityScope) (query : V)
    (k : UInt64) :
    Complete e s scope query k (searchSeeded e s scope true (some query) k) ↔
      if found e s scope query k = 0 then Complete e s scope query k (e.fts5Search k scope)
      else found e s scope query k = min k.toNat (visibleHits e s scope query).length := by
  rw [searchSeeded]
  have hempty : (vecSearchBlob e s scope query k).isEmpty = true ↔
      found e s scope query k = 0 := by
    rw [List.isEmpty_iff, vecSearchBlob, List.map_eq_nil_iff, ← List.length_eq_zero_iff,
      length_nearestHits]
  by_cases hzero : found e s scope query k = 0
  · rw [if_pos (hempty.mpr hzero), if_pos hzero]
  · rw [if_neg fun h => hzero (hempty.mp h), if_neg hzero]
    exact complete_vecSearchBlob_iff

/-- **Few vectors**: where the candidates are all there are, the search by vector is complete. -/
theorem found_eq_of_few (hk : k.toNat * 5 < 2 ^ 63) (h : s.vectors.entries.length ≤ k.toNat * 5) :
    found e s scope query k = min k.toNat (visibleHits e s scope query).length := by
  have hmul : (k * 5).toNat = k.toNat * 5 := by
    rw [UInt64.toNat_mul]
    exact Nat.mod_eq_of_lt (by simpa using by omega)
  have hlimit : limitOf (k * 5) s.vectors.entries = k.toNat * 5 := by
    rw [limitOf, hmul, if_pos hk]
  have hspec := e.nearest_spec (fun x => e.distance query x.2)
    (limitOf (k * 5) s.vectors.entries) s.vectors.entries
  have hall := hspec.perm_of_le (by rw [hlimit]; exact h)
  have hlength : (candidateHits e s scope query k).length =
      (visibleHits e s scope query).length := (hall.filterMap _).length_eq
  rw [found, limitOf, if_pos (by omega), hlength]

/-! ### A crowded neighbourhood -/

/-- The line, searched by sorting; no keyword is found. -/
def line : Engine ℚ where
  distance x y := |x - y|
  nearest d n l := (l.insertionSort fun x y => d x ≤ d y).take n
  nearest_spec := isNearest_take_insertionSort
  fts5Search _ _ := []

/-- A private memory with a vector. -/
def memory (n : ℤ) (owner : AgentId) (v : ℚ) : Row ℚ := ⟨n, "", some owner, .priv, false, some v⟩

/-- Five memories of one agent, and farther off one of another. -/
def crowded : State ℚ where
  rows := ⟨[("b1", memory 1 "bob" 0), ("b2", memory 2 "bob" 0), ("b3", memory 3 "bob" 0),
    ("b4", memory 4 "bob" 0), ("b5", memory 5 "bob" 0), ("a", memory 6 "ada" 1)], by decide⟩
  versions := ⟨0, .empty⟩
  vectors := ⟨[(1, 0), (2, 0), (3, 0), (4, 0), (5, 0), (6, 1)], by decide⟩

/-- **Vectors of others** lie nearer, and nothing is found. -/
theorem not_complete : ¬ Complete line crowded (.forAgent "ada") 0 1
    (searchSeeded line crowded (.forAgent "ada") true (some 0) 1) := by
  have hanswer : searchSeeded line crowded (.forAgent "ada") true (some 0) 1 = [] := by
    decide +kernel
  have hvisible : (visibleHits line crowded (.forAgent "ada") 0).length = 1 := by decide +kernel
  rw [hanswer]
  rintro ⟨hits, hnearest, heq⟩
  have hnone : hits = [] := List.map_eq_nil_iff.mp heq.symm
  have hlength := hnearest.length
  rw [hvisible, hnone] at hlength
  exact absurd hlength (by decide)

end ApexOS.Cerebro.VectorSearch
