import Mathlib.Data.List.Perm.Basic
import Mathlib.Data.List.Sort
import Mathlib.Order.Basic

/-!
# The nearest of a list

What `ORDER BY d LIMIT n` answers: some `n` elements, in the order of their distances, none of which
is farther than one that is left out. Which of several at one distance it answers with is left open,
so the answer is a relation.

## Main definitions

* `IsNearest`: the `n` nearest elements of a list

## Main results

* `IsNearest.filterMap`: the nearest, of which some are dropped
* `IsNearest.of_part_iff`: the nearest of a part that lies nearer than the rest
* `isNearest_take`: sorting and taking is an answer
-/

variable {α β δ : Type*} [LinearOrder δ] {d : α → δ} {n : ℕ} {l r : List α}

/-- The elements of `r` are the `n` nearest of `l`, the nearest first. -/
structure IsNearest (d : α → δ) (n : ℕ) (l r : List α) : Prop where
  rest : ∃ out, (r ++ out).Perm l ∧ ∀ x ∈ r, ∀ y ∈ out, d x ≤ d y
  sorted : r.Pairwise fun x y => d x ≤ d y
  length : r.length = min n l.length

namespace IsNearest

theorem subset (h : IsNearest d n l r) : r ⊆ l := by
  obtain ⟨out, hperm, -⟩ := h.rest
  exact fun x hx => hperm.subset (List.mem_append_left out hx)

/-- With room for all, all of them are there. -/
theorem perm_of_le (h : IsNearest d n l r) (hn : l.length ≤ n) : r.Perm l := by
  obtain ⟨out, hperm, -⟩ := h.rest
  refine ((List.sublist_append_left r out).subperm.trans hperm.subperm).perm_of_length_le ?_
  rw [h.length, min_eq_right hn]

/-- **The nearest of which some are dropped** lie nearer than those of the rest that are not. -/
theorem filterMap {e : β → δ} {f : α → Option β} (hf : ∀ x y, f x = some y → e y = d x)
    (h : IsNearest d n l r) : ∃ out, (r.filterMap f ++ out).Perm (l.filterMap f) ∧
      ∀ x ∈ r.filterMap f, ∀ y ∈ out, e x ≤ e y := by
  obtain ⟨out, hperm, hle⟩ := h.rest
  refine ⟨out.filterMap f, ?_, fun x hx y hy => ?_⟩
  · rw [← List.filterMap_append]
    exact hperm.filterMap f
  · obtain ⟨x₀, hx₀, hfx⟩ := List.mem_filterMap.mp hx
    obtain ⟨y₀, hy₀, hfy⟩ := List.mem_filterMap.mp hy
    rw [hf x₀ x hfx, hf y₀ y hfy]
    exact hle x₀ hx₀ y₀ hy₀

/-- **The nearest of a part** that lies nearer than the rest are the nearest of all, if there are
enough of them. -/
theorem of_part_iff {m : ℕ} {part : List α}
    (hpart : ∃ out, (part ++ out).Perm l ∧ ∀ x ∈ part, ∀ y ∈ out, d x ≤ d y)
    (h : IsNearest d m part r) : IsNearest d n l r ↔ r.length = min n l.length := by
  obtain ⟨far, hperm, hfar⟩ := hpart
  obtain ⟨left, hleft, hle⟩ := h.rest
  refine ⟨fun hall => hall.length, fun henough => ?_⟩
  refine ⟨⟨left ++ far, ?_, fun x hx y hy => ?_⟩, h.sorted, henough⟩
  · rw [← List.append_assoc]
    exact (hleft.append_right far).trans hperm
  · rcases List.mem_append.mp hy with hy | hy
    · exact hle x hx y hy
    · exact hfar x (h.subset hx) y hy

end IsNearest

/-- **Sorting and taking** is an answer. -/
theorem isNearest_take {sorted : List α} (hperm : sorted.Perm l)
    (hsorted : sorted.Pairwise fun x y => d x ≤ d y) : IsNearest d n l (sorted.take n) := by
  refine ⟨⟨sorted.drop n, ?_, ?_⟩, hsorted.take, ?_⟩
  · rw [List.take_append_drop]
    exact hperm
  · rw [← List.take_append_drop n sorted] at hsorted
    exact (List.pairwise_append.mp hsorted).2.2
  · rw [List.length_take, hperm.length_eq]

/-- By insertion. -/
theorem isNearest_take_insertionSort (d : α → δ) (n : ℕ) (l : List α) :
    IsNearest d n l ((l.insertionSort fun x y => d x ≤ d y).take n) := by
  have htotal : Std.Total fun x y => d x ≤ d y := ⟨fun x y => le_total (d x) (d y)⟩
  have htrans : IsTrans α fun x y => d x ≤ d y := ⟨fun _ _ _ => le_trans⟩
  exact isNearest_take (List.perm_insertionSort _ l) (List.pairwise_insertionSort _ l)
