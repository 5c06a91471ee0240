import Mathlib.Algebra.Order.Floor.Div
import Mathlib.Data.List.Basic
import Mathlib.Tactic.Ring

/-!
# Cutting a list into pieces of one length

A list is cut into pieces of `n` elements, the last one whatever is left. `pieceLen` says how long
the `i`-th piece is, from the total alone, so that someone who holds no piece yet can check each
one as it comes; `length_flatten_of_pieceLen` says that the check adds up.

## Main definitions

* `Pieces.cut`: the pieces
* `Pieces.pieceLen`: the length of a piece

## Main results

* `Pieces.flatten_cut`: the pieces make up the list
* `Pieces.length_cut`: there are `⌈total / n⌉` of them
* `Pieces.length_flatten_of_pieceLen`: pieces of the right lengths, all there, have the right total
-/

namespace Pieces

variable {α : Type*} {n : ℕ}

/-- The pieces of a list, each of `n` elements but the last. -/
def cut (n : ℕ) (l : List α) : List (List α) :=
  if l = [] ∨ n = 0 then [] else l.take n :: cut n (l.drop n)
termination_by l.length
decreasing_by
  rename_i h
  rw [not_or, ← List.length_eq_zero_iff] at h
  rw [List.length_drop]
  omega

/-- The length of the `i`-th piece of `total` elements. -/
def pieceLen (n total i : ℕ) : ℕ := min n (total - i * n)

theorem cut_nil : cut n ([] : List α) = [] := by
  rw [cut, if_pos (Or.inl rfl)]

theorem cut_of_ne_nil (hn : 0 < n) {l : List α} (hl : l ≠ []) :
    cut n l = l.take n :: cut n (l.drop n) := by
  rw [cut, if_neg]
  rw [not_or]
  exact ⟨hl, hn.ne'⟩

/-- The pieces make up the list. -/
theorem flatten_cut (hn : 0 < n) (l : List α) : (cut n l).flatten = l := by
  fun_induction cut n l with
  | case1 l h => simpa [hn.ne', eq_comm] using h
  | case2 l h ih => rw [List.flatten_cons, ih, List.take_append_drop]

/-! ### How many, and how long -/

theorem ceilDiv_eq_succ {total : ℕ} (hn : 0 < n) (htotal : 0 < total) :
    total ⌈/⌉ n = (total - n) ⌈/⌉ n + 1 := by
  rw [Nat.ceilDiv_eq_add_pred_div, Nat.ceilDiv_eq_add_pred_div]
  rcases le_or_gt total n with h | h
  · rw [Nat.sub_eq_zero_of_le h, Nat.zero_add, Nat.div_eq_of_lt (by omega : n - 1 < n)]
    exact Nat.div_eq_of_lt_le (by omega) (by omega)
  · rw [show total + n - 1 = total - n + n - 1 + n by omega, Nat.add_div_right _ hn]

theorem length_cut (hn : 0 < n) (l : List α) : (cut n l).length = l.length ⌈/⌉ n := by
  fun_induction cut n l with
  | case1 l h =>
    obtain rfl : l = [] := by simpa [hn.ne'] using h
    simp
  | case2 l h ih =>
    have hpos : 0 < l.length := List.length_pos_iff.mpr (not_or.mp h).1
    rw [List.length_cons, ih, List.length_drop, ceilDiv_eq_succ hn hpos]

theorem length_of_getElem?_cut (hn : 0 < n) {l piece : List α} {i : ℕ}
    (h : (cut n l)[i]? = some piece) : piece.length = pieceLen n l.length i := by
  induction i generalizing l with
  | zero =>
    rcases eq_or_ne l [] with rfl | hl
    · simp [cut_nil] at h
    · rw [cut_of_ne_nil hn hl, List.getElem?_cons_zero, Option.some.injEq] at h
      rw [← h, List.length_take, pieceLen, Nat.zero_mul, Nat.sub_zero]
  | succ i ih =>
    rcases eq_or_ne l [] with rfl | hl
    · simp [cut_nil] at h
    · rw [cut_of_ne_nil hn hl, List.getElem?_cons_succ] at h
      rw [ih h, pieceLen, pieceLen, List.length_drop, Nat.sub_sub, Nat.succ_mul, Nat.add_comm n]

/-- A piece begins before the end. -/
theorem mul_lt_of_lt_ceilDiv (hn : 0 < n) {total i : ℕ} (h : i < total ⌈/⌉ n) : i * n < total := by
  by_contra hle
  rw [not_lt, Nat.mul_comm] at hle
  exact absurd h (not_lt.mpr ((ceilDiv_le_iff_le_mul hn).mpr hle))

/-- The last piece takes what is left. -/
theorem pieceLen_last (hn : 0 < n) {total i : ℕ} (h : i + 1 = total ⌈/⌉ n) :
    pieceLen n total i = total - i * n := by
  have hle : total ≤ n * (i + 1) := (ceilDiv_le_iff_le_mul hn).mp h.ge
  rw [pieceLen, min_eq_right]
  rw [Nat.mul_succ, Nat.mul_comm] at hle
  omega

/-- Any other piece is full. -/
theorem pieceLen_of_not_last (hn : 0 < n) {total i : ℕ} (h : i + 1 < total ⌈/⌉ n) :
    pieceLen n total i = n := by
  have hlt := mul_lt_of_lt_ceilDiv hn h
  rw [pieceLen, min_eq_left]
  rw [Nat.succ_mul] at hlt
  omega

/-- The first pieces of the right lengths have the total they should. -/
private theorem length_flatten_min {total : ℕ} (pieces : List (List α))
    (h : ∀ i piece, pieces[i]? = some piece → piece.length = pieceLen n total i) :
    pieces.flatten.length = min (pieces.length * n) total := by
  induction pieces using List.reverseRecOn with
  | nil => simp
  | append_singleton pieces piece ih =>
    have hinit : ∀ i p, pieces[i]? = some p → p.length = pieceLen n total i := by
      intro i p hp
      have hi : i < pieces.length := (List.getElem?_eq_some_iff.mp hp).1
      exact h i p (by rw [List.getElem?_append_left hi, hp])
    have hlast : piece.length = pieceLen n total pieces.length := h _ _ (by simp)
    rw [List.flatten_concat, List.length_append, ih hinit, hlast, pieceLen, List.length_append,
      List.length_singleton, Nat.succ_mul]
    omega

/-- **The lengths add up**: pieces of the right lengths, as many as there should be, have the right
total. -/
theorem length_flatten_of_pieceLen (hn : 0 < n) {total : ℕ} {pieces : List (List α)}
    (hcount : pieces.length = total ⌈/⌉ n)
    (h : ∀ i piece, pieces[i]? = some piece → piece.length = pieceLen n total i) :
    pieces.flatten.length = total := by
  have hle : total ≤ n * pieces.length := (ceilDiv_le_iff_le_mul hn).mp hcount.ge
  rw [length_flatten_min pieces h, min_eq_right (by rwa [Nat.mul_comm])]

end Pieces
