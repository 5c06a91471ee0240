import Mathlib.Data.Finset.Lattice.Fold
import Mathlib.Data.Finset.Insert
import Mathlib.Order.Lattice.Nat

/-!
# Sliding bitmap windows

A set of positive numbers that only ever grows, remembered by its highest element and a `W`-bit
map of the `W` numbers below it: the classic anti-replay window. `Covers hi bm A` says that the
pair `(hi, bm)` remembers the finite set `A`; the bitmap knows nothing about members more than
`W - 1` below the top, and `Fresh` refuses those outright, so the two agree.

Natural subtraction does the work of the boundary: bit `i` stands for `hi - i`, and for `i ≥ hi`
that is `0`, which no counter set contains.

## Main results

* `SlidingWindow.Covers.advance`: a number above the top shifts the map and sets bit `0`
* `SlidingWindow.Covers.mark`: a number inside the window sets its own bit
* `SlidingWindow.Covers.bit_iff`: the bit of a number inside the window says whether it is in `A`
-/

namespace SlidingWindow

variable {W : ℕ}

/-- `c` is new to `A` and not too old: positive, unseen, and less than `W` below the top. -/
def Fresh (W : ℕ) (A : Finset ℕ) (c : ℕ) : Prop := 1 ≤ c ∧ c ∉ A ∧ A.sup id < c + W

instance (A : Finset ℕ) (c : ℕ) : Decidable (Fresh W A c) :=
  inferInstanceAs (Decidable (_ ∧ _ ∧ _))

/-- The window with top `hi` and bitmap `bm` remembers the set `A`. -/
structure Covers (hi : ℕ) (bm : BitVec W) (A : Finset ℕ) : Prop where
  /-- Counters are positive. -/
  zero_notMem : 0 ∉ A
  /-- The top is the highest member, `0` when there is none. -/
  sup_eq : A.sup id = hi
  /-- Bit `i` is set exactly when `hi - i` is a member. -/
  getLsbD_iff : ∀ i < W, bm.getLsbD i = true ↔ hi - i ∈ A

theorem covers_empty : Covers 0 (0#W) ∅ where
  zero_notMem := by simp
  sup_eq := rfl
  getLsbD_iff := by simp

variable {hi c : ℕ} {bm : BitVec W} {A : Finset ℕ}

theorem Covers.le (h : Covers hi bm A) (hc : c ∈ A) : c ≤ hi :=
  h.sup_eq ▸ Finset.le_sup (f := id) hc

/-- The window moves up to a number above its top: what it knew shifts out of the way. -/
theorem Covers.advance (h : Covers hi bm A) (hc : hi < c) :
    Covers c (bm <<< (c - hi) ||| 1#W) (insert c A) where
  zero_notMem := by
    have := h.zero_notMem
    simp only [Finset.mem_insert, not_or]
    exact ⟨by omega, this⟩
  sup_eq := by
    rw [Finset.sup_insert, h.sup_eq]
    exact sup_eq_left.mpr hc.le
  getLsbD_iff := by
    intro i hi'
    have hone : (1#W).getLsbD i = true ↔ i = 0 := by simp [BitVec.getLsbD_one]; omega
    rw [BitVec.getLsbD_or, Bool.or_eq_true, hone, BitVec.getLsbD_shiftLeft, Finset.mem_insert]
    simp only [hi', decide_true, Bool.true_and, Bool.and_eq_true, Bool.not_eq_true',
      decide_eq_false_iff_not]
    -- Bits below the shift stand for numbers between the old top and the new one: none is a member.
    by_cases hshift : i < c - hi
    · have hnot : c - i ∉ A := fun hmem => by have := h.le hmem; omega
      simp only [hshift, not_true_eq_false, false_and, false_or, hnot, or_false]
      omega
    · have hsub : hi - (i - (c - hi)) = c - i := by omega
      rw [h.getLsbD_iff _ (by omega), hsub]
      simp only [hshift, not_false_eq_true, true_and]
      constructor
      · rintro (hmem | rfl)
        · exact Or.inr hmem
        · exact Or.inl (by omega)
      · rintro (heq | hmem)
        · exact Or.inr (by omega)
        · exact Or.inl hmem

/-- The one bit set in `1 <<< k`. -/
private theorem getLsbD_one_shiftLeft {i k : ℕ} (hi : i < W) :
    (1#W <<< k).getLsbD i = decide (i = k) := by
  rw [Bool.eq_iff_iff]
  simp [hi]
  omega

/-- A number inside the window sets its own bit. -/
theorem Covers.mark (h : Covers hi bm A) (hpos : 0 < c) (hle : c ≤ hi) :
    Covers hi (bm ||| 1#W <<< (hi - c)) (insert c A) where
  zero_notMem := by
    have := h.zero_notMem
    simp only [Finset.mem_insert, not_or]
    exact ⟨by omega, this⟩
  sup_eq := by
    rw [Finset.sup_insert, h.sup_eq]
    exact sup_eq_right.mpr hle
  getLsbD_iff := by
    intro i hi'
    rw [BitVec.getLsbD_or, Bool.or_eq_true, getLsbD_one_shiftLeft hi', decide_eq_true_eq,
      h.getLsbD_iff i hi', Finset.mem_insert]
    constructor
    · rintro (hmem | rfl)
      · exact Or.inr hmem
      · exact Or.inl (by omega)
    · rintro (heq | hmem)
      · exact Or.inr (by omega)
      · exact Or.inl hmem

/-- Testing the bit of a number inside the window answers whether it was seen. -/
theorem Covers.bit_iff (h : Covers hi bm A) (hle : c ≤ hi) (hW : hi < c + W) :
    bm &&& 1#W <<< (hi - c) ≠ 0#W ↔ c ∈ A := by
  have hlt : hi - c < W := by omega
  have hkey : bm.getLsbD (hi - c) = true ↔ c ∈ A := by
    rw [h.getLsbD_iff _ hlt, show hi - (hi - c) = c by omega]
  rw [← hkey]
  constructor
  · intro hne
    by_contra hclear
    refine hne (BitVec.eq_of_getLsbD_eq fun i hi' => ?_)
    rw [BitVec.getLsbD_and, getLsbD_one_shiftLeft hi', BitVec.getLsbD_zero]
    by_cases hi'' : i = hi - c
    · subst hi''; simpa using hclear
    · simp [hi'']
  · intro hset hzero
    have := congrArg (fun x => x.getLsbD (hi - c)) hzero
    simp [getLsbD_one_shiftLeft hlt, hset] at this

end SlidingWindow
