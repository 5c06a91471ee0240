import Mathlib.Data.List.Basic
import Mathlib.Tactic.Ring

/-!
# Little-endian byte strings

Fixed-width little-endian encoding of natural numbers, as `to_le_bytes` and `from_le_bytes` of a
machine integer do it. The width is the number of bytes; a number below `256 ^ w` survives the
round trip at width `w`.
-/

namespace LittleEndian

/-- The `w` low bytes of `n`, least significant first. -/
def toLE : ℕ → ℕ → List UInt8
  | 0, _ => []
  | w + 1, n => UInt8.ofNat (n % 256) :: toLE w (n / 256)

/-- The number a little-endian byte string denotes. -/
def ofLE : List UInt8 → ℕ
  | [] => 0
  | b :: bs => b.toNat + 256 * ofLE bs

@[simp] theorem length_toLE (w n : ℕ) : (toLE w n).length = w := by
  induction w generalizing n with
  | zero => rfl
  | succ w ih => simp [toLE, ih]

/-- **Round trip.** -/
theorem ofLE_toLE {w n : ℕ} (h : n < 256 ^ w) : ofLE (toLE w n) = n := by
  induction w generalizing n with
  | zero => simp only [pow_zero] at h; simp only [toLE, ofLE]; omega
  | succ w ih =>
    have hdiv : n / 256 < 256 ^ w := by
      refine Nat.div_lt_of_lt_mul ?_
      calc n < 256 ^ (w + 1) := h
        _ = 256 * 256 ^ w := by ring
    have hbyte : (UInt8.ofNat (n % 256)).toNat = n % 256 := by simp
    rw [toLE, ofLE, ih hdiv, hbyte]
    exact Nat.mod_add_div n 256

theorem ofLE_toLE_uint16 (x : UInt16) : ofLE (toLE 2 x.toNat) = x.toNat :=
  ofLE_toLE (by simpa using x.toNat_lt)

theorem ofLE_toLE_uint64 (x : UInt64) : ofLE (toLE 8 x.toNat) = x.toNat :=
  ofLE_toLE (by simpa using x.toNat_lt)

end LittleEndian
