import Mathlib.Order.Lattice
import Mathlib.Data.Nat.Notation
import Mathlib.Algebra.Group.Nat.Defs

/-!
# Saturating arithmetic on 64-bit words

`saturating_add` and `saturating_sub`: the result is clamped to the ends of the range where the
plain operation would wrap. Everything about them is said through `toNat`, where clamping is a
`min` or a truncated subtraction.
-/

namespace Saturating

/-- `u64::MAX`. -/
def maxU64 : UInt64 := 18446744073709551615

@[simp] theorem toNat_maxU64 : maxU64.toNat = 2 ^ 64 - 1 := rfl

/-- `a.saturating_add(b)`. -/
def add (a b : UInt64) : UInt64 := if a.toNat + b.toNat < 2 ^ 64 then a + b else maxU64

/-- `a.saturating_sub(b)`. -/
def sub (a b : UInt64) : UInt64 := if b ≤ a then a - b else 0

theorem toNat_add (a b : UInt64) : (add a b).toNat = min (a.toNat + b.toNat) (2 ^ 64 - 1) := by
  rw [add]
  split
  · rename_i h
    rw [UInt64.toNat_add, Nat.mod_eq_of_lt h]
    omega
  · rename_i h
    rw [toNat_maxU64]
    omega

theorem le_add (a b : UInt64) : a ≤ add a b := by
  have := a.toNat_lt
  rw [UInt64.le_iff_toNat_le, toNat_add]
  omega

/-- Adding one is the successor, unless there is none. -/
theorem toNat_add_one {a : UInt64} (h : a ≠ maxU64) : (add a 1).toNat = a.toNat + 1 := by
  have hlt := a.toNat_lt
  have hne : a.toNat ≠ 2 ^ 64 - 1 := fun hc => h (UInt64.toNat_inj.mp hc)
  rw [toNat_add, show (1 : UInt64).toNat = 1 from rfl]
  omega

end Saturating
