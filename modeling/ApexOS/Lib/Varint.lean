import Mathlib.Data.List.Basic
import Mathlib.Tactic.Ring

/-!
# Bounded variable-length integers

Seven bits to a byte, least significant first, the top bit of a byte saying that another follows:
`varint`s as wire formats use them, with the reader's bound on their length. With at most `k`
continuation bytes every number below `128 ^ (k + 1)` survives the round trip, with the bytes
after it untouched.
-/

namespace Varint

/-- `n` with at most `k` continuation bytes. -/
def toVarint : ℕ → ℕ → List UInt8
  | 0, n => [UInt8.ofNat n]
  | k + 1, n =>
    if n < 128 then [UInt8.ofNat n] else UInt8.ofNat (n % 128 + 128) :: toVarint k (n / 128)

/-- The number at the front, read with at most `k` continuation bytes, and what follows it. -/
def ofVarint : ℕ → List UInt8 → Option (ℕ × List UInt8)
  | _, [] => none
  | 0, b :: bs => if b.toNat < 128 then some (b.toNat, bs) else none
  | k + 1, b :: bs =>
    if b.toNat < 128 then some (b.toNat, bs)
    else (ofVarint k bs).map fun r => (b.toNat - 128 + 128 * r.1, r.2)

private theorem toNat_byte {n : ℕ} (h : n < 256) : (UInt8.ofNat n).toNat = n :=
  UInt8.toNat_ofNat_of_lt' (show n < UInt8.size from h)

/-- **Round trip.** -/
theorem ofVarint_toVarint {k n : ℕ} (h : n < 128 ^ (k + 1)) (rest : List UInt8) :
    ofVarint k (toVarint k n ++ rest) = some (n, rest) := by
  induction k generalizing n with
  | zero =>
    have hsmall : n < 128 := by simpa using h
    rw [toVarint, List.singleton_append, ofVarint, toNat_byte (by omega), if_pos hsmall]
  | succ k ih =>
    rw [toVarint]
    by_cases hsmall : n < 128
    · rw [if_pos hsmall, List.singleton_append, ofVarint, toNat_byte (by omega), if_pos hsmall]
    · have hdiv : n / 128 < 128 ^ (k + 1) := by
        refine Nat.div_lt_of_lt_mul ?_
        calc n < 128 ^ (k + 1 + 1) := h
          _ = 128 * 128 ^ (k + 1) := by ring
      rw [if_neg hsmall, List.cons_append, ofVarint, toNat_byte (by omega), if_neg (by omega),
        ih hdiv]
      simp only [Option.map_some, Option.some.injEq, Prod.mk.injEq, and_true]
      omega

end Varint
