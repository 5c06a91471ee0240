import Mathlib.Data.List.Basic
import Mathlib.Data.Nat.Notation

/-!
# Keys with a number at the end

A key made from a text, a separator and a number determines both, whatever the text, as long as the
separator is no digit. So keys made from different numbers differ.

## Main results

* `Numeral.toDigits_injective`: a number is determined by its digits
* `Numeral.append_inj`: a list is cut at the last of its separators in one way
* `Numeral.key_injective`: the number of a key
-/

namespace Numeral

theorem digitChar_injective {m n : ℕ} (hm : m < 16) (hn : n < 16)
    (h : m.digitChar = n.digitChar) : m = n := by
  have hall : ∀ m < 16, ∀ n < 16, m.digitChar = n.digitChar → m = n := by decide
  exact hall m hm n hn h

/-- The digits of a number in a base up to sixteen determine it. -/
theorem toDigits_injective {b : ℕ} (hb : 1 < b) (hb' : b ≤ 16) {m n : ℕ}
    (h : Nat.toDigits b m = Nat.toDigits b n) : m = n := by
  induction m using Nat.strongRecOn generalizing n with
  | _ m ih =>
    have hlast (k : ℕ) : ∃ front, Nat.toDigits b k = front ++ [(k % b).digitChar] ∧
        (front = [] ↔ k < b) ∧ (b ≤ k → front = Nat.toDigits b (k / b)) := by
      rcases Nat.lt_or_ge k b with hk | hk
      · refine ⟨[], ?_, by simp [hk], fun hk' => absurd hk' (by omega)⟩
        rw [Nat.toDigits_of_lt_base hk, Nat.mod_eq_of_lt hk, List.nil_append]
      · refine ⟨_, Nat.toDigits_of_base_le hb hk, ?_, fun _ => rfl⟩
        simp [Nat.toDigits_ne_nil, hk]
    obtain ⟨front, hm, hshort, hfront⟩ := hlast m
    obtain ⟨front', hn, hshort', hfront'⟩ := hlast n
    rw [hm, hn] at h
    obtain ⟨rfl, hdigit⟩ := List.append_inj' h rfl
    have hmod : m % b = n % b :=
      digitChar_injective (by have := Nat.mod_lt m (by omega : b > 0); omega)
        (by have := Nat.mod_lt n (by omega : b > 0); omega) (by simpa using hdigit)
    rcases Nat.lt_or_ge m b with hlt | hge
    · have hlt' := hshort'.mp (hshort.mpr hlt)
      rwa [Nat.mod_eq_of_lt hlt, Nat.mod_eq_of_lt hlt'] at hmod
    · have hge' : b ≤ n := by
        rcases Nat.lt_or_ge n b with hlt' | hge'
        · exact absurd (hshort.mp (hshort'.mpr hlt')) (by omega)
        · exact hge'
      have hdiv : m / b = n / b :=
        ih _ (Nat.div_lt_self (by omega) hb) ((hfront hge).symm.trans (hfront' hge'))
      rw [← Nat.div_add_mod m b, ← Nat.div_add_mod n b, hmod, hdiv]

/-- The digits of a number are among the characters digits are written with. -/
theorem notMem_toDigits {b : ℕ} (hb : 1 < b) {c : Char} (hc : ∀ d < b, d.digitChar ≠ c) (n : ℕ) :
    c ∉ Nat.toDigits b n := by
  induction n using Nat.strongRecOn with
  | _ n ih =>
    rcases Nat.lt_or_ge n b with hn | hn
    · rw [Nat.toDigits_of_lt_base hn, List.mem_singleton]
      exact fun h => hc n hn h.symm
    · rw [Nat.toDigits_of_base_le hb hn, List.mem_append, List.mem_singleton]
      rintro (h | h)
      · exact ih _ (Nat.div_lt_self (by omega) hb) h
      · exact hc _ (Nat.mod_lt n (by omega)) h.symm

/-- A list is cut at the last of its separators in one way. -/
theorem append_inj {α : Type*} {c : α} {front front' back back' : List α} (hback : c ∉ back)
    (hback' : c ∉ back') (h : front ++ c :: back = front' ++ c :: back') :
    front = front' ∧ back = back' := by
  rcases List.append_eq_append_iff.mp h with ⟨mid, rfl, hmid⟩ | ⟨mid, rfl, hmid⟩
  · cases mid with
    | nil => exact ⟨(List.append_nil _).symm, (List.cons.inj hmid).2⟩
    | cons d mid =>
      refine absurd ?_ hback
      rw [(List.cons.inj hmid).2]
      exact List.mem_append_right _ List.mem_cons_self
  · cases mid with
    | nil => exact ⟨List.append_nil _, (List.cons.inj hmid).2.symm⟩
    | cons d mid =>
      refine absurd ?_ hback'
      rw [(List.cons.inj hmid).2]
      exact List.mem_append_right _ List.mem_cons_self

/-- A text, a separator, and a number in a base: the text and the number are determined. -/
theorem key_injective {b : ℕ} (hb : 1 < b) (hb' : b ≤ 16) {c : Char}
    (hc : ∀ d < b, d.digitChar ≠ c) {front front' : List Char} {m n : ℕ}
    (h : front ++ c :: Nat.toDigits b m = front' ++ c :: Nat.toDigits b n) :
    front = front' ∧ m = n := by
  obtain ⟨hfront, hdigits⟩ := append_inj (notMem_toDigits hb hc m) (notMem_toDigits hb hc n) h
  exact ⟨hfront, toDigits_injective hb hb' hdigits⟩

end Numeral
