import Mathlib.Data.List.Basic
import Mathlib.Algebra.GroupWithZero.Nat

/-!
# Text cut at a byte offset

A slice of a text is given by offsets in its encoding. An offset inside the encoding of a character,
or past the end, is no place to cut.

## Main definitions

* `Utf8.len`: the length of the encoding
* `Utf8.drop?`: the text from an offset on, where it can be cut there
* `Utf8.take?`, `Utf8.slice?`: the text up to an offset, and between two
* `Utf8.takeUpTo`: the longest start of the text within a number of bytes

## Main results

* `Utf8.drop?_eq_some_iff`: the text can be cut between two of its characters
* `Utf8.drop?_isSome_of_all`: anywhere within, if its characters are of one byte
-/

namespace Utf8

/-- The length of the encoding. -/
def len (cs : List Char) : ℕ := (cs.map Char.utf8Size).sum

@[simp] theorem len_nil : len [] = 0 := rfl

@[simp] theorem len_cons (c : Char) (cs : List Char) : len (c :: cs) = c.utf8Size + len cs := rfl

@[simp] theorem len_append (cs ds : List Char) : len (cs ++ ds) = len cs + len ds := by
  rw [len, List.map_append, List.sum_append, len, len]

theorem length_le_len (cs : List Char) : cs.length ≤ len cs := by
  induction cs with
  | nil => exact Nat.le_refl 0
  | cons c cs ih =>
    have := c.utf8Size_pos
    rw [List.length_cons, len_cons]
    omega

theorem len_toList (s : String) : len s.toList = s.utf8ByteSize := by
  have hofList (cs : List Char) : len cs = (String.ofList cs).utf8ByteSize := by
    induction cs with
    | nil => rfl
    | cons c cs ih =>
      have hcons : String.ofList (c :: cs) = String.singleton c ++ String.ofList cs := by
        rw [← String.toList_inj]
        simp
      rw [len_cons, ih, hcons, String.utf8ByteSize_append, String.utf8ByteSize_singleton]
  rw [hofList, String.ofList_toList]

/-- The text from a byte offset on. -/
def drop? : List Char → ℕ → Option (List Char)
  | cs, 0 => some cs
  | [], _ + 1 => none
  | c :: cs, n + 1 => if c.utf8Size ≤ n + 1 then drop? cs (n + 1 - c.utf8Size) else none

/-- The text up to a byte offset. -/
def take? : List Char → ℕ → Option (List Char)
  | _, 0 => some []
  | [], _ + 1 => none
  | c :: cs, n + 1 =>
    if c.utf8Size ≤ n + 1 then (take? cs (n + 1 - c.utf8Size)).map (c :: ·) else none

/-- The text between two byte offsets. -/
def slice? (cs : List Char) (i j : ℕ) : Option (List Char) :=
  if i ≤ j then (drop? cs i).bind fun rest => take? rest (j - i) else none

/-- The longest start within a number of bytes. -/
def takeUpTo (n : ℕ) : List Char → List Char
  | [] => []
  | c :: cs => if c.utf8Size ≤ n then c :: takeUpTo (n - c.utf8Size) cs else []

@[simp] theorem drop?_zero (cs : List Char) : drop? cs 0 = some cs := by
  cases cs <;> rfl

theorem drop?_cons_add (c : Char) (cs : List Char) (n : ℕ) :
    drop? (c :: cs) (c.utf8Size + n) = drop? cs n := by
  have hpos := c.utf8Size_pos
  obtain ⟨k, hk⟩ : ∃ k, c.utf8Size + n = k + 1 := ⟨c.utf8Size + n - 1, by omega⟩
  rw [hk, drop?, ← hk, if_pos (Nat.le_add_right _ _), Nat.add_sub_cancel_left]

/-- A text can be cut where one of its characters ends. -/
theorem drop?_eq_some_iff {cs post : List Char} {n : ℕ} :
    drop? cs n = some post ↔ ∃ pre, cs = pre ++ post ∧ len pre = n := by
  constructor
  · intro h
    fun_induction drop? cs n with
    | case1 cs => exact ⟨[], by simpa using h, rfl⟩
    | case2 n => cases h
    | case3 c cs n hle ih =>
      obtain ⟨pre, rfl, hpre⟩ := ih h
      exact ⟨c :: pre, rfl, by rw [len_cons, hpre]; omega⟩
    | case4 c cs n hlt => cases h
  · rintro ⟨pre, rfl, rfl⟩
    induction pre with
    | nil => exact drop?_zero post
    | cons c pre ih => rw [List.cons_append, len_cons, drop?_cons_add, ih]

theorem take?_eq_some_iff {cs pre : List Char} {n : ℕ} :
    take? cs n = some pre ↔ ∃ post, cs = pre ++ post ∧ len pre = n := by
  constructor
  · intro h
    fun_induction take? cs n generalizing pre with
    | case1 cs =>
      obtain rfl := Option.some.inj h
      exact ⟨cs, rfl, rfl⟩
    | case2 n => cases h
    | case3 c cs n hle ih =>
      obtain ⟨pre, hpre, rfl⟩ := Option.map_eq_some_iff.mp h
      obtain ⟨post, rfl, hlen⟩ := ih hpre
      exact ⟨post, rfl, by rw [len_cons, hlen]; omega⟩
    | case4 c cs n hlt => cases h
  · rintro ⟨post, rfl, rfl⟩
    induction pre with
    | nil => cases post <;> rfl
    | cons c pre ih =>
      have hpos := c.utf8Size_pos
      obtain ⟨k, hk⟩ : ∃ k, c.utf8Size + len pre = k + 1 := ⟨c.utf8Size + len pre - 1, by omega⟩
      rw [List.cons_append, len_cons, hk, take?, ← hk, if_pos (Nat.le_add_right _ _),
        Nat.add_sub_cancel_left, ih]
      rfl

theorem slice?_append (pre cs : List Char) (n : ℕ) :
    slice? (pre ++ cs) (len pre) (len pre + n) = take? cs n := by
  rw [slice?, if_pos (Nat.le_add_right _ _), drop?_eq_some_iff.mpr ⟨pre, rfl, rfl⟩,
    Option.bind_some, Nat.add_sub_cancel_left]

/-- Where each character is one byte, every offset within the text is between two of them. -/
theorem drop?_isSome_of_all {cs : List Char} (h : ∀ c ∈ cs, c.utf8Size = 1) {n : ℕ}
    (hn : n ≤ len cs) : (drop? cs n).isSome = true := by
  induction cs generalizing n with
  | nil =>
    obtain rfl := Nat.le_zero.mp hn
    rfl
  | cons c cs ih =>
    cases n with
    | zero => rw [drop?_zero]; rfl
    | succ n =>
      have hc := h c List.mem_cons_self
      have hadd : n + 1 = c.utf8Size + n := by omega
      rw [len_cons] at hn
      rw [hadd, drop?_cons_add]
      exact ih (fun d hd => h d (List.mem_cons_of_mem _ hd)) (by omega)

end Utf8
