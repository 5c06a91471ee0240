import Mathlib.Data.List.Basic

/-!
# Reading a stream as it comes

A reader takes one item at a time off the front of what has come so far, and says when it needs
more. If what it takes does not depend on what comes later, then reading piece by piece, with what
is left over kept for the next piece, reads the same items however the stream is cut.

## Main definitions

* `Reader`: takes items off, the same whatever follows
* `Reader.read`: every item there is so far, and what is left over
* `utf8`: characters off bytes
* `upTo`: segments off a list, each ended by a separator

## Main results

* `Reader.read_append`: reading in two steps
* `utf8_read_encode`, `upTo_read_flatMap`: what was written is read
-/

namespace Incremental

variable {α β : Type*}

/-- Takes items off the front of a list. -/
structure Reader (β α : Type*) where
  next : List β → Option (α × List β)
  shorter : ∀ {bs a rest}, next bs = some (a, rest) → rest.length < bs.length
  /-- what is taken does not depend on what follows -/
  stable : ∀ {bs a rest} (more), next bs = some (a, rest) →
    next (bs ++ more) = some (a, rest ++ more)

namespace Reader

/-- Every item there is, and what is left over. -/
def read (r : Reader β α) (bs : List β) : List α × List β :=
  match h : r.next bs with
  | none => ([], bs)
  | some (a, rest) =>
    have := r.shorter h
    (a :: (r.read rest).1, (r.read rest).2)
  termination_by bs.length

variable {r : Reader β α} {bs rest : List β} {a : α}

theorem read_of_none (h : r.next bs = none) : r.read bs = ([], bs) := by
  rw [read]
  split
  · rfl
  · rename_i heq
    rw [h] at heq
    cases heq

theorem read_of_some (h : r.next bs = some (a, rest)) :
    r.read bs = (a :: (r.read rest).1, (r.read rest).2) := by
  rw [read]
  split
  · rename_i heq
    rw [h] at heq
    cases heq
  · rename_i heq
    rw [h] at heq
    obtain ⟨rfl, rfl⟩ := Prod.mk.inj (Option.some.inj heq)
    rfl

/-- What is left over has no item in it. -/
theorem next_read (r : Reader β α) (bs : List β) : r.next (r.read bs).2 = none := by
  induction hlen : bs.length using Nat.strongRecOn generalizing bs with
  | _ n ih =>
    cases h : r.next bs with
    | none => rw [read_of_none h, h]
    | some x =>
      rw [read_of_some h]
      exact ih _ (hlen ▸ r.shorter h) _ rfl

/-- **Reading in two steps**: the items there are so far, then those of what is left over and what
has come since. -/
theorem read_append (r : Reader β α) (bs more : List β) :
    r.read (bs ++ more) = ((r.read bs).1 ++ (r.read ((r.read bs).2 ++ more)).1,
      (r.read ((r.read bs).2 ++ more)).2) := by
  induction hlen : bs.length using Nat.strongRecOn generalizing bs with
  | _ n ih =>
    cases h : r.next bs with
    | none =>
      rw [read_of_none h]
      rfl
    | some x =>
      rw [read_of_some h, read_of_some (r.stable more h), ih _ (hlen ▸ r.shorter h) _ rfl]
      rfl

end Reader

/-! ### Characters -/

/-- Characters off their encoding. -/
def utf8 : Reader UInt8 Char where
  next bs := (ByteArray.utf8DecodeChar? bs.toByteArray 0).map fun c => (c, bs.drop c.utf8Size)
  shorter {bs c rest} h := by
    obtain ⟨c', hc, heq⟩ := Option.map_eq_some_iff.mp h
    obtain ⟨rfl, rfl⟩ := Prod.mk.inj heq
    have hle := ByteArray.le_size_of_utf8DecodeChar?_eq_some hc
    rw [List.size_toByteArray] at hle
    have hpos := c'.utf8Size_pos
    rw [List.length_drop]
    omega
  stable {bs c rest} more h := by
    obtain ⟨c', hc, heq⟩ := Option.map_eq_some_iff.mp h
    obtain ⟨rfl, rfl⟩ := Prod.mk.inj heq
    have hle := ByteArray.le_size_of_utf8DecodeChar?_eq_some hc
    rw [List.size_toByteArray] at hle
    rw [List.toByteArray_append, ByteArray.utf8DecodeChar?_append_eq_some hc, Option.map_some,
      List.drop_append_of_le_length (by omega)]

/-- A text in UTF-8. -/
def encode (text : List Char) : List UInt8 := text.flatMap String.utf8EncodeChar

theorem utf8_next_encode (c : Char) (rest : List UInt8) :
    utf8.next (String.utf8EncodeChar c ++ rest) = some (c, rest) := by
  show (ByteArray.utf8DecodeChar? (_ ++ _ : List UInt8).toByteArray 0).map _ = _
  rw [List.toByteArray_append, ByteArray.utf8DecodeChar?_utf8EncodeChar_append, Option.map_some,
    List.drop_left' (String.length_utf8EncodeChar c)]

/-- A text is read off its encoding, whatever follows. -/
theorem utf8_read_encode (text : List Char) (rest : List UInt8) :
    utf8.read (encode text ++ rest) = (text ++ (utf8.read rest).1, (utf8.read rest).2) := by
  induction text with
  | nil => rfl
  | cons c text ih =>
    rw [encode, List.flatMap_cons, List.append_assoc, Reader.read_of_some (utf8_next_encode c _)]
    rw [encode] at ih
    rw [ih]
    rfl

/-! ### Segments -/

variable [DecidableEq β] {sep : β} {bs l rest : List β}

/-- What stands before the first separator, and what after it. -/
def splitAt? (sep : β) : List β → Option (List β × List β)
  | [] => none
  | b :: bs => if b = sep then some ([], bs) else (splitAt? sep bs).map fun x => (b :: x.1, x.2)

theorem splitAt?_eq_some_iff :
    splitAt? sep bs = some (l, rest) ↔ sep ∉ l ∧ bs = l ++ sep :: rest := by
  induction bs generalizing l with
  | nil => simp [splitAt?]
  | cons b bs ih =>
    rw [splitAt?]
    split
    · rename_i hb
      obtain rfl := hb
      cases l with
      | nil => simp [eq_comm]
      | cons c l =>
        simp only [Option.some.injEq, Prod.mk.injEq, List.nil_eq, reduceCtorEq, false_and,
          List.mem_cons, not_or, List.cons_append, List.cons.injEq, false_iff]
        exact fun h => h.1.1 h.2.1
    · rename_i hb
      rw [Option.map_eq_some_iff]
      constructor
      · rintro ⟨⟨l', rest'⟩, h, heq⟩
        obtain ⟨rfl, rfl⟩ := Prod.mk.inj heq
        obtain ⟨hsep, rfl⟩ := ih.mp h
        exact ⟨by simpa using ⟨Ne.symm hb, hsep⟩, rfl⟩
      · rintro ⟨hsep, heq⟩
        cases l with
        | nil => exact absurd (List.cons.inj heq).1 hb
        | cons c l =>
          obtain ⟨rfl, hbs⟩ := List.cons.inj heq
          exact ⟨(l, rest), ih.mpr ⟨fun h => hsep (List.mem_cons_of_mem _ h), hbs⟩, rfl⟩

/-- Segments, each up to a separator, which is dropped. -/
def upTo (sep : β) : Reader β (List β) where
  next := splitAt? sep
  shorter h := by
    obtain ⟨-, rfl⟩ := splitAt?_eq_some_iff.mp h
    rw [List.length_append, List.length_cons]
    omega
  stable more h := by
    obtain ⟨hsep, rfl⟩ := splitAt?_eq_some_iff.mp h
    exact splitAt?_eq_some_iff.mpr ⟨hsep, by rw [List.append_assoc, List.cons_append]⟩

/-- Segments are read off a list in which each is followed by a separator. -/
theorem upTo_read_flatMap {segments : List (List β)} (h : ∀ l ∈ segments, sep ∉ l)
    (rest : List β) : (upTo sep).read ((segments.flatMap fun l => l ++ [sep]) ++ rest)
      = (segments ++ ((upTo sep).read rest).1, ((upTo sep).read rest).2) := by
  induction segments with
  | nil => rfl
  | cons l segments ih =>
    obtain ⟨hl, hsegments⟩ := List.forall_mem_cons.mp h
    have hnext : (upTo sep).next ((l :: segments).flatMap (fun l => l ++ [sep]) ++ rest)
        = some (l, segments.flatMap (fun l => l ++ [sep]) ++ rest) :=
      splitAt?_eq_some_iff.mpr ⟨hl, by simp⟩
    rw [Reader.read_of_some hnext, ih hsegments]
    rfl

end Incremental
