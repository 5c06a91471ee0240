import Mathlib.Data.List.Basic

/-!
# Consistent overhead byte stuffing

A byte string is cut at its zeros, and each piece is sent behind a code byte that says where the
next one is, so that the result holds no zero and a zero can delimit it. A piece of `254` bytes
gets the code `255`, which stands for no zero at all.
-/

namespace ByteStuffing

/-- A piece behind its code byte. -/
def block (piece : List UInt8) : List UInt8 := UInt8.ofNat (piece.length + 1) :: piece

/-- Encode what follows a piece begun but not ended. -/
def encodeFrom (piece : List UInt8) : List UInt8 → List UInt8
  | [] => block piece
  | b :: rest =>
    if b = 0 then block piece ++ encodeFrom [] rest
    else if piece.length + 1 = 254 then block (piece ++ [b]) ++ encodeFrom [] rest
    else encodeFrom (piece ++ [b]) rest

/-- Encode a byte string. -/
def encode (bytes : List UInt8) : List UInt8 := encodeFrom [] bytes

theorem encodeFrom_ne_nil (piece bytes : List UInt8) : encodeFrom piece bytes ≠ [] := by
  induction bytes generalizing piece with
  | nil => simp [encodeFrom, block]
  | cons b rest ih =>
    rw [encodeFrom]
    split
    · simp [block]
    · split
      · simp [block]
      · exact ih _

/-- Decode a byte string; a zero where a code byte should be, or a piece cut short, is refused. -/
def decode (bytes : List UInt8) : Option (List UInt8) :=
  match bytes with
  | [] => some []
  | code :: rest =>
    if code = 0 ∨ rest.length < code.toNat - 1 then none
    else
      let piece := rest.take (code.toNat - 1)
      let rest := rest.drop (code.toNat - 1)
      if rest = [] then some piece
      else (decode rest).map fun bytes => piece ++ (if code = 255 then bytes else 0 :: bytes)
termination_by bytes.length
decreasing_by
  simp only [List.length_drop, List.length_cons]
  omega

/-- The code byte of a piece. -/
private theorem exists_code {piece : List UInt8} (h : piece.length ≤ 254) :
    ∃ code : UInt8, block piece = code :: piece ∧ code.toNat = piece.length + 1 ∧ code ≠ 0 ∧
      (code = 255 ↔ piece.length = 254) := by
  have hcode : (UInt8.ofNat (piece.length + 1)).toNat = piece.length + 1 :=
    UInt8.toNat_ofNat_of_lt' (show piece.length + 1 < 256 by omega)
  refine ⟨_, rfl, hcode, fun hzero => ?_, ?_⟩
  · rw [hzero] at hcode
    simp at hcode
  · rw [← UInt8.toNat_inj, hcode, show (255 : UInt8).toNat = 255 from rfl]
    omega

/-- A last piece decodes to itself. -/
private theorem decode_block {piece : List UInt8} (h : piece.length ≤ 254) :
    decode (block piece) = some piece := by
  obtain ⟨code, heq, hcode, hne, -⟩ := exists_code h
  rw [heq, decode]
  simp [hcode, hne]

/-- A piece with more behind it decodes to itself, a zero unless it was full, and the rest. -/
private theorem decode_block_append {piece rest : List UInt8} (h : piece.length ≤ 254)
    (hrest : rest ≠ []) :
    decode (block piece ++ rest)
      = (decode rest).map fun bytes =>
          piece ++ (if piece.length = 254 then bytes else 0 :: bytes) := by
  obtain ⟨code, heq, hcode, hne, hfull⟩ := exists_code h
  rw [heq, List.cons_append, decode]
  simp only [hcode, hne, hfull, Nat.add_sub_cancel, List.take_left, List.drop_left, false_or,
    if_neg hrest]
  exact if_neg (by rw [List.length_append]; omega)

private theorem decode_encodeFrom {piece : List UInt8} (h : piece.length ≤ 253)
    (bytes : List UInt8) : decode (encodeFrom piece bytes) = some (piece ++ bytes) := by
  induction bytes generalizing piece with
  | nil => rw [encodeFrom, decode_block (by omega), List.append_nil]
  | cons b rest ih =>
    have hrest : decode (encodeFrom [] rest) = some rest := ih (by simp)
    rw [encodeFrom]
    split
    · rename_i hb
      rw [decode_block_append (by omega) (encodeFrom_ne_nil _ _), hrest, Option.map_some,
        if_neg (by omega), hb]
    · split
      · rename_i hfull
        have hlen : (piece ++ [b]).length = 254 := by simpa using hfull
        rw [decode_block_append (Nat.le_of_eq hlen) (encodeFrom_ne_nil _ _), hrest, Option.map_some,
          if_pos hlen, List.append_assoc, List.singleton_append]
      · rename_i hfull
        rw [ih (by simp; omega), List.append_assoc, List.singleton_append]

/-- **Round trip.** -/
theorem decode_encode (bytes : List UInt8) : decode (encode bytes) = some bytes :=
  decode_encodeFrom (by simp) bytes

private theorem zero_notMem_encodeFrom {piece : List UInt8} (h : piece.length ≤ 253)
    (hpiece : 0 ∉ piece) (bytes : List UInt8) : 0 ∉ encodeFrom piece bytes := by
  have hblock : ∀ p : List UInt8, p.length ≤ 254 → 0 ∉ p → 0 ∉ block p := by
    intro p hp hzero
    obtain ⟨code, heq, -, hne, -⟩ := exists_code hp
    rw [heq, List.mem_cons, not_or]
    exact ⟨hne.symm, hzero⟩
  induction bytes generalizing piece with
  | nil => exact hblock piece (by omega) hpiece
  | cons b rest ih =>
    have hrest : 0 ∉ encodeFrom [] rest := ih (by simp) (by simp)
    rw [encodeFrom]
    split
    · rw [List.mem_append, not_or]
      exact ⟨hblock piece (by omega) hpiece, hrest⟩
    · rename_i hb
      have hnext : 0 ∉ piece ++ [b] := by simp [hpiece, Ne.symm hb]
      split
      · rename_i hfull
        rw [List.mem_append, not_or]
        exact ⟨hblock _ (by simp; omega) hnext, hrest⟩
      · exact ih (by simp; omega) hnext

/-- **No zeros.** -/
theorem zero_notMem_encode (bytes : List UInt8) : 0 ∉ encode bytes :=
  zero_notMem_encodeFrom (by simp) (by simp) bytes

end ByteStuffing
