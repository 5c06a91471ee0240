import ApexOS.Courier.Cargo
import ApexOS.Lib.Json
import ApexOS.Lib.Utf8
import ApexOS.Mesh.Envelope

/-!
# The envelope on a stick

`seal_json` and `open_json` of `agentd/crates/plugins/src/courier.rs`. The reader and the writer of
JSON, base64 and the cipher are other people's code and enter as parameters; the nonce is drawn by
the caller.

The nonce is checked for its length in bytes and then cut every two bytes. Where a cut falls inside
a character the program stops. That a stick's text is JSON does not keep it from doing so.

## Main definitions

* `Crates`, `Crates.Lawful`: what is used of other crates, and what is relied on
* `aadFor`, `sealJson`, `openJson`
* `Straddles`: a nonce with a character across the end of a pair

## Main results

* `readPairs_eq_none_iff`: where the cuts stop the program
* `openJson_sealJson`: an envelope opens where it was sealed for, and nowhere else
* `openJson_sound_iff`: both
-/

namespace ApexOS.Courier

open ApexOS.Mesh (Aead)

/-! ### What is used of other crates -/

/-- `serde_json`, `base64`'s standard engine and the cipher. -/
structure Crates where
  fromStr : String → Option Json
  toText : Json → String
  fromSlice : Bytes → Option Json
  toVec : Json → Except String Bytes
  encode : Bytes → String
  decode : String → Option Bytes
  aead : Aead

/-- The object that is written around a ciphertext. -/
def envelopeOf (nonce ct : String) : Json :=
  .object [("ct", .string ct), ("nonce", .string nonce), ("v", .number (.posInt 1))]

/-- `{b:02x}` of each byte. -/
def nonceHex (nonce : Bytes) : String := String.ofList (nonce.flatMap hexByte)

/-- Envelopes are read as they are written, base64 is decoded to what was encoded, and a ciphertext
is decrypted to its message, under its own key and associated data only. -/
structure Crates.Lawful (c : Crates) : Prop where
  envelope : ∀ (nonce : Vector UInt8 12) (ct : Bytes),
    c.fromStr (c.toText (envelopeOf (nonceHex nonce.toList) (c.encode ct)))
      = some (envelopeOf (nonceHex nonce.toList) (c.encode ct))
  base64 : ∀ bytes, c.decode (c.encode bytes) = some bytes
  decrypts : c.aead.Decrypts
  authentic : ∀ key nonce aad msg ct, c.aead.encrypt key nonce aad msg = some ct →
    ∀ key' nonce' aad' msg', c.aead.decrypt key' nonce' aad' ct = some msg' →
      key' = key ∧ aad' = aad

/-! ### The nonce -/

/-- The value of a digit in base sixteen. -/
def hexValue (c : Char) : Option ℕ :=
  if '0' ≤ c ∧ c ≤ '9' then some (c.toNat - '0'.toNat)
  else if 'a' ≤ c ∧ c ≤ 'f' then some (c.toNat - 'a'.toNat + 10)
  else if 'A' ≤ c ∧ c ≤ 'F' then some (c.toNat - 'A'.toNat + 10)
  else none

/-- `u8::from_str_radix(s, 16)`: a plus sign may stand before the digits. -/
def fromStrRadix (s : List Char) : Option UInt8 :=
  let digits := match s with
    | '+' :: d :: ds => d :: ds
    | s => s
  if digits = [] then none
  else match digits.mapM hexValue with
    | none => none
    | some values =>
      let n := values.foldl (fun n v => 16 * n + v) 0
      if n < 256 then some (UInt8.ofNat n) else none

/-- The loop over the pairs of the nonce. Without a result the program stops. -/
def readPairs (hex : List Char) : List ℕ → Option (Except String Bytes)
  | [] => some (.ok [])
  | i :: is =>
    match Utf8.slice? hex (i * 2) (i * 2 + 2) with
    | none => none
    | some pair =>
      match fromStrRadix pair with
      | none => some (.error "bad nonce hex")
      | some b => (readPairs hex is).map fun r => r.map (b :: ·)

/-- A character lies across the end of a pair, and every pair before it is read. -/
def Straddles (hex : List Char) : Prop :=
  ∃ (pairs : List (List Char)) (rest : List Char), hex = pairs.flatten ++ rest ∧
    (∀ p ∈ pairs, Utf8.len p = 2 ∧ (fromStrRadix p).isSome = true) ∧
    rest ≠ [] ∧ Utf8.take? rest 2 = none

theorem straddles_append_iff {pair rest : List Char} (hpair : Utf8.len pair = 2)
    (hread : (fromStrRadix pair).isSome = true) : Straddles (pair ++ rest) ↔ Straddles rest := by
  constructor
  · rintro ⟨pairs, rest', heq, hpairs, hrest, htake⟩
    cases pairs with
    | nil =>
      rw [List.flatten_nil, List.nil_append] at heq
      rw [← heq, Utf8.take?_eq_some_iff.mpr ⟨rest, rfl, hpair⟩] at htake
      cases htake
    | cons p pairs =>
      have hp := hpairs p List.mem_cons_self
      rw [List.flatten_cons, List.append_assoc] at heq
      have hsame : some pair = some p := by
        rw [← Utf8.take?_eq_some_iff.mpr ⟨rest, rfl, hpair⟩, heq,
          Utf8.take?_eq_some_iff.mpr ⟨_, rfl, hp.1⟩]
      obtain rfl := Option.some.inj hsame
      exact ⟨pairs, rest', List.append_cancel_left heq,
        fun q hq => hpairs q (List.mem_cons_of_mem _ hq), hrest, htake⟩
  · rintro ⟨pairs, rest', rfl, hpairs, hrest, htake⟩
    refine ⟨pair :: pairs, rest', by simp, fun q hq => ?_, hrest, htake⟩
    obtain rfl | hq := List.mem_cons.mp hq
    · exact ⟨hpair, hread⟩
    · exact hpairs q hq

/-- **The cuts stop the program** where a character lies across one. -/
theorem readPairs_eq_none_iff {n : ℕ} : ∀ {i : ℕ} {pre rest : List Char},
    Utf8.len pre = i * 2 → Utf8.len rest = n * 2 →
      (readPairs (pre ++ rest) (List.range' i n) = none ↔ Straddles rest) := by
  induction n with
  | zero =>
    intro i pre rest hpre hrest
    have hnil : rest = [] := by
      have := Utf8.length_le_len rest
      exact List.eq_nil_of_length_eq_zero (by omega)
    rw [List.range'_zero, readPairs, hnil]
    refine ⟨nofun, fun ⟨pairs, tail, heq, _, htail, _⟩ => ?_⟩
    exact absurd (List.append_eq_nil_iff.mp heq.symm).2 htail
  | succ n ih =>
    intro i pre rest hpre hrest
    have hslice : Utf8.slice? (pre ++ rest) (i * 2) (i * 2 + 2) = Utf8.take? rest 2 := by
      rw [← hpre]
      exact Utf8.slice?_append pre rest 2
    rw [List.range'_succ, readPairs, hslice]
    cases htake : Utf8.take? rest 2 with
    | none =>
      have hne : rest ≠ [] := fun h => by simp [h] at hrest
      exact ⟨fun _ => ⟨[], rest, rfl, nofun, hne, htake⟩, fun _ => rfl⟩
    | some pair =>
      obtain ⟨tail, rfl, hpair⟩ := Utf8.take?_eq_some_iff.mp htake
      dsimp only
      cases hread : fromStrRadix pair with
      | none =>
        refine ⟨nofun, fun ⟨pairs, rest', heq, hpairs, _, hcut⟩ => ?_⟩
        cases pairs with
        | nil =>
          rw [List.flatten_nil, List.nil_append] at heq
          rw [← heq, htake] at hcut
          cases hcut
        | cons p pairs =>
          have hp := hpairs p List.mem_cons_self
          rw [List.flatten_cons, List.append_assoc] at heq
          rw [heq, Utf8.take?_eq_some_iff.mpr ⟨_, rfl, hp.1⟩] at htake
          rw [Option.some.inj htake, hread] at hp
          simp at hp
      | some b =>
        rw [Utf8.len_append, hpair] at hrest
        rw [straddles_append_iff hpair (by rw [hread]; rfl), Option.map_eq_none_iff,
          ← List.append_assoc]
        refine ih ?_ (by omega)
        rw [Utf8.len_append, hpre, hpair]
        omega

theorem readPairs_start_eq_none_iff {hex : List Char} {n : ℕ} (h : Utf8.len hex = n * 2) :
    readPairs hex (List.range' 0 n) = none ↔ Straddles hex := by
  have hstart : Utf8.len [] = 0 * 2 := rfl
  exact readPairs_eq_none_iff hstart h

theorem fromStrRadix_hexByte (b : UInt8) : fromStrRadix (hexByte b) = some b := by
  have hall : ∀ n < 256, fromStrRadix (hexByte (UInt8.ofNat n)) = some (UInt8.ofNat n) := by
    decide +kernel
  have := hall b.toNat b.toNat_lt
  rwa [UInt8.ofNat_toNat] at this

theorem len_hexByte (b : UInt8) : Utf8.len (hexByte b) = 2 := by
  have hall : ∀ n < 256, Utf8.len (hexByte (UInt8.ofNat n)) = 2 := by decide +kernel
  have := hall b.toNat b.toNat_lt
  rwa [UInt8.ofNat_toNat] at this

/-- A nonce is read as it is written. -/
theorem readPairs_hexByte (bytes : Bytes) : ∀ {i : ℕ} {pre : List Char}, Utf8.len pre = i * 2 →
    readPairs (pre ++ bytes.flatMap hexByte) (List.range' i bytes.length) = some (.ok bytes) := by
  induction bytes with
  | nil => exact fun _ => rfl
  | cons b bytes ih =>
    intro i pre hpre
    have hslice : Utf8.slice? (pre ++ (b :: bytes).flatMap hexByte) (i * 2) (i * 2 + 2)
        = some (hexByte b) := by
      rw [← hpre, Utf8.slice?_append, List.flatMap_cons]
      exact Utf8.take?_eq_some_iff.mpr ⟨_, rfl, len_hexByte b⟩
    have hlen : Utf8.len (pre ++ hexByte b) = (i + 1) * 2 := by
      rw [Utf8.len_append, hpre, len_hexByte]
      omega
    have hrest := ih hlen
    rw [List.length_cons, List.range'_succ, readPairs, hslice]
    dsimp only
    rw [fromStrRadix_hexByte, List.flatMap_cons, ← List.append_assoc]
    dsimp only
    rw [hrest]
    rfl

theorem readPairs_flatMap_hexByte (bytes : Bytes) :
    readPairs (bytes.flatMap hexByte) (List.range' 0 bytes.length) = some (.ok bytes) := by
  have hstart : Utf8.len [] = 0 * 2 := rfl
  exact readPairs_hexByte bytes hstart

theorem len_flatMap_hexByte (bytes : Bytes) :
    Utf8.len (bytes.flatMap hexByte) = bytes.length * 2 := by
  induction bytes with
  | nil => rfl
  | cons b bytes ih =>
    rw [List.flatMap_cons, Utf8.len_append, len_hexByte, ih, List.length_cons]
    omega

/-! ### Sealing and opening -/

/-- `aad_for`. -/
def aadFor (stickId domain : String) : Bytes :=
  s!"apexos-courier:v1:{domain}:{stickId}".toUTF8.data.toList

/-- The display of `Error::Crypto`. -/
def cryptoText : String := "AEAD failure (tamper, wrong key, or forged header)"

section

variable (c : Crates) (psk : Bytes32) (stickId domain : String)

/-- `seal_json`, with the nonce that is drawn. -/
def sealJson (nonce : Vector UInt8 12) (value : Json) : Except String String :=
  match c.toVec value with
  | .error e => .error ("encode: " ++ e)
  | .ok plain =>
    match c.aead.encrypt psk nonce.toList (aadFor stickId domain) plain with
    | none => .error ("seal: " ++ cryptoText)
    | some ct => .ok (c.toText (envelopeOf (nonceHex nonce.toList) (c.encode ct)))

/-- What follows once the nonce is read. -/
def openWith (nonce : Bytes) (env : Json) : Except String Json :=
  match c.decode (((env.get? "ct").bind Json.asStr).getD "") with
  | none => .error "bad ct base64"
  | some ct =>
    match c.aead.decrypt psk nonce (aadFor stickId domain) ct with
    | none => .error "authentication failed (tamper, wrong stick, or wrong PSK)"
    | some plain =>
      match c.fromSlice plain with
      | none => .error "sealed payload is not JSON"
      | some value => .ok value

/-- `open_json`. Without a result the program stops. -/
def openJson (text : String) : Option (Except String Json) :=
  match c.fromStr text with
  | none => some (.error "envelope is not JSON")
  | some env =>
    if (env.get? "v").bind Json.asI64 ≠ some 1 then some (.error "unknown envelope version")
    else
      let nonceHex := ((env.get? "nonce").bind Json.asStr).getD ""
      if nonceHex.utf8ByteSize ≠ 24 then some (.error "bad nonce")
      else match readPairs nonceHex.toList (List.range' 0 12) with
        | none => none
        | some (.error e) => some (.error e)
        | some (.ok nonce) => some (openWith c psk stickId domain nonce env)

/-- A text is an envelope of this version, and its nonce has the length, but a character across the
end of a pair. -/
def StraddledNonce (text : String) : Prop :=
  ∃ env nonceHex, c.fromStr text = some env ∧ (env.get? "v").bind Json.asI64 = some 1 ∧
    (env.get? "nonce").bind Json.asStr = some nonceHex ∧ nonceHex.utf8ByteSize = 24 ∧
    Straddles nonceHex.toList

end

variable {c : Crates} {psk psk' : Bytes32} {stickId stickId' domain domain' text : String}
  {value : Json} {nonce : Vector UInt8 12}

/-- The program stops at no other text. -/
theorem openJson_eq_none_iff :
    openJson c psk stickId domain text = none ↔ StraddledNonce c text := by
  rw [openJson, StraddledNonce]
  cases hread : c.fromStr text with
  | none => simp
  | some env =>
    dsimp only
    split
    · rename_i hversion
      refine ⟨nofun, fun ⟨env', hex, henv, hv, _⟩ => ?_⟩
      exact absurd (Option.some.inj henv ▸ hv) hversion
    rename_i hversion
    split
    · rename_i hsize
      refine ⟨nofun, fun ⟨env', hex, henv, _, hnonce, hlen, _⟩ => ?_⟩
      rw [← Option.some.inj henv] at hnonce
      rw [hnonce] at hsize
      exact absurd hlen hsize
    rename_i hsize
    rw [not_not] at hversion hsize
    obtain ⟨hex, hhex⟩ : ∃ hex, (env.get? "nonce").bind Json.asStr = some hex := by
      cases hnonce : (env.get? "nonce").bind Json.asStr with
      | none =>
        rw [hnonce] at hsize
        cases hsize
      | some hex => exact ⟨hex, rfl⟩
    rw [hhex, Option.getD_some] at hsize ⊢
    have hpairs : readPairs hex.toList (List.range' 0 12) = none ↔ Straddles hex.toList :=
      readPairs_start_eq_none_iff ((Utf8.len_toList hex).trans hsize)
    have hstraddles : Straddles hex.toList ↔ ∃ env' nonceHex, some env = some env' ∧
        (env'.get? "v").bind Json.asI64 = some 1 ∧
        (env'.get? "nonce").bind Json.asStr = some nonceHex ∧ nonceHex.utf8ByteSize = 24 ∧
        Straddles nonceHex.toList := by
      refine ⟨fun h => ⟨env, hex, rfl, hversion, hhex, hsize, h⟩, ?_⟩
      rintro ⟨env', hex', henv, -, hnonce, -, h⟩
      rw [← Option.some.inj henv, hhex] at hnonce
      exact Option.some.inj hnonce ▸ h
    rw [← hstraddles, ← hpairs]
    cases readPairs hex.toList (List.range' 0 12) with
    | none => simp
    | some r => cases r <;> simp

/-- A sealed value is an envelope whose nonce is read. -/
theorem openJson_of_sealJson (hlaw : c.Lawful)
    (h : sealJson c psk stickId domain nonce value = .ok text) : ∃ plain ct,
      c.toVec value = .ok plain ∧
      c.aead.encrypt psk nonce.toList (aadFor stickId domain) plain = some ct ∧
      ∀ psk' stickId' domain', openJson c psk' stickId' domain' text =
        some (match c.aead.decrypt psk' nonce.toList (aadFor stickId' domain') ct with
          | none => .error "authentication failed (tamper, wrong stick, or wrong PSK)"
          | some plain => match c.fromSlice plain with
            | none => .error "sealed payload is not JSON"
            | some value => .ok value) := by
  rw [sealJson] at h
  cases hvec : c.toVec value with
  | error e =>
    rw [hvec] at h
    cases h
  | ok plain =>
    rw [hvec] at h
    dsimp only at h
    cases hct : c.aead.encrypt psk nonce.toList (aadFor stickId domain) plain with
    | none =>
      rw [hct] at h
      cases h
    | some ct =>
      rw [hct] at h
      obtain rfl := Except.ok.inj h
      refine ⟨plain, ct, rfl, hct, fun psk' stickId' domain' => ?_⟩
      have hsize : (nonceHex nonce.toList).utf8ByteSize = 24 := by
        rw [nonceHex, ← Utf8.len_toList, String.toList_ofList, len_flatMap_hexByte]
        simp
      have hpairs : readPairs (nonceHex nonce.toList).toList (List.range' 0 12)
          = some (.ok nonce.toList) := by
        have := readPairs_flatMap_hexByte nonce.toList
        rw [Vector.length_toList] at this
        rw [nonceHex, String.toList_ofList, this]
      have hfields : (envelopeOf (nonceHex nonce.toList) (c.encode ct)).get? "v"
            = some (.number (.posInt 1)) ∧
          (envelopeOf (nonceHex nonce.toList) (c.encode ct)).get? "nonce"
            = some (.string (nonceHex nonce.toList)) ∧
          (envelopeOf (nonceHex nonce.toList) (c.encode ct)).get? "ct"
            = some (.string (c.encode ct)) := ⟨rfl, rfl, rfl⟩
      rw [openJson, hlaw.envelope]
      dsimp only
      rw [if_neg (not_not.mpr (by rw [hfields.1]; rfl)), hfields.2.1, Option.bind_some, Json.asStr,
        Option.getD_some, if_neg (not_not.mpr hsize), hpairs]
      dsimp only
      rw [openWith, hfields.2.2, Option.bind_some, Json.asStr, Option.getD_some, hlaw.base64]

/-- The domain ends at the first colon. -/
theorem aadFor_injective (hdomain : ':' ∉ domain.toList) (hdomain' : ':' ∉ domain'.toList)
    (h : aadFor stickId' domain' = aadFor stickId domain) :
    stickId' = stickId ∧ domain' = domain := by
  have htext := String.toByteArray_inj.mp (ByteArray.ext (Array.toList_inj.mp h))
  have hlist := congrArg String.toList htext
  simp only [toString, String.toList_append, List.append_assoc] at hlist
  have hrest := List.append_cancel_left hlist
  have hback (s d : String) : (d.toList ++ (":".toList ++ s.toList)).reverse
      = s.toList.reverse ++ ':' :: d.toList.reverse := by simp
  have hrev := congrArg List.reverse hrest
  rw [hback, hback] at hrev
  obtain ⟨hstick, hdom⟩ :=
    Numeral.append_inj (by simpa using hdomain') (by simpa using hdomain) hrev
  exact ⟨String.toList_inj.mp (List.reverse_inj.mp hstick),
    String.toList_inj.mp (List.reverse_inj.mp hdom)⟩

/-- **An envelope does not open** under another key, on another stick or in another place. -/
theorem openJson_elsewhere (hlaw : c.Lawful)
    (h : sealJson c psk stickId domain nonce value = .ok text) (hdomain : ':' ∉ domain.toList)
    (hdomain' : ':' ∉ domain'.toList)
    (hother : ¬ (psk' = psk ∧ stickId' = stickId ∧ domain' = domain)) :
    ∃ e, openJson c psk' stickId' domain' text = some (.error e) := by
  obtain ⟨plain, ct, -, hct, hopen⟩ := openJson_of_sealJson hlaw h
  rw [hopen]
  cases hplain : c.aead.decrypt psk' nonce.toList (aadFor stickId' domain') ct with
  | none => exact ⟨_, rfl⟩
  | some plain' =>
    obtain ⟨hkey, haad⟩ := hlaw.authentic _ _ _ _ _ hct _ _ _ _ hplain
    exact absurd ⟨hkey, aadFor_injective hdomain hdomain' haad⟩ hother

/-- Where it was sealed for it opens to what is read back from the text of the value. -/
theorem openJson_sealJson (hlaw : c.Lawful)
    (h : sealJson c psk stickId domain nonce value = .ok text) :
    openJson c psk stickId domain text = some (.ok value) ↔
      ∃ plain, c.toVec value = .ok plain ∧ c.fromSlice plain = some value := by
  obtain ⟨plain, ct, hvec, hct, hopen⟩ := openJson_of_sealJson hlaw h
  rw [hopen, hlaw.decrypts _ _ _ _ _ hct]
  dsimp only
  constructor
  · intro hvalue
    refine ⟨plain, hvec, ?_⟩
    cases hslice : c.fromSlice plain with
    | none =>
      rw [hslice] at hvalue
      cases hvalue
    | some value' =>
      rw [hslice] at hvalue
      rw [Except.ok.inj (Option.some.inj hvalue)]
  · rintro ⟨plain', hvec', hslice⟩
    obtain rfl := Except.ok.inj (hvec.symm.trans hvec')
    rw [hslice]

/-- What is promised of the envelope, of one text and of one value. -/
structure EnvelopeSound (c : Crates) (psk : Bytes32) (stickId domain : String)
    (nonce : Vector UInt8 12) (text : String) (value : Json) : Prop where
  /-- the program does not stop -/
  total : (openJson c psk stickId domain text).isSome = true
  opens : ∀ t, sealJson c psk stickId domain nonce value = .ok t →
    openJson c psk stickId domain t = some (.ok value)
  nowhereElse : ∀ t, sealJson c psk stickId domain nonce value = .ok t → ':' ∉ domain.toList →
    ∀ psk' stickId' domain', ':' ∉ domain'.toList →
      ¬ (psk' = psk ∧ stickId' = stickId ∧ domain' = domain) →
      ∃ e, openJson c psk' stickId' domain' t = some (.error e)

/-- **The envelope is sound** but for nonces of odd text, and values that are not read back. -/
theorem openJson_sound_iff (c : Crates) (hlaw : c.Lawful) (psk : Bytes32) (stickId domain : String)
    (nonce : Vector UInt8 12) (text : String) (value : Json) :
    EnvelopeSound c psk stickId domain nonce text value ↔
      ¬ StraddledNonce c text ∧ ((sealJson c psk stickId domain nonce value).isOk = true →
        ∃ plain, c.toVec value = .ok plain ∧ c.fromSlice plain = some value) := by
  have htotal : (openJson c psk stickId domain text).isSome = true ↔ ¬ StraddledNonce c text := by
    rw [Option.isSome_iff_ne_none, ne_eq, openJson_eq_none_iff]
  constructor
  · intro h
    refine ⟨htotal.mp h.total, fun hsealed => ?_⟩
    cases hseal : sealJson c psk stickId domain nonce value with
    | error e =>
      rw [hseal] at hsealed
      cases hsealed
    | ok t => exact (openJson_sealJson hlaw hseal).mp (h.opens t hseal)
  · rintro ⟨htext, hback⟩
    refine ⟨htotal.mpr htext, fun t hseal => ?_, fun t hseal hdomain _ _ _ hdomain' hother =>
      openJson_elsewhere hlaw hseal hdomain hdomain' hother⟩
    exact (openJson_sealJson hlaw hseal).mpr (hback (by rw [hseal]; rfl))

/-! ### Plain stand-ins -/

/-- What stands before, between and after the two texts of an envelope, quotes aside. -/
def opening : List Char := ['{', '"', 'c', 't', '"', ':', '"']
def middle : List Char := [',', '"', 'n', 'o', 'n', 'c', 'e', '"', ':', '"']
def closing : List Char := [',', '"', 'v', '"', ':', '1', '}']

/-- The texts of envelopes. -/
def plainText (v : Json) : String :=
  match (v.get? "ct").bind Json.asStr, (v.get? "nonce").bind Json.asStr with
  | some ct, some nonce => String.ofList
      (opening ++ (ct.toList ++ '"' :: (middle ++ (nonce.toList ++ '"' :: closing))))
  | _, _ => "null"

/-- Envelopes are read. -/
def readText (text : String) : Option Json :=
  let afterCt := text.toList.drop opening.length
  let ct := String.ofList (afterCt.takeWhile (· ≠ '"'))
  let afterNonce := ((afterCt.dropWhile (· ≠ '"')).drop 1).drop middle.length
  let nonce := String.ofList (afterNonce.takeWhile (· ≠ '"'))
  if plainText (envelopeOf nonce ct) = text then some (envelopeOf nonce ct) else none

/-- Key and associated data stand before the message. -/
def header (key : Bytes32) (aad : Bytes) : Bytes := key.toList ++ (aad.flatMap ([1, ·]) ++ [0])

theorem notMem_nonceHex (bytes : Bytes) : '"' ∉ (nonceHex bytes).toList := by
  have hall : ∀ n < 256, '"' ∉ hexByte (UInt8.ofNat n) := by decide +kernel
  rw [nonceHex, String.toList_ofList, List.mem_flatMap]
  rintro ⟨b, -, hb⟩
  have := hall b.toNat b.toNat_lt
  rw [UInt8.ofNat_toNat] at this
  exact this hb

theorem takeWhile_quote {cs : List Char} (h : '"' ∉ cs) (rest : List Char) :
    (cs ++ '"' :: rest).takeWhile (· ≠ '"') = cs ∧
      (cs ++ '"' :: rest).dropWhile (· ≠ '"') = '"' :: rest := by
  have hall : ∀ c ∈ cs, decide (c ≠ '"') = true := fun c hc =>
    decide_eq_true fun heq => h (heq ▸ hc)
  rw [List.takeWhile_append_of_pos hall, List.dropWhile_append_of_pos hall]
  simp

theorem plainText_envelopeOf (nonce ct : String) : plainText (envelopeOf nonce ct) =
    String.ofList (opening ++ (ct.toList ++ '"' :: (middle ++ (nonce.toList ++ '"' :: closing)))) :=
  rfl

theorem readText_envelopeOf {nonce ct : String} (hnonce : '"' ∉ nonce.toList)
    (hct : '"' ∉ ct.toList) :
    readText (plainText (envelopeOf nonce ct)) = some (envelopeOf nonce ct) := by
  have htext : (plainText (envelopeOf nonce ct)).toList.drop opening.length =
      ct.toList ++ '"' :: (middle ++ (nonce.toList ++ '"' :: closing)) := by
    rw [plainText_envelopeOf, String.toList_ofList, List.drop_left]
  rw [readText, htext, (takeWhile_quote hct _).1, (takeWhile_quote hct _).2, List.drop_one,
    List.tail_cons, List.drop_left, (takeWhile_quote hnonce _).1, String.ofList_toList,
    String.ofList_toList, if_pos rfl]

theorem header_prefix_injective {key key' : Bytes32} {aad aad' msg msg' : Bytes}
    (h : header key' aad' ++ msg' = header key aad ++ msg) : key' = key ∧ aad' = aad := by
  simp only [header, List.append_assoc] at h
  obtain ⟨hkey, htail⟩ := List.append_inj h (by simp)
  refine ⟨Vector.toList_inj.mp hkey, ?_⟩
  clear h hkey
  induction aad' generalizing aad with
  | nil =>
    cases aad with
    | nil => rfl
    | cons b aad => simp at htail
  | cons b aad' ih =>
    cases aad with
    | nil => simp at htail
    | cons b' aad =>
      simp only [List.flatMap_cons, List.cons_append, List.cons.injEq, true_and,
        List.nil_append] at htail
      rw [htail.1, ih htail.2]

/-- Digits are read as they are written. -/
def unhex (text : String) : Option Bytes :=
  match readPairs text.toList (List.range' 0 (text.toList.length / 2)) with
  | some (.ok bytes) => some bytes
  | _ => none

theorem unhex_nonceHex (bytes : Bytes) : unhex (nonceHex bytes) = some bytes := by
  have hlen : (bytes.flatMap hexByte).length / 2 = bytes.length := by
    have : (bytes.flatMap hexByte).length = bytes.length * 2 := by
      simp [List.length_flatMap, hexByte]
    omega
  rw [unhex, nonceHex, String.toList_ofList, hlen, readPairs_flatMap_hexByte]

/-- A cipher that hides nothing: key and associated data stand before the message. -/
def headedAead : Aead where
  encrypt key _ aad msg := some (header key aad ++ msg)
  decrypt key _ aad ct :=
    if (header key aad).isPrefixOf ct then some (ct.drop (header key aad).length) else none

theorem headedAead_decrypts : headedAead.Decrypts := by
  intro key nonce aad msg ct h
  obtain rfl := Option.some.inj h
  have hprefix : (header key aad).isPrefixOf (header key aad ++ msg) = true :=
    List.isPrefixOf_iff_prefix.mpr (List.prefix_append _ _)
  rw [headedAead]
  dsimp only
  rw [if_pos hprefix, List.drop_left]

theorem headedAead_authentic {key key' : Bytes32} {nonce nonce' aad aad' msg msg' ct : Bytes}
    (h : headedAead.encrypt key nonce aad msg = some ct)
    (h' : headedAead.decrypt key' nonce' aad' ct = some msg') : key' = key ∧ aad' = aad := by
  obtain rfl := Option.some.inj h
  rw [headedAead] at h'
  dsimp only at h'
  split at h'
  · rename_i hprefix
    obtain ⟨rest, hrest⟩ := List.isPrefixOf_iff_prefix.mp hprefix
    exact header_prefix_injective hrest
  · cases h'

/-- Hexadecimal digits for base64, and `null` for every value. -/
def plainCrates : Crates where
  fromStr := readText
  toText := plainText
  fromSlice _ := some .null
  toVec _ := .ok []
  encode := nonceHex
  decode := unhex
  aead := headedAead

theorem plainCrates_fromStr : plainCrates.fromStr = readText := by rw [plainCrates]

theorem plainCrates_toText : plainCrates.toText = plainText := by rw [plainCrates]

theorem plainCrates_encode : plainCrates.encode = nonceHex := by rw [plainCrates]

theorem plainCrates_lawful : plainCrates.Lawful where
  envelope nonce ct := by
    rw [plainCrates_fromStr, plainCrates_toText, plainCrates_encode]
    exact readText_envelopeOf (notMem_nonceHex _) (notMem_nonceHex _)
  base64 := unhex_nonceHex
  decrypts := headedAead_decrypts
  authentic _ _ _ _ _ h _ _ _ _ h' := headedAead_authentic h h'

/-- A key. -/
def someKey : Bytes32 := Vector.replicate 32 7

/-- A sealed `null`, beside a text that is no envelope. -/
theorem openJson_sound_null : EnvelopeSound plainCrates someKey "stick" "manifest"
    (Vector.replicate 12 255) "null" .null := by
  refine (openJson_sound_iff _ plainCrates_lawful _ _ _ _ _ _).mpr ⟨?_, fun _ => ⟨_, rfl, rfl⟩⟩
  rintro ⟨env, hex, henv, -⟩
  have hnone : readText "null" = none := by decide
  exact nomatch hnone.symm.trans henv

theorem straddles_second : Straddles "0é000000000000000000000".toList :=
  ⟨[], _, rfl, nofun, by decide, by decide⟩

/-- The second character of the nonce has two bytes. -/
theorem not_openJson_sound : ¬ ∀ c : Crates, c.Lawful → ∀ psk stickId domain nonce text value,
    EnvelopeSound c psk stickId domain nonce text value := by
  intro h
  have htotal := (h plainCrates plainCrates_lawful someKey "stick" "manifest"
    (Vector.replicate 12 255) (plainText (envelopeOf "0é000000000000000000000" "")) .null).total
  have hread : plainCrates.fromStr (plainText (envelopeOf "0é000000000000000000000" ""))
      = some (envelopeOf "0é000000000000000000000" "") := by
    rw [plainCrates_fromStr]
    exact readText_envelopeOf (by decide) (by decide)
  rw [openJson_eq_none_iff.mpr
    ⟨_, _, hread, rfl, rfl, by decide, straddles_second⟩] at htotal
  cases htotal

end ApexOS.Courier
