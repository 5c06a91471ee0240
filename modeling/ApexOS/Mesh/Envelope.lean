import ApexOS.Mesh.Crypto
import Mathlib.Data.Set.Image

/-!
# What the envelope promises

`seal` and `open` of `apexos-mesh-proto/src/crypto.rs`, with a serialiser that reads its own
encoding back and a cipher that decrypts what it has encrypted. For forgeries the cipher is
idealised: it decrypts nothing but what was encrypted, under the same key, nonce and associated
data. Then all of a frame matters, since its header can be read off the associated data.

## Main definitions

* `Postcard.Reads`, `Aead.Decrypts`, `Aead.Ideal`: what is relied on
* `Envelope`: what is promised

## Main results

* `headerAad_injective`: the associated data is the header, nothing less
* `envelope`: the promises are kept
-/

namespace ApexOS.Mesh

open LittleEndian

/-- `postcard` reads its own encoding back, and all of it. -/
def Postcard.Reads {α : Type} (codec : Postcard α) : Prop :=
  ∀ a bytes, codec.toAllocvec a = some bytes → codec.takeFromBytes bytes = some (a, [])

/-- The cipher decrypts what it has encrypted. -/
def Aead.Decrypts (aead : Aead) : Prop :=
  ∀ key nonce aad msg ct, aead.encrypt key nonce aad msg = some ct →
    aead.decrypt key nonce aad ct = some msg

/-- And nothing else: key, nonce, associated data and ciphertext are those of an encryption. -/
def Aead.Ideal (aead : Aead) (encryptions : Set (Bytes32 × Bytes × Bytes × Bytes)) : Prop :=
  ∀ key nonce aad ct msg, aead.decrypt key nonce aad ct = some msg →
    (key, nonce, aad, ct) ∈ encryptions

/-- The encryption that a frame comes from, if it was sealed under the key. -/
def encryptionOf (sealed : Bytes32 × MeshFrame) : Bytes32 × Bytes × Bytes × Bytes :=
  (sealed.1, nonceFor sealed.2.sender sealed.2.ctr,
    headerAad sealed.2.ver sealed.2.cls sealed.2.sender sealed.2.ctr, sealed.2.ct)

/-- What is expected of sealed frames. -/
structure Envelope (codec : Postcard PlainPacket) : Prop where
  /-- what is sealed under a counter opens -/
  opens : ∀ aead : Aead, aead.Decrypts → ∀ psk cls sender ctr packet, ctr ≠ 0 →
    ∀ plain, codec.toAllocvec packet = some plain →
    ∀ ct, aead.encrypt psk (nonceFor sender ctr) (headerAad wireVersion cls sender ctr) plain
      = some ct →
    ∃ frame, sealFrame codec aead psk cls sender ctr packet = .ok frame ∧
      openFrame codec aead psk frame = .ok packet
  nonce : Function.Injective fun x : UInt16 × UInt64 => nonceFor x.1 x.2
  aad : Function.Injective fun x : UInt8 × MeshClass × UInt16 × UInt64 =>
    headerAad x.1 x.2.1 x.2.2.1 x.2.2.2
  /-- only what was sealed opens -/
  genuine : ∀ (aead : Aead) (sealed : Set (Bytes32 × MeshFrame)),
    aead.Ideal (Set.image encryptionOf sealed) → ∀ psk frame packet,
      openFrame codec aead psk frame = .ok packet → (psk, frame) ∈ sealed
  /-- and never under counter zero -/
  counted : ∀ (aead : Aead) psk frame packet, openFrame codec aead psk frame = .ok packet →
    frame.ctr ≠ 0

theorem MeshClass.toByte_injective : Function.Injective MeshClass.toByte := by
  intro k k' h
  cases k <;> cases k' <;> first | rfl | cases h

/-- The header is read off the associated data. -/
theorem headerAad_injective {v v' : UInt8} {k k' : MeshClass} {s s' : UInt16} {c c' : UInt64}
    (h : headerAad v k s c = headerAad v' k' s' c') : v = v' ∧ k = k' ∧ s = s' ∧ c = c' := by
  rw [headerAad, headerAad] at h
  obtain ⟨hhead, hc⟩ := List.append_inj h (by simp)
  obtain ⟨hfirst, hs⟩ := List.append_inj hhead rfl
  obtain ⟨rfl, hrest⟩ := List.cons.inj hfirst
  have hk := MeshClass.toByte_injective (List.cons.inj hrest).1
  have hs' := congrArg ofLE hs
  have hc' := congrArg ofLE hc
  rw [ofLE_toLE_uint16, ofLE_toLE_uint16] at hs'
  rw [ofLE_toLE_uint64, ofLE_toLE_uint64] at hc'
  exact ⟨rfl, hk, UInt16.toNat_inj.mp hs', UInt64.toNat_inj.mp hc'⟩

/-- A frame is determined by the encryption it comes from. -/
theorem encryptionOf_injective : Function.Injective encryptionOf := by
  rintro ⟨psk, frame⟩ ⟨psk', frame'⟩ h
  obtain ⟨rfl, h⟩ := Prod.mk.inj h
  obtain ⟨-, h⟩ := Prod.mk.inj h
  obtain ⟨haad, hct⟩ := Prod.mk.inj h
  obtain ⟨hver, hcls, hsender, hctr⟩ := headerAad_injective haad
  cases frame
  cases frame'
  simp_all

/-- What an opened frame went through. -/
theorem openFrame_eq_ok {codec : Postcard PlainPacket} {aead : Aead} {psk : Bytes32}
    {frame : MeshFrame} {packet : PlainPacket}
    (h : openFrame codec aead psk frame = .ok packet) : frame.ver = wireVersion ∧ frame.ctr ≠ 0 ∧
      ∃ plain, aead.decrypt psk (nonceFor frame.sender frame.ctr)
          (headerAad frame.ver frame.cls frame.sender frame.ctr) frame.ct = some plain ∧
        codec.takeFromBytes plain = some (packet, []) := by
  rw [openFrame] at h
  split at h
  · cases h
  rename_i hver
  split at h
  · cases h
  rename_i hctr
  split at h
  · cases h
  rename_i plain hplain
  split at h
  · cases h
  rename_i packet' rest htake
  split at h
  · cases h
  rename_i hrest
  obtain rfl := Except.ok.inj h
  exact ⟨not_not.mp hver, hctr, plain, hplain, by rw [htake, not_not.mp hrest]⟩

theorem openFrame_sealFrame {codec : Postcard PlainPacket} (hreads : codec.Reads) {aead : Aead}
    (haead : aead.Decrypts) {psk : Bytes32} {cls : MeshClass} {sender : UInt16} {ctr : UInt64}
    {packet : PlainPacket} {plain ct : Bytes} (hctr : ctr ≠ 0)
    (hplain : codec.toAllocvec packet = some plain)
    (hct : aead.encrypt psk (nonceFor sender ctr) (headerAad wireVersion cls sender ctr) plain
      = some ct) :
    sealFrame codec aead psk cls sender ctr packet = .ok ⟨wireVersion, cls, sender, ctr, ct⟩ ∧
      openFrame codec aead psk ⟨wireVersion, cls, sender, ctr, ct⟩ = .ok packet := by
  constructor
  · rw [sealFrame, if_neg hctr, hplain]
    dsimp only
    rw [hct]
  · rw [openFrame, if_neg (not_not.mpr rfl), if_neg hctr]
    dsimp only
    rw [haead _ _ _ _ _ hct]
    dsimp only
    rw [hreads _ _ hplain]
    exact if_neg (not_not.mpr rfl)

/-- **The envelope keeps its promises.** -/
theorem envelope {codec : Postcard PlainPacket} (hreads : codec.Reads) : Envelope codec where
  opens _ haead _ _ _ _ _ hctr _ hplain _ hct :=
    ⟨_, openFrame_sealFrame hreads haead hctr hplain hct⟩
  nonce _ _ h := Prod.ext_iff.mpr (nonceFor_injective h)
  aad _ _ h := by
    obtain ⟨hver, hcls, hsender, hctr⟩ := headerAad_injective h
    exact Prod.ext hver (Prod.ext hcls (Prod.ext hsender hctr))
  genuine aead sealed hideal psk frame packet h := by
    obtain ⟨-, -, plain, hplain, -⟩ := openFrame_eq_ok h
    obtain ⟨made, hmade, heq⟩ := hideal _ _ _ _ _ hplain
    have hmine : made = (psk, frame) := encryptionOf_injective heq
    exact hmine ▸ hmade
  counted _ _ _ _ h := (openFrame_eq_ok h).2.1

/-- An acknowledgement to everybody, and its encoding. -/
def ackPacket : PlainPacket := ⟨broadcast, defaultHopLimit, 0, .ack 7 9⟩

def ackCodec : Postcard PlainPacket where
  toAllocvec packet := if packet = ackPacket then some [255, 255, 3, 4, 0, 7, 7, 9] else none
  takeFromBytes bytes := if bytes = [255, 255, 3, 4, 0, 7, 7, 9] then some (ackPacket, []) else none

/-- A cipher that hides nothing, with a tag of the usual length. -/
def openAead : Aead where
  encrypt _ _ _ msg := some (msg ++ List.replicate 16 0)
  decrypt _ _ _ ct := some (ct.take (ct.length - 16))

theorem envelope_ack : Envelope ackCodec ∧ ∃ frame,
    sealFrame ackCodec openAead (Vector.replicate 32 1) .gossip 7 1 ackPacket = .ok frame ∧
      openFrame ackCodec openAead (Vector.replicate 32 1) frame = .ok ackPacket := by
  have hack : Envelope ackCodec := envelope fun packet bytes h => by
    rw [ackCodec] at h ⊢
    dsimp only at h ⊢
    split at h
    · rename_i hpacket
      rw [if_pos (Option.some.inj h).symm, hpacket]
    · cases h
  have hopens : openAead.Decrypts := fun _ _ _ msg ct h => by
    obtain rfl := Option.some.inj h
    exact congrArg some (by simp)
  exact ⟨hack, hack.opens openAead hopens _ _ _ _ _ (by decide) _ rfl _ rfl⟩

end ApexOS.Mesh
