import ApexOS.Lib.LittleEndian
import ApexOS.Lib.Saturating
import ApexOS.Mesh.Types

/-!
# The envelope: nonces, headers, sealing, counters

The rest of `apexos-mesh-proto/src/crypto.rs`. The serialiser and the cipher are other people's
code and enter as parameters: `Postcard` is what `postcard` offers for one type, `Aead` is
`ChaCha20Poly1305` under any key. What the source does with them is modelled in full: which bytes
are the nonce, which are authenticated, which checks come first.

## Main definitions

* `nonceFor`, `headerAad`: the two hand-laid byte layouts
* `sealFrame`, `openFrame`: the source's `seal` and `open`
* `reserveFromStored`, `nextProvisionCtr`: how the two kinds of sender mint counters

## Main results

* `nonceFor_injective`: a nonce is its sender and its counter, nothing less
-/

namespace ApexOS.Mesh

open LittleEndian

/-! ### What the envelope is built from -/

/-- `postcard` for one type: `to_allocvec`, and `take_from_bytes` with what it left over. -/
structure Postcard (α : Type) where
  toAllocvec : α → Option Bytes
  takeFromBytes : Bytes → Option (α × Bytes)

/-- `ChaCha20Poly1305`: key, nonce, associated data, message. -/
structure Aead where
  encrypt : Bytes32 → Bytes → Bytes → Bytes → Option Bytes
  decrypt : Bytes32 → Bytes → Bytes → Bytes → Option Bytes

/-! ### Layouts -/

/-- `nonce_for`. -/
def nonceFor (sender : UInt16) (ctr : UInt64) : Bytes :=
  toLE 2 sender.toNat ++ toLE 8 ctr.toNat ++ [0, 0]

/-- `header_aad`. -/
def headerAad (ver : UInt8) (cls : MeshClass) (sender : UInt16) (ctr : UInt64) : Bytes :=
  [ver, cls.toByte] ++ toLE 2 sender.toNat ++ toLE 8 ctr.toNat

theorem nonceFor_injective {s s' : UInt16} {c c' : UInt64} (h : nonceFor s c = nonceFor s' c') :
    s = s' ∧ c = c' := by
  rw [nonceFor, nonceFor] at h
  obtain ⟨hhead, -⟩ := List.append_inj' h rfl
  obtain ⟨hs, hc⟩ := List.append_inj hhead (by simp)
  have hs' := congrArg ofLE hs
  have hc' := congrArg ofLE hc
  rw [ofLE_toLE_uint16, ofLE_toLE_uint16] at hs'
  rw [ofLE_toLE_uint64, ofLE_toLE_uint64] at hc'
  exact ⟨UInt16.toNat_inj.mp hs', UInt64.toNat_inj.mp hc'⟩

/-! ### Sealing and opening -/

/-- `seal`. -/
def sealFrame (codec : Postcard PlainPacket) (aead : Aead) (psk : Bytes32) (cls : MeshClass)
    (sender : UInt16) (ctr : UInt64) (packet : PlainPacket) : Except Error MeshFrame :=
  if ctr = 0 then .error .zeroCounter
  else
    match codec.toAllocvec packet with
    | none => .error .postcard
    | some plain =>
      match aead.encrypt psk (nonceFor sender ctr) (headerAad wireVersion cls sender ctr) plain with
      | none => .error .crypto
      | some ct => .ok ⟨wireVersion, cls, sender, ctr, ct⟩

/-- `open`. -/
def openFrame (codec : Postcard PlainPacket) (aead : Aead) (psk : Bytes32) (frame : MeshFrame) :
    Except Error PlainPacket :=
  if frame.ver ≠ wireVersion then .error .crypto
  else if frame.ctr = 0 then .error .zeroCounter
  else
    match aead.decrypt psk (nonceFor frame.sender frame.ctr)
        (headerAad frame.ver frame.cls frame.sender frame.ctr) frame.ct with
    | none => .error .crypto
    | some plain =>
      match codec.takeFromBytes plain with
      | none => .error .postcard
      | some (packet, rest) => if rest ≠ [] then .error .postcard else .ok packet

/-- A sealed frame carries the sender and the counter it was sealed under. -/
theorem sealFrame_header {codec : Postcard PlainPacket} {aead : Aead} {psk : Bytes32}
    {cls : MeshClass} {sender : UInt16} {ctr : UInt64} {packet : PlainPacket} {frame : MeshFrame}
    (h : sealFrame codec aead psk cls sender ctr packet = .ok frame) :
    frame.sender = sender ∧ frame.ctr = ctr ∧ ctr ≠ 0 := by
  rw [sealFrame] at h
  split at h
  · cases h
  · rename_i hctr
    split at h
    · cases h
    · split at h
      · cases h
      · obtain rfl := Except.ok.inj h
        exact ⟨rfl, rfl, hctr⟩

/-! ### Minting -/

/-- `reserve_from_stored`: a failed read is never high-water zero. -/
def reserveFromStored (stored : Except Unit (Option UInt64)) (step : UInt64) :
    Except Unit (UInt64 × UInt64) :=
  match stored with
  | .error () => .error ()
  | .ok none => .ok (0, step)
  | .ok (some v) => .ok (v, Saturating.add v step)

/-- `next_provision_ctr`. -/
def nextProvisionCtr (previous : Option UInt64) : UInt64 :=
  max (Saturating.add (previous.getD 0) 1) 1

end ApexOS.Mesh
