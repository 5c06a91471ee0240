import Mathlib.Data.Nat.Notation

/-!
# The wire types

`apexos-mesh-proto/src/types.rs` and the constants and error enumeration of `lib.rs`: what a
frame, its decrypted interior and its payload are made of. Machine integers keep their widths,
byte arrays of fixed length are vectors, and everything compares decidably.
-/

namespace ApexOS

/-- A byte string of any length (`Vec<u8>`, `&[u8]`). -/
abbrev Bytes := List UInt8

/-- Thirty-two bytes: a pre-shared key, or a blake3 root. -/
abbrev Bytes32 := Vector UInt8 32

namespace Mesh

/-- `WIRE_VERSION`. -/
def wireVersion : UInt8 := 1

/-- `MAX_WIRE_FRAME`: the longest encoded frame, its delimiter included. -/
def maxWireFrame : ℕ := 4096

/-- `BROADCAST`. -/
def broadcast : UInt16 := 0xFFFF

/-- `DEFAULT_HOP_LIMIT`. -/
def defaultHopLimit : UInt8 := 4

/-- `Error`: everything that can go wrong at the wire layer. -/
inductive Error
  | postcard
  | tooLarge
  | truncated
  | crcMismatch
  | cobs
  | crypto
  | zeroCounter
  | badClass (v : UInt8)
  | chunkIndex
  | chunkSize
  | chunkConflict
  | rootMismatch
  | incomplete
  deriving DecidableEq, Repr

/-- `MeshClass`: the routing class in the cleartext header. -/
inductive MeshClass
  | critical
  | gossip
  | bulk
  | digest
  deriving DecidableEq, Repr

/-- `u8::from(class)`. -/
def MeshClass.toByte : MeshClass → UInt8
  | critical => 0
  | gossip => 1
  | bulk => 2
  | digest => 3

/-- `MeshFrame`: the outer frame. Everything but `ct` is cleartext. -/
structure MeshFrame where
  ver : UInt8
  cls : MeshClass
  sender : UInt16
  ctr : UInt64
  ct : Bytes
  deriving DecidableEq

/-- `Digest`: a nightly anti-entropy claim. -/
structure Digest where
  ver : UInt8
  node : UInt16
  epoch : UInt32
  memRoot : Bytes32
  nNew : UInt16
  tags : Vector UInt32 4
  reserved : UInt32
  deriving DecidableEq

/-- `CourierManifest`. -/
structure CourierManifest where
  stick : Vector UInt8 8
  origin : UInt16
  dest : UInt16
  root : Bytes32
  nChunks : UInt16
  totalLen : UInt32
  epoch : UInt32
  deriving DecidableEq

/-- `CourierReceipt`. -/
structure CourierReceipt where
  stick : Vector UInt8 8
  root : Bytes32
  accepted : Bool
  deriving DecidableEq

/-- `Payload`, in wire order. -/
inductive Payload
  | heartbeat (uptimeS : UInt32) (cortexUp : Bool) (conn : UInt8)
  | alarm (code : UInt16) (detail : String)
  | a2a (body : Bytes)
  | dreamDigest (d : Digest)
  | chunkAnnounce (root : Bytes32) (nChunks : UInt16) (totalLen : UInt32) (chunkLen : UInt16)
  | chunkRequest (root : Bytes32) (index : UInt16)
  | chunkData (root : Bytes32) (index : UInt16) (data : Bytes)
  | ack (ofSender : UInt16) (ofCtr : UInt64)
  | courierManifest (m : CourierManifest)
  | courierReceipt (r : CourierReceipt)
  | provision (nodeId : UInt16) (psk : Bytes32)
  | brainstemStatus (nodeId : UInt16) (queued : UInt16) (neighbors : UInt8) (ctrHw : UInt64)
  deriving DecidableEq

/-- `PlainPacket`: the decrypted interior of a frame. -/
structure PlainPacket where
  target : UInt16
  hopLimit : UInt8
  flags : UInt8
  payload : Payload
  deriving DecidableEq

end Mesh

end ApexOS
