import ApexOS.Lib.Numeral
import Mathlib.Data.List.Lookmap

/-!
# The courier's outbox

What a node keeps for the courier (`agentd/crates/plugins/src/courier.rs`): the artifacts that wait
for a stick, and the ledger of what was heard about sticks on their way. Each operation reads the
outbox from its file and writes it back, and a write is made or leaves the file as it was.

An id is one above the highest present, so the rows that are gone count for nothing. The hash of a
blob is a parameter.

## Main definitions

* `OutboxEntry`, `Ledger`, `Node`: what a node keeps
* `queueArtifact`, `outboxCancel`, `ledgerHearReceipt`: the operations on it
* `drainOutbox`, `drained`: the outbox over the network, one row at a time
* `SameRows`: rows that differ only in how far they have come

## Main results

* `shipmentIdFor_injective`: a shipment id has one destination and one number
-/

namespace ApexOS.Courier

/-- The bytes of a file. -/
abbrev Bytes := List UInt8

/-- What a path leads to. -/
inductive Source
  | missing
  | directory
  | file (bytes : Bytes)
  deriving DecidableEq, Repr

/-- `std::fs::read`. -/
def Source.read : Source → Option Bytes
  | .file bytes => some bytes
  | _ => none

/-- Whether a write is made. One that is not leaves the file as it was. -/
inductive Write
  | made
  | failed
  deriving DecidableEq, Repr

/-- The value after a write. -/
def Write.of {α : Type*} : Write → α → α → α
  | .made, _, new => new
  | .failed, old, _ => old

/-- `MAX_ARTIFACT_BYTES`. -/
def maxArtifactBytes : ℕ := 256 * 1024 * 1024

/-- `OutboxEntry`. -/
structure OutboxEntry where
  id : ℕ
  dest : String
  path : String
  name : String
  root : String
  len : ℕ
  createdAt : String
  loadedOn : Option String
  receiptedAt : Option String
  shipmentId : String
  deriving DecidableEq, Repr

/-- `HeardManifest`. -/
structure HeardManifest where
  stick : String
  root : String
  origin : String
  dest : String
  len : ℕ
  epoch : ℕ
  name : String
  heardAt : String
  shipmentId : String
  deriving DecidableEq, Repr

/-- `HeardReceipt`. -/
structure HeardReceipt where
  stick : String
  root : String
  node : String
  accepted : Bool
  heardAt : String
  shipmentId : String
  deriving DecidableEq, Repr

/-- `Ledger`. -/
structure Ledger where
  manifests : List HeardManifest
  receipts : List HeardReceipt
  deriving DecidableEq, Repr

/-- A node, as far as the courier goes. -/
structure Node where
  outbox : List OutboxEntry
  ledger : Ledger
  files : String → Source
  /-- The rows that `drain_outbox_over_lan` has read and not yet come to. -/
  draining : List OutboxEntry

/-- `shipment_id_for`. -/
def shipmentIdFor (dest : String) (id : ℕ) : String := s!"{dest}:{id}"

/-- `receipt_closes_outbox`. -/
def receiptClosesOutbox (e : OutboxEntry) (shipmentId dest stick root : String) : Bool :=
  e.receiptedAt.isNone && e.dest = dest &&
    (e.shipmentId ≠ "" && shipmentId ≠ "" && e.shipmentId = shipmentId) &&
    (root = "" || e.root = root) && e.loadedOn.all fun stickOn => stick = "" || stickOn = stick

/-- The id of the next row. -/
def nextId (outbox : List OutboxEntry) : ℕ := (outbox.map OutboxEntry.id).foldr max 0 + 1

/-! ### The operations -/

/-- What `queue_artifact` answers; the row of an `Ok` is new, or was there. -/
inductive QueueOutcome
  | queued (e : OutboxEntry)
  | existing (e : OutboxEntry)
  | unreadable
  | notRegular
  | tooLarge (len : ℕ)
  | notSaved
  deriving DecidableEq, Repr

/-- `queue_artifact`. -/
def queueArtifact (blobRoot : Bytes → String) (n : Node) (path dest name now : String) (w : Write) :
    Node × QueueOutcome :=
  match n.files path with
  | .missing => (n, .unreadable)
  | .directory => (n, .notRegular)
  | .file bytes =>
    if maxArtifactBytes < bytes.length then (n, .tooLarge bytes.length)
    else
      let root := blobRoot bytes
      match n.outbox.find? fun e => e.root = root && e.dest = dest && e.receiptedAt.isNone with
      | some e => (n, .existing e)
      | none =>
        let id := nextId n.outbox
        let entry : OutboxEntry := {
          id := id
          dest := dest
          path := path
          name := name
          root := root
          len := bytes.length
          createdAt := now
          loadedOn := none
          receiptedAt := none
          shipmentId := shipmentIdFor dest id }
        match w with
        | .made => ({ n with outbox := n.outbox ++ [entry] }, .queued entry)
        | .failed => (n, .notSaved)

/-- What `outbox_cancel` answers; a row that is aboard a stick comes with the stick. -/
inductive CancelOutcome
  | cancelled (e : OutboxEntry) (aboard : Option String)
  | noEntry (id : ℕ)
  | alreadyDelivered (e : OutboxEntry)
  | notSaved
  deriving DecidableEq, Repr

/-- `outbox_cancel`. -/
def outboxCancel (n : Node) (id : ℕ) (w : Write) : Node × CancelOutcome :=
  match n.outbox.find? fun e => e.id = id with
  | none => (n, .noEntry id)
  | some e =>
    if e.receiptedAt.isSome then (n, .alreadyDelivered e)
    else match w with
      | .made =>
        ({ n with outbox := n.outbox.eraseP fun e => e.id = id }, .cancelled e e.loadedOn)
      | .failed => (n, .notSaved)

/-- A row with its delivery confirmed. -/
def OutboxEntry.receipted (e : OutboxEntry) (now : String) : OutboxEntry :=
  { e with receiptedAt := some now }

/-- The rows that a receipt closes, closed. -/
def closeRows (outbox : List OutboxEntry) (now shipmentId dest stick root : String) :
    List OutboxEntry :=
  outbox.map fun e =>
    if receiptClosesOutbox e shipmentId dest stick root then e.receipted now else e

/-- `ledger_hear_receipt`: whether it was news, and the last row it closed. -/
def ledgerHearReceipt (n : Node) (r : HeardReceipt) (ledgerWrite outboxWrite : Write) :
    Node × Bool × Option String :=
  let news := !n.ledger.receipts.any fun x =>
    x.stick = r.stick && x.root = r.root && x.node = r.node && x.shipmentId = r.shipmentId
  let ledger := if news then
      ledgerWrite.of n.ledger { n.ledger with receipts := n.ledger.receipts ++ [r] }
    else n.ledger
  let closed := n.outbox.filter fun e => receiptClosesOutbox e r.shipmentId r.node r.stick r.root
  if r.accepted && !closed.isEmpty then
    let outbox := closeRows n.outbox r.heardAt r.shipmentId r.node r.stick r.root
    ({ n with ledger := ledger, outbox := outboxWrite.of n.outbox outbox }, news,
      closed.getLast?.map OutboxEntry.name)
  else ({ n with ledger := ledger }, news, none)

/-- `drain_outbox_over_lan`, as it reads the outbox. -/
def Node.drainOutbox (n : Node) : Node :=
  { n with draining := n.draining ++ n.outbox.filter fun e => e.receiptedAt.isNone }

/-- `drain_outbox_over_lan`, as it comes to a row: `sent` is that the peer is known, the source
readable, and the upload answered. Other operations may come between two rows. -/
def Node.drained (n : Node) (k : ℕ) (sent : Bool) (now : String) (w : Write) : Node :=
  match n.draining[k]? with
  | none => n
  | some entry =>
    let draining := n.draining.eraseIdx k
    if sent then
      let outbox := n.outbox.lookmap fun e =>
        if e.id = entry.id then some (e.receipted now) else none
      { n with draining := draining, outbox := w.of n.outbox outbox }
    else { n with draining := draining }

/-! ### Shipment ids -/

theorem toList_shipmentIdFor (dest : String) (id : ℕ) :
    (shipmentIdFor dest id).toList = dest.toList ++ ':' :: Nat.toDigits 10 id := by
  simp only [shipmentIdFor, String.toList_append, List.append_assoc]
  rw [show (toString id).toList = Nat.toDigits 10 id from Nat.toList_repr]
  rfl

/-- A shipment id has one destination and one number. -/
theorem shipmentIdFor_injective {dest dest' : String} {id id' : ℕ}
    (h : shipmentIdFor dest id = shipmentIdFor dest' id') : dest = dest' ∧ id = id' := by
  have hlist := congrArg String.toList h
  rw [toList_shipmentIdFor, toList_shipmentIdFor] at hlist
  obtain ⟨hdest, hid⟩ := Numeral.key_injective (by decide) (by decide) (by decide) hlist
  exact ⟨String.toList_injective hdest, hid⟩

theorem shipmentIdFor_ne_empty (dest : String) (id : ℕ) : shipmentIdFor dest id ≠ "" := by
  intro h
  have hlist := congrArg String.toList h
  rw [toList_shipmentIdFor] at hlist
  simp at hlist

end ApexOS.Courier
