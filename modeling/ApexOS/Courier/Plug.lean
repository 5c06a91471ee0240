import ApexOS.Courier.Outbox
import ApexOS.Fabrica.Worker
import ApexOS.Mesh.Types

/-!
# A stick is plugged in

`process_plug` of `agentd/crates/plugins/src/courier.rs`: the stick gets its identity, the cargo for
this node is verified and taken in, the receipts aboard close rows of the outbox, and the rows that
are left are loaded.

The two lists on a stick are sealed, and open only under the key they were sealed with, on the stick
they were sealed for and in the place they were sealed for. Whatever else is found in their place is
a list sealed with another key. What the operating system says about a failure is left out of the
texts.

## Main definitions

* `Stick`, `ManifestEntry`, `Receipt`, `Sealed`: what is on a stick
* `ensureStickId`, `ingestOne`, `readReceiptsHome`, `loadOne`: the parts of a plug
* `processPlug`: the whole of it
-/

namespace ApexOS.Courier

/-! ### Sticks -/

/-- `ManifestEntry`; `cargoClass` is its `class`. -/
structure ManifestEntry where
  root : String
  len : ℕ
  name : String
  cargoClass : String
  origin : String
  dest : String
  epoch : ℕ
  createdAt : String
  shipmentId : String
  deriving DecidableEq, Repr

/-- `Receipt`; `stampedAt` is its `at`. -/
structure Receipt where
  root : String
  node : String
  accepted : Bool
  stampedAt : String
  shipmentId : String
  deriving DecidableEq, Repr

/-- A list sealed by `write_sealed_list`. -/
structure Sealed (α : Type*) where
  psk : Bytes32
  stickId : String
  domain : String
  entries : List α

/-- A stick: its marker, with the id if it has one, and what is under `apexos-courier`. -/
structure Stick where
  marker : Except String (Option String)
  manifest : Option (Sealed ManifestEntry)
  receipts : Option (Sealed Receipt)
  cargo : String → Option Bytes

/-- What a plug writes. -/
inductive PlugFile
  | marker
  | incoming (path : String)
  | receiptedOutbox
  | cargo (root : String)
  | loadedOutbox
  | manifest
  | receipts

/-- What a plug asks of the world. -/
structure PlugWorld where
  now : String
  epoch : ℕ
  /-- `mint_stick_id`. -/
  minted : String
  writes : PlugFile → Write

/-- `Gossip`, with the fields of its body. -/
inductive Gossip
  | receipt (target stick root node : String) (accepted : Bool) (shipmentId : String)
  | manifest (target stick root origin dest : String) (len epoch : ℕ) (name shipmentId : String)
  deriving DecidableEq, Repr

/-- `PlugReport`. -/
structure PlugReport where
  stickId : Option String
  pskMissing : Bool
  sealedError : Option String
  verified : List (String × String)
  failed : List (String × String)
  already : ℕ
  announcedMatched : ℕ
  unannounced : ℕ
  loaded : List (String × String)
  receiptsMatched : ℕ
  inTransit : ℕ
  notes : List String
  deriving DecidableEq, Repr

/-- `PlugReport::default`. -/
def PlugReport.empty : PlugReport := ⟨none, false, none, [], [], 0, 0, 0, [], 0, 0, []⟩

/-- The report with one more note. -/
def PlugReport.note (r : PlugReport) (text : String) : PlugReport :=
  { r with notes := r.notes ++ [text] }

/-- `ensure_stick_id`. -/
def ensureStickId (s : Stick) (w : PlugWorld) : Except String (Stick × String) :=
  match s.marker with
  | .error e => .error e
  | .ok (some id) => .ok (s, id)
  | .ok none =>
    match w.writes .marker with
    | .made => .ok ({ s with marker := .ok (some w.minted) }, w.minted)
    | .failed => .error "marker upgrade write"

/-- `read_sealed_list`. -/
def readSealedList {α : Type*} (file : Option (Sealed α)) (psk : Bytes32)
    (stickId domain : String) : Except String (List α) :=
  match file with
  | none => .ok []
  | some s =>
    if s.psk = psk ∧ s.stickId = stickId ∧ s.domain = domain then .ok s.entries
    else .error s!"{domain}: authentication failed (tamper, wrong stick, or wrong PSK)"

/-! ### Cargo for this node -/

/-- `char::is_ascii_alphanumeric`. -/
def isAsciiAlphanumeric (c : Char) : Bool :=
  ('a' ≤ c && c ≤ 'z') || ('A' ≤ c && c ≤ 'Z') || ('0' ≤ c && c ≤ '9')

/-- `safe_origin`. -/
def safeOrigin (origin : String) : Except String String :=
  let s := Fabrica.trim origin
  if s.isEmpty then .error "origin is empty"
  else if s = "." || s = ".." || '/' ∈ s.toList || '\\' ∈ s.toList then
    .error "origin must be a single path component"
  else if s.toList.head? = some '.' then .error "origin must not be hidden or relative"
  else if 64 < s.utf8ByteSize then .error "origin is too long"
  else if !s.toList.all fun c => isAsciiAlphanumeric c || c = '-' || c = '_' || c = '.' then
    .error "origin has illegal characters"
  else .ok s

/-- `safe_name`. -/
def safeName (name root : String) : String :=
  let base := (name.toList.reverse.takeWhile fun c => c ≠ '/' && c ≠ '\\').reverse
  let clean := base.filter fun c =>
    isAsciiAlphanumeric c || c = '.' || c = '_' || c = '-' || c = ' '
  let trimmed := (Fabrica.trim (String.ofList clean)).toList.dropWhile (· = '.')
  if trimmed.isEmpty then s!"cargo-{Fabrica.clip 12 root}" else String.ofList trimmed

/-- The path an entry is taken in under. -/
def incomingPath (workspace origin : String) (entry : ManifestEntry) : String :=
  s!"{workspace}/courier/incoming/{origin}/{safeName entry.name entry.root}"

/-- What a plug does until the outbox is drained. -/
structure Ingest where
  files : String → Source
  receipts : List Receipt
  receiptsDirty : Bool
  report : PlugReport
  gossip : List Gossip

/-- The node that a stick is plugged in at. -/
structure Host where
  nodeId : String
  workspace : String

variable (blobRoot : Bytes → String) (host : Host) (stickId : String) (w : PlugWorld)

/-- A receipt of this node says that the entry was taken in. -/
def Receipt.tookIn (nodeId : String) (entry : ManifestEntry) (r : Receipt) : Bool :=
  r.node = nodeId && r.accepted &&
    if r.shipmentId ≠ "" && entry.shipmentId ≠ "" then r.shipmentId = entry.shipmentId
    else r.root = entry.root

/-- The entry was announced. -/
def Ledger.announced (ledger : Ledger) (entry : ManifestEntry) : Bool :=
  ledger.manifests.any fun m => m.stick = stickId && m.root = entry.root &&
    (m.shipmentId = "" || entry.shipmentId = "" || m.shipmentId = entry.shipmentId)

/-- The verdict on an entry: where its bytes go, or why they go nowhere. -/
def verdict (cargo : String → Option Bytes) (entry : ManifestEntry) :
    Except String (String × Bytes) :=
  match safeOrigin entry.origin with
  | .error e => .error e
  | .ok origin =>
    match cargo entry.root with
    | none => .error "cargo read"
    | some bytes =>
      if blobRoot bytes ≠ entry.root then
        .error "blake3 mismatch — cargo does not match its announced root"
      else
        let path := incomingPath host.workspace origin entry
        match w.writes (.incoming path) with
        | .made => .ok (path, bytes)
        | .failed => .error "incoming write"

/-- One entry of the manifest that is addressed to this node. -/
def ingestOne (ledger : Ledger) (cargo : String → Option Bytes) (acc : Ingest)
    (entry : ManifestEntry) : Ingest :=
  if acc.receipts.any (Receipt.tookIn host.nodeId entry) then
    { acc with report := { acc.report with already := acc.report.already + 1 } }
  else
    let report := if ledger.announced stickId entry then
        { acc.report with announcedMatched := acc.report.announcedMatched + 1 }
      else { acc.report with unannounced := acc.report.unannounced + 1 }
    let v := verdict blobRoot host w cargo entry
    let accepted := match v with
      | .ok _ => true
      | .error _ => false
    let receipt : Receipt := ⟨entry.root, host.nodeId, accepted, w.now, entry.shipmentId⟩
    { files := match v with
        | .ok (path, bytes) => Function.update acc.files path (.file bytes)
        | .error _ => acc.files
      receipts := acc.receipts ++ [receipt]
      receiptsDirty := true
      report := match v with
        | .ok _ => { report with verified := report.verified ++ [(entry.name, entry.origin)] }
        | .error e => { report with failed := report.failed ++ [(entry.name, e)] }
      gossip := acc.gossip ++ match safeOrigin entry.origin with
        | .ok origin =>
          [.receipt origin stickId receipt.root host.nodeId accepted receipt.shipmentId]
        | .error _ => [] }

/-- The cargo aboard for this node. -/
def ingestAll (ledger : Ledger) (cargo : String → Option Bytes) (manifest : List ManifestEntry)
    (start : Ingest) : Ingest :=
  (manifest.filter fun m => m.dest = host.nodeId).foldl
    (ingestOne blobRoot host stickId w ledger cargo) start

/-! ### Receipts home -/

/-- The receipts aboard close rows of the outbox; also how many. -/
def readReceiptsHome (receipts : List Receipt) (outbox : List OutboxEntry) :
    List OutboxEntry × ℕ :=
  (receipts.filter fun r => r.accepted).foldl
    (fun acc r =>
      (closeRows acc.1 r.stampedAt r.shipmentId r.node stickId r.root,
        acc.2 + acc.1.countP fun e =>
          receiptClosesOutbox e r.shipmentId r.node stickId r.root))
    (outbox, 0)

/-- The outbox once the receipts aboard have been read. -/
def outboxHome (receipts : List Receipt) (outbox : List OutboxEntry) : List OutboxEntry :=
  let home := readReceiptsHome stickId receipts outbox
  if home.2 = 0 then outbox else (w.writes .receiptedOutbox).of outbox home.1

/-! ### The outbox aboard -/

/-- The outbox as it is loaded: the rows done, and what became of the stick. -/
structure Load where
  outbox : List OutboxEntry
  outboxDirty : Bool
  cargo : String → Option Bytes
  manifest : List ManifestEntry
  manifestDirty : Bool
  report : PlugReport
  gossip : List Gossip

/-- The entry of the manifest that keeps a row from being listed. -/
def OutboxEntry.aboard (e : OutboxEntry) (m : ManifestEntry) : Bool :=
  if m.shipmentId ≠ "" && e.shipmentId ≠ "" then m.shipmentId = e.shipmentId
  else m.root = e.root && m.dest = e.dest

/-- The row with the bytes that its source has now. -/
def OutboxEntry.refreshed (e : OutboxEntry) (bytes : Bytes) : OutboxEntry :=
  if blobRoot bytes ≠ e.root then { e with root := blobRoot bytes, len := bytes.length } else e

/-- The entry of the manifest that a row makes. -/
def OutboxEntry.listed (e : OutboxEntry) : ManifestEntry :=
  ⟨e.root, e.len, e.name, "bulk", host.nodeId, e.dest, w.epoch, w.now, e.shipmentId⟩

/-- The row is left alone. -/
def OutboxEntry.skipped (e : OutboxEntry) : Bool := e.receiptedAt.isSome || e.dest = host.nodeId

/-- The row with a shipment id. -/
def OutboxEntry.named (e : OutboxEntry) : OutboxEntry :=
  if e.shipmentId = "" then { e with shipmentId := shipmentIdFor e.dest e.id } else e

namespace Load

/-- It is noted that the source of a row has changed. -/
def noteChange (acc : Load) (e : OutboxEntry) (bytes : Bytes) : Load :=
  if blobRoot bytes ≠ e.root then
    { acc with report :=
        acc.report.note s!"{e.name}: source changed since queueing — carrying current bytes" }
  else acc

/-- The manifest lists a row, unless something aboard passes for it. -/
def enter (acc : Load) (e : OutboxEntry) : Load :=
  if acc.manifest.any e.aboard then acc
  else { acc with manifest := acc.manifest ++ [e.listed host w], manifestDirty := true }

/-- A row is done, and is announced if it is new to the stick. -/
def finish (acc : Load) (e : OutboxEntry) (dirty : Bool) : Load :=
  if e.loadedOn = some stickId then
    { acc with outbox := acc.outbox ++ [e], outboxDirty := acc.outboxDirty || dirty }
  else
    { acc with
      outbox := acc.outbox ++ [{ e with loadedOn := some stickId }]
      outboxDirty := true
      report := { acc.report with loaded := acc.report.loaded ++ [(e.name, e.dest)] }
      gossip := acc.gossip ++ [.manifest e.dest stickId e.root host.nodeId e.dest e.len w.epoch
        e.name e.shipmentId] }

end Load

/-- One row of the outbox. -/
def loadOne (files : String → Source) (acc : Load) (e : OutboxEntry) : Load :=
  if e.skipped host then { acc with outbox := acc.outbox ++ [e] }
  else match (files e.path).read with
  | none =>
    { acc with outbox := acc.outbox ++ [e], report := acc.report.note s!"{e.name}: source read" }
  | some bytes =>
    let noted := acc.noteChange blobRoot e bytes
    let now := e.refreshed blobRoot bytes
    let list (acc : Load) := (acc.enter host w now.named).finish host stickId w now.named
      (now.shipmentId = "")
    if (noted.cargo now.root).isSome then list noted
    else match w.writes (.cargo now.root) with
      | .made => list { noted with cargo := Function.update noted.cargo now.root (some bytes) }
      | .failed =>
        { noted with
          outbox := noted.outbox ++ [now]
          report := noted.report.note s!"{now.name}: cargo write" }

/-! ### The plug -/

/-- The cargo of a plug that has opened the two lists. -/
def plugTaken (n : Node) (s : Stick) (manifest : List ManifestEntry) (receipts : List Receipt)
    (report : PlugReport) : Ingest :=
  ingestAll blobRoot host stickId w n.ledger s.cargo manifest ⟨n.files, receipts, false, report, []⟩

/-- The outbox of the plug, once it has taken the cargo, and then aboard. -/
def plugLoad (n : Node) (s : Stick) (manifest : List ManifestEntry) (taken : Ingest) : Load :=
  let inTransit := manifest.countP fun m => m.dest ≠ host.nodeId && m.origin ≠ host.nodeId
  let matched := (readReceiptsHome stickId taken.receipts n.outbox).2
  let report := { taken.report with inTransit := inTransit, receiptsMatched := matched }
  (outboxHome stickId w taken.receipts n.outbox).foldl
    (loadOne blobRoot host stickId w taken.files)
    ⟨[], false, s.cargo, manifest, false, report, taken.gossip⟩

/-- The plug once the two lists are open. -/
def plugOpened (n : Node) (s : Stick) (psk : Bytes32) (manifest : List ManifestEntry)
    (receipts : List Receipt) (report : PlugReport) : Node × Stick × PlugReport × List Gossip :=
  let taken := plugTaken blobRoot host stickId w n s manifest receipts report
  let outbox := outboxHome stickId w taken.receipts n.outbox
  let load := plugLoad blobRoot host stickId w n s manifest taken
  let report := match load.manifestDirty, w.writes .manifest with
    | true, .failed => load.report.note "manifest write"
    | _, _ => load.report
  let report := match taken.receiptsDirty, w.writes .receipts with
    | true, .failed => report.note "receipts write"
    | _, _ => report
  ({ n with
      files := taken.files
      outbox :=
        if load.outboxDirty then (w.writes .loadedOutbox).of outbox load.outbox else outbox },
    { s with
      cargo := load.cargo
      manifest := if load.manifestDirty then
          (w.writes .manifest).of s.manifest (some ⟨psk, stickId, "manifest", load.manifest⟩)
        else s.manifest
      receipts := if taken.receiptsDirty then
          (w.writes .receipts).of s.receipts (some ⟨psk, stickId, "receipts", taken.receipts⟩)
        else s.receipts },
    report, load.gossip)

/-- `process_plug`. -/
def processPlug (n : Node) (s : Stick) (psk : Option Bytes32) :
    Node × Stick × PlugReport × List Gossip :=
  match ensureStickId s w with
  | .error e => (n, s, PlugReport.empty.note s!"stick identity: {e}", [])
  | .ok (s, stickId) =>
    let report := { PlugReport.empty with stickId := some stickId }
    match psk with
    | none =>
      let report := { report with pskMissing := true }
      (n, s,
        if s.manifest.isSome then
          report.note "a sealed courier manifest is aboard but this node has no colony PSK"
        else report, [])
    | some psk =>
      match readSealedList s.manifest psk stickId "manifest" with
      | .error e => (n, s, { report with sealedError := some e }, [])
      | .ok manifest =>
        match readSealedList s.receipts psk stickId "receipts" with
        | .error e => (n, s, { report with sealedError := some e }, [])
        | .ok receipts => plugOpened blobRoot host stickId w n s psk manifest receipts report

end ApexOS.Courier
