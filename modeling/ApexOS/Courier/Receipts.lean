import ApexOS.Courier.Cargo
import ApexOS.Courier.Shipments

/-!
# What a receipt says

A row of the outbox is delivered when a receipt says so, and receipts come by two ways: on the
stick, where they stay for ever, and as gossip over the network, which may be late, doubled, out of
order or lost. Sticks are handed about, and what is not sealed on them can be changed by anybody:
the marker, the cargo, and which of the sealed lists ever written is there now.

Whatever the order, a receipt that says *accepted* goes back to a write that its node made, and a
row is closed only by a receipt with the row's destination, shipment id and root. The root of a row
may change as it is loaded, but that of a closed row does not.

## Main definitions

* `Traffic`, `Traffic.step`: nodes, sticks, and gossip between them
* `Traffic.TookIn`: a node took in and wrote these bytes
* `Traffic.ClosesTaken`: a row is closed only if its destination has taken it in

## Main results

* `Traffic.closes_taken`: so it is at every point of every run
-/

namespace ApexOS.Courier

/-- `ledger_hear_manifest`: whether it was news. -/
def ledgerHearManifest (n : Node) (m : HeardManifest) (w : Write) : Node × Bool :=
  if n.ledger.manifests.any fun x =>
    x.stick = m.stick && x.root = m.root && x.dest = m.dest && x.shipmentId = m.shipmentId
  then (n, false)
  else
    ({ n with ledger := w.of n.ledger { n.ledger with manifests := n.ledger.manifests ++ [m] } },
      true)

/-- `courier_receipt_handler` and `courier_manifest_handler`, for what a plug has sent. -/
def Node.hearGossip (n : Node) (g : Gossip) (now : String) (ledgerWrite outboxWrite : Write) :
    Node :=
  match g with
  | .receipt _ stick root node accepted shipmentId =>
    if stick = "" || root = "" then n
    else (ledgerHearReceipt n ⟨stick, root, node, accepted, now, shipmentId⟩ ledgerWrite
      outboxWrite).1
  | .manifest _ stick root origin dest len epoch name shipmentId =>
    if stick = "" || root = "" then n
    else (ledgerHearManifest n ⟨stick, root, origin, dest, len, epoch, name, now, shipmentId⟩
      ledgerWrite).1

/-- What a node does by itself. -/
inductive Operation
  | queue (path dest name now : String) (w : Write)
  | cancel (id : ℕ) (w : Write)
  | drain
  | drained (k : ℕ) (sent : Bool) (now : String) (w : Write)
  | change (path : String) (source : Source)

/-- As the node sees it. -/
def Operation.input : Operation → Node.Input
  | .queue path dest name now w => .queue path dest name now w
  | .cancel id w => .cancel id w
  | .drain => .drain
  | .drained k sent now w => .drained k sent now w
  | .change path source => .change path source

/-- Nodes and sticks, what was ever sealed on a stick, and all gossip ever sent. -/
structure Traffic where
  nodes : ℕ → Node
  sticks : ℕ → Stick
  manifests : List (Sealed ManifestEntry)
  receipts : List (Sealed Receipt)
  gossip : List Gossip

namespace Traffic

/-- What can happen. Gossip is heard by any node, any number of times and at any time. A stick is
meddled with: only sealed lists that were written at some time can be put on it. -/
inductive Input
  | node (i : ℕ) (o : Operation)
  | plug (i j : ℕ) (psk : Option Bytes32) (w : PlugWorld)
  | hear (i k : ℕ) (now : String) (ledgerWrite outboxWrite : Write)
  | meddle (j : ℕ) (marker : Except String (Option String)) (cargo : String → Option Bytes)
      (manifest receipts : Option ℕ)

variable (digest : Bytes → Bytes32) (hosts : ℕ → Host)

/-- One event; it answers with what was taken in, and where. -/
def step (c : Traffic) : Input → Traffic × List (Host × Take)
  | .node i o =>
    let n := ((c.nodes i).step (rootOf digest) (hosts i) o.input).1
    ({ c with nodes := Function.update c.nodes i n }, [])
  | .plug i j psk w =>
    let r := processPlug (rootOf digest) (hosts i) w (c.nodes i) (c.sticks j) psk
    ({ nodes := Function.update c.nodes i r.1
       sticks := Function.update c.sticks j r.2.1
       manifests := c.manifests ++ r.2.1.manifest.toList
       receipts := c.receipts ++ r.2.1.receipts.toList
       gossip := c.gossip ++ r.2.2.2 },
      (plugTakes (rootOf digest) (hosts i) w (c.nodes i) (c.sticks j) psk).map (hosts i, ·))
  | .hear i k now ledgerWrite outboxWrite =>
    match c.gossip[k]? with
    | none => (c, [])
    | some g =>
      ({ c with nodes :=
          Function.update c.nodes i ((c.nodes i).hearGossip g now ledgerWrite outboxWrite) }, [])
  | .meddle j marker cargo manifest receipts =>
    let s := ⟨marker, manifest.bind (c.manifests[·]?), receipts.bind (c.receipts[·]?), cargo⟩
    ({ c with sticks := Function.update c.sticks j s }, [])

/-- Nodes that have queued nothing, and sticks that nothing was sealed on. -/
def new (files : ℕ → String → Source) (markers : ℕ → Except String (Option String))
    (cargo : ℕ → String → Option Bytes) : Traffic where
  nodes i := Node.new (files i)
  sticks j := ⟨markers j, none, none, cargo j⟩
  manifests := []
  receipts := []
  gossip := []

/-- **A node took it in**: under a manifest entry for it with this shipment id it accepted bytes of
this root, and wrote them to its incoming folder. -/
def TookIn (past : List (Input × List (Host × Take))) (dest shipmentId root : String) : Prop :=
  ∃ x ∈ past, ∃ y ∈ x.2, y.1.nodeId = dest ∧ y.2.entry.dest = dest ∧
    y.2.entry.shipmentId = shipmentId ∧ rootOf digest y.2.bytes = root ∧
    ∃ o, safeOrigin y.2.entry.origin = .ok o ∧
      y.2.path = incomingPath y.1.workspace o y.2.entry

/-- The rows are delivered over the network, not by a stick. -/
def Input.overLan : Input → Bool
  | .node _ (.drained ..) => true
  | _ => false

/-- What is said to be taken in is written. -/
def Writes (c : Traffic) : Input → Prop
  | .plug i j psk w =>
    (((c.step digest hosts (.plug i j psk w)).1.nodes i).files =
      written (c.nodes i).files ((c.step digest hosts (.plug i j psk w)).2.map Prod.snd))
  | _ => True

/-- **A row is closed only if its destination has taken it in**: it was closed before, or its
destination has taken in bytes of its root under its shipment id. -/
def ClosesTaken (c : Traffic) (past : List (Input × List (Host × Take))) (input : Input) : Prop :=
  input.overLan = false → ∀ i, ∀ e ∈ ((c.step digest hosts input).1.nodes i).outbox,
    e.receiptedAt ≠ none → e ∈ (c.nodes i).outbox ∨
      TookIn digest (past ++ [(input, (c.step digest hosts input).2)]) e.dest e.shipmentId e.root

end Traffic

/-! ### What closes a row -/

/-- The row is one that the receipt is for. -/
def OutboxEntry.For (e : OutboxEntry) (shipmentId dest root : String) : Prop :=
  e.dest = dest ∧ e.shipmentId = shipmentId ∧ (root = "" ∨ e.root = root)

variable {blobRoot : Bytes → String} {host : Host} {stickId : String} {w : PlugWorld}

theorem mem_closeRows {o : List OutboxEntry} {now shipmentId dest stick root : String}
    {e : OutboxEntry} (h : e ∈ closeRows o now shipmentId dest stick root) :
    e ∈ o ∨ e.For shipmentId dest root := by
  obtain ⟨x, hx, rfl⟩ := List.mem_map.mp h
  split
  · rename_i hcloses
    simp only [receiptClosesOutbox, Bool.and_eq_true, Bool.or_eq_true, decide_eq_true_eq] at hcloses
    obtain ⟨⟨⟨⟨-, hdest⟩, ⟨-, hship⟩⟩, hroot⟩, -⟩ := hcloses
    exact .inr ⟨hdest, hship, hroot⟩
  · exact .inl hx

theorem mem_readReceiptsHome {receipts : List Receipt} {o : List OutboxEntry} {e : OutboxEntry}
    (h : e ∈ (readReceiptsHome stickId receipts o).1) :
    e ∈ o ∨ ∃ r ∈ receipts, r.accepted = true ∧ e.For r.shipmentId r.node r.root := by
  rw [readReceiptsHome] at h
  have hmem : ∀ r ∈ receipts.filter fun r => r.accepted, r ∈ receipts ∧ r.accepted = true :=
    fun r hr => List.mem_filter.mp hr
  generalize receipts.filter (fun r => r.accepted) = accepted at h hmem
  generalize (0 : ℕ) = count at h
  induction accepted generalizing o count with
  | nil => exact .inl h
  | cons r accepted ih =>
    rw [List.foldl_cons] at h
    rcases ih (fun x hx => hmem x (List.mem_cons_of_mem _ hx)) _ h with h | h
    · refine (mem_closeRows h).imp_right fun hfor => ⟨r, ?_, ?_, hfor⟩
      · exact (hmem r List.mem_cons_self).1
      · exact (hmem r List.mem_cons_self).2
    · exact .inr h

theorem Write.of_mem {α : Type*} {w : Write} {old new : List α} {x : α} (h : x ∈ w.of old new) :
    x ∈ old ∨ x ∈ new := by
  cases w with
  | made => exact .inr h
  | failed => exact .inl h

theorem mem_outboxHome {receipts : List Receipt} {o : List OutboxEntry} {e : OutboxEntry}
    (h : e ∈ outboxHome stickId w receipts o) :
    e ∈ o ∨ ∃ r ∈ receipts, r.accepted = true ∧ e.For r.shipmentId r.node r.root := by
  rw [outboxHome] at h
  split at h
  · exact .inl h
  · rcases Write.of_mem h with h | h
    · exact .inl h
    · exact mem_readReceiptsHome h

theorem open_finish (host : Host) (stickId : String) (w : PlugWorld) (acc : Load)
    {e : OutboxEntry} (dirty : Bool) (h : e.receiptedAt = none) :
    ∃ x, (acc.finish host stickId w e dirty).outbox = acc.outbox ++ [x] ∧ x.receiptedAt = none := by
  rw [Load.finish]
  split
  · exact ⟨e, rfl, h⟩
  · exact ⟨{ e with loadedOn := some stickId }, rfl, h⟩

/-- Loading leaves a closed row as it is. -/
theorem closed_loadOne (blobRoot : Bytes → String) (host : Host) (stickId : String)
    (w : PlugWorld) (files : String → Source) (acc : Load) (e : OutboxEntry) :
    ∃ x, (loadOne blobRoot host stickId w files acc e).outbox = acc.outbox ++ [x] ∧
      (x = e ∨ x.receiptedAt = none) := by
  rw [loadOne]
  split
  · exact ⟨e, rfl, .inl rfl⟩
  · rename_i hskip
    have hopen : e.receiptedAt = none := by
      simp only [OutboxEntry.skipped, Bool.or_eq_true, decide_eq_true_eq, not_or,
        Option.not_isSome_iff_eq_none] at hskip
      exact hskip.1
    split
    · exact ⟨e, rfl, .inl rfl⟩
    · rename_i bytes _
      have hrefreshed : (e.refreshed blobRoot bytes).receiptedAt = none := by
        rw [OutboxEntry.refreshed]
        split <;> exact hopen
      have hnamed : (e.refreshed blobRoot bytes).named.receiptedAt = none := by
        rw [OutboxEntry.named]
        split <;> exact hrefreshed
      have hfinish (acc' : Load) (hout : acc'.outbox = acc.outbox) (dirty : Bool) :
          ∃ x, ((acc'.enter host w (e.refreshed blobRoot bytes).named).finish host stickId w
            (e.refreshed blobRoot bytes).named dirty).outbox = acc.outbox ++ [x] ∧
              (x = e ∨ x.receiptedAt = none) := by
        obtain ⟨x, hx, hopen⟩ := open_finish host stickId w
          (acc'.enter host w (e.refreshed blobRoot bytes).named) dirty hnamed
        rw [outbox_enter, hout] at hx
        exact ⟨x, hx, .inr hopen⟩
      dsimp only
      split
      · exact hfinish (acc.noteChange blobRoot e bytes) (outbox_noteChange acc e bytes) _
      · split
        · refine hfinish { acc.noteChange blobRoot e bytes with cargo := _ } ?_ _
          exact outbox_noteChange acc e bytes
        · exact ⟨_, by rw [outbox_noteChange], .inr hrefreshed⟩

theorem closed_foldl_loadOne (files : String → Source) (acc : Load) (o : List OutboxEntry)
    {e : OutboxEntry} (h : e ∈ (o.foldl (loadOne blobRoot host stickId w files) acc).outbox)
    (hclosed : e.receiptedAt ≠ none) : e ∈ acc.outbox ∨ e ∈ o := by
  induction o generalizing acc with
  | nil => exact .inl h
  | cons y o ih =>
    obtain ⟨x, hout, hx⟩ := closed_loadOne blobRoot host stickId w files acc y
    rcases ih _ h with h | h
    · rw [hout] at h
      rcases List.mem_append.mp h with h | h
      · exact .inl h
      · rw [List.mem_singleton.mp h] at hclosed ⊢
        exact .inr (hx.resolve_right hclosed ▸ List.mem_cons_self)
    · exact .inr (List.mem_cons_of_mem _ h)

/-- Loading sends no receipts. -/
def Gossip.isReceipt : Gossip → Bool
  | .receipt .. => true
  | .manifest .. => false

theorem gossip_noteChange (blobRoot : Bytes → String) (acc : Load) (e : OutboxEntry)
    (bytes : Bytes) :
    (acc.noteChange blobRoot e bytes).gossip = acc.gossip := by
  rw [Load.noteChange]
  split <;> rfl

theorem gossip_finish {acc : Load} {sent : List Gossip} (hsent : acc.gossip = sent)
    {e : OutboxEntry} {dirty : Bool} {g : Gossip}
    (hg : g ∈ ((acc.enter host w e).finish host stickId w e dirty).gossip)
    (hreceipt : g.isReceipt = true) : g ∈ sent := by
  have henter : (acc.enter host w e).gossip = sent := by
    rw [← hsent, Load.enter]
    split <;> rfl
  rw [Load.finish] at hg
  split at hg
  · rwa [← henter]
  · rcases List.mem_append.mp hg with hg | hg
    · rwa [← henter]
    · rw [List.mem_singleton.mp hg] at hreceipt
      cases hreceipt

theorem gossip_loadOne (files : String → Source) (acc : Load) (e : OutboxEntry) {g : Gossip}
    (hg : g ∈ (loadOne blobRoot host stickId w files acc e).gossip)
    (hreceipt : g.isReceipt = true) : g ∈ acc.gossip := by
  rw [loadOne] at hg
  split at hg
  · exact hg
  · split at hg
    · exact hg
    · rename_i bytes _
      have hnote := gossip_noteChange blobRoot acc e bytes
      dsimp only at hg
      split at hg
      · exact gossip_finish hnote hg hreceipt
      · split at hg
        · refine gossip_finish ?_ hg hreceipt
          exact hnote
        · rwa [← hnote]

theorem gossip_foldl_loadOne (files : String → Source) (acc : Load) (o : List OutboxEntry)
    {g : Gossip} (hg : g ∈ (o.foldl (loadOne blobRoot host stickId w files) acc).gossip)
    (hreceipt : g.isReceipt = true) : g ∈ acc.gossip := by
  induction o generalizing acc with
  | nil => exact hg
  | cons e o ih => exact gossip_loadOne files acc e (ih _ hg) hreceipt

/-! ### What a plug leaves, by its takes -/

/-- An accepted receipt was aboard, or is for something this plug took in. -/
def Backed (host : Host) (s : Stick) (takes : List Take) (r : Receipt) : Prop :=
  r ∈ s.receipts.elim [] Sealed.entries ∨
    r.node = host.nodeId ∧ r.mark ∈ takes.map fun t => t.entry.mark

theorem sealed_of_write {α : Type*} {dirty : Bool} {w : Write} {old : Option (Sealed α)}
    {new l : Sealed α} (h : (if dirty then w.of old (some new) else old) = some l) :
    old = some l ∨ l = new := by
  split at h
  · cases w with
    | made => exact .inr (Option.some.inj h).symm
    | failed => exact .inl h
  · exact .inl h

/-- What a plug says of deliveries: in the outbox, on the stick, and by gossip. -/
structure Says (blobRoot : Bytes → String) (host : Host) (w : PlugWorld) (n : Node) (s : Stick)
    (psk : Option Bytes32) : Prop where
  outbox : ∀ e ∈ (processPlug blobRoot host w n s psk).1.outbox, e.receiptedAt ≠ none →
    e ∈ n.outbox ∨ ∃ r, Backed host s (plugTakes blobRoot host w n s psk) r ∧ r.accepted = true ∧
      e.For r.shipmentId r.node r.root
  receipts : ∀ l, (processPlug blobRoot host w n s psk).2.1.receipts = some l → ∀ r ∈ l.entries,
    r.accepted = true → Backed host s (plugTakes blobRoot host w n s psk) r
  gossip : ∀ g ∈ (processPlug blobRoot host w n s psk).2.2.2, ∀ target stick root node shipmentId,
    g = .receipt target stick root node true shipmentId → node = host.nodeId ∧
      (root, shipmentId) ∈ (plugTakes blobRoot host w n s psk).map fun t => t.entry.mark

theorem says_processPlug (blobRoot : Bytes → String) (host : Host) (w : PlugWorld) (n : Node)
    (s : Stick) (psk : Option Bytes32) : Says blobRoot host w n s psk := by
  rcases processPlug_cases blobRoot host w n s psk with
    ⟨hn, -, hr, hg, htakes⟩ | ⟨s', id, key, -, hr, -, hplug, htakes⟩
  · refine ⟨fun e he _ => ?_, fun l hl r hrl _ => ?_, fun g hmem => ?_⟩
    · rw [hn] at he
      exact .inl he
    · rw [hr] at hl
      refine .inl ?_
      rw [hl]
      exact hrl
    · rw [hg] at hmem
      cases hmem
  · have hingest := ingested_plugTaken blobRoot host id w n s'
      (s.manifest.elim [] Sealed.entries) (s.receipts.elim [] Sealed.entries)
    rw [← htakes] at hingest
    obtain ⟨added, hadded, -, hnode, hmark⟩ := hingest.receipts
    have hbacked (r : Receipt) (hrt : r ∈ (plugTaken blobRoot host id w n s'
        (s.manifest.elim [] Sealed.entries) (s.receipts.elim [] Sealed.entries)
        { PlugReport.empty with stickId := some id }).receipts) (hacc : r.accepted = true) :
        Backed host s (plugTakes blobRoot host w n s psk) r := by
      rw [hadded] at hrt
      refine (List.mem_append.mp hrt).imp_right fun hrt => ⟨hnode r hrt, ?_⟩
      rw [← hmark]
      exact List.mem_map_of_mem (List.mem_filter.mpr ⟨hrt, hacc⟩)
    refine ⟨fun e he hclosed => ?_, fun l hl r hrl hacc => ?_, fun g hmem => ?_⟩
    · have hhome (he : e ∈ outboxHome id w _ n.outbox) := (mem_outboxHome he).imp_right
        fun ⟨r, hrt, hacc, hfor⟩ => (⟨r, hbacked r hrt hacc, hacc, hfor⟩ : ∃ r, Backed host s
          (plugTakes blobRoot host w n s psk) r ∧ r.accepted = true ∧
            e.For r.shipmentId r.node r.root)
      rw [hplug, plugOpened] at he
      dsimp only at he
      split at he
      · rcases Write.of_mem he with he | he
        · exact hhome he
        · exact hhome ((closed_foldl_loadOne _ _ _ he hclosed).resolve_left (by simp))
      · exact hhome he
    · rw [hplug, plugOpened] at hl
      dsimp only at hl
      have hsplit := sealed_of_write hl
      rcases hsplit with hold | hnew
      · refine .inl ?_
        rw [← hr, hold]
        exact hrl
      · rw [hnew] at hrl
        exact hbacked r hrl hacc
    · rintro target stick root node shipmentId rfl
      rw [hplug, plugOpened] at hmem
      have htaken := gossip_foldl_loadOne _ _ _ hmem rfl
      rcases hingest.gossip _ htaken with h | ⟨_, _, _, _, heq, hin⟩
      · cases h
      · cases heq
        exact ⟨rfl, hin rfl⟩

namespace Traffic

variable {digest : Bytes → Bytes32} {hosts : ℕ → Host} {past : List (Input × List (Host × Take))}
  {c : Traffic}

/-! ### Every word is backed by a write -/

theorem TookIn.grow {dest shipmentId root : String} (h : TookIn digest past dest shipmentId root)
    (x : Input × List (Host × Take)) : TookIn digest (past ++ [x]) dest shipmentId root := by
  obtain ⟨y, hy, hrest⟩ := h
  exact ⟨y, List.mem_append_left _ hy, hrest⟩

/-- What is said to be accepted was taken in: on any list ever sealed, and in all gossip. -/
structure Honest (digest : Bytes → Bytes32) (past : List (Input × List (Host × Take)))
    (c : Traffic) : Prop where
  aboard : ∀ j l, (c.sticks j).receipts = some l → l ∈ c.receipts
  receipts : ∀ l ∈ c.receipts, ∀ r ∈ l.entries, r.accepted = true →
    TookIn digest past r.node r.shipmentId r.root
  gossip : ∀ g ∈ c.gossip, ∀ target stick root node shipmentId,
    g = .receipt target stick root node true shipmentId → TookIn digest past node shipmentId root

theorem honest_new (files : ℕ → String → Source) (markers : ℕ → Except String (Option String))
    (cargo : ℕ → String → Option Bytes) : Honest digest [] (new files markers cargo) where
  aboard := fun _ _ h => (nomatch h)
  receipts := fun _ h => (nomatch h)
  gossip := fun _ h => (nomatch h)

/-- A take of a plug, once it is on record. -/
theorem tookIn_of_mem_marks {i j : ℕ} {psk : Option Bytes32} {w : PlugWorld}
    {root shipmentId : String}
    (h : (root, shipmentId) ∈ (plugTakes (rootOf digest) (hosts i) w (c.nodes i) (c.sticks j)
      psk).map fun t => t.entry.mark) :
    TookIn digest (past ++ [(.plug i j psk w, (c.step digest hosts (.plug i j psk w)).2)])
      (hosts i).nodeId shipmentId root := by
  obtain ⟨t, ht, hmark⟩ := List.mem_map.mp h
  obtain ⟨hroot, hship⟩ := Prod.mk.inj hmark
  have hverified :=
    (plugged_takes (rootOf digest) (hosts i) w (c.nodes i) (c.sticks j) psk).verified t ht
  refine ⟨_, List.mem_append_right _ (List.mem_singleton_self _), (hosts i, t),
    List.mem_map_of_mem ht, rfl, hverified.dest, hship, ?_, hverified.path⟩
  exact hverified.root.trans hroot

theorem Honest.grow (h : Honest digest past c) (x : Input × List (Host × Take)) :
    Honest digest (past ++ [x]) c where
  aboard := h.aboard
  receipts := fun l hl r hr hacc => (h.receipts l hl r hr hacc).grow x
  gossip := fun g hg target stick root node shipmentId heq =>
    (h.gossip g hg target stick root node shipmentId heq).grow x

/-- An accepted receipt that a plug stands by is backed by a write, this plug's or an earlier
one. -/
theorem Honest.tookIn_of_backed (h : Honest digest past c) {i j : ℕ} {psk : Option Bytes32}
    {w : PlugWorld} {r : Receipt}
    (hr : Backed (hosts i) (c.sticks j)
      (plugTakes (rootOf digest) (hosts i) w (c.nodes i) (c.sticks j) psk) r)
    (hacc : r.accepted = true) :
    TookIn digest (past ++ [(.plug i j psk w, (c.step digest hosts (.plug i j psk w)).2)]) r.node
      r.shipmentId r.root := by
  rcases hr with hr | ⟨hnode, hmark⟩
  · cases hl : (c.sticks j).receipts with
    | none =>
      rw [hl] at hr
      cases hr
    | some l =>
      rw [hl] at hr
      exact (h.receipts l (h.aboard j l hl) r hr hacc).grow _
  · rw [hnode]
    exact tookIn_of_mem_marks hmark

theorem Honest.step (h : Honest digest past c) (input : Input) :
    Honest digest (past ++ [(input, (c.step digest hosts input).2)])
      (c.step digest hosts input).1 := by
  cases input with
  | node i o =>
    have hgrow := h.grow (.node i o, [])
    exact ⟨hgrow.aboard, hgrow.receipts, hgrow.gossip⟩
  | hear i k now ledgerWrite outboxWrite =>
    rw [Traffic.step]
    split
    · exact h.grow _
    · have hgrow := h.grow (.hear i k now ledgerWrite outboxWrite, [])
      exact ⟨hgrow.aboard, hgrow.receipts, hgrow.gossip⟩
  | meddle j marker cargo manifest receipts =>
    refine ⟨fun k l hl => ?_, (h.grow _).receipts, (h.grow _).gossip⟩
    rw [Traffic.step] at hl
    rcases eq_or_ne k j with rfl | hne
    · simp only [Function.update_self] at hl
      obtain ⟨m, -, hm⟩ := Option.bind_eq_some_iff.mp hl
      exact List.mem_of_getElem? hm
    · simp only [Function.update_of_ne hne] at hl
      exact h.aboard k l hl
  | plug i j psk w =>
    have hword := says_processPlug (rootOf digest) (hosts i) w (c.nodes i) (c.sticks j) psk
    refine ⟨fun k l hl => ?_, fun l hl r hr hacc => ?_,
      fun g hg target stick root node shipmentId heq => ?_⟩
    · rw [Traffic.step] at hl ⊢
      rcases eq_or_ne k j with rfl | hne
      · simp only [Function.update_self] at hl
        exact List.mem_append_right _ (Option.mem_toList.mpr hl)
      · simp only [Function.update_of_ne hne] at hl
        exact List.mem_append_left _ (h.aboard k l hl)
    · rcases List.mem_append.mp hl with hl | hl
      · exact (h.receipts l hl r hr hacc).grow _
      · exact h.tookIn_of_backed (hword.receipts l (Option.mem_toList.mp hl) r hr hacc) hacc
    · rcases List.mem_append.mp hg with hg | hg
      · exact (h.gossip g hg target stick root node shipmentId heq).grow _
      · obtain ⟨hnode, hmark⟩ := hword.gossip g hg target stick root node shipmentId heq
        rw [hnode]
        exact tookIn_of_mem_marks hmark

/-! ### Rows -/

/-- A receipt with a root is for one root only, and no root is empty. -/
theorem TookIn.of_for {e : OutboxEntry} {dest shipmentId root : String}
    (h : TookIn digest past dest shipmentId root) (hfor : e.For shipmentId dest root) :
    TookIn digest past e.dest e.shipmentId e.root := by
  obtain ⟨hdest, hship, hroot⟩ := hfor
  rw [hdest, hship, hroot.resolve_left]
  · exact h
  · obtain ⟨x, -, y, -, -, -, -, hbytes, -⟩ := h
    rw [← hbytes]
    exact hex32_ne_empty _

theorem mem_queueArtifact {n : Node} {path dest name now : String} {w : Write} {e : OutboxEntry}
    (h : e ∈ (queueArtifact (rootOf digest) n path dest name now w).1.outbox) :
    e ∈ n.outbox ∨ e.receiptedAt = none := by
  rw [queueArtifact] at h
  split at h
  · exact .inl h
  · exact .inl h
  · split at h
    · exact .inl h
    · dsimp only at h
      split at h
      · exact .inl h
      · cases w with
        | made =>
          refine (List.mem_append.mp h).imp_right fun h => ?_
          rw [List.mem_singleton.mp h]
        | failed => exact .inl h

theorem mem_outboxCancel {n : Node} {id : ℕ} {w : Write} {e : OutboxEntry}
    (h : e ∈ (outboxCancel n id w).1.outbox) : e ∈ n.outbox := by
  rw [outboxCancel] at h
  split at h
  · exact h
  · split at h
    · exact h
    · cases w with
      | made => exact List.eraseP_subset h
      | failed => exact h

/-- Nothing that a node does by itself closes a row, apart from the network. -/
theorem closed_operation (host : Host) {n : Node} {o : Operation} {i : ℕ}
    (hlan : (Input.node i o).overLan = false) {e : OutboxEntry}
    (he : e ∈ (n.step (rootOf digest) host o.input).1.outbox) (hclosed : e.receiptedAt ≠ none) :
    e ∈ n.outbox := by
  cases o with
  | queue path dest name now w => exact (mem_queueArtifact he).resolve_right hclosed
  | cancel id w => exact mem_outboxCancel he
  | drain => exact he
  | drained k sent now w => cases hlan
  | change path source => exact he

theorem mem_ledgerHearReceipt {n : Node} {r : HeardReceipt} {ledgerWrite outboxWrite : Write}
    {e : OutboxEntry} (h : e ∈ (ledgerHearReceipt n r ledgerWrite outboxWrite).1.outbox) :
    e ∈ n.outbox ∨ r.accepted = true ∧ e.For r.shipmentId r.node r.root := by
  rw [ledgerHearReceipt] at h
  dsimp only at h
  split at h
  · rename_i hacc
    rcases Write.of_mem h with h | h
    · exact .inl h
    · exact (mem_closeRows h).imp_right fun hfor => ⟨((Bool.and_eq_true _ _).mp hacc).1, hfor⟩
  · exact .inl h

theorem mem_hearGossip {n : Node} {g : Gossip} {now : String} {ledgerWrite outboxWrite : Write}
    {e : OutboxEntry} (h : e ∈ (n.hearGossip g now ledgerWrite outboxWrite).outbox) :
    e ∈ n.outbox ∨ ∃ target stick root node shipmentId,
      g = .receipt target stick root node true shipmentId ∧ e.For shipmentId node root := by
  cases g with
  | receipt target stick root node accepted shipmentId =>
    rw [Node.hearGossip] at h
    split at h
    · exact .inl h
    · refine (mem_ledgerHearReceipt h).imp_right ?_
      rintro ⟨rfl, hfor⟩
      exact ⟨_, _, _, _, _, rfl, hfor⟩
  | manifest target stick root origin dest len epoch name shipmentId =>
    rw [Node.hearGossip] at h
    split at h
    · exact .inl h
    · rw [ledgerHearManifest] at h
      split at h
      · exact .inl h
      · exact .inl h

/-- **One event closes a row only on the word of its destination.** -/
theorem Honest.closesTaken (h : Honest digest past c) (input : Input) :
    c.ClosesTaken digest hosts past input := by
  intro hlan k e he hclosed
  cases input with
  | node i o =>
    rw [Traffic.step] at he
    refine .inl ?_
    rcases eq_or_ne k i with rfl | hne
    · simp only [Function.update_self] at he
      exact closed_operation (hosts k) hlan he hclosed
    · simp only [Function.update_of_ne hne] at he
      exact he
  | hear i m now ledgerWrite outboxWrite =>
    have hgrow := h.grow (.hear i m now ledgerWrite outboxWrite,
      (c.step digest hosts (.hear i m now ledgerWrite outboxWrite)).2)
    rw [Traffic.step] at he
    split at he
    · exact .inl he
    · rename_i g hg
      rcases eq_or_ne k i with rfl | hne
      · simp only [Function.update_self] at he
        refine (mem_hearGossip he).imp_right ?_
        rintro ⟨target, stick, root, node, shipmentId, heq, hfor⟩
        exact (hgrow.gossip g (List.mem_of_getElem? hg) _ _ _ _ _ heq).of_for hfor
      · simp only [Function.update_of_ne hne] at he
        exact .inl he
  | meddle j marker cargo manifest receipts => exact .inl he
  | plug i j psk w =>
    have hword := says_processPlug (rootOf digest) (hosts i) w (c.nodes i) (c.sticks j) psk
    rw [Traffic.step] at he
    rcases eq_or_ne k i with rfl | hne
    · simp only [Function.update_self] at he
      refine (hword.outbox e he hclosed).imp_right ?_
      rintro ⟨r, hbacked, hacc, hfor⟩
      exact (h.tookIn_of_backed hbacked hacc).of_for hfor
    · simp only [Function.update_of_ne hne] at he
      exact .inl he

theorem writes (digest : Bytes → Bytes32) (hosts : ℕ → Host) (c : Traffic) (input : Input) :
    c.Writes digest hosts input := by
  cases input with
  | plug i j psk w =>
    rw [Writes, Traffic.step]
    simp only [Function.update_self, List.map_map]
    rw [(plugged_takes (rootOf digest) (hosts i) w (c.nodes i) (c.sticks j) psk).files]
    exact congrArg _ (List.map_id _).symm
  | _ => trivial

/-- **No false delivery**: at every point of every run, what a plug says it takes in is written, and
a row is closed only if its destination has taken in its bytes under its shipment id. -/
theorem closes_taken (digest : Bytes → Bytes32) (hosts : ℕ → Host)
    (files : ℕ → String → Source) (markers : ℕ → Except String (Option String))
    (cargo : ℕ → String → Option Bytes) (inputs : List Input) :
    Run.Always (step digest hosts) (new files markers cargo)
      (fun past c input => c.Writes digest hosts input ∧ c.ClosesTaken digest hosts past input)
      inputs :=
  Run.Always.of_invariant (I := fun past c => Honest digest past c)
    (honest_new files markers cargo) (fun _ _ input h _ => h.step input)
    (fun _ c input h _ => ⟨writes digest hosts c input, h.closesTaken input⟩)
    (Run.Always.true inputs)

end Traffic

end ApexOS.Courier
