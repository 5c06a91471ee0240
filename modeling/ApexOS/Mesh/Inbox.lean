import ApexOS.Mesh.Replay

/-!
# The radio inbox

`apexos-mesh-proto/src/inbox.rs`: an authenticated packet addressed to this node is held, under
its `(sender, ctr)` pair, until the host accepts it. `decideRadioInbound` is the whole decision,
over the replay table and the inbox together; `InboxTable.take` is the host's side.

The law the source states is *persist first, acknowledge after the host has it*, and `reAck` is
the one answer that acknowledges. It rests on reading `ReplayAdmit.replay` as "seen before". The
window gives that answer in two more cases, for counter `0` and for a counter it has slid past,
and the run theorem says exactly what these do to the law.

## Main definitions

* `InboxTable`, `InboxTable.insert`, `InboxTable.take`: the held packets
* `encodeInboxSlot`, `decodeInboxSlot`, `InboxTable.encodeSlot`, `InboxTable.loadSlot`: the
  persisted form
* `decideRadioInbound`, `Inbound.step`: the decision, and the machine of decisions and takes

## Main results

* `decideRadioInbound_cases`: everything a decision can do
* `Inbound.invariant_final`: the tables hold what the answers say they hold
* `Inbound.reAck_only_after_take_iff`: the law, and exactly when a run keeps it
-/

namespace ApexOS.Mesh

open LittleEndian SlidingWindow

/-! ### Slots -/

/-- `MAX_INBOX`. -/
def maxInbox : ℕ := 8

/-- `INBOX_PACKET_MAX`. -/
def inboxPacketMax : ℕ := 256

/-- `INBOX_SLOT_BYTES`. -/
def inboxSlotBytes : ℕ := 2 + 8 + 2 + inboxPacketMax

/-- `InboxSlot`: one held packet, in a buffer of fixed length. -/
structure InboxSlot where
  sender : UInt16
  ctr : UInt64
  len : UInt16
  bytes : Bytes
  /-- The buffer is `[u8; INBOX_PACKET_MAX]`. -/
  length_bytes : bytes.length = inboxPacketMax
  deriving DecidableEq

namespace InboxSlot

/-- The pair a slot is held under. -/
def pair (slot : InboxSlot) : UInt16 × UInt64 := (slot.sender, slot.ctr)

/-- `InboxSlot::packet`. -/
def packet (slot : InboxSlot) : Bytes := slot.bytes.take (min slot.len.toNat inboxPacketMax)

/-- The slot `insert` builds: the packet, zero-padded to the buffer's length. -/
def ofPacket (sender : UInt16) (ctr : UInt64) (packet : Bytes) : InboxSlot where
  sender := sender
  ctr := ctr
  len := UInt16.ofNat packet.length
  bytes := (packet ++ List.replicate (inboxPacketMax - packet.length) 0).take inboxPacketMax
  length_bytes := by simp; omega

@[simp] theorem pair_ofPacket (sender : UInt16) (ctr : UInt64) (packet : Bytes) :
    (ofPacket sender ctr packet).pair = (sender, ctr) := rfl

theorem toNat_len_ofPacket {sender : UInt16} {ctr : UInt64} {packet : Bytes}
    (h : packet.length ≤ inboxPacketMax) :
    (ofPacket sender ctr packet).len.toNat = packet.length := by
  have : inboxPacketMax < UInt16.size := by decide
  exact UInt16.toNat_ofNat_of_lt' (by omega)

theorem packet_ofPacket {sender : UInt16} {ctr : UInt64} {packet : Bytes}
    (h : packet.length ≤ inboxPacketMax) : (ofPacket sender ctr packet).packet = packet := by
  rw [InboxSlot.packet, toNat_len_ofPacket h, min_eq_left h, ofPacket, List.take_take,
    min_eq_left h, List.take_left' rfl]

/-- The slot was built from a packet that fits. -/
def Built (slot : InboxSlot) : Prop :=
  ∃ sender ctr packet, packet.length ≤ inboxPacketMax ∧ slot = ofPacket sender ctr packet

/-- What the slot holds: its pair and its packet. -/
def triple (slot : InboxSlot) : UInt16 × UInt64 × Bytes := (slot.sender, slot.ctr, slot.packet)

end InboxSlot

/-- `encode_inbox_slot`. -/
def encodeInboxSlot (slot : InboxSlot) : Bytes :=
  toLE 2 slot.sender.toNat ++ toLE 8 slot.ctr.toNat ++ toLE 2 slot.len.toNat ++
    (slot.bytes.take slot.len.toNat ++ List.replicate (inboxPacketMax - slot.len.toNat) 0)

/-- `decode_inbox_slot`. -/
def decodeInboxSlot (bytes : Bytes) : Option InboxSlot :=
  if bytes.length < 12 then none
  else
    let sender := UInt16.ofNat (ofLE (bytes.take 2))
    let ctr := UInt64.ofNat (ofLE ((bytes.drop 2).take 8))
    let len := UInt16.ofNat (ofLE ((bytes.drop 10).take 2))
    if inboxPacketMax < len.toNat then none
    else if bytes.length < 12 + len.toNat then none
    else
      some { InboxSlot.ofPacket sender ctr ((bytes.drop 12).take len.toNat) with len := len }

/-! ### The table -/

/-- `InboxTable`. -/
structure InboxTable where
  slots : Slots InboxSlot maxInbox
  deriving DecidableEq

/-- `InboxRefuse`. -/
inductive InboxRefuse
  | full
  | tooLarge
  deriving DecidableEq, Repr

namespace InboxTable

/-- `InboxTable::new`. -/
def new : InboxTable := ⟨Slots.empty _ _⟩

/-- `InboxTable::is_full`. -/
def isFull (t : InboxTable) : Bool := t.slots.entries.length == maxInbox

/-- `InboxTable::contains`. -/
def contains (t : InboxTable) (sender : UInt16) (ctr : UInt64) : Bool :=
  (t.slots.lookup InboxSlot.pair (sender, ctr)).isSome

/-- `InboxTable::insert`. -/
def insert (t : InboxTable) (sender : UInt16) (ctr : UInt64) (packet : Bytes) :
    InboxTable × Except InboxRefuse Unit :=
  if inboxPacketMax < packet.length then (t, .error .tooLarge)
  else if t.contains sender ctr then (t, .ok ())
  else
    match t.slots.fill (InboxSlot.ofPacket sender ctr packet) with
    | none => (t, .error .full)
    | some slots => (⟨slots⟩, .ok ())

/-- `InboxTable::take`. -/
def take (t : InboxTable) (sender : UInt16) (ctr : UInt64) : InboxTable × Option InboxSlot :=
  (⟨t.slots.updateKey InboxSlot.pair (sender, ctr) fun _ => none⟩,
    t.slots.lookup InboxSlot.pair (sender, ctr))

/-- The record of one cell: a vacant one is a tombstone of zeros. -/
def record : Option InboxSlot → Bytes
  | some slot => encodeInboxSlot slot
  | none => List.replicate inboxSlotBytes 0

/-- `InboxTable::encode_slot`. -/
def encodeSlot (t : InboxTable) (i : ℕ) : Option Bytes := t.slots.cells[i]?.map record

/-- `InboxTable::load_slot`. -/
def loadSlot (t : InboxTable) (bytes : Bytes) : InboxTable × Bool :=
  match decodeInboxSlot bytes with
  | none => (t, false)
  | some slot =>
    if slot.len = 0 then (t, true)
    else
      let r := t.insert slot.sender slot.ctr slot.packet
      (r.1, r.2.isOk)

end InboxTable

/-! ### The decision -/

/-- `RadioInbound`. -/
inductive RadioInbound
  | deliver
  | waitHost
  | reAck
  | drop
  deriving DecidableEq, Repr

/-- The two tables a decision is taken over. -/
structure Inbound where
  replay : ReplayTable
  inbox : InboxTable
  deriving DecidableEq

/-- `decide_radio_inbound`: inbox space is checked before the replay window advances. -/
def decideRadioInbound (st : Inbound) (sender : UInt16) (ctr : UInt64) (packet : Bytes) :
    Inbound × RadioInbound :=
  if st.inbox.contains sender ctr then (st, .waitHost)
  else if inboxPacketMax < packet.length ∨ st.inbox.isFull then (st, .drop)
  else
    match st.replay.accept sender ctr with
    | (replay, .fresh) => (⟨replay, (st.inbox.insert sender ctr packet).1⟩, .deliver)
    | (replay, .replay) => (⟨replay, st.inbox⟩, .reAck)
    | (replay, .tableFull) => (⟨replay, st.inbox⟩, .drop)

/-! ### What the operations do -/

namespace InboxTable

variable {t : InboxTable} {sender : UInt16} {ctr : UInt64} {packet : Bytes}

theorem contains_eq_true_iff :
    t.contains sender ctr = true ↔ ∃ slot ∈ t.slots.entries, slot.pair = (sender, ctr) := by
  rw [contains, Option.isSome_iff_ne_none, Ne, Slots.lookup_eq_none_iff]
  push Not
  rfl

/-- Inserting a new pair that fits, with room: exactly that slot is added. -/
theorem insert_of_room (hlen : packet.length ≤ inboxPacketMax)
    (hnew : t.contains sender ctr = false) (hroom : t.isFull = false) :
    ∃ slots, t.slots.fill (InboxSlot.ofPacket sender ctr packet) = some slots ∧
      t.insert sender ctr packet = (⟨slots⟩, .ok ()) := by
  have hfill : t.slots.fill (InboxSlot.ofPacket sender ctr packet) ≠ none := by
    rw [Ne, Slots.fill_eq_none_iff]
    simpa [isFull] using hroom
  obtain ⟨slots, hslots⟩ := Option.ne_none_iff_exists'.mp hfill
  refine ⟨slots, hslots, ?_⟩
  rw [insert, if_neg (by omega), hnew, if_neg (by simp), hslots]

theorem mem_entries_take (h : t.slots.KeysNodup InboxSlot.pair) {slot : InboxSlot} :
    slot ∈ (t.take sender ctr).1.slots.entries ↔
      slot ∈ t.slots.entries ∧ slot.pair ≠ (sender, ctr) := by
  refine (Slots.mem_entries_updateKey h _).trans ?_
  simp

end InboxTable

/-! ### Persistence -/

/-- What a record reads back as: its header, and as many bytes as the header says. -/
private theorem decodeInboxSlot_record (sender : UInt16) (ctr : UInt64) (len : UInt16)
    {rest : Bytes} (hmax : len.toNat ≤ inboxPacketMax) (hrest : len.toNat ≤ rest.length) :
    decodeInboxSlot (toLE 2 sender.toNat ++ toLE 8 ctr.toNat ++ toLE 2 len.toNat ++ rest)
      = some { InboxSlot.ofPacket sender ctr (rest.take len.toNat) with len := len } := by
  set bytes := toLE 2 sender.toNat ++ toLE 8 ctr.toNat ++ toLE 2 len.toNat ++ rest with hbytes
  have hlength : bytes.length = 12 + rest.length := by
    simp only [hbytes, List.length_append, length_toLE]
  have hsender : bytes.take 2 = toLE 2 sender.toNat := by
    rw [hbytes, List.append_assoc, List.append_assoc, List.take_left' (length_toLE _ _)]
  have hctr : (bytes.drop 2).take 8 = toLE 8 ctr.toNat := by
    rw [hbytes, List.append_assoc, List.append_assoc, List.drop_left' (length_toLE _ _),
      List.take_left' (length_toLE _ _)]
  have hlen : (bytes.drop 10).take 2 = toLE 2 len.toNat := by
    rw [hbytes, List.append_assoc, List.drop_left' (by simp), List.take_left' (length_toLE _ _)]
  have hdata : bytes.drop 12 = rest := by
    rw [hbytes, List.drop_left' (by simp)]
  rw [decodeInboxSlot, if_neg (by omega)]
  simp only [hsender, hctr, hlen, hdata, ofLE_toLE_uint16, ofLE_toLE_uint64, UInt16.ofNat_toNat,
    UInt64.ofNat_toNat]
  rw [if_neg (by omega), if_neg (by omega)]

/-- A slot built from a packet that fits survives its own record. -/
theorem decodeInboxSlot_encodeInboxSlot (sender : UInt16) (ctr : UInt64) {packet : Bytes}
    (h : packet.length ≤ inboxPacketMax) :
    decodeInboxSlot (encodeInboxSlot (InboxSlot.ofPacket sender ctr packet))
      = some (InboxSlot.ofPacket sender ctr packet) := by
  set slot := InboxSlot.ofPacket sender ctr packet with hslot
  have hlen : slot.len.toNat = packet.length := InboxSlot.toNat_len_ofPacket h
  have hbuf : slot.bytes.take packet.length = packet := by
    rw [hslot, InboxSlot.ofPacket, List.take_take, min_eq_left h, List.take_left' rfl]
  have hrecord : encodeInboxSlot slot = toLE 2 sender.toNat ++ toLE 8 ctr.toNat ++
      toLE 2 slot.len.toNat ++ (packet ++ List.replicate (inboxPacketMax - packet.length) 0) := by
    rw [encodeInboxSlot, hlen, hbuf]
    rfl
  rw [hrecord, decodeInboxSlot_record _ _ _ (by omega) (by simp [hlen]), hlen, List.take_left' rfl]

/-- The record of a vacant slot reads as an empty packet, which `loadSlot` skips. -/
theorem InboxTable.loadSlot_tombstone (t : InboxTable) :
    t.loadSlot (List.replicate inboxSlotBytes 0) = (t, true) := by
  have hzeros : List.replicate inboxSlotBytes (0 : UInt8)
      = toLE 2 (0 : UInt16).toNat ++ toLE 8 (0 : UInt64).toNat ++ toLE 2 (0 : UInt16).toNat
        ++ List.replicate inboxPacketMax 0 := by
    rw [show inboxSlotBytes = 12 + inboxPacketMax from rfl, List.replicate_add]
    rfl
  rw [loadSlot, hzeros, decodeInboxSlot_record _ _ _ (by simp) (by simp)]
  simp

/-- The record of a held packet puts it back, unless the packet is empty. -/
theorem InboxTable.loadSlot_encodeInboxSlot (t : InboxTable) (sender : UInt16) (ctr : UInt64)
    {packet : Bytes} (h : packet.length ≤ inboxPacketMax) :
    t.loadSlot (encodeInboxSlot (InboxSlot.ofPacket sender ctr packet)) =
      if packet = [] then (t, true)
      else ((t.insert sender ctr packet).1, (t.insert sender ctr packet).2.isOk) := by
  have hlen : (InboxSlot.ofPacket sender ctr packet).len = 0 ↔ packet = [] := by
    rw [← UInt16.toNat_inj, InboxSlot.toNat_len_ofPacket h]
    simp
  rw [loadSlot, decodeInboxSlot_encodeInboxSlot sender ctr h]
  simp only [hlen, InboxSlot.packet_ofPacket h]
  rfl

/-- `load_slot` as the loading loops use it: a record it refuses ends the loop. -/
def InboxTable.loadSlot? (t : InboxTable) (bytes : Bytes) : Option InboxTable :=
  if (t.loadSlot bytes).2 then some (t.loadSlot bytes).1 else none

/-- The record of a packet that is new and not empty appends it, while there is room. -/
private theorem InboxTable.loadSlot?_record {t : InboxTable} {s : UInt16} {c : UInt64} {p : Bytes}
    (ht : t.slots.Compact) (hp : p.length ≤ inboxPacketMax) (hne : p ≠ [])
    (hnew : (s, c) ∉ t.slots.entries.map InboxSlot.pair)
    (hroom : t.slots.entries.length < maxInbox) :
    ∃ t' : InboxTable, t.loadSlot? (record (some (InboxSlot.ofPacket s c p))) = some t' ∧
      t'.slots.Compact ∧ t'.slots.entries = t.slots.entries ++ [InboxSlot.ofPacket s c p] := by
  have hcontains : t.contains s c = false := by
    rw [← Bool.not_eq_true, contains_eq_true_iff]
    rintro ⟨slot, hslot, hpair⟩
    exact hnew (hpair ▸ List.mem_map_of_mem hslot)
  have hfull : t.isFull = false := by
    simp only [isFull, beq_eq_false_iff_ne]
    exact hroom.ne
  obtain ⟨slots, hfill, hins⟩ := insert_of_room hp hcontains hfull
  refine ⟨⟨slots⟩, ?_, Slots.entries_fill_of_compact ht hfill⟩
  rw [loadSlot?, record, loadSlot_encodeInboxSlot t s c hp, if_neg hne, hins]
  rfl

/-- Loading the records of a list of cells, one after another, puts back every held packet that is
not empty. -/
theorem InboxTable.foldlM_loadSlot {t : InboxTable} {cs : List (Option InboxSlot)}
    (ht : t.slots.Compact) (hbuilt : ∀ slot ∈ cs.reduceOption, slot.Built)
    (hnd : ((t.slots.entries ++ cs.reduceOption).map InboxSlot.pair).Nodup)
    (hlen : t.slots.entries.length + cs.reduceOption.length ≤ maxInbox) :
    ∃ t' : InboxTable, (cs.map record).foldlM loadSlot? t = some t' ∧
      t'.slots.entries
        = t.slots.entries ++ cs.reduceOption.filter fun slot => slot.packet ≠ [] := by
  induction cs generalizing t with
  | nil => exact ⟨t, rfl, by simp⟩
  | cons cell cs ih =>
    cases cell with
    | none =>
      obtain ⟨t', hload, hentries⟩ := ih ht (by simpa using hbuilt) (by simpa using hnd)
        (by simpa using hlen)
      refine ⟨t', ?_, by simpa using hentries⟩
      rw [List.map_cons, List.foldlM_cons, loadSlot?, record, loadSlot_tombstone]
      exact hload
    | some slot =>
      obtain ⟨s, c, p, hp, rfl⟩ := hbuilt slot (by simp)
      have hpacket : (InboxSlot.ofPacket s c p).packet = p := InboxSlot.packet_ofPacket hp
      have hbuilt' : ∀ slot ∈ cs.reduceOption, slot.Built := fun slot hslot =>
        hbuilt slot (by simp [hslot])
      rw [List.reduceOption_cons_of_some] at hnd hlen
      rw [List.length_cons] at hlen
      rw [List.map_cons, List.foldlM_cons, List.reduceOption_cons_of_some]
      by_cases hempty : p = []
      · have hnd' := hnd.sublist (((List.Sublist.refl t.slots.entries).append
          (List.sublist_cons_self _ _)).map InboxSlot.pair)
        obtain ⟨t', hload, hentries⟩ := ih ht hbuilt' hnd' (by omega)
        refine ⟨t', ?_, ?_⟩
        · rw [loadSlot?, record, loadSlot_encodeInboxSlot t s c hp, if_pos hempty]
          exact hload
        · rw [hentries, List.filter_cons_of_neg (by rw [hpacket]; simpa using hempty)]
      · have hnew : (s, c) ∉ t.slots.entries.map InboxSlot.pair := by
          rw [List.map_append, List.map_cons] at hnd
          exact fun hmem => (List.nodup_middle.mp hnd).notMem (List.mem_append_left _ hmem)
        obtain ⟨t₁, hstep, hcompact, hfilled⟩ := loadSlot?_record ht hp hempty hnew (by omega)
        have hroom : t₁.slots.entries.length + cs.reduceOption.length ≤ maxInbox := by
          rw [hfilled, List.length_append, List.length_singleton]
          omega
        obtain ⟨t', hload, hentries⟩ := ih hcompact hbuilt' (by simpa [hfilled] using hnd) hroom
        refine ⟨t', ?_, ?_⟩
        · rw [hstep]
          exact hload
        · rw [hentries, hfilled, List.filter_cons_of_pos (by rw [hpacket]; simpa using hempty),
            List.append_assoc]
          rfl

/-- The pair is new, the packet fits and the inbox has room: only then is the replay table asked. -/
def ReachesReplay (st : Inbound) (sender : UInt16) (ctr : UInt64) (packet : Bytes) : Prop :=
  st.inbox.contains sender ctr = false ∧ packet.length ≤ inboxPacketMax ∧ st.inbox.isFull = false

/-- **Everything a decision can do.** Only `deliver` changes a table: the replay table as `accept`
says, and the inbox by the one new slot. -/
theorem decideRadioInbound_cases (st : Inbound) (sender : UInt16) (ctr : UInt64) (packet : Bytes) :
    (st.inbox.contains sender ctr = true ∧
        decideRadioInbound st sender ctr packet = (st, .waitHost)) ∨
      (¬ ReachesReplay st sender ctr packet ∧ st.inbox.contains sender ctr = false ∧
        decideRadioInbound st sender ctr packet = (st, .drop)) ∨
      (ReachesReplay st sender ctr packet ∧ (st.replay.accept sender ctr).2 = .tableFull ∧
        decideRadioInbound st sender ctr packet = (st, .drop)) ∨
      (ReachesReplay st sender ctr packet ∧ (st.replay.accept sender ctr).2 = .replay ∧
        decideRadioInbound st sender ctr packet = (st, .reAck)) ∨
      (ReachesReplay st sender ctr packet ∧ (st.replay.accept sender ctr).2 = .fresh ∧
        ∃ slots, st.inbox.slots.fill (InboxSlot.ofPacket sender ctr packet) = some slots ∧
          decideRadioInbound st sender ctr packet
            = (⟨(st.replay.accept sender ctr).1, ⟨slots⟩⟩, .deliver)) := by
  have hsame : (st.replay.accept sender ctr).2 ≠ .fresh →
      (st.replay.accept sender ctr).1 = st.replay :=
    ReplayTable.accept_of_ne_fresh
  by_cases hc : st.inbox.contains sender ctr = true
  · exact Or.inl ⟨hc, by rw [decideRadioInbound, if_pos hc]⟩
  have hc' : st.inbox.contains sender ctr = false := by simpa using hc
  by_cases hd : inboxPacketMax < packet.length ∨ st.inbox.isFull = true
  · refine Or.inr (Or.inl ⟨fun hr => ?_, hc', by rw [decideRadioInbound, if_neg hc, if_pos hd]⟩)
    rcases hd with hd | hd
    · have := hr.2.1
      omega
    · simp [hr.2.2] at hd
  have hr : ReachesReplay st sender ctr packet :=
    ⟨hc', not_lt.mp fun hlt => hd (Or.inl hlt), by simpa using fun hf => hd (Or.inr hf)⟩
  refine Or.inr (Or.inr ?_)
  rw [decideRadioInbound, if_neg hc, if_neg hd]
  rcases hacc : st.replay.accept sender ctr with ⟨replay, ans⟩
  rw [hacc] at hsame
  cases ans with
  | tableFull =>
    obtain rfl : replay = st.replay := hsame (by simp)
    exact Or.inl ⟨hr, rfl, rfl⟩
  | replay =>
    obtain rfl : replay = st.replay := hsame (by simp)
    exact Or.inr (Or.inl ⟨hr, rfl, rfl⟩)
  | fresh =>
    obtain ⟨slots, hfill, hins⟩ := InboxTable.insert_of_room hr.2.1 hr.1 hr.2.2
    exact Or.inr (Or.inr ⟨hr, rfl, slots, hfill, by simp only [hins]⟩)

theorem decideRadioInbound_eq_reAck_iff {st : Inbound} {sender : UInt16} {ctr : UInt64}
    {packet : Bytes} :
    (decideRadioInbound st sender ctr packet).2 = .reAck ↔
      ReachesReplay st sender ctr packet ∧ (st.replay.accept sender ctr).2 = .replay := by
  rcases decideRadioInbound_cases st sender ctr packet with
    ⟨hc, heq⟩ | ⟨hr, -, heq⟩ | ⟨-, hans, heq⟩ | ⟨hr, hans, heq⟩ | ⟨-, hans, slots, -, heq⟩
  · simp [heq, ReachesReplay, hc]
  · simp [heq, hr]
  · simp [heq, hans]
  · simp [heq, hr, hans]
  · simp [heq, hans]

/-! ### Runs of decisions and takes -/

namespace Inbound

/-- A call on the two tables: a frame was heard, or the host took a pair. -/
inductive Call
  | heard (sender : UInt16) (ctr : UInt64) (packet : Bytes)
  | take (sender : UInt16) (ctr : UInt64)
  deriving DecidableEq

/-- What the call returned. -/
inductive Answer
  | decided (r : RadioInbound)
  | took (slot : Option InboxSlot)
  deriving DecidableEq

/-- Both tables empty. -/
def new : Inbound := ⟨ReplayTable.new, InboxTable.new⟩

/-- One call. -/
def step (st : Inbound) : Call → Inbound × Answer
  | .heard sender ctr packet =>
    let r := decideRadioInbound st sender ctr packet
    (r.1, .decided r.2)
  | .take sender ctr =>
    let r := st.inbox.take sender ctr
    (⟨st.replay, r.1⟩, .took r.2)

/-- The pair an exchange delivered, if it did. -/
def deliveredPair : Call × Answer → Option (UInt16 × UInt64)
  | (.heard sender ctr _, .decided .deliver) => some (sender, ctr)
  | _ => none

/-- The counters delivered from `s` in the past. -/
def deliveredFrom (past : List (Call × Answer)) (s : UInt16) : Finset ℕ :=
  (((past.filterMap deliveredPair).filter fun x => x.1 = s).map fun x => x.2.toNat).toFinset

theorem deliveredPair_eq_some_iff {x : Call × Answer} {s : UInt16} {c : UInt64} :
    deliveredPair x = some (s, c) ↔ ∃ p, x = (.heard s c p, .decided .deliver) := by
  obtain ⟨call, ans⟩ := x
  cases call with
  | take r d => simp [deliveredPair]
  | heard r d p =>
    cases ans with
    | took slot => simp [deliveredPair]
    | decided v => cases v <;> simp [deliveredPair]

theorem mem_deliveredFrom {past : List (Call × Answer)} {s : UInt16} {c : UInt64} :
    c.toNat ∈ deliveredFrom past s ↔ ∃ p, (.heard s c p, .decided .deliver) ∈ past := by
  simp only [deliveredFrom, List.mem_toFinset, List.mem_map, List.mem_filter, List.mem_filterMap,
    decide_eq_true_eq]
  constructor
  · rintro ⟨⟨r, d⟩, ⟨⟨x, hx, hpair⟩, rfl⟩, hd⟩
    obtain ⟨p, rfl⟩ := deliveredPair_eq_some_iff.mp hpair
    exact ⟨p, UInt64.toNat_inj.mp hd ▸ hx⟩
  · rintro ⟨p, hp⟩
    exact ⟨(s, c), ⟨⟨_, hp, deliveredPair_eq_some_iff.mpr ⟨p, rfl⟩⟩, rfl⟩, rfl⟩

theorem deliveredFrom_concat_of_none {past : List (Call × Answer)} {x : Call × Answer}
    (hx : deliveredPair x = none) : deliveredFrom (past ++ [x]) = deliveredFrom past := by
  funext s
  simp [deliveredFrom, List.filterMap_append, hx]

theorem deliveredFrom_concat_of_some {past : List (Call × Answer)} {x : Call × Answer}
    {s : UInt16} {c : UInt64} (hx : deliveredPair x = some (s, c)) :
    deliveredFrom (past ++ [x])
      = Function.update (deliveredFrom past) s (insert c.toNat (deliveredFrom past s)) := by
  funext r
  by_cases hr : r = s
  · subst hr
    ext d
    simp [deliveredFrom, List.filterMap_append, hx]
  · simp [deliveredFrom, List.filterMap_append, hx, Ne.symm hr, Function.update_of_ne hr]

/-- What the past says the tables hold. -/
structure Invariant (past : List (Call × Answer)) (st : Inbound) : Prop where
  /-- The replay table accepted exactly the delivered counters. -/
  holds : st.replay.Holds (deliveredFrom past)
  /-- No two slots hold the same pair. -/
  keys : st.inbox.slots.KeysNodup InboxSlot.pair
  /-- Every slot was built by `insert`, from a packet that fits. -/
  built : ∀ slot ∈ st.inbox.slots.entries, slot.Built
  /-- A delivered pair not taken since is in the inbox, with the bytes it came with. -/
  held : ∀ s c p, Run.Since (fun x => x = (.heard s c p, .decided .deliver))
    (fun x => x.1 = .take s c) past →
      ∃ slot ∈ st.inbox.slots.entries, slot.pair = (s, c) ∧ slot.packet = p
  /-- A delivered pair is in the inbox, or a take removed it. -/
  taken : ∀ s c p, (.heard s c p, .decided .deliver) ∈ past →
    st.inbox.contains s c = true ∨ ∃ slot, (.take s c, .took (some slot)) ∈ past

theorem invariant_new : Invariant [] new where
  holds := ReplayTable.holds_new
  keys := Slots.keysNodup_empty
  built := by simp [new, InboxTable.new]
  held := fun _ _ _ h => absurd h Run.not_since_nil
  taken := by simp

variable {past : List (Call × Answer)} {st : Inbound}

/-- A call that delivers nothing and leaves the tables alone. -/
private theorem Invariant.idle (h : Invariant past st) {call : Call} {ans : Answer}
    (hd : deliveredPair (call, ans) = none) : Invariant (past ++ [(call, ans)]) st where
  holds := by
    rw [deliveredFrom_concat_of_none hd]
    exact h.holds
  keys := h.keys
  built := h.built
  held := by
    intro s c p hs
    rcases Run.since_concat.mp hs with heq | ⟨hs, -⟩
    · rw [deliveredPair_eq_some_iff.mpr ⟨p, heq⟩] at hd
      cases hd
    · exact h.held s c p hs
  taken := by
    intro s c p hmem
    rcases List.mem_append.mp hmem with hmem | hmem
    · rcases h.taken s c p hmem with hc | ⟨slot, hslot⟩
      · exact Or.inl hc
      · exact Or.inr ⟨slot, List.mem_append_left _ hslot⟩
    · rw [deliveredPair_eq_some_iff.mpr ⟨p, (List.mem_singleton.mp hmem).symm⟩] at hd
      cases hd

/-- A delivery: the replay table takes the counter and the inbox the packet. -/
private theorem Invariant.deliver (h : Invariant past st) {s : UInt16} {c : UInt64} {p : Bytes}
    (hr : ReachesReplay st s c p) (hfresh : (st.replay.accept s c).2 = .fresh)
    {slots : Slots InboxSlot maxInbox}
    (hfill : st.inbox.slots.fill (InboxSlot.ofPacket s c p) = some slots) :
    Invariant (past ++ [(.heard s c p, .decided .deliver)])
      ⟨(st.replay.accept s c).1, ⟨slots⟩⟩ where
  holds := by
    have hacc := (ReplayTable.accept_spec h.holds s c).2.2.2.2
    rw [if_pos hfresh] at hacc
    rwa [deliveredFrom_concat_of_some (s := s) (c := c) rfl]
  keys := by
    refine h.keys.fill ?_ hfill
    have hnew := hr.1
    rwa [InboxTable.contains, Option.isSome_eq_false_iff, Option.isNone_iff_eq_none] at hnew
  built := by
    intro slot hslot
    rcases (Slots.mem_entries_fill hfill).mp hslot with rfl | hslot
    · exact ⟨s, c, p, hr.2.1, rfl⟩
    · exact h.built slot hslot
  held := by
    intro s' c' p' hs
    rcases Run.since_concat.mp hs with heq | ⟨hs, -⟩
    · obtain ⟨rfl, rfl, rfl⟩ : s = s' ∧ c = c' ∧ p = p' := by simpa using heq
      exact ⟨_, (Slots.mem_entries_fill hfill).mpr (Or.inl rfl), rfl,
        InboxSlot.packet_ofPacket hr.2.1⟩
    · obtain ⟨slot, hslot, hpair, hpacket⟩ := h.held s' c' p' hs
      exact ⟨slot, (Slots.mem_entries_fill hfill).mpr (Or.inr hslot), hpair, hpacket⟩
  taken := by
    intro s' c' p' hmem
    rcases List.mem_append.mp hmem with hmem | hmem
    · rcases h.taken s' c' p' hmem with hc | ⟨slot, hslot⟩
      · obtain ⟨slot, hslot, hpair⟩ := InboxTable.contains_eq_true_iff.mp hc
        refine Or.inl (InboxTable.contains_eq_true_iff.mpr ⟨slot, ?_, hpair⟩)
        exact (Slots.mem_entries_fill hfill).mpr (Or.inr hslot)
      · exact Or.inr ⟨slot, List.mem_append_left _ hslot⟩
    · obtain ⟨rfl, rfl, -⟩ : s' = s ∧ c' = c ∧ p' = p := by simpa using hmem
      refine Or.inl (InboxTable.contains_eq_true_iff.mpr ⟨InboxSlot.ofPacket s' c' p, ?_, rfl⟩)
      exact (Slots.mem_entries_fill hfill).mpr (Or.inl rfl)

/-- A take: the pair's slot is handed out, every other slot stays. -/
private theorem Invariant.take (h : Invariant past st) (s : UInt16) (c : UInt64) :
    Invariant (past ++ [(.take s c, .took (st.inbox.take s c).2)])
      ⟨st.replay, (st.inbox.take s c).1⟩ where
  holds := by
    rw [deliveredFrom_concat_of_none rfl]
    exact h.holds
  keys := h.keys.updateKey fun _ _ hf => by cases hf
  built := fun slot hslot => h.built slot ((InboxTable.mem_entries_take h.keys).mp hslot).1
  held := by
    intro s' c' p' hs
    rcases Run.since_concat.mp hs with heq | ⟨hs, hne⟩
    · simp at heq
    · obtain ⟨slot, hslot, hpair, hpacket⟩ := h.held s' c' p' hs
      refine ⟨slot, (InboxTable.mem_entries_take h.keys).mpr ⟨hslot, ?_⟩, hpair, hpacket⟩
      rw [hpair]
      rintro ⟨rfl, rfl⟩
      exact hne rfl
  taken := by
    intro s' c' p' hmem
    have hpast : (.heard s' c' p', .decided .deliver) ∈ past := by simpa using hmem
    rcases h.taken s' c' p' hpast with hc | ⟨slot, hslot⟩
    · obtain ⟨slot, hslot, hpair⟩ := InboxTable.contains_eq_true_iff.mp hc
      by_cases heq : (s', c') = (s, c)
      · obtain ⟨rfl, rfl⟩ : s' = s ∧ c' = c := by simpa using heq
        refine Or.inr ⟨slot, List.mem_append_right _ ?_⟩
        rw [InboxTable.take, (Slots.lookup_eq_some_iff h.keys).mpr ⟨hslot, hpair⟩]
        exact List.mem_singleton.mpr rfl
      · refine Or.inl (InboxTable.contains_eq_true_iff.mpr ⟨slot, ?_, hpair⟩)
        exact (InboxTable.mem_entries_take h.keys).mpr ⟨hslot, by rwa [hpair]⟩
    · exact Or.inr ⟨slot, List.mem_append_left _ hslot⟩

/-- Every call keeps the invariant. -/
theorem Invariant.step (h : Invariant past st) (call : Call) :
    Invariant (past ++ [(call, (step st call).2)]) (step st call).1 := by
  cases call with
  | take s c => exact h.take s c
  | heard s c p =>
    rcases decideRadioInbound_cases st s c p with
      ⟨-, heq⟩ | ⟨-, -, heq⟩ | ⟨-, -, heq⟩ | ⟨-, -, heq⟩ | ⟨hr, hfresh, slots, hfill, heq⟩
    all_goals rw [Inbound.step, heq]
    case _ => exact h.idle rfl
    case _ => exact h.idle rfl
    case _ => exact h.idle rfl
    case _ => exact h.idle rfl
    case _ => exact h.deliver hr hfresh hfill

/-- The tables hold what the answers say they hold, along every run. -/
theorem invariant_final (calls : List Call) :
    Invariant (Run.log Inbound.step new calls) (Run.final Inbound.step new calls) :=
  Run.invariant (P := fun _ _ _ => True) invariant_new (fun _ _ call h _ => h.step call)
    (Run.Always.true calls)

/-! ### Acknowledging only what the host took -/

/-- A `reAck` of this call is warranted: the pair was delivered, and a take removed it. -/
def Warranted (past : List (Call × Answer)) (s : UInt16) (c : UInt64) : Prop :=
  (∃ p, (.heard s c p, .decided .deliver) ∈ past) ∧
    ∃ slot, (.take s c, .took (some slot)) ∈ past

/-- The window refuses a counter it never accepted: the call reaches the replay table, which has or
can have a window for the sender, and the counter is `0`, or was never delivered and is at least
`64` below the highest one that was. -/
def MisReads (past : List (Call × Answer)) (st : Inbound) (s : UInt16) (c : UInt64)
    (p : Bytes) : Prop :=
  ReachesReplay st s c p ∧
    ((deliveredFrom past s).Nonempty ∨ st.replay.slots.entries.length < maxReplaySenders) ∧
    (c = 0 ∨ (c.toNat ∉ deliveredFrom past s ∧ c.toNat + 64 ≤ (deliveredFrom past s).sup id))

/-- A call answers `reAck` for a pair that was never delivered exactly when the window misreads
it. -/
theorem Invariant.misReads_iff (h : Invariant past st) (s : UInt16) (c : UInt64) (p : Bytes) :
    MisReads past st s c p ↔
      (decideRadioInbound st s c p).2 = .reAck ∧ c.toNat ∉ deliveredFrom past s := by
  obtain ⟨hfull, hfresh, hreplay, -, -⟩ := ReplayTable.accept_spec h.holds s c
  have hle := st.replay.slots.length_entries_le
  have hnot0 := h.holds.zero_notMem s
  have hzero : c = 0 ↔ c.toNat = 0 := by
    rw [← UInt64.toNat_inj]
    rfl
  rw [decideRadioInbound_eq_reAck_iff, and_assoc, MisReads]
  refine and_congr_right fun _ => ?_
  constructor
  · rintro ⟨hroom, hold⟩
    have hnotFresh : ¬ Fresh 64 (deliveredFrom past s) c.toNat := by
      rintro ⟨h1, -, h3⟩
      rcases hold with h0 | ⟨-, hlow⟩
      · rw [hzero.mp h0] at h1
        omega
      · omega
    have hnotFull : (st.replay.accept s c).2 ≠ .tableFull := by
      intro hans
      obtain ⟨hempty, hlen⟩ := hfull.mp hans
      rcases hroom with hne | hlt
      · exact hne.ne_empty hempty
      · omega
    refine ⟨?_, ?_⟩
    · cases hans : (st.replay.accept s c).2 with
      | fresh => exact absurd (hfresh hans) hnotFresh
      | replay => rfl
      | tableFull => exact absurd hans hnotFull
    · rcases hold with h0 | ⟨hnew, -⟩
      · rwa [hzero.mp h0]
      · exact hnew
  · rintro ⟨hans, hnew⟩
    refine ⟨?_, ?_⟩
    · by_contra hno
      push Not at hno
      have := hfull.mpr ⟨hno.1, by omega⟩
      rw [hans] at this
      cases this
    · by_cases h0 : c = 0
      · exact Or.inl h0
      · have hpos : c.toNat ≠ 0 := fun hc => h0 (hzero.mpr hc)
        have hold := hreplay hans
        refine Or.inr ⟨hnew, ?_⟩
        by_contra hlt
        exact hold ⟨by omega, hnew, by omega⟩

/-- A `reAck` of a delivered pair is warranted: the pair is no longer held, so it was taken. -/
theorem Invariant.warranted_iff (h : Invariant past st) {s : UInt16} {c : UInt64} {p : Bytes}
    (hans : (decideRadioInbound st s c p).2 = .reAck) :
    Warranted past s c ↔ c.toNat ∈ deliveredFrom past s := by
  rw [Warranted, mem_deliveredFrom]
  refine ⟨fun hw => hw.1, fun hd => ⟨hd, ?_⟩⟩
  obtain ⟨q, hq⟩ := hd
  rcases h.taken s c q hq with hc | htaken
  · have hr := ((decideRadioInbound_eq_reAck_iff).mp hans).1
    rw [hr.1] at hc
    cases hc
  · exact htaken

/-- **Re-acknowledging only what the host took, and exactly when.** A run answers `reAck` only for
pairs that an earlier call delivered and an earlier take removed, exactly when no call of it is
one that the window misreads. -/
theorem reAck_only_after_take_iff (calls : List Call) :
    Run.Always step new (fun past st call => ∀ s c p, call = .heard s c p →
        (step st call).2 = .decided .reAck → Warranted past s c) calls ↔
      Run.Always step new (fun past st call => ∀ s c p, call = .heard s c p →
        ¬ MisReads past st s c p) calls := by
  have hpoint : ∀ past st, Invariant past st → ∀ s c p,
      ((decideRadioInbound st s c p).2 = .reAck → Warranted past s c) ↔
        ¬ MisReads past st s c p := by
    intro past st h s c p
    rw [h.misReads_iff, not_and_not_right]
    exact forall_congr' fun hans => h.warranted_iff hans
  constructor
  · rintro hrun before call after hcalls s c p rfl
    refine (hpoint _ _ (invariant_final before) s c p).mp fun hans => ?_
    exact hrun before _ after hcalls s c p rfl (by rw [step, hans])
  · rintro hrun before call after hcalls s c p rfl hans
    refine (hpoint _ _ (invariant_final before) s c p).mpr (hrun before _ after hcalls s c p rfl) ?_
    simpa [step] using hans

/-- Counter `1` after counter `100`, with nothing in between: acknowledged, never held. -/
theorem reAck_never_delivered :
    ¬ Run.Always step new (fun past st call => ∀ s c p, call = .heard s c p →
        (step st call).2 = .decided .reAck → Warranted past s c)
      [.heard 7 100 [1], .heard 7 1 [1]] := by
  intro h
  obtain ⟨⟨p, hp⟩, -⟩ := h [.heard 7 100 [1]] (.heard 7 1 [1]) [] rfl 7 1 [1] rfl (by decide)
  have hlog : Run.log step new [.heard 7 100 [1]] = [(.heard 7 100 [1], .decided .deliver)] := by
    decide
  rw [hlog] at hp
  simp at hp

end Inbound

end ApexOS.Mesh
