import ApexOS.Brainstem.Store
import ApexOS.Mesh.Crypto

/-!
# The radio loop

`radio_task` in `firmware/brainstem/src/bin/main.rs`: the one owner of the replay table and the
inbox. Each pass of its loop drains the host's accepts, refreshes the heartbeat and saves what is
dirty, offers the head of the outbox to a live neighbour, and then waits for a frame. Each of
these is a step of the machine here, in any order, with the minted counter and the fate of the
advertisement as inputs; the USB task's two effects on it, a new identity and a newly queued
message, are steps as well.

The loop asks the replay table about every authenticated frame *before* it looks at where the
frame is addressed, and `decideRadioInbound` asks it again. A counter just accepted is a replay
(`ReplayTable.accept_again`), so the second answer is never `fresh`: the decision for a frame the
inbox could hold is `reAck`, never `deliver`.

## Main definitions

* `Radio`, `Event`, `step`: the loop
* `FirstHeard`: the loop takes a frame as new, addressed here, and the inbox has room for it
* `Law`: what acknowledging after the host means, at one step

## Main results

* `hear_cases`: everything hearing a frame can do
* `ack_after_host_iff`: a run keeps the law exactly when it never hears such a frame
-/

namespace ApexOS.Brainstem

open ApexOS.Mesh

/-! ### The machine -/

/-- The payload is an acknowledgement. -/
def isAck : Payload → Bool
  | .ack .. => true
  | _ => false

/-- A message in the outbox. The USB task reads an `Ack` as a host accept and never queues it. -/
def QueuedPacket := { p : PlainPacket // isAck p.payload = false }

/-- What `radio_task` owns, and what it shares with the USB task. -/
structure Radio where
  ident : Store.Identity
  replay : ReplayTable
  /-- The replay records could not be read at boot: no frame is accepted. -/
  replayBlocked : Bool
  inbox : InboxTable
  replayDirty : Bool
  inboxDirty : Bool
  /-- The counter the head of the outbox was last sent under. -/
  pendingCtr : Option UInt64
  outbox : List QueuedPacket
  flash : Store.Flash

/-- What a transmission meets: the counter `try_next` returns, and whether `advertise` works. -/
structure Tx where
  ctr : Option UInt64
  onAir : Bool
  deriving DecidableEq, Repr

/-- The steps of the loop, and of the USB task where it touches it. -/
inductive Event
  | identify (ident : Store.Identity)
  | queue (packet : QueuedPacket)
  | hostAccept (sender : UInt16) (ctr : UInt64) (tx : Tx)
  | beat (uptimeS : UInt32) (cortexUp : Bool) (conn : UInt8) (tx : Tx)
      (replayOut inboxOut : ℕ → Store.WriteOutcome)
  | drain (alive : Bool) (tx : Tx)
  | heard (frame : MeshFrame) (tx : Tx) (popped : Bool)

/-- The step is the host accepting the pair. -/
def Event.Accepts (e : Event) (s : UInt16) (c : UInt64) : Prop := ∃ tx, e = .hostAccept s c tx

/-- What a step shows: the packet put on the air, the frames handed to the USB queue, and the
decision, if one was taken. -/
structure Output where
  aired : Option PlainPacket
  up : List (UInt16 × UInt64 × Bytes)
  decided : Option RadioInbound

/-- Nothing to see. -/
def Output.quiet : Output := ⟨none, [], none⟩

namespace Radio

variable (codec : Postcard PlainPacket) (aead : Aead)

/-- Mint, seal and advertise under a key and a sender id. -/
def air (psk : Bytes32) (sender : UInt16) (tx : Tx) (packet : PlainPacket) : Option PlainPacket :=
  match tx.ctr with
  | none => none
  | some ctr =>
    match sealFrame codec aead psk .gossip sender ctr packet with
    | .ok _ => if tx.onAir then some packet else none
    | .error _ => none

/-- The same for the arms that need a name and a key first. -/
def airCommissioned (ident : Store.Identity) (tx : Tx) (packet : PlainPacket) :
    Option PlainPacket :=
  match ident.nodeId, ident.psk with
  | some nodeId, some psk => air codec aead psk nodeId tx packet
  | _, _ => none

/-- The acknowledgement of a pair. -/
def ackPacket (ofSender : UInt16) (ofCtr : UInt64) : PlainPacket :=
  ⟨ofSender, 1, 0, .ack ofSender ofCtr⟩

/-- The packet is the acknowledgement of the message last drained. -/
def retires (st : Radio) (packet : PlainPacket) : Bool :=
  match packet.payload with
  | .ack ofSender ofCtr => some ofSender == st.ident.nodeId && some ofCtr == st.pendingCtr
  | _ => false

/-- The HOST_ACCEPT arm: the pair leaves the inbox, and the sender is acknowledged. -/
def hostAccept (st : Radio) (sender : UInt16) (ctr : UInt64) (tx : Tx) : Radio × Output :=
  ({ st with inbox := (st.inbox.take sender ctr).1, inboxDirty := true },
    { Output.quiet with aired := airCommissioned codec aead st.ident tx (ackPacket sender ctr) })

/-- The beat: a heartbeat on the air, what is dirty to flash, and what is held up the wire. -/
def beat (st : Radio) (uptimeS : UInt32) (cortexUp : Bool) (conn : UInt8) (tx : Tx)
    (replayOut inboxOut : ℕ → Store.WriteOutcome) : Radio × Output :=
  let packet : PlainPacket := ⟨broadcast, defaultHopLimit, 0, .heartbeat uptimeS cortexUp conn⟩
  let saved := if st.replayDirty then Store.saveReplay st.flash st.replay replayOut
    else (st.flash, true)
  let saved' := if st.inboxDirty then Store.saveInbox saved.1 st.inbox inboxOut
    else (saved.1, true)
  ({ st with
      flash := saved'.1
      replayDirty := st.replayDirty && !saved.2
      inboxDirty := st.inboxDirty && !saved'.2 },
    { Output.quiet with
      aired := airCommissioned codec aead st.ident tx packet
      up := if cortexUp then st.inbox.slots.entries.map InboxSlot.triple else [] })

/-- The drain: the head of the outbox on the air, when its target is there to hear it. -/
def drain (st : Radio) (alive : Bool) (tx : Tx) : Radio × Output :=
  match st.outbox with
  | [] => (st, .quiet)
  | packet :: _ =>
    let aired := if alive then airCommissioned codec aead st.ident tx packet.1 else none
    ({ st with pendingCtr := if aired.isSome then tx.ctr else st.pendingCtr },
      { Output.quiet with aired := aired })

/-- The addressed arm: hold the packet until the host accepts it, by `decide_radio_inbound`. -/
def hold (st : Radio) (psk : Bytes32) (sender : UInt16) (ctr : UInt64) (ct : Bytes) (tx : Tx) :
    Radio × Output :=
  let r := decideRadioInbound ⟨st.replay, st.inbox⟩ sender ctr ct
  let st' := { st with replay := r.1.replay, inbox := r.1.inbox }
  match r.2 with
  | .deliver => ({ st' with inboxDirty := true }, ⟨none, [(sender, ctr, ct)], some .deliver⟩)
  | .waitHost => (st', ⟨none, [], some .waitHost⟩)
  | .reAck =>
    (st', ⟨air codec aead psk st.ident.senderId tx (ackPacket sender ctr), [], some .reAck⟩)
  | .drop => (st', ⟨none, [], some .drop⟩)

/-- A frame the replay table just accepted: the acknowledgement we wait for, something addressed
here, or neither. -/
def route (st : Radio) (psk : Bytes32) (frame : MeshFrame) (packet : PlainPacket) (tx : Tx)
    (popped : Bool) : Radio × Output :=
  if st.retires packet then
    ({ st with outbox := if popped then st.outbox.tail else st.outbox, pendingCtr := none }, .quiet)
  else if packet.target = st.ident.senderId then
    match codec.toAllocvec packet with
    | none => (st, .quiet)
    | some ct => st.hold codec aead psk frame.sender frame.ctr ct tx
  else (st, .quiet)

/-- The packet of a frame the loop lets through to the replay table: it opens under the colony
key, is not our own, and the table is not blocked. -/
def authentic (st : Radio) (frame : MeshFrame) : Option (Bytes32 × PlainPacket) :=
  match st.ident.psk with
  | none => none
  | some psk =>
    if st.ident.nodeId = some frame.sender then none
    else
      match openFrame codec aead psk frame with
      | .error _ => none
      | .ok packet => if st.replayBlocked then none else some (psk, packet)

/-- The inbound arm. -/
def hear (st : Radio) (frame : MeshFrame) (tx : Tx) (popped : Bool) : Radio × Output :=
  match st.authentic codec aead frame with
  | none => (st, .quiet)
  | some (psk, packet) =>
    let r := st.replay.accept frame.sender frame.ctr
    if r.2 = .fresh then
      route codec aead { st with replay := r.1, replayDirty := true } psk frame packet tx popped
    else ({ st with replay := r.1 }, .quiet)

/-- One step. -/
def step (st : Radio) : Event → Radio × Output
  | .identify ident => ({ st with ident := ident }, .quiet)
  | .queue packet => ({ st with outbox := st.outbox ++ [packet] }, .quiet)
  | .hostAccept sender ctr tx => st.hostAccept codec aead sender ctr tx
  | .beat uptimeS cortexUp conn tx replayOut inboxOut =>
    st.beat codec aead uptimeS cortexUp conn tx replayOut inboxOut
  | .drain alive tx => st.drain codec aead alive tx
  | .heard frame tx popped => st.hear codec aead frame tx popped

/-! ### What is heard as new -/

/-- The packet is for the inbox, and the inbox has room for it: it is not the acknowledgement that
retires the head of the outbox, it is addressed here, its pair is not held, its encoding fits and
the inbox is not full. -/
def ForInbox (codec : Postcard PlainPacket) (st : Radio) (frame : MeshFrame)
    (packet : PlainPacket) : Prop :=
  st.retires packet = false ∧ packet.target = st.ident.senderId ∧
    ∃ ct, codec.toAllocvec packet = some ct ∧
      ReachesReplay ⟨st.replay, st.inbox⟩ frame.sender frame.ctr ct

/-- The loop takes the frame as new and for the inbox: it is authentic, the replay table finds it
fresh, and there is room for it. -/
def FirstHeard (st : Radio) (frame : MeshFrame) : Prop :=
  ∃ psk packet, st.authentic codec aead frame = some (psk, packet) ∧
    (st.replay.accept frame.sender frame.ctr).2 = .fresh ∧ st.ForInbox codec frame packet

variable {codec aead} in
theorem air_eq_some {psk : Bytes32} {sender : UInt16} {tx : Tx} {packet q : PlainPacket}
    (h : air codec aead psk sender tx packet = some q) : q = packet := by
  rw [air] at h
  split at h
  · cases h
  · split at h
    · split at h
      · exact (Option.some.inj h).symm
      · cases h
    · cases h

variable {codec aead} in
theorem airCommissioned_eq_some {ident : Store.Identity} {tx : Tx} {packet q : PlainPacket}
    (h : airCommissioned codec aead ident tx packet = some q) : q = packet := by
  rw [airCommissioned] at h
  split at h
  · exact air_eq_some h
  · cases h

/-- Holding a pair the replay table already has: it is never delivered, and acknowledged exactly
when the inbox has room for it. -/
theorem hold_cases (st : Radio) {sender : UInt16} {ctr : UInt64}
    (h : (st.replay.accept sender ctr).2 = .replay) (psk : Bytes32) (ct : Bytes) (tx : Tx) :
    (ReachesReplay ⟨st.replay, st.inbox⟩ sender ctr ct ∧
        (st.hold codec aead psk sender ctr ct tx).2.decided = some .reAck) ∨
      (¬ ReachesReplay ⟨st.replay, st.inbox⟩ sender ctr ct ∧
        (st.hold codec aead psk sender ctr ct tx).2.aired = none) := by
  rcases decideRadioInbound_cases ⟨st.replay, st.inbox⟩ sender ctr ct with
    ⟨hc, heq⟩ | ⟨hr, -, heq⟩ | ⟨-, hans, -⟩ | ⟨hr, -, heq⟩ | ⟨-, hans, -⟩
  · refine Or.inr ⟨fun hr => ?_, by rw [hold, heq]⟩
    rw [hr.1] at hc
    cases hc
  · exact Or.inr ⟨hr, by rw [hold, heq]⟩
  · rw [h] at hans
    cases hans
  · exact Or.inl ⟨hr, by rw [hold, heq]⟩
  · rw [h] at hans
    cases hans

theorem route_cases (st : Radio) {frame : MeshFrame}
    (h : (st.replay.accept frame.sender frame.ctr).2 = .replay) (psk : Bytes32)
    (packet : PlainPacket) (tx : Tx) (popped : Bool) :
    (st.ForInbox codec frame packet ∧
        (st.route codec aead psk frame packet tx popped).2.decided = some .reAck) ∨
      (¬ st.ForInbox codec frame packet ∧
        (st.route codec aead psk frame packet tx popped).2.aired = none) := by
  rw [route]
  split
  · rename_i hret
    refine Or.inr ⟨fun hfor => ?_, rfl⟩
    rw [hfor.1] at hret
    cases hret
  · rename_i hret
    split
    · rename_i htarget
      cases hct : codec.toAllocvec packet with
      | none =>
        refine Or.inr ⟨?_, rfl⟩
        rintro ⟨-, -, ct, hsome, -⟩
        rw [hct] at hsome
        cases hsome
      | some ct =>
        rcases hold_cases codec aead st h psk ct tx with ⟨hr, hdec⟩ | ⟨hr, hair⟩
        · exact Or.inl ⟨⟨by simpa using hret, htarget, ct, hct, hr⟩, hdec⟩
        · refine Or.inr ⟨?_, hair⟩
          rintro ⟨-, -, ct', hsome, hr'⟩
          obtain rfl := Option.some.inj (hct.symm.trans hsome)
          exact hr hr'
    · rename_i htarget
      exact Or.inr ⟨fun hfor => htarget hfor.2.1, rfl⟩

/-- **Everything hearing a frame can do.** A frame heard as new is decided `reAck`; any other frame
puts nothing on the air. -/
theorem hear_cases (st : Radio) (frame : MeshFrame) (tx : Tx) (popped : Bool) :
    (st.FirstHeard codec aead frame ∧
        (st.hear codec aead frame tx popped).2.decided = some .reAck) ∨
      (¬ st.FirstHeard codec aead frame ∧ (st.hear codec aead frame tx popped).2.aired = none) := by
  rw [hear]
  cases hauth : st.authentic codec aead frame with
  | none =>
    refine Or.inr ⟨?_, rfl⟩
    rintro ⟨psk, packet, h, -⟩
    rw [hauth] at h
    cases h
  | some x =>
    obtain ⟨psk, packet⟩ := x
    have hfirst : st.FirstHeard codec aead frame ↔
        (st.replay.accept frame.sender frame.ctr).2 = .fresh ∧ st.ForInbox codec frame packet := by
      constructor
      · rintro ⟨psk', packet', h, hfresh, hfor⟩
        obtain ⟨-, rfl⟩ := Prod.mk.inj (Option.some.inj (hauth.symm.trans h))
        exact ⟨hfresh, hfor⟩
      · rintro ⟨hfresh, hfor⟩
        exact ⟨psk, packet, hauth, hfresh, hfor⟩
    rw [hfirst]
    by_cases hfresh : (st.replay.accept frame.sender frame.ctr).2 = .fresh
    · -- The table the rest of the arm sees has the pair already.
      have hagain := congrArg Prod.snd (ReplayTable.accept_again hfresh)
      simp only [if_pos hfresh]
      rcases route_cases codec aead { st with
          replay := (st.replay.accept frame.sender frame.ctr).1, replayDirty := true }
        hagain psk packet tx popped with ⟨hfor, hdec⟩ | ⟨hfor, hair⟩
      · exact Or.inl ⟨⟨hfresh, hfor⟩, hdec⟩
      · exact Or.inr ⟨fun h => hfor h.2, hair⟩
    · exact Or.inr ⟨fun h => hfresh h.1, by simp only [if_neg hfresh]; rfl⟩

/-! ### Acknowledging after the host -/

/-- What acknowledging after the host asks of one step. -/
structure Law (past : List (Event × Output)) (st : Radio) (e : Event) : Prop where
  /-- An acknowledgement goes on the air only for a pair the host has accepted. -/
  acked : ∀ packet s c, (step codec aead st e).2.aired = some packet → packet.payload = .ack s c →
    e.Accepts s c ∨ ∃ x ∈ past, x.1.Accepts s c
  /-- A frame heard as new, with room for it, is delivered into the inbox. -/
  held : ∀ frame tx popped, e = .heard frame tx popped → st.FirstHeard codec aead frame →
    (step codec aead st e).2.decided = some .deliver ∧
      (step codec aead st e).1.inbox.contains frame.sender frame.ctr = true

/-- The step hears a frame as new, with room for it. -/
def HearsNew (st : Radio) (e : Event) : Prop :=
  ∃ frame tx popped, e = .heard frame tx popped ∧ st.FirstHeard codec aead frame

/-- A step that hears nothing new acknowledges nothing but what the host accepts in it. -/
theorem acked_of_not_hearsNew {st : Radio} {e : Event} (h : ¬ HearsNew codec aead st e)
    {packet : PlainPacket} {s : UInt16} {c : UInt64}
    (haired : (step codec aead st e).2.aired = some packet) (hack : packet.payload = .ack s c) :
    e.Accepts s c := by
  cases e with
  | identify ident => cases haired
  | queue q => cases haired
  | hostAccept sender ctr tx =>
    obtain rfl : packet = ackPacket sender ctr := airCommissioned_eq_some haired
    obtain ⟨rfl, rfl⟩ := Payload.ack.inj hack
    exact ⟨tx, rfl⟩
  | beat uptimeS cortexUp conn tx replayOut inboxOut =>
    have hpacket := airCommissioned_eq_some haired
    rw [hpacket] at hack
    cases hack
  | drain alive tx =>
    simp only [step, drain] at haired
    split at haired
    · cases haired
    · rename_i q _ _
      simp only at haired
      split at haired
      · have hpacket := airCommissioned_eq_some haired
        have hno := q.2
        rw [← hpacket, hack] at hno
        cases hno
      · cases haired
  | heard frame tx popped =>
    rcases hear_cases codec aead st frame tx popped with ⟨hfirst, -⟩ | ⟨-, hair⟩
    · exact absurd ⟨frame, tx, popped, rfl, hfirst⟩ h
    · rw [show (step codec aead st (.heard frame tx popped)).2.aired = none from hair] at haired
      cases haired

/-- A step keeps the law exactly when it hears nothing new. -/
theorem law_iff (past : List (Event × Output)) (st : Radio) (e : Event) :
    Law codec aead past st e ↔ ¬ HearsNew codec aead st e := by
  constructor
  · rintro hlaw ⟨frame, tx, popped, rfl, hfirst⟩
    have hdeliver := (hlaw.held frame tx popped rfl hfirst).1
    rcases hear_cases codec aead st frame tx popped with ⟨-, hreAck⟩ | ⟨hno, -⟩
    · rw [show (step codec aead st (.heard frame tx popped)).2.decided = some .reAck from hreAck]
        at hdeliver
      cases hdeliver
    · exact hno hfirst
  · intro h
    exact ⟨fun packet s c haired hack => Or.inl (acked_of_not_hearsNew codec aead h haired hack),
      fun frame tx popped he hfirst => absurd ⟨frame, tx, popped, he, hfirst⟩ h⟩

/-- **Acknowledging after the host, and exactly when.** From any tables a boot may load, a run of
the loop acknowledges only what the host accepted and delivers every new frame it has room for,
exactly when it never hears one. -/
theorem ack_after_host_iff (start : Radio) (events : List Event) :
    Run.Always (step codec aead) start (Law codec aead) events ↔
      Run.Always (step codec aead) start (fun _ st e => ¬ HearsNew codec aead st e) events := by
  constructor <;> refine Run.Always.mono fun past st e => ?_
  · exact (law_iff codec aead past st e).mp
  · exact (law_iff codec aead past st e).mpr

/-- `postcard` on the two packets of the run below. -/
def twoPackets : Postcard PlainPacket where
  toAllocvec packet :=
    if packet = ⟨1, 1, 0, .a2a []⟩ then some [1, 1, 0, 2, 0]
    else if packet = ackPacket 2 1 then some [2, 1, 0, 7, 2, 1]
    else none
  takeFromBytes bytes :=
    if bytes = [1, 1, 0, 2, 0] then some (⟨1, 1, 0, .a2a []⟩, [])
    else if bytes = [2, 1, 0, 7, 2, 1] then some (ackPacket 2 1, [])
    else none

/-- A cipher that only appends its tag. -/
def tagOnly : Aead where
  encrypt _ _ _ msg := some (msg ++ List.replicate 16 0)
  decrypt _ _ _ ct :=
    if ct.drop (ct.length - 16) = List.replicate 16 0 then some (ct.take (ct.length - 16)) else none

/-- A commissioned board, node `1`, that has heard nothing yet. -/
def silent : Radio where
  ident := ⟨some 1, some (Vector.replicate 32 7)⟩
  replay := ReplayTable.new
  replayBlocked := false
  inbox := InboxTable.new
  replayDirty := false
  inboxDirty := false
  pendingCtr := none
  outbox := []
  flash := fun _ => none

/-- Node `2` says something to node `1`, for the first time. -/
def firstFrame : MeshFrame := ⟨wireVersion, .gossip, 2, 1, [1, 1, 0, 2, 0] ++ List.replicate 16 0⟩

/-- The first frame a board hears is acknowledged at once: the host has accepted nothing. -/
theorem first_frame_acked_before_host :
    ¬ Run.Always (step twoPackets tagOnly) silent (Law twoPackets tagOnly)
      [.heard firstFrame ⟨some 1, true⟩ false] := by
  intro h
  have hlaw := h [] (.heard firstFrame ⟨some 1, true⟩ false) [] rfl
  rcases hlaw.acked (ackPacket 2 1) 2 1 (by decide) rfl with ⟨tx, he⟩ | ⟨x, hx, -⟩
  · cases he
  · cases hx

end Radio

end ApexOS.Brainstem
