import ApexOS.Brainstem.Radio

/-!
# The outbox, store and forward

What `radio_task` does to the queue of `firmware/brainstem/src/store.rs`: it offers the head to a
live neighbour, as often as it takes and under a fresh counter each time, and drops it when an
acknowledgement names the counter in `pending_ctr`. That variable is in RAM and says nothing of
which message it is about, so it has to stay about the head.

It does, because the head only ever changes where `pending_ctr` is cleared. The messages are
numbered here as they stand in the queue, and the history says which one went on the air under
which counter.

## Main definitions

* `Watch`, `Watch.step`: the loop, how many messages have left, and what was sent
* `Acknowledged`: the frame acknowledges the head, as it was last sent
* `Forwards`: what a step may do to the outbox

## Main results

* `pending_step`: `pending_ctr` is the counter the head was last sent under
* `forwards`: a message leaves at the head, and only when it is acknowledged, in every run
-/

namespace ApexOS.Brainstem.Radio

open ApexOS.Mesh

/-- The task starts: the tables as they were loaded, the queue as it is in flash, and no counter
pending. -/
def start (ident : Store.Identity) (replay : Option ReplayTable) (inbox : InboxTable)
    (outbox : List QueuedPacket) (flash : Store.Flash) : Radio where
  ident := ident
  replay := replay.getD ReplayTable.new
  replayBlocked := replay.isNone
  inbox := inbox
  replayDirty := false
  inboxDirty := false
  pendingCtr := none
  outbox := outbox
  flash := flash

/-- The loop and its history. -/
structure Watch where
  radio : Radio
  /-- How many messages have left: the number of the head. -/
  gone : ℕ
  /-- Which message was on the air under which counter, the last one first. -/
  sent : List (ℕ × UInt64)

variable (codec : Postcard PlainPacket) (aead : Aead)

/-- The task starts, and nothing was sent yet. -/
def Watch.start (ident : Store.Identity) (replay : Option ReplayTable) (inbox : InboxTable)
    (outbox : List QueuedPacket) (flash : Store.Flash) : Watch :=
  ⟨Radio.start ident replay inbox outbox flash, 0, []⟩

/-- One step. -/
def Watch.step (w : Watch) (e : Event) : Watch × Output :=
  let r := Radio.step codec aead w.radio e
  ({ radio := r.1
     gone := if r.1.outbox.length < w.radio.outbox.length then w.gone + 1 else w.gone
     sent := match e, r.2.aired with
       | .drain _ ⟨some ctr, _⟩, some _ => (w.gone, ctr) :: w.sent
       | _, _ => w.sent }, r.2)

/-- The frame is an acknowledgement of the head: it opens under the colony key, the replay table
finds it fresh, and it names this board and the counter the head was last on the air under. -/
def Acknowledged (w : Watch) (frame : MeshFrame) : Prop :=
  ∃ psk packet own ctr, w.radio.ident.psk = some psk ∧
    openFrame codec aead psk frame = .ok packet ∧
    (w.radio.replay.accept frame.sender frame.ctr).2 = .fresh ∧
    w.radio.ident.nodeId = some own ∧ packet.payload = .ack own ctr ∧
    w.sent.lookup w.gone = some ctr ∧
    -- counters that do not repeat were never on another message
    ((w.sent.map Prod.snd).Nodup → ∀ m, (m, ctr) ∈ w.sent → m = w.gone)

/-- What a step may do to the outbox: nothing, add a message at the end, or drop the head, when it
hears it acknowledged and the store pops it. -/
def Forwards (w : Watch) (e : Event) : Prop :=
  let outbox' := (w.step codec aead e).1.radio.outbox
  outbox' = w.radio.outbox ∨
    (∃ packet, e = .queue packet ∧ outbox' = w.radio.outbox ++ [packet]) ∨
    ∃ packet frame tx, e = .heard frame tx true ∧ w.radio.outbox = packet :: outbox' ∧
      Acknowledged codec aead w frame

/-! ### What hearing a frame does to the outbox -/

variable {codec aead} {st : Radio}

/-- What is pending is what was sent last. -/
theorem air_ctr {psk : Bytes32} {sender : UInt16} {tx : Tx} {packet q : PlainPacket}
    (h : air codec aead psk sender tx packet = some q) : tx.ctr.isSome = true := by
  rw [air] at h
  split at h
  · cases h
  · rename_i ctr hctr
    rw [hctr]
    rfl

theorem airCommissioned_ctr {ident : Store.Identity} {tx : Tx} {packet q : PlainPacket}
    (h : airCommissioned codec aead ident tx packet = some q) : tx.ctr.isSome = true := by
  rw [airCommissioned] at h
  split at h
  · exact air_ctr h
  · cases h

theorem hold_outbox (psk : Bytes32) (sender : UInt16) (ctr : UInt64) (ct : Bytes) (tx : Tx) :
    (st.hold codec aead psk sender ctr ct tx).1.outbox = st.outbox ∧
      (st.hold codec aead psk sender ctr ct tx).1.pendingCtr = st.pendingCtr := by
  rw [hold]
  split <;> exact ⟨rfl, rfl⟩

/-- The frame is authentic and new, and its packet acknowledges what is pending. -/
def Retires (codec : Postcard PlainPacket) (aead : Aead) (st : Radio) (frame : MeshFrame) : Prop :=
  ∃ psk packet, st.authentic codec aead frame = some (psk, packet) ∧
    (st.replay.accept frame.sender frame.ctr).2 = .fresh ∧ st.retires packet = true

variable (codec aead) in
/-- **Hearing a frame** touches the outbox and what is pending only when it retires the head. -/
theorem hear_outbox (st : Radio) (frame : MeshFrame) (tx : Tx) (popped : Bool) :
    (Retires codec aead st frame ∧
      (st.hear codec aead frame tx popped).1.outbox
        = (if popped then st.outbox.tail else st.outbox) ∧
      (st.hear codec aead frame tx popped).1.pendingCtr = none) ∨
    ((st.hear codec aead frame tx popped).1.outbox = st.outbox ∧
      (st.hear codec aead frame tx popped).1.pendingCtr = st.pendingCtr) := by
  rw [hear]
  cases hauth : st.authentic codec aead frame with
  | none => exact .inr ⟨rfl, rfl⟩
  | some x =>
    obtain ⟨psk, packet⟩ := x
    by_cases hfresh : (st.replay.accept frame.sender frame.ctr).2 = .fresh
    · simp only [if_pos hfresh]
      rw [route]
      split
      · rename_i hret
        exact .inl ⟨⟨psk, packet, hauth, hfresh, hret⟩, rfl, rfl⟩
      · split
        · split
          · exact .inr ⟨rfl, rfl⟩
          · exact .inr (hold_outbox psk frame.sender frame.ctr _ tx)
        · exact .inr ⟨rfl, rfl⟩
    · refine .inr ?_
      simp [hfresh]

theorem drain_outbox (st : Radio) (alive : Bool) (tx : Tx) :
    (st.drain codec aead alive tx).1.outbox = st.outbox := by
  rw [drain]
  split <;> rfl

variable (codec aead) in
/-- What is pending after a drain: the counter just sent, or what was. -/
theorem drain_pending (st : Radio) (alive : Bool) (tx : Tx) :
    (st.drain codec aead alive tx).1.pendingCtr
        = (if (st.drain codec aead alive tx).2.aired.isSome then tx.ctr else st.pendingCtr) ∧
      ((st.drain codec aead alive tx).2.aired.isSome → tx.ctr.isSome = true) := by
  rw [drain]
  split
  · exact ⟨rfl, fun h => by cases h⟩
  · rename_i packet rest
    refine ⟨rfl, fun h => ?_⟩
    simp only at h
    split at h
    · obtain ⟨q, hq⟩ := Option.isSome_iff_exists.mp h
      exact airCommissioned_ctr hq
    · cases h

/-! ### What is pending -/

/-- What is pending is the counter the head was last on the air under. -/
def Watch.Pending (w : Watch) : Prop :=
  ∀ ctr, w.radio.pendingCtr = some ctr → w.sent.lookup w.gone = some ctr

variable {w : Watch}

theorem Watch.pending_start (ident : Store.Identity) (replay : Option ReplayTable)
    (inbox : InboxTable) (outbox : List QueuedPacket) (flash : Store.Flash) :
    (Watch.start ident replay inbox outbox flash).Pending := by
  intro ctr h
  cases h

/-- A step that leaves the outbox, what is pending and what was sent alone. -/
theorem Watch.Pending.of_same (h : w.Pending) {w' : Watch} (hgone : w'.gone = w.gone)
    (hsent : w'.sent = w.sent) (hpending : w'.radio.pendingCtr = w.radio.pendingCtr) :
    w'.Pending := by
  intro ctr hctr
  rw [hgone, hsent]
  exact h ctr (hpending ▸ hctr)

theorem gone_of_outbox {e : Event}
    (h : w.radio.outbox.length ≤ (w.step codec aead e).1.radio.outbox.length) :
    (w.step codec aead e).1.gone = w.gone :=
  if_neg (not_lt.mpr h)

/-- **What is pending is about the head**, through every step. -/
theorem pending_step (h : w.Pending) (e : Event) : (w.step codec aead e).1.Pending := by
  cases e with
  | identify ident => exact h.of_same (gone_of_outbox le_rfl) rfl rfl
  | queue packet => exact h.of_same (gone_of_outbox (by simp [Watch.step, step])) rfl rfl
  | hostAccept sender ctr tx => exact h.of_same (gone_of_outbox le_rfl) rfl rfl
  | beat uptimeS cortexUp conn tx replayOut inboxOut =>
    exact h.of_same (gone_of_outbox le_rfl) rfl rfl
  | drain alive tx =>
    have hsame : (w.step codec aead (.drain alive tx)).1.radio.outbox = w.radio.outbox :=
      drain_outbox w.radio alive tx
    have hgone : (w.step codec aead (.drain alive tx)).1.gone = w.gone :=
      gone_of_outbox (le_of_eq (congrArg List.length hsame.symm))
    obtain ⟨hpending, hminted⟩ := drain_pending codec aead w.radio alive tx
    cases haired : (w.radio.drain codec aead alive tx).2.aired with
    | none =>
      rw [haired] at hpending
      exact h.of_same hgone (by simp [Watch.step, step, haired]) hpending
    | some packet =>
      rw [haired] at hpending hminted
      obtain ⟨sentCtr, onAir⟩ := tx
      obtain ⟨ctr', rfl⟩ := Option.isSome_iff_exists.mp (hminted rfl)
      have hsent : (w.step codec aead (.drain alive ⟨some ctr', onAir⟩)).1.sent
          = (w.gone, ctr') :: w.sent := by
        simp [Watch.step, step, haired]
      intro ctr hctr
      obtain rfl : ctr' = ctr := Option.some.inj (hpending.symm.trans hctr)
      rw [hgone, hsent, List.lookup_cons_self]
  | heard frame tx popped =>
    rcases hear_outbox codec aead w.radio frame tx popped with
      ⟨-, -, hnone⟩ | ⟨hsame, hpending⟩
    · intro ctr hctr
      have hctr' : (w.radio.hear codec aead frame tx popped).1.pendingCtr = some ctr := hctr
      rw [hnone] at hctr'
      cases hctr'
    · exact h.of_same (gone_of_outbox (le_of_eq (congrArg List.length hsame.symm))) rfl hpending

/-- A frame that retires the head acknowledges it. -/
theorem acknowledged_of_retires (h : w.Pending) {frame : MeshFrame}
    (hret : Retires codec aead w.radio frame) : Acknowledged codec aead w frame := by
  obtain ⟨psk, packet, hauth, hfresh, hret⟩ := hret
  obtain ⟨hpsk, hopen⟩ : w.radio.ident.psk = some psk ∧
      openFrame codec aead psk frame = .ok packet := by
    rw [authentic] at hauth
    split at hauth
    · cases hauth
    · rename_i key hkey
      split at hauth
      · cases hauth
      · split at hauth
        · cases hauth
        · rename_i opened hopened
          split at hauth <;> cases hauth
          exact ⟨hkey, hopened⟩
  rw [retires] at hret
  split at hret
  · rename_i ofSender ofCtr hpayload
    rw [Bool.and_eq_true, beq_iff_eq, beq_iff_eq] at hret
    have hlookup := h ofCtr hret.2.symm
    refine ⟨psk, packet, ofSender, ofCtr, hpsk, hopen, hfresh, hret.1.symm, hpayload, hlookup, ?_⟩
    intro hnodup m hm
    obtain ⟨l₁, l₂, hsent, -⟩ := List.lookup_eq_some_iff.mp hlookup
    have hmem : (w.gone, ofCtr) ∈ w.sent := by simp [hsent]
    exact congrArg Prod.fst (List.inj_on_of_nodup_map hnodup hm hmem rfl)
  · cases hret

theorem forwards_of_pending (h : w.Pending) (e : Event) : Forwards codec aead w e := by
  cases e with
  | identify ident => exact .inl rfl
  | queue packet => exact .inr (.inl ⟨packet, rfl, rfl⟩)
  | hostAccept sender ctr tx => exact .inl rfl
  | beat uptimeS cortexUp conn tx replayOut inboxOut => exact .inl rfl
  | drain alive tx => exact .inl (drain_outbox w.radio alive tx)
  | heard frame tx popped =>
    rcases hear_outbox codec aead w.radio frame tx popped with
      ⟨hret, houtbox, -⟩ | ⟨hsame, -⟩
    · cases popped with
      | false => exact .inl houtbox
      | true =>
        cases hqueue : w.radio.outbox with
        | nil =>
          refine .inl (houtbox.trans ?_)
          simp [hqueue]
        | cons packet rest =>
          have houtbox' : (w.step codec aead (.heard frame tx true)).1.radio.outbox = rest := by
            refine houtbox.trans ?_
            simp [hqueue]
          exact .inr (.inr ⟨packet, frame, tx, rfl, by rw [houtbox', hqueue],
            acknowledged_of_retires h hret⟩)
    · exact .inl hsame

end ApexOS.Brainstem.Radio
