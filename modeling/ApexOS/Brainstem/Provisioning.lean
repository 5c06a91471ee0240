import ApexOS.Brainstem.Store
import ApexOS.Mesh.Crypto

/-!
# Provisioning

How a board comes by its name and its key: `decode_inbound` and the `Provision` arm of
`inbound_task` in `firmware/brainstem/src/bin/main.rs`, over `Store::identity` and
`Store::commission` in `store.rs`.

One call commissions a new board and rotates an old one. It stores the key, then the node id, and
only when both went well does the pair reach RAM. Each of these is a step of the machine here, so
that a power cut may come between any two, and a store may report an error with the old or the new
record in place.

On a new board the order is what makes a cut harmless: no id, not commissioned. On a board that has
an id, the new key stands beside the old id until the second store. A boot in between finds a pair
that nobody ever sent.

## Main definitions

* `Board`, `Event`, `Board.step`: the machine
* `Watched`: the machine, and which frame put which record where it is
* `Guarded`: what provisioning promises of one step

## Main results

* `Law.step`: the records in flash are those of the last commissions that placed one
* `guarded_of_agree`: every run keeps the promise whose cuts find the two records in agreement
-/

namespace ApexOS.Brainstem

open ApexOS.Mesh LittleEndian

/-- `Identity::is_commissioned`. -/
def Store.Identity.isCommissioned (ident : Store.Identity) : Bool :=
  ident.nodeId.isSome && ident.psk.isSome

namespace Provisioning

open Store

/-! ### The two records -/

/-- `KEY_NODE_ID`. -/
def keyNodeId : UInt8 := 0

/-- `KEY_PSK`. -/
def keyPsk : UInt8 := 1

/-- A record that is a `u16`. -/
def readU16 (bytes : Bytes) : Option UInt16 :=
  if bytes.length = 2 then some (UInt16.ofNat (ofLE bytes)) else none

/-- A record that is a key. -/
def readPsk (bytes : Bytes) : Option Bytes32 :=
  if h : bytes.length = 32 then some ⟨bytes.toArray, h⟩ else none

@[simp] theorem readU16_toLE (x : UInt16) : readU16 (toLE 2 x.toNat) = some x := by
  simp [readU16, ofLE_toLE_uint16]

@[simp] theorem readPsk_toList (psk : Bytes32) : readPsk psk.toList = some psk := by
  obtain ⟨bytes, hbytes⟩ := psk
  simp [readPsk, Vector.toList, hbytes]

/-- `Store::identity`. -/
def identity (f : Flash) : Identity where
  nodeId := (f keyNodeId).bind readU16
  psk := (f keyPsk).bind readPsk

/-! ### Which frames are let through -/

variable (codec : Postcard PlainPacket) (aead : Aead)

/-- `Inbound`. -/
inductive Inbound
  | sealed (packet : PlainPacket)
  | plain (packet : PlainPacket)

/-- `decode_inbound`. -/
def decodeInbound (frame : MeshFrame) (psk : Option Bytes32) : Option Inbound :=
  match psk.bind fun key => (openFrame codec aead key frame).toOption with
  | some packet => some (.sealed packet)
  | none =>
    match codec.takeFromBytes frame.ct with
    | none => none
    | some (packet, rest) => if rest ≠ [] then none else some (.plain packet)

/-- The interior of a `Provision`. -/
structure Provision where
  nodeId : UInt16
  psk : Bytes32
  deriving DecidableEq

/-- The pair in RAM, once the provision is done. -/
def Provision.identity (p : Provision) : Identity := ⟨some p.nodeId, some p.psk⟩

/-- The `Provision` arm, down to `allowed`: a board without an identity trusts the wire, one with an
identity trusts only its key. -/
def letThrough (current : Identity) (frame : MeshFrame) : Option Provision :=
  match decodeInbound codec aead frame current.psk with
  | none => none
  | some inbound =>
    let (packet, wasSealed) := match inbound with
      | .sealed p => (p, true)
      | .plain p => (p, false)
    match packet.payload with
    | .provision nodeId psk =>
      let allowed := if current.isCommissioned then wasSealed else true
      if allowed then some ⟨nodeId, psk⟩ else none
    | _ => none

/-! ### The machine -/

/-- What the inbound task has to do next for a provision it let through. -/
inductive Due
  | key
  | id
  | adoption
  deriving DecidableEq

/-- The board: the records in flash, and the rest in RAM. -/
structure Board where
  flash : Flash
  /-- The identity in RAM. -/
  ident : Identity
  /-- `NODE_ID`. -/
  nodeId : UInt16
  /-- Where `inbound_task` stands. -/
  task : Option (Due × Provision)

/-- The atomic steps. -/
inductive Event
  | frame (f : MeshFrame)
  | storeKey (out : WriteOutcome)
  | storeId (out : WriteOutcome)
  | adopt
  /-- Another task stores a record of its own. -/
  | storeOther (key : UInt8) (bytes : Bytes) (out : WriteOutcome)
  | powerCut
  deriving DecidableEq

/-- Power comes on: `main` reads the identity. -/
def boot (flash : Flash) : Board where
  flash := flash
  ident := identity flash
  nodeId := (identity flash).nodeId.getD unprovisionedNodeId
  task := none

/-- One step, and the provision it lets through, if it does. A step that is not due does nothing;
a frame waits while the task is busy. -/
def Board.step (b : Board) : Event → Board × Option Provision
  | .frame f =>
    match b.task with
    | some _ => (b, none)
    | none =>
      match letThrough codec aead b.ident f with
      | none => (b, none)
      | some p => ({ b with task := some (.key, p) }, some p)
  | .storeKey out =>
    match b.task with
    | some (.key, p) =>
      let r := storeItem b.flash keyPsk p.psk.toList out
      ({ b with flash := r.1, task := if r.2 then some (.id, p) else none }, none)
    | _ => (b, none)
  | .storeId out =>
    match b.task with
    | some (.id, p) =>
      let r := storeItem b.flash keyNodeId (toLE 2 p.nodeId.toNat) out
      ({ b with flash := r.1, task := if r.2 then some (.adoption, p) else none }, none)
    | _ => (b, none)
  | .adopt =>
    match b.task with
    | some (.adoption, p) =>
      ({ b with ident := p.identity, nodeId := p.nodeId, task := none }, none)
    | _ => (b, none)
  | .storeOther key bytes out =>
    if key = keyNodeId ∨ key = keyPsk then (b, none)
    else ({ b with flash := (storeItem b.flash key bytes out).1 }, none)
  | .powerCut => (boot b.flash, none)

/-! ### Which frame put which record there -/

/-- The board and its history. -/
structure Watched where
  board : Board
  /-- The frames let through since the identity in RAM was set. -/
  attempts : List (MeshFrame × Provision)
  /-- The provisions ever let through. -/
  accepted : List Provision
  /-- The last provision whose key was placed in flash. -/
  keyBy : Option Provision
  /-- The last provision whose id was placed in flash. -/
  idBy : Option Provision

/-- A board that was never commissioned. -/
def Watched.new (flash : Flash) : Watched where
  board := boot (Function.update (Function.update flash keyNodeId none) keyPsk none)
  attempts := []
  accepted := []
  keyBy := none
  idBy := none

/-- One step. -/
def Watched.step (w : Watched) (e : Event) : Watched × Option Provision :=
  let r := w.board.step codec aead e
  ({ board := r.1
     attempts := match e, r.2, w.board.task with
       | .frame f, some p, _ => (f, p) :: w.attempts
       | .adopt, _, some (.adoption, _) => []
       | .powerCut, _, _ => []
       | _, _, _ => w.attempts
     accepted := match r.2 with
       | some p => p :: w.accepted
       | none => w.accepted
     keyBy := match e, w.board.task with
       | .storeKey out, some (.key, p) => if out = .failedOld then w.keyBy else some p
       | _, _ => w.keyBy
     idBy := match e, w.board.task with
       | .storeId out, some (.id, p) => if out = .failedOld then w.idBy else some p
       | _, _ => w.idBy }, r.2)

/-- The frame is a sealed `Provision`, and opens under the key. -/
def Opens (psk : Bytes32) (frame : MeshFrame) (p : Provision) : Prop :=
  ∃ packet, openFrame codec aead psk frame = .ok packet ∧
    packet.payload = .provision p.nodeId p.psk

/-- What provisioning promises of one step. -/
structure Guarded (w : Watched) (e : Event) : Prop where
  /-- The pair of a commissioned board, in RAM or as a reboot would read it, changes only by a frame
  that opened under its key: the key in RAM is the one of the time, since it was not set since. -/
  authenticated : w.board.ident.isCommissioned = true →
    ((w.step codec aead e).1.board.ident ≠ w.board.ident ∨
      identity (w.step codec aead e).1.board.flash ≠ identity w.board.flash) →
    ∃ x ∈ w.attempts, ∃ psk, w.board.ident.psk = some psk ∧ Opens codec aead psk x.1 x.2
  /-- A boot finds no identity, or a pair that one provision carried. -/
  atomic : e = .powerCut → (w.step codec aead e).1.board.ident.isCommissioned = false ∨
    ∃ p ∈ w.accepted, (w.step codec aead e).1.board.ident = p.identity

/-- Power is cut only while the last provision whose key is in flash and the last whose id is there
agree in the id or in the key: above all when they are one and the same. -/
def AgreeAtCut (w : Watched) (e : Event) : Prop :=
  e = .powerCut → ∀ p ∈ w.idBy, ∀ q ∈ w.keyBy, p.nodeId = q.nodeId ∨ p.psk = q.psk

/-! ### What is in flash -/

variable {codec aead}

/-- A commissioned board lets nothing through that does not open under its key. -/
theorem opens_of_letThrough {ident : Identity} {frame : MeshFrame} {p : Provision}
    (hcomm : ident.isCommissioned = true) (h : letThrough codec aead ident frame = some p) :
    ∃ psk, ident.psk = some psk ∧ Opens codec aead psk frame p := by
  rw [letThrough] at h
  cases hdec : decodeInbound codec aead frame ident.psk with
  | none =>
    rw [hdec] at h
    cases h
  | some inbound =>
    rw [hdec] at h
    cases inbound with
    | plain packet =>
      simp only [hcomm, if_true, Bool.false_eq_true, if_false] at h
      split at h <;> cases h
    | sealed packet =>
      simp only [hcomm, if_true] at h
      split at h
      · rename_i nodeId psk hpayload
        cases h
        rw [decodeInbound] at hdec
        split at hdec
        · rename_i packet' hopen
          cases hdec
          obtain ⟨key, hkey, hopen⟩ := Option.bind_eq_some_iff.mp hopen
          refine ⟨key, hkey, packet, ?_, hpayload⟩
          cases hframe : openFrame codec aead key frame with
          | error e =>
            rw [hframe] at hopen
            cases hopen
          | ok opened =>
            rw [hframe] at hopen
            cases hopen
            rfl
        · split at hdec
          · cases hdec
          · split at hdec <;> cases hdec
      · cases h

/-- How the history explains the board. -/
structure Law (codec : Postcard PlainPacket) (aead : Aead) (w : Watched) : Prop where
  key : w.board.flash keyPsk = w.keyBy.map fun p => p.psk.toList
  id : w.board.flash keyNodeId = w.idBy.map fun p => toLE 2 p.nodeId.toNat
  keyAccepted : ∀ p ∈ w.keyBy, p ∈ w.accepted
  idAccepted : ∀ p ∈ w.idBy, p ∈ w.accepted
  /-- The task works for a frame that was let through. -/
  task : ∀ due p, w.board.task = some (due, p) → p ∈ w.accepted ∧ ∃ f, (f, p) ∈ w.attempts
  keyDone : ∀ p, w.board.task = some (.id, p) → w.keyBy = some p
  bothDone : ∀ p, w.board.task = some (.adoption, p) → w.keyBy = some p ∧ w.idBy = some p
  opened : w.board.ident.isCommissioned = true →
    ∀ x ∈ w.attempts, ∃ psk, w.board.ident.psk = some psk ∧ Opens codec aead psk x.1 x.2
  /-- Between commissions RAM and flash agree. -/
  settled : w.attempts = [] → identity w.board.flash = w.board.ident

namespace Law

variable {w : Watched}

theorem identity_flash (h : Law codec aead w) :
    identity w.board.flash = ⟨w.idBy.map Provision.nodeId, w.keyBy.map Provision.psk⟩ := by
  rw [identity, h.key, h.id]
  cases w.idBy <;> cases w.keyBy <;> simp

theorem new (flash : Flash) : Law codec aead (Watched.new flash) where
  key := by simp [Watched.new, boot]
  id := by simp [Watched.new, boot, keyNodeId, keyPsk]
  keyAccepted := by simp [Watched.new]
  idAccepted := by simp [Watched.new]
  task := by simp [Watched.new, boot]
  keyDone := by simp [Watched.new, boot]
  bothDone := by simp [Watched.new, boot]
  opened := by simp [Watched.new]
  settled _ := rfl

/-- The task gives up, or a cut takes it. -/
theorem dropTask (h : Law codec aead w) :
    Law codec aead { w with board := { w.board with task := none } } :=
  { h with
    task := by simp
    keyDone := by simp
    bothDone := by simp }

theorem attempts_ne_nil (h : Law codec aead w) {due : Due} {p : Provision}
    (htask : w.board.task = some (due, p)) : w.attempts ≠ [] := by
  obtain ⟨-, f, hf⟩ := h.task due p htask
  exact List.ne_nil_of_mem hf

/-- A frame is let through. -/
theorem letIn (h : Law codec aead w) {f : MeshFrame} {p : Provision}
    (hp : letThrough codec aead w.board.ident f = some p) :
    Law codec aead { w with
      board := { w.board with task := some (.key, p) }
      attempts := (f, p) :: w.attempts
      accepted := p :: w.accepted } where
  key := h.key
  id := h.id
  keyAccepted q hq := List.mem_cons_of_mem p (h.keyAccepted q hq)
  idAccepted q hq := List.mem_cons_of_mem p (h.idAccepted q hq)
  task due q hq := by
    obtain ⟨rfl, rfl⟩ := Prod.mk.inj (Option.some.inj hq)
    exact ⟨List.mem_cons_self, f, List.mem_cons_self⟩
  keyDone q hq := by simp at hq
  bothDone q hq := by simp at hq
  opened hcomm x hx := by
    rcases List.mem_cons.mp hx with rfl | hx
    · exact opens_of_letThrough hcomm hp
    · exact h.opened hcomm x hx
  settled hnil := by cases hnil

/-- The key is in flash. -/
theorem placeKey (h : Law codec aead w) {p : Provision}
    (htask : w.board.task = some (.key, p)) :
    Law codec aead { w with
      board := { w.board with
        flash := Function.update w.board.flash keyPsk (some p.psk.toList)
        task := some (.id, p) }
      keyBy := some p } where
  key := by simp
  id := by
    rw [← h.id]
    simp [keyNodeId, keyPsk]
  keyAccepted q hq := by
    obtain rfl := Option.some.inj hq
    exact (h.task _ _ htask).1
  idAccepted := h.idAccepted
  task due q hq := by
    obtain ⟨rfl, rfl⟩ := Prod.mk.inj (Option.some.inj hq)
    exact h.task _ _ htask
  keyDone q hq := by
    obtain ⟨-, rfl⟩ := Prod.mk.inj (Option.some.inj hq)
    rfl
  bothDone q hq := by simp at hq
  opened := h.opened
  settled hnil := absurd hnil (h.attempts_ne_nil htask)

/-- The id is in flash. -/
theorem placeId (h : Law codec aead w) {p : Provision}
    (htask : w.board.task = some (.id, p)) :
    Law codec aead { w with
      board := { w.board with
        flash := Function.update w.board.flash keyNodeId (some (toLE 2 p.nodeId.toNat))
        task := some (.adoption, p) }
      idBy := some p } where
  key := by
    rw [← h.key]
    simp [keyNodeId, keyPsk]
  id := by simp
  keyAccepted := h.keyAccepted
  idAccepted q hq := by
    obtain rfl := Option.some.inj hq
    exact (h.task _ _ htask).1
  task due q hq := by
    obtain ⟨rfl, rfl⟩ := Prod.mk.inj (Option.some.inj hq)
    exact h.task _ _ htask
  keyDone q hq := by simp at hq
  bothDone q hq := by
    obtain ⟨-, rfl⟩ := Prod.mk.inj (Option.some.inj hq)
    exact ⟨h.keyDone _ htask, rfl⟩
  opened := h.opened
  settled hnil := absurd hnil (h.attempts_ne_nil htask)

/-- The pair is in RAM. -/
theorem takeUp (h : Law codec aead w) {p : Provision}
    (htask : w.board.task = some (.adoption, p)) :
    Law codec aead { w with
      board := { w.board with ident := p.identity, nodeId := p.nodeId, task := none }
      attempts := [] } where
  key := h.key
  id := h.id
  keyAccepted := h.keyAccepted
  idAccepted := h.idAccepted
  task := by simp
  keyDone := by simp
  bothDone := by simp
  opened _ x hx := by cases hx
  settled _ := by
    obtain ⟨hkey, hid⟩ := h.bothDone p htask
    rw [h.identity_flash, hkey, hid]
    rfl

/-- The board boots. -/
theorem reboot (h : Law codec aead w) :
    Law codec aead { w with board := boot w.board.flash, attempts := [] } where
  key := h.key
  id := h.id
  keyAccepted := h.keyAccepted
  idAccepted := h.idAccepted
  task := by simp [boot]
  keyDone := by simp [boot]
  bothDone := by simp [boot]
  opened _ x hx := by cases hx
  settled _ := rfl

/-- Other records are other keys. -/
theorem storeElsewhere (h : Law codec aead w) {key : UInt8} (hid : key ≠ keyNodeId)
    (hkey : key ≠ keyPsk) (bytes : Bytes) (out : WriteOutcome) :
    Law codec aead { w with
      board := { w.board with flash := (storeItem w.board.flash key bytes out).1 } } := by
  have hsame : ∀ k, k ≠ key → (storeItem w.board.flash key bytes out).1 k = w.board.flash k := by
    intro k hk
    cases out <;> simp [storeItem, hk]
  have hk := hsame keyPsk (Ne.symm hkey)
  have hi := hsame keyNodeId (Ne.symm hid)
  have hident : identity (storeItem w.board.flash key bytes out).1 = identity w.board.flash := by
    rw [identity, identity, hk, hi]
  exact { h with
    key := hk.trans h.key
    id := hi.trans h.id
    settled := fun hnil => hident.trans (h.settled hnil) }

/-- **A step keeps the law.** -/
theorem step (h : Law codec aead w) (e : Event) : Law codec aead (w.step codec aead e).1 := by
  cases e with
  | frame f =>
    cases htask : w.board.task with
    | some t => simpa [Watched.step, Board.step, htask] using h
    | none =>
      cases hp : letThrough codec aead w.board.ident f with
      | none => simpa [Watched.step, Board.step, htask, hp] using h
      | some p => simpa [Watched.step, Board.step, htask, hp] using h.letIn hp
  | storeKey out =>
    cases htask : w.board.task with
    | none => simpa [Watched.step, Board.step, htask] using h
    | some t =>
      obtain ⟨due, p⟩ := t
      cases due with
      | id => simpa [Watched.step, Board.step, htask] using h
      | adoption => simpa [Watched.step, Board.step, htask] using h
      | key =>
        cases out with
        | stored => simpa [Watched.step, Board.step, htask, storeItem] using h.placeKey htask
        | failedOld => simpa [Watched.step, Board.step, htask, storeItem] using h.dropTask
        | failedNew =>
          simpa [Watched.step, Board.step, htask, storeItem] using (h.placeKey htask).dropTask
  | storeId out =>
    cases htask : w.board.task with
    | none => simpa [Watched.step, Board.step, htask] using h
    | some t =>
      obtain ⟨due, p⟩ := t
      cases due with
      | key => simpa [Watched.step, Board.step, htask] using h
      | adoption => simpa [Watched.step, Board.step, htask] using h
      | id =>
        cases out with
        | stored => simpa [Watched.step, Board.step, htask, storeItem] using h.placeId htask
        | failedOld => simpa [Watched.step, Board.step, htask, storeItem] using h.dropTask
        | failedNew =>
          simpa [Watched.step, Board.step, htask, storeItem] using (h.placeId htask).dropTask
  | adopt =>
    cases htask : w.board.task with
    | none => simpa [Watched.step, Board.step, htask] using h
    | some t =>
      obtain ⟨due, p⟩ := t
      cases due with
      | key => simpa [Watched.step, Board.step, htask] using h
      | id => simpa [Watched.step, Board.step, htask] using h
      | adoption => simpa [Watched.step, Board.step, htask] using h.takeUp htask
  | storeOther key bytes out =>
    by_cases hown : key = keyNodeId ∨ key = keyPsk
    · simpa [Watched.step, Board.step, hown] using h
    · obtain ⟨hid, hkey⟩ := not_or.mp hown
      simpa [Watched.step, Board.step, hown] using h.storeElsewhere hid hkey bytes out
  | powerCut => simpa [Watched.step, Board.step] using h.reboot

/-- Between commissions nothing changes the pair, and a boot finds the one in RAM. -/
theorem unchanged (h : Law codec aead w) (hnil : w.attempts = []) (e : Event) :
    (w.step codec aead e).1.board.ident = w.board.ident ∧
      identity (w.step codec aead e).1.board.flash = identity w.board.flash := by
  have htask : w.board.task = none := by
    rw [Option.eq_none_iff_forall_not_mem]
    rintro ⟨due, p⟩ ht
    exact h.attempts_ne_nil ht hnil
  cases e with
  | frame f =>
    cases hp : letThrough codec aead w.board.ident f with
    | none => simp [Watched.step, Board.step, htask, hp]
    | some p => simp [Watched.step, Board.step, htask, hp]
  | storeKey out => simp [Watched.step, Board.step, htask]
  | storeId out => simp [Watched.step, Board.step, htask]
  | adopt => simp [Watched.step, Board.step, htask]
  | storeOther key bytes out =>
    by_cases hown : key = keyNodeId ∨ key = keyPsk
    · simp [Watched.step, Board.step, hown]
    · obtain ⟨hid, hkey⟩ := not_or.mp hown
      have h' := h.storeElsewhere hid hkey bytes out
      refine ⟨by simp [Watched.step, Board.step, hown], ?_⟩
      rw [show identity (w.step codec aead (.storeOther key bytes out)).1.board.flash
          = identity (storeItem w.board.flash key bytes out).1 by
        simp [Watched.step, Board.step, hown], h'.identity_flash, h.identity_flash]
  | powerCut => exact ⟨h.settled hnil, rfl⟩

theorem guarded (h : Law codec aead w) {e : Event} (hcut : AgreeAtCut w e) :
    Guarded codec aead w e where
  authenticated hcomm hchange := by
    obtain ⟨x, hx⟩ : ∃ x, x ∈ w.attempts := by
      refine List.exists_mem_of_ne_nil _ fun hnil => ?_
      obtain ⟨hident, hflash⟩ := h.unchanged hnil e
      exact hchange.elim (· hident) (· hflash)
    exact ⟨x, hx, h.opened hcomm x hx⟩
  atomic he := by
    subst he
    have hident : (w.step codec aead .powerCut).1.board.ident = identity w.board.flash := rfl
    rw [hident, h.identity_flash]
    cases hid : w.idBy with
    | none => exact .inl rfl
    | some p =>
      cases hkey : w.keyBy with
      | none => exact .inl rfl
      | some q =>
        rcases hcut rfl p hid q hkey with hsame | hsame
        · exact .inr ⟨q, h.keyAccepted q hkey, by simp [Provision.identity, hsame]⟩
        · exact .inr ⟨p, h.idAccepted p hid, by simp [Provision.identity, hsame]⟩

end Law

/-- **Provisioning keeps its promise in every run whose cuts find the two records in agreement**:
any frames, any store errors, any other cut. -/
theorem guarded_of_agree (flash : Flash) (events : List Event)
    (h : Run.Always (Watched.step codec aead) (Watched.new flash) (fun _ => AgreeAtCut) events) :
    Run.Always (Watched.step codec aead) (Watched.new flash) (fun _ => Guarded codec aead)
      events :=
  Run.Always.of_invariant (I := fun _ => Law codec aead) (Law.new flash)
    (fun _ _ e hlaw _ => hlaw.step e) (fun _ _ _ hlaw hcut => hlaw.guarded hcut) h

instance (w : Watched) (e : Event) : Decidable (AgreeAtCut w e) :=
  inferInstanceAs (Decidable (_ → _))

/-! ### A rotation that is cut -/

/-- First touch: node `1`. -/
def firstTouch : Provision := ⟨1, Vector.replicate 32 7⟩

/-- The rotation: node `2`. -/
def rotation : Provision := ⟨2, Vector.replicate 32 9⟩

/-- A `Provision` for node `1`, on the wire. -/
def wirePacket (p : Provision) : PlainPacket := ⟨1, 1, 0, .provision p.nodeId p.psk⟩

def wireBytes (p : Provision) : Bytes := [1, 1, 0, 10, p.nodeId.toUInt8] ++ p.psk.toList

/-- `postcard` on the two. -/
def twoProvisions : Postcard PlainPacket where
  toAllocvec packet :=
    if packet = wirePacket firstTouch then some (wireBytes firstTouch)
    else if packet = wirePacket rotation then some (wireBytes rotation)
    else none
  takeFromBytes bytes :=
    if bytes = wireBytes firstTouch then some (wirePacket firstTouch, [])
    else if bytes = wireBytes rotation then some (wirePacket rotation, [])
    else none

/-- A cipher whose tag is the start of the key. -/
def keyTag : Aead where
  encrypt psk _ _ msg := some (msg ++ psk.toList.take 16)
  decrypt psk _ _ ct :=
    if ct.drop (ct.length - 16) = psk.toList.take 16 then some (ct.take (ct.length - 16)) else none

/-- A new board is commissioned over the wire, and a rotation under its key is let through. -/
def rotationBegins : List Event :=
  [.frame ⟨wireVersion, .gossip, 0, 1, wireBytes firstTouch⟩, .storeKey .stored, .storeId .stored,
    .adopt,
    .frame ⟨wireVersion, .gossip, 0, 2, wireBytes rotation ++ firstTouch.psk.toList.take 16⟩,
    .storeKey .stored]

/-- A cut between the two stores of a rotation: the board boots as node `1` with the key of node
`2`. -/
theorem cut_rotation_mixes : ¬ ∀ codec aead flash events,
    Run.Always (Watched.step codec aead) (Watched.new flash) (fun _ => Guarded codec aead)
      events := by
  intro h
  have hatomic := (h twoProvisions keyTag (fun _ => none) (rotationBegins ++ [.powerCut])
    rotationBegins .powerCut [] rfl).atomic rfl
  revert hatomic
  decide +kernel

/-- The same run with the second store made is within the promise. -/
theorem guarded_of_agree_rotation :
    Run.Always (Watched.step twoProvisions keyTag) (Watched.new fun _ => none)
      (fun _ => Guarded twoProvisions keyTag) (rotationBegins ++ [.storeId .stored, .powerCut]) :=
  guarded_of_agree _ _ (by decide +kernel)

end Provisioning

end ApexOS.Brainstem
