import ApexOS.Mesh.Inbox

/-!
# The brainstem's persistent store

`firmware/brainstem/src/store.rs`: the map half of the `apexnet` flash partition, as the radio
task saves its two tables to it and loads them back at boot. The wear-levelled map underneath is
taken by what it documents: a key holds the last record stored under it. A store that reports an
error may have left the old record or the new one.

A save stops at the first error, and a load at the first record it cannot read. The inbox writes
all its slots every time, vacant ones as tombstones, so that a save that succeeds erases whatever
the partition held before. Its tombstone is a record of length zero, and so is the record of an
empty packet.

## Main results

* `Store.loadInbox_saveInbox`, `Store.loadReplay_saveReplay`: what a save and a load give back
* `Store.noLoss_iff`: the inbox loses nothing, over every run, exactly when no empty packet is
  admitted
-/

namespace ApexOS.Brainstem.Store

open ApexOS.Mesh

/-! ### The map -/

/-- The records of the map range, by key. -/
abbrev Flash := UInt8 → Option Bytes

/-- How one store went: done, or reported as an error with the old or the new record in place. -/
inductive WriteOutcome
  | stored
  | failedOld
  | failedNew
  deriving DecidableEq, Repr

/-- `MapStorage::store_item`, and whether it returned `Ok`. -/
def storeItem (f : Flash) (key : UInt8) (bytes : Bytes) : WriteOutcome → Flash × Bool
  | .stored => (Function.update f key (some bytes), true)
  | .failedOld => (f, false)
  | .failedNew => (Function.update f key (some bytes), false)

/-- `KEY_REPLAY_BASE`. -/
def keyReplayBase : UInt8 := 16

/-- `KEY_INBOX_BASE`. -/
def keyInboxBase : UInt8 := 48

/-! ### Who the board is -/

/-- `Identity`: what the board knows about itself. -/
structure Identity where
  nodeId : Option UInt16
  psk : Option Bytes32
  deriving DecidableEq

/-- `UNPROVISIONED_NODE_ID`. -/
def unprovisionedNodeId : UInt16 := 0

/-- The id the board answers to and seals under. -/
def Identity.senderId (ident : Identity) : UInt16 := ident.nodeId.getD unprovisionedNodeId

/-! ### The saving and loading loops -/

/-- The loop of `save_inbox` and `save_replay`: store each slot's record under its key, and stop
at the first error. -/
def saveSlots (encodeSlot : ℕ → Option Bytes) (base : UInt8) (outcome : ℕ → WriteOutcome) :
    Flash → List ℕ → Flash × Bool
  | f, [] => (f, true)
  | f, i :: is =>
    match encodeSlot i with
    | none => saveSlots encodeSlot base outcome f is
    | some bytes =>
      let r := storeItem f (base + UInt8.ofNat i) bytes (outcome i)
      if r.2 then saveSlots encodeSlot base outcome r.1 is else (r.1, false)

/-- The loop of `load_inbox` and `load_replay`: a read error, or a record that is refused, ends
it. -/
def loadSlots {τ : Type*} (loadSlot : τ → Bytes → Option τ) (base : UInt8)
    (readError : ℕ → Bool) (f : Flash) : τ → List ℕ → Option τ
  | t, [] => some t
  | t, i :: is =>
    if readError i then none
    else
      match f (base + UInt8.ofNat i) with
      | none => loadSlots loadSlot base readError f t is
      | some bytes =>
        match loadSlot t bytes with
        | none => none
        | some t => loadSlots loadSlot base readError f t is

/-- `Store::save_inbox`. -/
def saveInbox (f : Flash) (table : InboxTable) (outcome : ℕ → WriteOutcome) : Flash × Bool :=
  saveSlots table.encodeSlot keyInboxBase outcome f (List.range maxInbox)

/-- `Store::load_inbox`. -/
def loadInbox (f : Flash) (readError : ℕ → Bool) : Option InboxTable :=
  loadSlots InboxTable.loadSlot? keyInboxBase readError f InboxTable.new (List.range maxInbox)

/-- `Store::save_replay`. -/
def saveReplay (f : Flash) (table : ReplayTable) (outcome : ℕ → WriteOutcome) : Flash × Bool :=
  saveSlots table.encodeSlot keyReplayBase outcome f (List.range maxReplaySenders)

/-- `Store::load_replay`: a record of another length is refused. -/
def loadReplay (f : Flash) (readError : ℕ → Bool) : Option ReplayTable :=
  loadSlots ReplayTable.loadSlot? keyReplayBase readError f ReplayTable.new
    (List.range maxReplaySenders)

/-! ### What a save leaves behind -/

private theorem key_injective {base : UInt8} {i j : ℕ} (hi : i < 256) (hj : j < 256)
    (h : base + UInt8.ofNat i = base + UInt8.ofNat j) : i = j := by
  have hnat := congrArg UInt8.toNat h
  simp only [UInt8.toNat_add, UInt8.toNat_ofNat'] at hnat
  omega

/-- A save that succeeds leaves every slot's record under its key, and touches no other key. -/
theorem saveSlots_spec {encodeSlot : ℕ → Option Bytes} {base : UInt8}
    {outcome : ℕ → WriteOutcome} {f f' : Flash} {is : List ℕ} (hlt : ∀ i ∈ is, i < 256)
    (hnd : is.Nodup) (h : saveSlots encodeSlot base outcome f is = (f', true)) :
    (∀ i ∈ is, ∀ bytes, encodeSlot i = some bytes → f' (base + UInt8.ofNat i) = some bytes) ∧
      ∀ key, (∀ i ∈ is, (encodeSlot i).isSome → key ≠ base + UInt8.ofNat i) → f' key = f key := by
  induction is generalizing f with
  | nil =>
    obtain rfl : f = f' := by simpa [saveSlots] using h
    simp
  | cons i is ih =>
    obtain ⟨hi, hnd⟩ := List.nodup_cons.mp hnd
    have hlt' : ∀ j ∈ is, j < 256 := fun j hj => hlt j (List.mem_cons_of_mem _ hj)
    have hne : ∀ j ∈ is, base + UInt8.ofNat i ≠ base + UInt8.ofNat j := fun j hj heq =>
      hi (key_injective (hlt i List.mem_cons_self) (hlt' j hj) heq ▸ hj)
    rw [saveSlots] at h
    cases henc : encodeSlot i with
    | none =>
      simp only [henc] at h
      obtain ⟨hsaved, hrest⟩ := ih hlt' hnd h
      refine ⟨?_, fun key hkey => hrest key fun j hj => hkey j (List.mem_cons_of_mem _ hj)⟩
      rintro j hj bytes hbytes
      rcases List.mem_cons.mp hj with rfl | hj
      · rw [henc] at hbytes
        cases hbytes
      · exact hsaved j hj bytes hbytes
    | some bytes =>
      simp only [henc] at h
      cases hout : outcome i with
      | failedOld => simp [hout, storeItem] at h
      | failedNew => simp [hout, storeItem] at h
      | stored =>
        simp only [hout, storeItem, if_true] at h
        obtain ⟨hsaved, hrest⟩ := ih hlt' hnd h
        refine ⟨?_, fun key hkey => ?_⟩
        · intro j hj bytes' hbytes
          rcases List.mem_cons.mp hj with rfl | hj
          · rw [hrest _ fun j hj _ => hne j hj, Function.update_self, ← hbytes, henc]
          · exact hsaved j hj bytes' hbytes
        · rw [hrest key fun j hj => hkey j (List.mem_cons_of_mem _ hj),
            Function.update_of_ne (hkey i List.mem_cons_self (by simp [henc]))]

/-- A save with no write error succeeds. -/
private theorem exists_saveSlots (encodeSlot : ℕ → Option Bytes) (base : UInt8) (f : Flash)
    (is : List ℕ) : ∃ f', saveSlots encodeSlot base (fun _ => .stored) f is = (f', true) := by
  induction is generalizing f with
  | nil => exact ⟨f, rfl⟩
  | cons i is ih =>
    rw [saveSlots]
    cases encodeSlot i with
    | none => exact ih f
    | some bytes => exact ih _

/-- Loading without read errors: the records there are, loaded in order. -/
private theorem loadSlots_eq_foldlM {τ : Type*} {loadSlot : τ → Bytes → Option τ} {base : UInt8}
    {f : Flash} {record : ℕ → Option Bytes} {is : List ℕ}
    (h : ∀ i ∈ is, f (base + UInt8.ofNat i) = record i) (t : τ) :
    loadSlots loadSlot base (fun _ => false) f t is = (is.filterMap record).foldlM loadSlot t := by
  induction is generalizing t with
  | nil => rfl
  | cons i is ih =>
    have hrest : ∀ j ∈ is, f (base + UInt8.ofNat j) = record j := fun j hj =>
      h j (List.mem_cons_of_mem _ hj)
    rw [loadSlots, h i List.mem_cons_self, List.filterMap_cons]
    cases record i with
    | none => simpa using ih hrest t
    | some bytes =>
      cases hload : loadSlot t bytes with
      | none => simp [hload]
      | some t' => simpa [hload] using ih hrest t'

/-! ### What a load gives back -/

/-- **Save, then load.** Over any earlier image, a save that succeeds and a load without read
errors give back exactly the held packets that are not empty. -/
theorem loadInbox_saveInbox {image saved : Flash} {table : InboxTable}
    {outcome : ℕ → WriteOutcome} (hkeys : table.slots.KeysNodup InboxSlot.pair)
    (hbuilt : ∀ slot ∈ table.slots.entries, slot.Built)
    (hsave : saveInbox image table outcome = (saved, true)) :
    ∃ loaded, loadInbox saved (fun _ => false) = some loaded ∧
      loaded.slots.entries = table.slots.entries.filter fun slot => slot.packet ≠ [] := by
  have hcells : ∀ i, table.encodeSlot i = table.slots.cells[i]?.map InboxTable.record :=
    fun _ => rfl
  have hrange : (List.range maxInbox).map (fun i => (table.encodeSlot i).getD [])
      = table.slots.cells.map InboxTable.record := by
    refine List.ext_getElem? fun i => ?_
    by_cases hi : i < maxInbox
    · have hi' : i < table.slots.cells.length := table.slots.length_cells.symm ▸ hi
      simp [hcells, List.getElem?_range hi, List.getElem?_eq_getElem hi']
    · have hi' : table.slots.cells.length ≤ i := table.slots.length_cells.symm ▸ not_lt.mp hi
      simp [List.getElem?_eq_none hi', not_lt.mp hi]
  have hrecords : ∀ i ∈ List.range maxInbox,
      saved (keyInboxBase + UInt8.ofNat i) = some ((table.encodeSlot i).getD []) := by
    intro i hi
    have hi' : i < table.slots.cells.length := table.slots.length_cells.symm ▸ List.mem_range.mp hi
    have hsome : table.encodeSlot i = some ((table.encodeSlot i).getD []) := by
      simp [hcells, List.getElem?_eq_getElem hi']
    refine (saveSlots_spec (fun j hj => ?_) List.nodup_range hsave).1 i hi _ hsome
    have : maxInbox ≤ 256 := by decide
    exact (List.mem_range.mp hj).trans_le this
  have hheld : table.slots.cells.reduceOption = table.slots.entries := rfl
  have hnew : InboxTable.new.slots.entries = [] := Slots.entries_empty
  have hfits := table.slots.length_entries_le
  obtain ⟨loaded, hload, hentries⟩ : ∃ t' : InboxTable,
      (table.slots.cells.map InboxTable.record).foldlM InboxTable.loadSlot? InboxTable.new
          = some t' ∧
        t'.slots.entries = _ :=
    InboxTable.foldlM_loadSlot Slots.compact_empty hbuilt (by rw [hnew, hheld]; exact hkeys)
      (by rw [hnew, hheld]; simpa using hfits)
  refine ⟨loaded, ?_, by rw [hentries, hnew, hheld]; rfl⟩
  rw [loadInbox, loadSlots_eq_foldlM hrecords, List.filterMap_eq_map', hrange, hload]

/-- The same for the replay windows, cell for cell. Slots are never vacated, so a vacant one never
had a record. -/
theorem loadReplay_saveReplay {image saved : Flash} {table : ReplayTable}
    {A : UInt16 → Finset ℕ} {outcome : ℕ → WriteOutcome} (h : table.Holds A)
    (hvacant : ∀ i < maxReplaySenders, table.encodeSlot i = none →
      image (keyReplayBase + UInt8.ofNat i) = none)
    (hsave : saveReplay image table outcome = (saved, true)) :
    loadReplay saved (fun _ => false) = some table := by
  have hlt : ∀ i ∈ List.range maxReplaySenders, i < 256 := fun i hi =>
    (List.mem_range.mp hi).trans_le (by decide)
  obtain ⟨hsaved, hrest⟩ := saveSlots_spec hlt List.nodup_range hsave
  have hrecords : ∀ i ∈ List.range maxReplaySenders,
      saved (keyReplayBase + UInt8.ofNat i) = table.encodeSlot i := by
    intro i hi
    cases henc : table.encodeSlot i with
    | some bytes => exact hsaved i hi bytes henc
    | none =>
      rw [hrest _ ?_, hvacant i (List.mem_range.mp hi) henc]
      rintro j hj hsome hkey
      rw [← key_injective (hlt i hi) (hlt j hj) hkey, henc] at hsome
      cases hsome
  rw [loadReplay, loadSlots_eq_foldlM hrecords]
  exact ReplayTable.foldlM_loadSlot?_saveAll h

/-! ### No loss, over whole runs -/

/-- What the inbox owes at a point of a run. -/
structure NoLoss (past : List (Inbound.Call × Inbound.Answer)) (st : Inbound) : Prop where
  /-- A delivered pair stays, with the bytes it came with, until it is taken. -/
  held : ∀ s c p, Run.Since (fun x => x = (.heard s c p, .decided .deliver))
    (fun x => x.1 = .take s c) past →
      ∃ slot ∈ st.inbox.slots.entries, slot.triple = (s, c, p)
  /-- No two slots hold the same pair. -/
  keys : st.inbox.slots.KeysNodup InboxSlot.pair
  /-- Saved over any image and loaded back, the inbox holds what it held. -/
  persists : ∀ image saved outcome, saveInbox image st.inbox outcome = (saved, true) →
    ∃ loaded, loadInbox saved (fun _ => false) = some loaded ∧
      ∀ x, x ∈ loaded.slots.entries.map InboxSlot.triple ↔
        x ∈ st.inbox.slots.entries.map InboxSlot.triple

/-- Every `drop` and every `waitHost` leaves both tables as they were. -/
def RefusalsKeep (st : Inbound) (call : Inbound.Call) : Prop :=
  (Inbound.step st call).2 = .decided .drop ∨ (Inbound.step st call).2 = .decided .waitHost →
    (Inbound.step st call).1 = st

/-- The tables admit the call: the pair is new, the packet fits, there is room, and the replay
table finds the counter fresh. -/
def Admits (st : Inbound) (s : UInt16) (c : UInt64) (p : Bytes) : Prop :=
  ReachesReplay st s c p ∧ (st.replay.accept s c).2 = .fresh

variable {past : List (Inbound.Call × Inbound.Answer)} {st : Inbound}

theorem refusalsKeep (st : Inbound) (call : Inbound.Call) : RefusalsKeep st call := by
  cases call with
  | take s c =>
    rintro (hans | hans) <;> cases hans
  | heard s c p =>
    rw [RefusalsKeep, Inbound.step]
    rcases decideRadioInbound_cases st s c p with
      ⟨-, heq⟩ | ⟨-, -, heq⟩ | ⟨-, -, heq⟩ | ⟨-, -, heq⟩ | ⟨-, -, slots, -, heq⟩ <;> simp [heq]

/-- Where a held slot comes from: it was held before, or the call was admitted and built it. -/
theorem mem_entries_step (h : st.Invariant past) {call : Inbound.Call} {slot : InboxSlot}
    (hslot : slot ∈ (Inbound.step st call).1.inbox.slots.entries) :
    slot ∈ st.inbox.slots.entries ∨
      ∃ s c p, call = .heard s c p ∧ Admits st s c p ∧ slot = InboxSlot.ofPacket s c p := by
  cases call with
  | take s c => exact Or.inl ((InboxTable.mem_entries_take h.keys).mp hslot).1
  | heard s c p =>
    rw [Inbound.step] at hslot
    rcases decideRadioInbound_cases st s c p with
      ⟨-, heq⟩ | ⟨-, -, heq⟩ | ⟨-, -, heq⟩ | ⟨-, -, heq⟩ | ⟨hr, hfresh, slots, hfill, heq⟩
    all_goals simp only [heq] at hslot
    case _ => exact Or.inl hslot
    case _ => exact Or.inl hslot
    case _ => exact Or.inl hslot
    case _ => exact Or.inl hslot
    case _ =>
      rcases (Slots.mem_entries_fill hfill).mp hslot with hnew | hold
      · exact Or.inr ⟨s, c, p, rfl, ⟨hr, hfresh⟩, hnew⟩
      · exact Or.inl hold

/-- An admitted packet is held from then on. -/
theorem ofPacket_mem_entries_step {s : UInt16} {c : UInt64} {p : Bytes} (hadm : Admits st s c p) :
    InboxSlot.ofPacket s c p ∈ (Inbound.step st (.heard s c p)).1.inbox.slots.entries := by
  rw [Inbound.step]
  rcases decideRadioInbound_cases st s c p with
    ⟨hc, -⟩ | ⟨hr, -⟩ | ⟨-, hans, -⟩ | ⟨-, hans, -⟩ | ⟨-, -, slots, hfill, heq⟩
  · rw [hadm.1.1] at hc
    cases hc
  · exact absurd hadm.1 hr
  · rw [hadm.2] at hans
    cases hans
  · rw [hadm.2] at hans
    cases hans
  · simp only [heq]
    exact (Slots.mem_entries_fill hfill).mpr (Or.inl rfl)

/-- With no empty packet held, nothing is owed that is not kept. -/
theorem noLoss_of_nonempty (h : st.Invariant past)
    (hne : ∀ slot ∈ st.inbox.slots.entries, slot.packet ≠ []) : NoLoss past st where
  held := by
    intro s c p hs
    obtain ⟨slot, hslot, hpair, hpacket⟩ := h.held s c p hs
    obtain ⟨rfl, rfl⟩ := Prod.mk.inj hpair
    exact ⟨slot, hslot, by rw [InboxSlot.triple, hpacket]⟩
  keys := h.keys
  persists := by
    intro image saved outcome hsave
    obtain ⟨loaded, hload, hentries⟩ := loadInbox_saveInbox h.keys h.built hsave
    refine ⟨loaded, hload, fun x => ?_⟩
    rw [hentries, List.filter_eq_self.mpr fun slot hslot => by simpa using hne slot hslot]

/-- An empty packet in the inbox does not survive a save. -/
theorem not_noLoss_of_empty (h : st.Invariant past) {slot : InboxSlot}
    (hslot : slot ∈ st.inbox.slots.entries) (hempty : slot.packet = []) : ¬ NoLoss past st := by
  intro hno
  obtain ⟨saved, hsave⟩ := exists_saveSlots st.inbox.encodeSlot keyInboxBase (fun _ => none)
    (List.range maxInbox)
  obtain ⟨loaded, hload, hentries⟩ := loadInbox_saveInbox h.keys h.built hsave
  obtain ⟨loaded', hload', hsame⟩ := hno.persists _ _ _ hsave
  obtain rfl : loaded = loaded' := Option.some.inj (hload.symm.trans hload')
  obtain ⟨other, hother, htriple⟩ := List.mem_map.mp ((hsame _).mpr (List.mem_map_of_mem hslot))
  rw [hentries, List.mem_filter] at hother
  have hpacket : other.packet = slot.packet := congrArg (fun x => x.2.2) htriple
  simp [hpacket, hempty] at hother

/-- **No loss, and exactly when.** Along a run, every delivered pair stays with its bytes until it
is taken, no pair is held twice, refusals change nothing, and a save over any image loads back to
the same packets at every point, exactly when the run never admits an empty packet. -/
theorem noLoss_iff (calls : List Inbound.Call) :
    ((∀ before after, calls = before ++ after →
        NoLoss (Run.log Inbound.step Inbound.new before)
          (Run.final Inbound.step Inbound.new before)) ∧
      Run.Always Inbound.step Inbound.new (fun _ st call => RefusalsKeep st call) calls) ↔
    Run.Always Inbound.step Inbound.new (fun _ st call => ∀ s c, call = .heard s c [] →
      ¬ Admits st s c []) calls := by
  constructor
  · rintro ⟨hrun, -⟩ before call after rfl s c rfl hadm
    have hslot : InboxSlot.ofPacket s c [] ∈ (Run.final Inbound.step Inbound.new
        (before ++ [.heard s c []])).inbox.slots.entries := by
      rw [Run.final_append]
      exact ofPacket_mem_entries_step hadm
    exact not_noLoss_of_empty (Inbound.invariant_final _) hslot
      (InboxSlot.packet_ofPacket (by simp)) (hrun (before ++ [.heard s c []]) after (by simp))
  · intro hrun
    refine ⟨?_, fun _ call _ _ => refusalsKeep _ call⟩
    rintro before after rfl
    refine noLoss_of_nonempty (Inbound.invariant_final before) ?_
    refine (Run.invariant (I := fun past st => st.Invariant past ∧
      ∀ slot ∈ st.inbox.slots.entries, slot.packet ≠ []) ?_ ?_ hrun.of_append).2
    · exact ⟨Inbound.invariant_new, by simp [Inbound.new, InboxTable.new]⟩
    · rintro past st call ⟨hinv, hne⟩ hcall
      refine ⟨hinv.step call, fun slot hslot => ?_⟩
      rcases mem_entries_step hinv hslot with hold | ⟨s, c, p, rfl, hadm, rfl⟩
      · exact hne slot hold
      · rw [InboxSlot.packet_ofPacket hadm.1.2.1]
        rintro rfl
        exact hcall s c rfl hadm

/-- One empty packet, delivered: its record is a tombstone. -/
theorem empty_packet_lost :
    ¬ ((∀ before after, [.heard 2 1 []] = before ++ after →
        NoLoss (Run.log Inbound.step Inbound.new before)
          (Run.final Inbound.step Inbound.new before)) ∧
      Run.Always Inbound.step Inbound.new (fun _ st call => RefusalsKeep st call)
        [.heard 2 1 []]) := by
  rintro ⟨hrun, -⟩
  have hadm : Admits Inbound.new 2 1 [] := ⟨⟨by decide, by decide, by decide⟩, by decide⟩
  exact not_noLoss_of_empty (Inbound.invariant_final [.heard 2 1 []])
    (ofPacket_mem_entries_step hadm) (InboxSlot.packet_ofPacket (by simp))
    (hrun [.heard 2 1 []] [] rfl)

end ApexOS.Brainstem.Store
