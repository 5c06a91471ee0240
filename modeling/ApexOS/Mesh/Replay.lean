import ApexOS.Lib.LittleEndian
import ApexOS.Lib.Run
import ApexOS.Lib.SlidingWindow
import ApexOS.Lib.Slots
import ApexOS.Mesh.Types

/-!
# The replay window and the never-evict table

The anti-replay half of `apexos-mesh-proto/src/crypto.rs`: one 64-wide sliding bitmap per sender,
sixteen senders remembered for ever, and the 18-byte record each slot is persisted as.

The bitmap is arithmetic on a machine word; what it is *for* is a set of counters. `Covers` from
`SlidingWindow` is the link: `ReplayWindow.checkAndAccept_spec` proves once that the word
arithmetic answers as the set does, and nothing above it looks at a bit again. The table is then
one such set per sender (`ReplayTable.Holds`), and a run of it is read off the answers it gave.

## Main definitions

* `ReplayWindow.checkAndAccept`, `ReplayTable.accept`: the source's decisions
* `encodeReplaySlot`, `decodeReplaySlot`, `ReplayTable.encodeSlot`, `ReplayTable.loadSlot`: the
  persisted form
* `acceptedFrom`, `rememberedIn`: what a past of answers says was accepted, and from whom

## Main results

* `ReplayTable.accept_spec`: one call against the sets the table holds
* `ReplayTable.holds_final`: the table always holds exactly what its answers accepted
* `ReplayTable.reload_saveAll`: saving and reloading gives the same table back
-/

namespace ApexOS.Mesh

open LittleEndian SlidingWindow

/-! ### One window -/

/-- `ReplayWindow`: the highest counter accepted, and bit `i` for `highest - i`. -/
structure ReplayWindow where
  highest : UInt64
  bitmap : UInt64
  deriving DecidableEq, Repr

namespace ReplayWindow

/-- `ReplayWindow::SIZE`. -/
def size : UInt64 := 64

/-- `ReplayWindow::new`. -/
def new : ReplayWindow := ⟨0, 0⟩

/-- `ReplayWindow::check_and_accept`. -/
def checkAndAccept (w : ReplayWindow) (ctr : UInt64) : ReplayWindow × Bool :=
  if ctr = 0 then (w, false)
  else if w.highest < ctr then
    let shift := ctr - w.highest
    let bitmap := if size ≤ shift then 0 else w.bitmap <<< shift
    (⟨ctr, bitmap ||| 1⟩, true)
  else
    let offset := w.highest - ctr
    if size ≤ offset then (w, false)
    else
      let bit := (1 : UInt64) <<< offset
      if w.bitmap &&& bit ≠ 0 then (w, false)
      else (⟨w.highest, w.bitmap ||| bit⟩, true)

/-! #### Any window at all

A window read back from flash need not have come from a run, so these ask nothing of it. -/

theorem checkAndAccept_of_refused {w : ReplayWindow} {ctr : UInt64}
    (h : (w.checkAndAccept ctr).2 = false) : (w.checkAndAccept ctr).1 = w := by
  revert h
  fun_cases checkAndAccept w ctr <;> simp

/-- A shift below the word width is not reduced. -/
private theorem toBitVec_shiftLeft_of_lt {x k : UInt64} (hk : k.toNat < 64) :
    (x <<< k).toBitVec = x.toBitVec <<< k.toNat := by
  have hmod : (k.toBitVec % 64).toNat = k.toNat := by
    rw [BitVec.toNat_umod]
    exact Nat.mod_eq_of_lt hk
  rw [UInt64.toBitVec_shiftLeft, BitVec.shiftLeft_eq', hmod]

/-- A bit just set reads as set. -/
private theorem or_and_bit_ne_zero {x k : UInt64} (hk : k.toNat < 64) :
    (x ||| (1 : UInt64) <<< k) &&& (1 : UInt64) <<< k ≠ 0 := by
  intro hzero
  have hbits := congrArg UInt64.toBitVec hzero
  rw [UInt64.toBitVec_and, UInt64.toBitVec_or, toBitVec_shiftLeft_of_lt hk] at hbits
  have hbit := congrArg (fun v => BitVec.getLsbD v k.toNat) hbits
  simp [hk] at hbit

/-- What was just accepted is refused the next time. -/
theorem checkAndAccept_again {w : ReplayWindow} {ctr : UInt64}
    (h : (w.checkAndAccept ctr).2 = true) :
    ((w.checkAndAccept ctr).1.checkAndAccept ctr).2 = false := by
  revert h
  fun_cases checkAndAccept w ctr with
  | case1 => simp
  | case2 h0 hlt shift bitmap =>
    intro _
    have hbit := or_and_bit_ne_zero (x := bitmap) (k := 0) (by decide)
    rw [show (1 : UInt64) <<< (0 : UInt64) = 1 by decide] at hbit
    simp [checkAndAccept, h0, UInt64.lt_irrefl ctr, size, hbit]
  | case3 => simp
  | case4 => simp
  | case5 h0 hlt offset hsize bit hclear =>
    intro _
    have hoff : offset.toNat < 64 := by
      rw [UInt64.le_iff_toNat_le, not_le] at hsize
      exact hsize
    have hset := or_and_bit_ne_zero (x := w.bitmap) hoff
    simp only [checkAndAccept, if_neg h0, if_neg hlt]
    rw [if_neg hsize, if_pos hset]

/-- The window remembers the set `A` of accepted counters. -/
def Remembers (w : ReplayWindow) (A : Finset ℕ) : Prop :=
  Covers w.highest.toNat w.bitmap.toBitVec A

theorem remembers_new : new.Remembers ∅ := covers_empty

private theorem remembers_advance {w : ReplayWindow} {A : Finset ℕ} {ctr : UInt64}
    (h : w.Remembers A) (hlt : w.highest < ctr) :
    Remembers ⟨ctr, (if size ≤ ctr - w.highest then 0 else w.bitmap <<< (ctr - w.highest)) ||| 1⟩
      (insert ctr.toNat A) := by
  have hlt' : w.highest.toNat < ctr.toNat := UInt64.lt_iff_toNat_lt.mp hlt
  have hsub : (ctr - w.highest).toNat = ctr.toNat - w.highest.toNat :=
    UInt64.toNat_sub_of_le _ _ (UInt64.le_of_lt hlt)
  have hmap : (if size ≤ ctr - w.highest then 0 else w.bitmap <<< (ctr - w.highest)).toBitVec
      = w.bitmap.toBitVec <<< (ctr.toNat - w.highest.toNat) := by
    have hsize : size.toNat = 64 := rfl
    split
    · rename_i hge
      rw [UInt64.le_iff_toNat_le, hsize, hsub] at hge
      exact (BitVec.shiftLeft_eq_zero hge).symm
    · rename_i hge
      rw [UInt64.le_iff_toNat_le, hsize, hsub, not_le] at hge
      rw [toBitVec_shiftLeft_of_lt (by rw [hsub]; exact hge), hsub]
  have hadv := Covers.advance h hlt'
  rwa [← hmap] at hadv

/-- **The word arithmetic answers as the set does**: a counter is accepted exactly when it is
fresh, and then it is the one thing added to the set. -/
theorem checkAndAccept_spec {w : ReplayWindow} {A : Finset ℕ} (h : w.Remembers A)
    (ctr : UInt64) :
    ((w.checkAndAccept ctr).2 = true ↔ Fresh 64 A ctr.toNat) ∧
      (w.checkAndAccept ctr).1.Remembers
        (if (w.checkAndAccept ctr).2 = true then insert ctr.toNat A else A) ∧
      ((w.checkAndAccept ctr).2 = false → (w.checkAndAccept ctr).1 = w) := by
  have hsup : A.sup id = w.highest.toNat := h.sup_eq
  have hzero : ctr = 0 ↔ ctr.toNat = 0 := by rw [← UInt64.toNat_inj]; simp
  unfold checkAndAccept
  by_cases hctr : ctr = 0
  · have hnot : ¬ Fresh 64 A ctr.toNat := fun hf => by have := hf.1; rw [hctr] at this; simp at this
    rw [if_pos hctr]
    exact ⟨by simpa using hnot, by simpa using h, fun _ => rfl⟩
  have hpos : 0 < ctr.toNat := Nat.pos_of_ne_zero (fun hc => hctr (hzero.mpr hc))
  rw [if_neg hctr]
  by_cases hlt : w.highest < ctr
  · have hlt' : w.highest.toNat < ctr.toNat := UInt64.lt_iff_toNat_lt.mp hlt
    have hfresh : Fresh 64 A ctr.toNat :=
      ⟨hpos, fun hmem => by have := Covers.le h hmem; omega, by omega⟩
    rw [if_pos hlt]
    exact ⟨by simpa using hfresh, by simpa using remembers_advance h hlt, fun hf => by simp at hf⟩
  rw [if_neg hlt]
  have hle : ctr ≤ w.highest := UInt64.not_lt.mp hlt
  have hle' : ctr.toNat ≤ w.highest.toNat := UInt64.le_iff_toNat_le.mp hle
  have hsub : (w.highest - ctr).toNat = w.highest.toNat - ctr.toNat :=
    UInt64.toNat_sub_of_le _ _ hle
  have hsize : (size ≤ w.highest - ctr) ↔ 64 ≤ w.highest.toNat - ctr.toNat := by
    rw [UInt64.le_iff_toNat_le, hsub]; rfl
  by_cases hold : size ≤ w.highest - ctr
  · have hold' := hsize.mp hold
    have hnot : ¬ Fresh 64 A ctr.toNat := fun hf => by have := hf.2.2; omega
    simp only [if_pos hold]
    exact ⟨by simpa using hnot, by simpa using h, by simp⟩
  have hin : w.highest.toNat < ctr.toNat + 64 := by rw [hsize] at hold; omega
  have hbit : ((1 : UInt64) <<< (w.highest - ctr)).toBitVec
      = 1#64 <<< (w.highest.toNat - ctr.toNat) := by
    rw [toBitVec_shiftLeft_of_lt (by rw [hsub]; omega), hsub]; rfl
  have hseen : w.bitmap &&& (1 : UInt64) <<< (w.highest - ctr) ≠ 0 ↔ ctr.toNat ∈ A := by
    rw [← Covers.bit_iff h hle' hin, ← hbit, ← UInt64.toBitVec_and, ne_eq, ← UInt64.toBitVec_inj]
    rfl
  simp only [if_neg hold]
  by_cases hmem : ctr.toNat ∈ A
  · have hnot : ¬ Fresh 64 A ctr.toNat := fun hf => hf.2.1 hmem
    rw [if_pos (hseen.mpr hmem)]
    exact ⟨by simpa using hnot, by simpa using h, fun _ => rfl⟩
  · have hfresh : Fresh 64 A ctr.toNat := ⟨hpos, hmem, by omega⟩
    rw [if_neg (mt hseen.mp hmem)]
    refine ⟨by simpa using hfresh, ?_, fun hf => by simp at hf⟩
    have hmark := Covers.mark h hpos hle'
    rw [← hbit, ← UInt64.toBitVec_or] at hmark
    rw [if_pos rfl]
    exact hmark

end ReplayWindow

/-! ### The table -/

/-- `MAX_REPLAY_SENDERS`. -/
def maxReplaySenders : ℕ := 16

/-- `REPLAY_SLOT_BYTES`. -/
def replaySlotBytes : ℕ := 18

/-- `ReplayAdmit`. -/
inductive ReplayAdmit
  | fresh
  | replay
  | tableFull
  deriving DecidableEq, Repr

/-- `ReplayTable`. -/
structure ReplayTable where
  slots : Slots (UInt16 × ReplayWindow) maxReplaySenders
  deriving DecidableEq

/-- `encode_replay_slot`. -/
def encodeReplaySlot (nodeId : UInt16) (w : ReplayWindow) : Bytes :=
  toLE 2 nodeId.toNat ++ toLE 8 w.highest.toNat ++ toLE 8 w.bitmap.toNat

/-- `decode_replay_slot`. -/
def decodeReplaySlot (bytes : Bytes) : Option (UInt16 × ReplayWindow) :=
  if bytes.length < replaySlotBytes then none
  else
    some (UInt16.ofNat (ofLE (bytes.take 2)),
      ⟨UInt64.ofNat (ofLE ((bytes.drop 2).take 8)), UInt64.ofNat (ofLE ((bytes.drop 10).take 8))⟩)

theorem decodeReplaySlot_encodeReplaySlot (nodeId : UInt16) (w : ReplayWindow) :
    decodeReplaySlot (encodeReplaySlot nodeId w) = some (nodeId, w) := by
  have h2 : (toLE 2 nodeId.toNat).length = 2 := length_toLE _ _
  have h8 : (toLE 8 w.highest.toNat).length = 8 := length_toLE _ _
  have h8' : (toLE 8 w.bitmap.toNat).length = 8 := length_toLE _ _
  have hlen : (encodeReplaySlot nodeId w).length = 18 := by simp [encodeReplaySlot]
  have hid : (encodeReplaySlot nodeId w).take 2 = toLE 2 nodeId.toNat := by
    rw [encodeReplaySlot, List.append_assoc, List.take_left' h2]
  have hhigh : ((encodeReplaySlot nodeId w).drop 2).take 8 = toLE 8 w.highest.toNat := by
    rw [encodeReplaySlot, List.append_assoc, List.drop_left' h2, List.take_left' h8]
  have hmap : ((encodeReplaySlot nodeId w).drop 10).take 8 = toLE 8 w.bitmap.toNat := by
    rw [encodeReplaySlot, List.drop_left' (by simp), List.take_of_length_le h8'.le]
  rw [decodeReplaySlot, if_neg (by rw [hlen]; decide), hid, hhigh, hmap, ofLE_toLE_uint16,
    ofLE_toLE_uint64, ofLE_toLE_uint64, UInt16.ofNat_toNat, UInt64.ofNat_toNat, UInt64.ofNat_toNat]

namespace ReplayTable

/-- `ReplayTable::new`. -/
def new : ReplayTable := ⟨Slots.empty _ _⟩

/-- `ReplayTable::accept`. The free slot is looked for before the counter is judged, so a full
table refuses an unknown sender whatever its counter. -/
def accept (t : ReplayTable) (nodeId : UInt16) (ctr : UInt64) : ReplayTable × ReplayAdmit :=
  match t.slots.lookup Prod.fst nodeId with
  | some (_, w) =>
    let r := w.checkAndAccept ctr
    (⟨t.slots.updateKey Prod.fst nodeId fun e => some (e.1, r.1)⟩,
      if r.2 then .fresh else .replay)
  | none =>
    let r := ReplayWindow.new.checkAndAccept ctr
    match t.slots.fill (nodeId, r.1) with
    | none => (t, .tableFull)
    | some slots => if r.2 then (⟨slots⟩, .fresh) else (t, .replay)

/-- `ReplayTable::encode_slot`. -/
def encodeSlot (t : ReplayTable) (i : ℕ) : Option Bytes :=
  t.slots.cells[i]?.join.map fun e => encodeReplaySlot e.1 e.2

/-- `ReplayTable::load_slot`. -/
def loadSlot (t : ReplayTable) (bytes : Bytes) : ReplayTable × Bool :=
  match decodeReplaySlot bytes with
  | none => (t, false)
  | some e =>
    match t.slots.insertNew Prod.fst e with
    | some slots => (⟨slots⟩, true)
    | none => (t, false)

/-- The records a save of every slot writes: one for each occupied slot, in slot order. -/
def saveAll (t : ReplayTable) : List Bytes := (List.range maxReplaySenders).filterMap t.encodeSlot

/-- The table a load of these records into an empty one gives. -/
def reload (records : List Bytes) : ReplayTable :=
  records.foldl (fun t bytes => (t.loadSlot bytes).1) new

/-! ### Any table at all -/

section AnyTable

variable {t : ReplayTable} {s : UInt16} {ctr : UInt64}

/-- Only a fresh counter changes the table. -/
theorem accept_of_ne_fresh (h : (t.accept s ctr).2 ≠ .fresh) : (t.accept s ctr).1 = t := by
  revert h
  fun_cases accept t s ctr with
  | case1 id w hs r =>
    intro h
    refine congrArg ReplayTable.mk (Slots.updateKey_eq_self fun e he => ?_)
    obtain rfl : (id, w) = e := Option.some.inj (hs.symm.trans he)
    have hrefused : r.2 = false := by
      by_contra hr
      simp [hr] at h
    rw [ReplayWindow.checkAndAccept_of_refused hrefused]
  | case2 => simp
  | case3 => simp
  | case4 => simp

/-- A counter just accepted is a replay, and stays one. -/
theorem accept_again (h : (t.accept s ctr).2 = .fresh) :
    (t.accept s ctr).1.accept s ctr = ((t.accept s ctr).1, .replay) := by
  have hans : ((t.accept s ctr).1.accept s ctr).2 = .replay := by
    revert h
    fun_cases accept t s ctr with
    | case1 id w hs r =>
      intro h
      have hkey : id = s := by simpa using List.find?_some hs
      have hfresh : r.2 = true := by
        by_contra hr
        simp [hr] at h
      have hfind := Slots.lookup_updateKey (f := fun e => some (e.1, r.1)) hs rfl hkey
      rw [accept, hfind]
      simp [ReplayWindow.checkAndAccept_again hfresh, r]
    | case2 => simp
    | case3 hs r slots hfill hfresh =>
      intro _
      have hfind : slots.lookup Prod.fst s = some (s, r.1) := Slots.lookup_fill hs hfill
      rw [accept, hfind]
      simp [ReplayWindow.checkAndAccept_again hfresh, r]
    | case4 => simp
  exact Prod.ext (accept_of_ne_fresh (by rw [hans]; simp)) hans

end AnyTable

/-! ### What the table holds -/

/-- The table remembers, for each sender, exactly the set `A` says was accepted from it. Slots are
only ever appended, so the table has no holes. -/
structure Holds (t : ReplayTable) (A : UInt16 → Finset ℕ) : Prop where
  /-- A sender has at most one slot. -/
  keys : t.slots.KeysNodup Prod.fst
  /-- Slots are filled front to back. -/
  compact : t.slots.Compact
  /-- Each slot's window remembers that sender's set, which is not empty. -/
  known : ∀ e ∈ t.slots.entries, e.2.Remembers (A e.1) ∧ (A e.1).Nonempty
  /-- Nothing was accepted from a sender without a slot. -/
  unknown : ∀ s, t.slots.lookup Prod.fst s = none → A s = ∅

theorem holds_new : new.Holds fun _ => ∅ where
  keys := Slots.keysNodup_empty
  compact := Slots.compact_empty
  known := by simp [new]
  unknown := by simp

variable {t : ReplayTable} {A : UInt16 → Finset ℕ}

theorem Holds.nonempty_iff (h : t.Holds A) {s : UInt16} :
    (A s).Nonempty ↔ s ∈ t.slots.entries.map Prod.fst := by
  constructor
  · intro hne
    by_contra hno
    have hnone : t.slots.lookup Prod.fst s = none := by
      rw [Slots.lookup_eq_none_iff]
      exact fun e he hs => hno (hs ▸ List.mem_map_of_mem he)
    simp [h.unknown s hnone] at hne
  · intro hs
    obtain ⟨e, he, rfl⟩ := List.mem_map.mp hs
    exact (h.known e he).2

theorem Holds.zero_notMem (h : t.Holds A) (s : UInt16) : 0 ∉ A s := by
  intro h0
  obtain ⟨e, he, rfl⟩ := List.mem_map.mp (h.nonempty_iff.mp ⟨0, h0⟩)
  exact (h.known e he).1.zero_notMem h0

/-- A known sender: its own window decides, and only its own window moves. -/
private theorem accept_known (h : t.Holds A) {s : UInt16} {w : ReplayWindow}
    (hs : t.slots.lookup Prod.fst s = some (s, w)) (ctr : UInt64) :
    (t.accept s ctr).2 = (if (w.checkAndAccept ctr).2 then .fresh else .replay) ∧
      (t.accept s ctr).1.Holds (if (w.checkAndAccept ctr).2 then
        Function.update A s (insert ctr.toNat (A s)) else A) ∧
      ((w.checkAndAccept ctr).2 = false → (t.accept s ctr).1 = t) := by
  have hmem : (s, w) ∈ t.slots.entries := ((Slots.lookup_eq_some_iff h.keys).mp hs).1
  obtain ⟨-, hrem, hsame⟩ := ReplayWindow.checkAndAccept_spec (h.known _ hmem).1 ctr
  have haccept : t.accept s ctr =
      (⟨t.slots.updateKey Prod.fst s fun e => some (e.1, (w.checkAndAccept ctr).1)⟩,
        if (w.checkAndAccept ctr).2 then .fresh else .replay) := by
    rw [accept, hs]
  have hold : (w.checkAndAccept ctr).2 = false → (t.accept s ctr).1 = t := by
    intro hf
    rw [haccept]
    refine congrArg ReplayTable.mk (Slots.updateKey_eq_self fun e he => ?_)
    obtain rfl : (s, w) = e := Option.some.inj (hs.symm.trans he)
    rw [hsame hf]
  refine ⟨by rw [haccept], ?_, hold⟩
  cases hfresh : (w.checkAndAccept ctr).2 with
  | false =>
    rw [hold hfresh]
    simpa using h
  | true =>
    rw [haccept]
    simp only [hfresh, if_true] at hrem ⊢
    have hentry : ∀ e, e ∈ (t.slots.updateKey Prod.fst s
        fun e => some (e.1, (w.checkAndAccept ctr).1)).entries ↔
          (e ∈ t.slots.entries ∧ e.1 ≠ s) ∨ e = (s, (w.checkAndAccept ctr).1) := by
      intro e
      rw [Slots.mem_entries_updateKey h.keys]
      refine or_congr_right ⟨?_, ?_⟩
      · rintro ⟨d, -, hd, heq⟩
        rw [← Option.some.inj heq, hd]
      · rintro rfl
        exact ⟨(s, w), hmem, rfl, rfl⟩
    refine ⟨h.keys.updateKey fun a b hb => ?_, h.compact.updateKey _ fun e => (e.1, _), ?_, ?_⟩
    · rw [← Option.some.inj hb]
    · intro e he
      rcases (hentry e).mp he with ⟨he, hne⟩ | rfl
      · simpa [Function.update_of_ne hne] using h.known e he
      · simpa using hrem
    · intro r hr
      have hno := Slots.lookup_eq_none_iff.mp hr
      have hrs : r ≠ s := fun hrs => hno _ ((hentry (s, _)).mpr (Or.inr rfl)) hrs.symm
      rw [Function.update_of_ne hrs]
      refine h.unknown r (Slots.lookup_eq_none_iff.mpr fun e he her => ?_)
      exact hno e ((hentry e).mpr (Or.inl ⟨he, her ▸ hrs⟩)) her

/-- An unknown sender: it needs a free slot, and gets one only with a counter that is not `0`. -/
private theorem accept_unknown (h : t.Holds A) {s : UInt16}
    (hs : t.slots.lookup Prod.fst s = none) (ctr : UInt64) :
    (t.slots.entries.length = maxReplaySenders ∧ t.accept s ctr = (t, .tableFull)) ∨
      (t.slots.entries.length < maxReplaySenders ∧ ¬ Fresh 64 ∅ ctr.toNat ∧
        t.accept s ctr = (t, .replay)) ∨
      (t.slots.entries.length < maxReplaySenders ∧ Fresh 64 ∅ ctr.toNat ∧
        (t.accept s ctr).2 = .fresh ∧
        (t.accept s ctr).1.Holds (Function.update A s (insert ctr.toNat (A s)))) := by
  obtain ⟨hiff, hrem, -⟩ := ReplayWindow.checkAndAccept_spec ReplayWindow.remembers_new ctr
  have hle := t.slots.length_entries_le
  cases hfill : t.slots.fill (s, (ReplayWindow.new.checkAndAccept ctr).1) with
  | none => exact Or.inl ⟨Slots.fill_eq_none_iff.mp hfill, by simp only [accept, hs, hfill]⟩
  | some slots =>
    have hlt : t.slots.entries.length < maxReplaySenders := by
      refine lt_of_le_of_ne hle fun heq => ?_
      rw [Slots.fill_eq_none_iff.mpr heq] at hfill
      cases hfill
    refine Or.inr ?_
    cases hfresh : (ReplayWindow.new.checkAndAccept ctr).2 with
    | false =>
      rw [hfresh] at hiff
      exact Or.inl ⟨hlt, fun hf => by simpa using hiff.mpr hf,
        by simp [accept, hs, hfill, hfresh]⟩
    | true =>
      have haccept : t.accept s ctr = (⟨slots⟩, .fresh) := by simp [accept, hs, hfill, hfresh]
      rw [hfresh] at hiff
      refine Or.inr ⟨hlt, hiff.mp rfl, by rw [haccept], ?_⟩
      rw [haccept]
      simp only [hfresh, if_true] at hrem
      have hentry := fun e => Slots.mem_entries_fill (b := e) hfill
      refine ⟨h.keys.fill hs hfill, (Slots.entries_fill_of_compact h.compact hfill).1, ?_, ?_⟩
      · intro e he
        rcases (hentry e).mp he with rfl | he
        · simpa [h.unknown s hs] using hrem
        · have hne : e.1 ≠ s := Slots.lookup_eq_none_iff.mp hs e he
          simpa [Function.update_of_ne hne] using h.known e he
      · intro r hr
        have hno := Slots.lookup_eq_none_iff.mp hr
        have hrs : r ≠ s := fun hrs => hno _ ((hentry (s, _)).mpr (Or.inl rfl)) hrs.symm
        rw [Function.update_of_ne hrs]
        exact h.unknown r (Slots.lookup_eq_none_iff.mpr fun e he =>
          hno e ((hentry e).mpr (Or.inr he)))

/-- **One call, against the sets.** A remembered sender, or any sender while there is room, is
judged by its own set alone; an unknown one that finds the table full is refused. Only a fresh
counter changes anything, and it changes its own sender's set. -/
theorem accept_spec (h : t.Holds A) (s : UInt16) (ctr : UInt64) :
    ((t.accept s ctr).2 = .tableFull ↔
        A s = ∅ ∧ t.slots.entries.length = maxReplaySenders) ∧
      ((t.accept s ctr).2 = .fresh → Fresh 64 (A s) ctr.toNat) ∧
      ((t.accept s ctr).2 = .replay → ¬ Fresh 64 (A s) ctr.toNat) ∧
      ((t.accept s ctr).2 ≠ .fresh → (t.accept s ctr).1 = t) ∧
      (t.accept s ctr).1.Holds (if (t.accept s ctr).2 = .fresh then
        Function.update A s (insert ctr.toNat (A s)) else A) := by
  cases hs : t.slots.lookup Prod.fst s with
  | some e =>
    obtain ⟨r, w⟩ := e
    obtain ⟨hmem, hr⟩ := (Slots.lookup_eq_some_iff h.keys).mp hs
    obtain rfl : r = s := hr
    obtain ⟨hans, hholds, hsame⟩ := accept_known h hs ctr
    obtain ⟨hrem, hne⟩ := h.known _ hmem
    have hiff := (ReplayWindow.checkAndAccept_spec hrem ctr).1
    cases hfresh : (w.checkAndAccept ctr).2 with
    | true =>
      simp only [hfresh, if_true] at hans hholds hiff
      simp only [hans, if_true]
      exact ⟨by simpa using fun he => absurd he hne.ne_empty, fun _ => hiff.mp trivial,
        fun hc => by simp at hc, fun hc => absurd rfl hc, hholds⟩
    | false =>
      simp only [hfresh] at hans hholds hiff hsame
      have hans' : (t.accept r ctr).2 = .replay := by simpa using hans
      simp only [hans']
      refine ⟨by simpa using fun he => absurd he hne.ne_empty, fun hc => by simp at hc,
        fun _ hf => ?_, fun _ => hsame trivial, by simpa using hholds⟩
      simpa using hiff.mpr hf
  | none =>
    have hempty := h.unknown s hs
    rcases accept_unknown h hs ctr with ⟨hfull, heq⟩ | ⟨hlt, hnot, heq⟩ | ⟨hlt, hf, hans, hholds⟩
    · rw [heq]
      exact ⟨by simp [hempty, hfull], by simp, by simp, by simp, by simpa using h⟩
    · rw [heq]
      exact ⟨by simpa using fun _ => hlt.ne, by simp, fun _ => hempty ▸ hnot, by simp,
        by simpa using h⟩
    · simp only [hans, if_true]
      exact ⟨by simpa using fun _ => hlt.ne, fun _ => hempty ▸ hf, by simp, by simp, hholds⟩

/-! ### Persistence -/

theorem saveAll_eq (t : ReplayTable) :
    t.saveAll = t.slots.entries.map fun e => encodeReplaySlot e.1 e.2 := by
  rw [← t.slots.filterMap_range_cells, List.map_filterMap]
  rfl

private theorem foldl_loadSlot (slots : Slots (UInt16 × ReplayWindow) maxReplaySenders)
    (l : List (UInt16 × ReplayWindow)) :
    (l.map fun e => encodeReplaySlot e.1 e.2).foldl (fun t bytes => (t.loadSlot bytes).1) ⟨slots⟩
      = (⟨slots.insertAll Prod.fst l⟩ : ReplayTable) := by
  induction l generalizing slots with
  | nil => rfl
  | cons e l ih =>
    obtain ⟨s, w⟩ := e
    have hload : (loadSlot ⟨slots⟩ (encodeReplaySlot s w)).1
        = ⟨(slots.insertNew Prod.fst (s, w)).getD slots⟩ := by
      cases hins : slots.insertNew Prod.fst (s, w) <;>
        simp [loadSlot, decodeReplaySlot_encodeReplaySlot, hins]
    rw [List.map_cons, List.foldl_cons, hload, ih]
    rfl

/-- The entries of a table, put one after another into an empty one, make the same table, and each
finds its place. -/
private theorem foldlM_entries (h : t.Holds A) :
    t.slots.entries.foldlM (Slots.insertNew Prod.fst) (Slots.empty _ _) = some t.slots ∧
      (Slots.empty _ _).insertAll Prod.fst t.slots.entries = t.slots := by
  have hkeys : (((Slots.empty _ _ : Slots _ maxReplaySenders).entries ++
      t.slots.entries).map Prod.fst).Nodup := by
    rw [Slots.entries_empty, List.nil_append]
    exact h.keys
  obtain ⟨slots, hfold, hall, hcompact, hentries⟩ :=
    Slots.foldlM_insertNew Slots.compact_empty hkeys (by simpa using t.slots.length_entries_le)
  obtain rfl : slots = t.slots := hcompact.ext h.compact (by rw [hentries]; simp)
  exact ⟨hfold, hall⟩

/-- **Persistence.** Saving every slot and loading the records into an empty table gives the same
table, cell for cell. -/
theorem reload_saveAll (h : t.Holds A) : reload t.saveAll = t := by
  rw [reload, saveAll_eq, new, foldl_loadSlot, (foldlM_entries h).2]

/-- `load_slot` as the loading loop uses it: a record it refuses ends the loop. -/
def loadSlot? (t : ReplayTable) (bytes : Bytes) : Option ReplayTable :=
  if bytes.length = replaySlotBytes ∧ (t.loadSlot bytes).2 then some (t.loadSlot bytes).1 else none

private theorem loadSlot?_encodeReplaySlot (slots : Slots (UInt16 × ReplayWindow) maxReplaySenders)
    (e : UInt16 × ReplayWindow) :
    loadSlot? ⟨slots⟩ (encodeReplaySlot e.1 e.2) = (slots.insertNew Prod.fst e).map mk := by
  have hlen : (encodeReplaySlot e.1 e.2).length = replaySlotBytes := by
    simp [encodeReplaySlot, replaySlotBytes]
  rw [loadSlot?, loadSlot, decodeReplaySlot_encodeReplaySlot]
  cases hins : slots.insertNew Prod.fst e <;> simp [hins, hlen]

/-- The saved records are all accepted by an empty table. -/
theorem foldlM_loadSlot?_saveAll (h : t.Holds A) : t.saveAll.foldlM loadSlot? new = some t := by
  have hmap : ∀ (l : List (UInt16 × ReplayWindow)) (slots : Slots _ maxReplaySenders),
      (l.map fun e => encodeReplaySlot e.1 e.2).foldlM loadSlot? ⟨slots⟩
        = (l.foldlM (Slots.insertNew Prod.fst) slots).map mk := by
    intro l
    induction l with
    | nil => exact fun slots => rfl
    | cons e l ih =>
      intro slots
      rw [List.map_cons, List.foldlM_cons, List.foldlM_cons, loadSlot?_encodeReplaySlot]
      cases slots.insertNew Prod.fst e with
      | none => rfl
      | some slots' => exact ih slots'
  rw [saveAll_eq, new, hmap, (foldlM_entries h).1]
  rfl

/-! ### Runs -/

/-- One call of `accept`, as a step of a machine whose inputs are `(sender, ctr)` pairs. -/
def acceptStep (t : ReplayTable) (call : UInt16 × UInt64) : ReplayTable × ReplayAdmit :=
  t.accept call.1 call.2

/-- The counters a past of calls and answers accepted from `s`. -/
def acceptedFrom (past : List ((UInt16 × UInt64) × ReplayAdmit)) (s : UInt16) : Finset ℕ :=
  ((past.filter fun x => x.1.1 = s ∧ x.2 = .fresh).map fun x => x.1.2.toNat).toFinset

/-- The senders a past of calls and answers accepted anything from. -/
def rememberedIn (past : List ((UInt16 × UInt64) × ReplayAdmit)) : Finset UInt16 :=
  ((past.filter fun x => x.2 = .fresh).map fun x => x.1.1).toFinset

theorem acceptedFrom_concat (past : List ((UInt16 × UInt64) × ReplayAdmit)) (s : UInt16)
    (ctr : UInt64) (r : ReplayAdmit) :
    acceptedFrom (past ++ [((s, ctr), r)]) = if r = .fresh then
      Function.update (acceptedFrom past) s (insert ctr.toNat (acceptedFrom past s))
      else acceptedFrom past := by
  funext q
  by_cases hr : r = .fresh
  · by_cases hq : q = s
    · subst hq
      ext c
      simp [acceptedFrom, hr, List.filter_append]
    · simp [acceptedFrom, hr, List.filter_append, Ne.symm hq, Function.update_of_ne hq]
  · simp [acceptedFrom, hr, List.filter_append]

theorem mem_rememberedIn {past : List ((UInt16 × UInt64) × ReplayAdmit)} {s : UInt16} :
    s ∈ rememberedIn past ↔ (acceptedFrom past s).Nonempty := by
  simp only [rememberedIn, acceptedFrom, List.mem_toFinset, List.mem_map, List.mem_filter,
    Finset.Nonempty, decide_eq_true_eq]
  constructor
  · rintro ⟨x, ⟨hx, hf⟩, rfl⟩
    exact ⟨_, x, ⟨hx, rfl, hf⟩, rfl⟩
  · rintro ⟨_, x, ⟨hx, hs, hf⟩, -⟩
    exact ⟨x, ⟨hx, hf⟩, hs⟩

/-- The table holds exactly what its answers accepted, along every run. -/
theorem holds_final (calls : List (UInt16 × UInt64)) :
    (Run.final acceptStep new calls).Holds (acceptedFrom (Run.log acceptStep new calls)) := by
  refine Run.invariant (P := fun _ _ _ => True)
    (I := fun past t => Holds t (acceptedFrom past)) holds_new ?_ (Run.Always.true calls)
  rintro past t ⟨s, ctr⟩ h -
  rw [acceptedFrom_concat]
  exact (accept_spec h s ctr).2.2.2.2

theorem Holds.card_rememberedIn {past : List ((UInt16 × UInt64) × ReplayAdmit)}
    (h : t.Holds (acceptedFrom past)) : (rememberedIn past).card = t.slots.entries.length := by
  have hset : rememberedIn past = (t.slots.entries.map Prod.fst).toFinset := by
    ext s
    rw [mem_rememberedIn, h.nonempty_iff, List.mem_toFinset]
  rw [hset, List.toFinset_card_of_nodup h.keys, List.length_map]

/-- **The table refines one independent window per sender, and survives a reload.** At every call
of every run: `tableFull` is the answer exactly when the sender is not among the remembered ones
and there are sixteen of these, and it changes nothing; any other answer is `fresh` exactly when
the counter is at least `1`, was never accepted from that sender, and is above its highest
accepted counter less `64`. At any point, the saved records load back into a table that answers
every later sequence of calls alike. -/
theorem accept_refines_windows (calls : List (UInt16 × UInt64)) :
    Run.Always acceptStep new (fun past t call =>
        ((acceptStep t call).2 = .tableFull ↔
          call.1 ∉ rememberedIn past ∧ (rememberedIn past).card = maxReplaySenders) ∧
        ((acceptStep t call).2 = .tableFull → (acceptStep t call).1 = t) ∧
        ((acceptStep t call).2 ≠ .tableFull →
          ((acceptStep t call).2 = .fresh ↔
            1 ≤ call.2.toNat ∧ call.2.toNat ∉ acceptedFrom past call.1 ∧
              (acceptedFrom past call.1).sup id < call.2.toNat + 64))) calls ∧
      ∀ later : List (UInt16 × UInt64),
        (Run.log acceptStep (reload (Run.final acceptStep new calls).saveAll) later).map Prod.snd
          = (Run.log acceptStep (Run.final acceptStep new calls) later).map Prod.snd := by
  constructor
  · rintro before ⟨s, ctr⟩ - -
    have h := holds_final before
    obtain ⟨hfull, hfresh, hreplay, hsame, -⟩ := accept_spec h s ctr
    have hempty : s ∉ rememberedIn (Run.log acceptStep new before) ↔
        acceptedFrom (Run.log acceptStep new before) s = ∅ := by
      rw [mem_rememberedIn, Finset.not_nonempty_iff_eq_empty]
    refine ⟨?_, fun hf => hsame ?_, fun hne => ⟨hfresh, fun hf => ?_⟩⟩
    · rw [hempty, h.card_rememberedIn]
      exact hfull
    · change (acceptStep _ (s, ctr)).2 ≠ _
      rw [hf]
      simp
    · cases hans : (acceptStep (Run.final acceptStep new before) (s, ctr)).2 with
      | fresh => rfl
      | replay => exact absurd hf (hreplay hans)
      | tableFull => exact absurd hans hne
  · intro later
    rw [reload_saveAll (holds_final calls)]

end ReplayTable

end ApexOS.Mesh
