import ApexOS.Lib.Pieces
import ApexOS.Lib.Run
import ApexOS.Mesh.Types

/-!
# The chunker

`apexos-mesh-proto/src/chunk.rs`: a blob is announced by its blake3 root and its geometry, cut
into chunks, and put together again by a receiver that trusts neither the announcement nor the
chunks. The hash is a parameter, any function at all.

The subtractions and the product of `expected_len` are checked: a result the machine word cannot
hold, like an index out of range, is the answer `none` of `accept`. Nothing the receiver can be
sent brings it about.

A receiver is a machine whose inputs are calls of `accept`; what it was sent, in whatever order
and however hostile, is a run of it.

## Main definitions

* `chunkBlob`, `ChunkSet.announce`, `ChunkSet.data`: the sender
* `Reassembler.new`, `Reassembler.accept`, `Reassembler.missing`, `Reassembler.finish`: the receiver
* `Reassembler.WellFormed`: what `new` establishes and `accept` keeps

## Main results

* `Reassembler.accept_cases`: everything a call of `accept` can do
* `Reassembler.transfer`: what was sent arrives, and a hostile sender gains nothing
-/

namespace ApexOS.Mesh

variable (hash : Bytes → Bytes32)

/-! ### The sender -/

/-- `ChunkSet`. -/
structure ChunkSet where
  root : Bytes32
  totalLen : UInt32
  chunkLen : UInt16
  chunks : List Bytes
  deriving DecidableEq

/-- `chunk_blob`. -/
def chunkBlob (data : Bytes) (chunkLen : ℕ) : Except Error ChunkSet :=
  if chunkLen = 0 ∨ 65535 < chunkLen then .error .chunkSize
  else if 4294967295 < data.length then .error .tooLarge
  else
    let chunks := Pieces.cut chunkLen data
    if 65535 < chunks.length then .error .chunkIndex
    else .ok ⟨hash data, UInt32.ofNat data.length, UInt16.ofNat chunkLen, chunks⟩

namespace ChunkSet

/-- `ChunkSet::n_chunks`. -/
def nChunks (set : ChunkSet) : UInt16 := UInt16.ofNat set.chunks.length

/-- `ChunkSet::announce`. -/
def announce (set : ChunkSet) : Payload :=
  .chunkAnnounce set.root set.nChunks set.totalLen set.chunkLen

/-- `ChunkSet::data`. -/
def data (set : ChunkSet) (index : UInt16) : Option Payload :=
  set.chunks[index.toNat]?.map fun c => .chunkData set.root index c

end ChunkSet

variable {hash} in
/-- A blob that is accepted comes with its hash, its length and the grid it was cut to. -/
theorem chunkBlob_eq_ok {data : Bytes} {chunkLen : ℕ} {set : ChunkSet}
    (h : chunkBlob hash data chunkLen = .ok set) :
    0 < chunkLen ∧ set.root = hash data ∧ set.chunks = Pieces.cut chunkLen data ∧
      set.totalLen.toNat = data.length ∧ set.chunkLen.toNat = chunkLen ∧
      set.nChunks.toNat = set.chunks.length := by
  rw [chunkBlob] at h
  split at h
  · cases h
  · rename_i hlen
    split at h
    · cases h
    · rename_i hdata
      simp only at h
      split at h
      · cases h
      · rename_i hcount
        obtain rfl := Except.ok.inj h
        refine ⟨by omega, rfl, rfl, ?_, ?_, ?_⟩
        · exact UInt32.toNat_ofNat_of_lt' (show data.length < 4294967296 by omega)
        · exact UInt16.toNat_ofNat_of_lt' (show chunkLen < 65536 by omega)
        · exact UInt16.toNat_ofNat_of_lt'
            (show (Pieces.cut chunkLen data).length < 65536 by omega)

/-! ### The receiver -/

/-- A subtraction of unsigned words, `none` where it would underflow. -/
def checkedSub (a b : ℕ) : Option ℕ := if b ≤ a then some (a - b) else none

/-- A product of `u64`s, `none` where it would overflow. -/
def checkedMul (a b : ℕ) : Option ℕ := if a * b < 2 ^ 64 then some (a * b) else none

theorem checkedSub_of_le {a b : ℕ} (h : b ≤ a) : checkedSub a b = some (a - b) := if_pos h

/-- `Reassembler`. -/
structure Reassembler where
  root : Bytes32
  totalLen : UInt32
  chunkLen : UInt16
  slots : List (Option Bytes)
  deriving DecidableEq

namespace Reassembler

/-- `Reassembler::new`. -/
def new (root : Bytes32) (nChunks : UInt16) (totalLen : UInt32) (chunkLen : UInt16) :
    Except Error Reassembler :=
  if chunkLen = 0 then .error .chunkSize
  else if totalLen.toNat ⌈/⌉ chunkLen.toNat ≠ nChunks.toNat then .error .chunkSize
  else .ok ⟨root, totalLen, chunkLen, List.replicate nChunks.toNat none⟩

/-- `Reassembler::from_announce`. -/
def fromAnnounce : Payload → Option (Except Error Reassembler)
  | .chunkAnnounce root nChunks totalLen chunkLen => some (new root nChunks totalLen chunkLen)
  | _ => none

/-- `Reassembler::expected_len`. -/
def expectedLen (r : Reassembler) (index : UInt16) : Option ℕ := do
  let last ← checkedSub r.slots.length 1
  if index.toNat = last then
    let full ← checkedMul last r.chunkLen.toNat
    checkedSub r.totalLen.toNat full
  else
    return r.chunkLen.toNat

/-- `Reassembler::accept`; `none` is a panic. -/
def accept (r : Reassembler) (root : Bytes32) (index : UInt16) (data : Bytes) :
    Reassembler × Option (Except Error Bool) :=
  if root ≠ r.root then (r, some (.error .rootMismatch))
  else if r.slots.length ≤ index.toNat then (r, some (.error .chunkIndex))
  else
    match r.expectedLen index with
    | none => (r, none)
    | some len =>
      if data.length ≠ len then (r, some (.error .chunkSize))
      else
        match r.slots[index.toNat]? with
        | some (some held) =>
          if held = data then (r, some (.ok false)) else (r, some (.error .chunkConflict))
        | some none =>
          ({ r with slots := r.slots.set index.toNat (some data) }, some (.ok true))
        | none => (r, none)

/-- `Reassembler::missing`. -/
def missing (r : Reassembler) : List UInt16 :=
  (r.slots.zipIdx.filter fun s => s.1.isNone).map fun s => UInt16.ofNat s.2

/-- `Reassembler::is_complete`. -/
def isComplete (r : Reassembler) : Bool := r.slots.all Option.isSome

/-- `Reassembler::finish`. -/
def finish (r : Reassembler) : Except Error Bytes :=
  if r.isComplete = false then .error .incomplete
  else
    let blob := (r.slots.map fun slot => slot.getD []).flatten
    if hash blob ≠ r.root then .error .rootMismatch else .ok blob

/-- A call of `accept`: root, index, data. -/
abbrev Call := Bytes32 × UInt16 × Bytes

/-- The receiver as a machine. -/
def step (r : Reassembler) (call : Call) : Reassembler × Option (Except Error Bool) :=
  r.accept call.1 call.2.1 call.2.2

variable {r : Reassembler} {root : Bytes32} {index : UInt16} {data : Bytes}

/-- **Everything a call can do**: refuse, panic over a length, know the chunk already, or hold it
from now on. -/
theorem accept_cases (r : Reassembler) (root : Bytes32) (index : UInt16) (data : Bytes) :
    (∃ e, r.accept root index data = (r, some (.error e))) ∨
    (r.accept root index data = (r, none) ∧ index.toNat < r.slots.length ∧
      r.expectedLen index = none) ∨
    (r.accept root index data = (r, some (.ok false)) ∧ root = r.root ∧
      r.slots[index.toNat]? = some (some data)) ∨
    (r.accept root index data
        = ({ r with slots := r.slots.set index.toNat (some data) }, some (.ok true)) ∧
      root = r.root ∧ r.slots[index.toNat]? = some none ∧
      r.expectedLen index = some data.length) := by
  fun_cases accept r root index data with
  | case1 => exact Or.inl ⟨_, rfl⟩
  | case2 => exact Or.inl ⟨_, rfl⟩
  | case3 hroot hindex hlen => exact Or.inr (Or.inl ⟨rfl, not_le.mp hindex, hlen⟩)
  | case4 => exact Or.inl ⟨_, rfl⟩
  | case5 hroot hindex len hlen hdata hslot =>
    exact Or.inr (Or.inr (Or.inl ⟨rfl, not_not.mp hroot, hslot⟩))
  | case6 => exact Or.inl ⟨_, rfl⟩
  | case7 hroot hindex len hlen hdata hslot =>
    refine Or.inr (Or.inr (Or.inr ⟨rfl, not_not.mp hroot, hslot, ?_⟩))
    rw [hlen, not_not.mp hdata]
  | case8 hroot hindex len hlen hdata hslot =>
    exact absurd (List.getElem?_eq_none_iff.mp hslot) hindex

/-! ### What the receiver keeps -/

/-- What `new` establishes and `accept` keeps: the slots tile the blob, and what is held has the
length its place gives it. -/
structure WellFormed (r : Reassembler) : Prop where
  chunkLen_pos : 0 < r.chunkLen.toNat
  tiles : r.slots.length = r.totalLen.toNat ⌈/⌉ r.chunkLen.toNat
  few : r.slots.length < 2 ^ 16
  lengths : ∀ i data, r.slots[i]? = some (some data) →
    data.length = Pieces.pieceLen r.chunkLen.toNat r.totalLen.toNat i

theorem new_eq_ok {nChunks : UInt16} {totalLen : UInt32} {chunkLen : UInt16}
    (h : new root nChunks totalLen chunkLen = .ok r) :
    r = ⟨root, totalLen, chunkLen, List.replicate nChunks.toNat none⟩ ∧ WellFormed r := by
  rw [new] at h
  split at h
  · cases h
  · rename_i hlen
    split at h
    · cases h
    · rename_i htiles
      obtain rfl := Except.ok.inj h
      refine ⟨rfl, ?_, ?_, ?_, ?_⟩
      · exact Nat.pos_of_ne_zero fun hzero => hlen (UInt16.toNat_inj.mp hzero)
      · rw [List.length_replicate]
        exact (not_not.mp htiles).symm
      · rw [List.length_replicate]
        exact nChunks.toNat_lt
      · intro i data hdata
        rw [List.getElem?_replicate] at hdata
        split at hdata <;> simp at hdata

/-- **No underflow**: within the grid, the expected length is that of the piece. -/
theorem WellFormed.expectedLen_eq (h : WellFormed r) (hindex : index.toNat < r.slots.length) :
    r.expectedLen index
      = some (Pieces.pieceLen r.chunkLen.toNat r.totalLen.toNat index.toNat) := by
  have hpos := h.chunkLen_pos
  have htiles := h.tiles
  rw [expectedLen, checkedSub_of_le (by omega : 1 ≤ r.slots.length), Option.bind_eq_bind,
    Option.bind_some]
  by_cases hlast : index.toNat = r.slots.length - 1
  · have hlt : index.toNat * r.chunkLen.toNat < r.totalLen.toNat :=
      Pieces.mul_lt_of_lt_ceilDiv hpos (htiles ▸ hindex)
    have htotal : r.totalLen.toNat < 2 ^ 32 := r.totalLen.toNat_lt
    rw [if_pos hlast, ← hlast, checkedMul, if_pos (by omega), Option.bind_some,
      checkedSub_of_le hlt.le, Pieces.pieceLen_last hpos (by omega)]
  · rw [if_neg hlast, Pieces.pieceLen_of_not_last hpos (by omega)]
    rfl

/-- Nothing changes but the slots, and of these neither the number nor what is held. -/
theorem accept_frame (r : Reassembler) (root : Bytes32) (index : UInt16) (data : Bytes) :
    (r.accept root index data).1.root = r.root ∧
      (r.accept root index data).1.totalLen = r.totalLen ∧
      (r.accept root index data).1.chunkLen = r.chunkLen ∧
      (r.accept root index data).1.slots.length = r.slots.length := by
  obtain ⟨e, h⟩ | ⟨h, -⟩ | ⟨h, -⟩ | ⟨h, -⟩ := accept_cases r root index data
  all_goals rw [h]; simp

theorem WellFormed.accept (h : WellFormed r) (root : Bytes32) (index : UInt16) (data : Bytes) :
    WellFormed (r.accept root index data).1 := by
  obtain ⟨e, hacc⟩ | ⟨hacc, -⟩ | ⟨hacc, -⟩ | ⟨hacc, -, hslot, hlen⟩ :=
    accept_cases r root index data
  · rwa [hacc]
  · rwa [hacc]
  · rwa [hacc]
  · have hindex : index.toNat < r.slots.length := (List.getElem?_eq_some_iff.mp hslot).1
    rw [h.expectedLen_eq hindex, Option.some.injEq] at hlen
    rw [hacc]
    refine ⟨h.chunkLen_pos, ?_, ?_, fun i held hheld => ?_⟩
    · rw [List.length_set]
      exact h.tiles
    · rw [List.length_set]
      exact h.few
    · rw [List.getElem?_set] at hheld
      split at hheld
      · rename_i hi
        obtain rfl : data = held := by simpa [hindex] using hheld
        rw [← hi, hlen]
      · exact h.lengths i held hheld

/-- A call that fails changes nothing, and no call panics. -/
theorem WellFormed.step_answers (h : WellFormed r) (call : Call) :
    (∀ e, (r.step call).2 = some (.error e) → (r.step call).1 = r) ∧ (r.step call).2 ≠ none := by
  obtain ⟨e, hacc⟩ | ⟨-, hindex, hnone⟩ | ⟨hacc, -⟩ | ⟨hacc, -⟩ :=
    accept_cases r call.1 call.2.1 call.2.2
  · simp [step, hacc]
  · rw [h.expectedLen_eq hindex] at hnone
    cases hnone
  · simp [step, hacc]
  · simp [step, hacc]

/-! ### What was accepted is what is held -/

/-- Some call of `accept` for this index returned `Ok`. -/
def Accepted (past : List (Call × Option (Except Error Bool))) (index : UInt16) : Prop :=
  ∃ root data fresh, ((root, index, data), some (.ok fresh)) ∈ past

/-- The slot of this index is filled. -/
def Held (r : Reassembler) (index : UInt16) : Prop :=
  ∃ data, r.slots[index.toNat]? = some (some data)

/-- One call fills the slot it returns `Ok` for, and no other, and empties none. -/
theorem held_accept_iff (i : UInt16) :
    Held (r.accept root index data).1 i ↔
      Held r i ∨ i = index ∧ ∃ fresh, (r.accept root index data).2 = some (.ok fresh) := by
  obtain ⟨e, hacc⟩ | ⟨hacc, -⟩ | ⟨hacc, -, hslot⟩ | ⟨hacc, -, hslot, -⟩ :=
    accept_cases r root index data
  · simp [hacc]
  · simp [hacc]
  · rw [hacc]
    refine ⟨Or.inl, ?_⟩
    rintro (h | ⟨rfl, -⟩)
    · exact h
    · exact ⟨data, hslot⟩
  · have hindex : index.toNat < r.slots.length := (List.getElem?_eq_some_iff.mp hslot).1
    rw [hacc]
    by_cases hi : i = index
    · subst hi
      simp [Held, hindex]
    · have hne : index.toNat ≠ i.toNat := fun heq => hi (UInt16.toNat_inj.mp heq.symm)
      simp [Held, List.getElem?_set_ne hne, hi]

theorem accepted_concat {past : List (Call × Option (Except Error Bool))} {call : Call}
    {answer : Option (Except Error Bool)} {i : UInt16} :
    Accepted (past ++ [(call, answer)]) i ↔
      Accepted past i ∨ i = call.2.1 ∧ ∃ fresh, answer = some (.ok fresh) := by
  obtain ⟨root, index, data⟩ := call
  simp only [Accepted, List.mem_append, List.mem_singleton, Prod.mk.injEq]
  constructor
  · rintro ⟨root', data', fresh, h | ⟨⟨-, rfl, -⟩, rfl⟩⟩
    · exact Or.inl ⟨root', data', fresh, h⟩
    · exact Or.inr ⟨rfl, fresh, rfl⟩
  · rintro (⟨root', data', fresh, h⟩ | ⟨rfl, fresh, rfl⟩)
    · exact ⟨root', data', fresh, Or.inl h⟩
    · exact ⟨root, data, fresh, Or.inr ⟨⟨rfl, rfl, rfl⟩, rfl⟩⟩

/-- What holds between a receiver, as announced, and what it was sent since. -/
structure Invariant (start : Reassembler) (past : List (Call × Option (Except Error Bool)))
    (r : Reassembler) : Prop where
  wellFormed : WellFormed r
  root_eq : r.root = start.root
  totalLen_eq : r.totalLen = start.totalLen
  chunkLen_eq : r.chunkLen = start.chunkLen
  length_eq : r.slots.length = start.slots.length
  held_iff : ∀ index, Held r index ↔ Accepted past index

theorem Invariant.step {start : Reassembler} {past : List (Call × Option (Except Error Bool))}
    (h : Invariant start past r) (call : Call) :
    Invariant start (past ++ [(call, (r.step call).2)]) (r.step call).1 := by
  obtain ⟨hroot, htotal, hchunk, hlen⟩ := accept_frame r call.1 call.2.1 call.2.2
  refine ⟨h.wellFormed.accept _ _ _, hroot.trans h.root_eq, htotal.trans h.totalLen_eq,
    hchunk.trans h.chunkLen_eq, hlen.trans h.length_eq, fun i => ?_⟩
  rw [accepted_concat, ← h.held_iff]
  exact held_accept_iff i

theorem invariant_new {nChunks : UInt16} {totalLen : UInt32} {chunkLen : UInt16}
    (h : new root nChunks totalLen chunkLen = .ok r) : Invariant r [] r := by
  obtain ⟨hr, hwf⟩ := new_eq_ok h
  refine ⟨hwf, rfl, rfl, rfl, rfl, fun index => ?_⟩
  rw [hr]
  simp [Held, Accepted, List.getElem?_replicate]

theorem Invariant.final {start : Reassembler} (h : Invariant start [] start) (calls : List Call) :
    Invariant start (Run.log Reassembler.step start calls)
      (Run.final Reassembler.step start calls) :=
  Run.invariant h (fun _ _ call hinv _ => hinv.step call) (Run.Always.true calls)

/-- **The pull list**: the places of the grid that hold nothing. -/
theorem WellFormed.mem_missing_iff (h : WellFormed r) :
    index ∈ r.missing ↔ index.toNat < r.slots.length ∧ ¬ Held r index := by
  have hfew : r.slots.length < 65536 := h.few
  have hslot : index ∈ r.missing ↔ r.slots[index.toNat]? = some none := by
    simp only [missing, List.mem_map, List.mem_filter, List.mem_zipIdx_iff_getElem?, Prod.exists]
    constructor
    · rintro ⟨slot, i, ⟨hi, hnone⟩, rfl⟩
      have hlt : i < r.slots.length := (List.getElem?_eq_some_iff.mp hi).1
      rw [UInt16.toNat_ofNat_of_lt' (show i < 65536 by omega), hi,
        Option.isNone_iff_eq_none.mp hnone]
    · intro hnone
      exact ⟨none, index.toNat, ⟨hnone, rfl⟩, UInt16.ofNat_toNat⟩
  rw [hslot]
  constructor
  · intro hnone
    exact ⟨(List.getElem?_eq_some_iff.mp hnone).1, by simp [Held, hnone]⟩
  · rintro ⟨hlt, hheld⟩
    rw [List.getElem?_eq_getElem hlt, Option.some.injEq]
    rw [Held, List.getElem?_eq_getElem hlt] at hheld
    cases hslot : r.slots[index.toNat] with
    | none => rfl
    | some data => exact absurd ⟨data, by rw [hslot]⟩ hheld

/-! ### Putting the blob together -/

theorem isComplete_iff :
    r.isComplete = true ↔ ∃ chunks : List Bytes, r.slots = chunks.map some := by
  rw [isComplete, List.all_eq_true]
  constructor
  · intro h
    refine ⟨r.slots.map fun slot => slot.getD [], ?_⟩
    rw [List.map_map, ← List.map_id r.slots, List.map_map]
    refine List.map_congr_left fun slot hslot => ?_
    obtain ⟨data, rfl⟩ := Option.isSome_iff_exists.mp (h slot hslot)
    rfl
  · rintro ⟨chunks, hslots⟩ slot hslot
    rw [hslots, List.mem_map] at hslot
    obtain ⟨chunk, -, rfl⟩ := hslot
    rfl

/-- A receiver that holds every chunk puts them together, and checks the root. -/
theorem finish_of_complete {chunks : List Bytes} (h : r.slots = chunks.map some) :
    r.finish hash = if hash chunks.flatten ≠ r.root then .error .rootMismatch
      else .ok chunks.flatten := by
  have hblob : (r.slots.map fun slot => slot.getD []).flatten = chunks.flatten := by
    rw [h, List.map_map]
    simp [Function.comp_def]
  rw [finish, isComplete_iff.mpr ⟨chunks, h⟩, hblob]
  rfl

/-- Only a blob of the announced length and root is returned. -/
theorem WellFormed.finish_eq_ok (h : WellFormed r) {blob : Bytes}
    (hblob : r.finish hash = .ok blob) :
    blob.length = r.totalLen.toNat ∧ hash blob = r.root := by
  cases hcomplete : r.isComplete with
  | false => simp [finish, hcomplete] at hblob
  | true =>
    obtain ⟨chunks, hslots⟩ := isComplete_iff.mp hcomplete
    rw [finish_of_complete hash hslots] at hblob
    split at hblob
    · cases hblob
    · rename_i hhash
      obtain rfl := Except.ok.inj hblob
      refine ⟨?_, not_not.mp hhash⟩
      refine Pieces.length_flatten_of_pieceLen h.chunkLen_pos ?_ fun i chunk hchunk => ?_
      · rw [← h.tiles, hslots, List.length_map]
      · exact h.lengths i chunk (by rw [hslots, List.getElem?_map, hchunk, Option.map_some])

/-! ### End to end -/

/-- A chunk that fits, and does not contradict what is held, is accepted. -/
theorem WellFormed.accept_ok (h : WellFormed r) (hroot : root = r.root)
    (hindex : index.toNat < r.slots.length)
    (hlen : data.length = Pieces.pieceLen r.chunkLen.toNat r.totalLen.toNat index.toNat)
    (hheld : ∀ held, r.slots[index.toNat]? = some (some held) → held = data) :
    ∃ fresh, (r.accept root index data).2 = some (.ok fresh) := by
  rw [Reassembler.accept, if_neg (not_not.mpr hroot), if_neg (not_le.mpr hindex),
    h.expectedLen_eq hindex]
  simp only [hlen, ne_eq, not_true_eq_false, if_false]
  split
  · rename_i held hslot
    rw [if_pos (hheld held hslot)]
    exact ⟨false, rfl⟩
  · exact ⟨true, rfl⟩
  · rename_i hslot
    exact absurd (List.getElem?_eq_none_iff.mp hslot) (not_le.mpr hindex)

/-- The call delivers a chunk of the set as it was served. -/
def Serves (set : ChunkSet) (call : Call) : Prop :=
  set.data call.2.1 = some (.chunkData call.1 call.2.1 call.2.2)

theorem serves_iff {set : ChunkSet} {call : Call} :
    Serves set call ↔ set.chunks[call.2.1.toNat]? = some call.2.2 ∧ call.1 = set.root := by
  rw [Serves, ChunkSet.data]
  cases set.chunks[call.2.1.toNat]? with
  | none => simp
  | some chunk => simp [and_comm, eq_comm]

/-- What a receiver of served chunks holds are the chunks, and it refused none. -/
structure Receiving (set : ChunkSet) (start : Reassembler)
    (past : List (Call × Option (Except Error Bool))) (r : Reassembler) : Prop where
  inv : Invariant start past r
  holds : ∀ (i : ℕ) data, r.slots[i]? = some (some data) → set.chunks[i]? = some data
  accepts : ∀ entry ∈ past, ∃ fresh, entry.2 = some (.ok fresh)

/-- The receiver's geometry is that of the set. -/
structure Matches (set : ChunkSet) (start : Reassembler) : Prop where
  root_eq : start.root = set.root
  length_eq : start.slots.length = set.chunks.length
  lengths : ∀ (i : ℕ) data, set.chunks[i]? = some data →
    data.length = Pieces.pieceLen start.chunkLen.toNat start.totalLen.toNat i

theorem Receiving.step {set : ChunkSet} {start : Reassembler}
    {past : List (Call × Option (Except Error Bool))} (hm : Matches set start)
    (h : Receiving set start past r) {call : Call} (hcall : Serves set call) :
    Receiving set start (past ++ [(call, (r.step call).2)]) (r.step call).1 := by
  obtain ⟨root, index, data⟩ := call
  obtain ⟨hchunk, hroot⟩ := serves_iff.mp hcall
  obtain ⟨hwf, hr, htotal, hlen, hslots, -⟩ := h.inv
  have hindex : index.toNat < r.slots.length := by
    rw [hslots, hm.length_eq]
    exact (List.getElem?_eq_some_iff.mp hchunk).1
  have hok : ∃ fresh, (r.accept root index data).2 = some (.ok fresh) := by
    refine hwf.accept_ok (hroot.trans (hr.trans hm.root_eq).symm) hindex ?_ fun held hheld => ?_
    · rw [htotal, hlen]
      exact hm.lengths _ _ hchunk
    · exact Option.some.inj ((h.holds _ _ hheld).symm.trans hchunk)
  refine ⟨h.inv.step _, fun i held hheld => ?_, fun entry hentry => ?_⟩
  · obtain ⟨e, hacc⟩ | ⟨hacc, -⟩ | ⟨hacc, -⟩ | ⟨hacc, -⟩ := accept_cases r root index data
    · exact h.holds i held (by simpa only [Reassembler.step, hacc] using hheld)
    · exact h.holds i held (by simpa only [Reassembler.step, hacc] using hheld)
    · exact h.holds i held (by simpa only [Reassembler.step, hacc] using hheld)
    · simp only [Reassembler.step, hacc, List.getElem?_set] at hheld
      split at hheld
      · rename_i hi
        obtain rfl : data = held := by simpa [hindex] using hheld
        rw [← hi, hchunk]
      · exact h.holds i held hheld
  · rcases List.mem_append.mp hentry with hpast | hlast
    · exact h.accepts entry hpast
    · rw [List.mem_singleton.mp hlast]
      exact hok

/-- Once every chunk was delivered, every chunk is held. -/
theorem Receiving.complete {set : ChunkSet} {start : Reassembler}
    {past : List (Call × Option (Except Error Bool))} (hm : Matches set start)
    (h : Receiving set start past r)
    (hall : ∀ call, Serves set call → call ∈ past.map Prod.fst) :
    r.slots = set.chunks.map some := by
  refine List.ext_getElem? fun i => ?_
  have hlen : r.slots.length = set.chunks.length := h.inv.length_eq.trans hm.length_eq
  rw [List.getElem?_map]
  cases hchunk : set.chunks[i]? with
  | none =>
    rw [List.getElem?_eq_none_iff] at hchunk
    rw [List.getElem?_eq_none_iff.mpr (by omega)]
    rfl
  | some chunk =>
    have hi : i < set.chunks.length := (List.getElem?_eq_some_iff.mp hchunk).1
    have hfew : r.slots.length < 65536 := h.inv.wellFormed.few
    have hindex : (UInt16.ofNat i).toNat = i := UInt16.toNat_ofNat_of_lt' (show i < 65536 by omega)
    have hserves : Serves set (set.root, UInt16.ofNat i, chunk) :=
      serves_iff.mpr ⟨by rw [hindex, hchunk], rfl⟩
    obtain ⟨⟨call, answer⟩, hentry, rfl⟩ := List.mem_map.mp (hall _ hserves)
    obtain ⟨fresh, rfl⟩ := h.accepts _ hentry
    obtain ⟨held, hheld⟩ := (h.inv.held_iff (UInt16.ofNat i)).mpr ⟨_, _, _, hentry⟩
    rw [hindex] at hheld
    rw [hheld, Option.map_some, ← hchunk, h.holds i held hheld]

variable {hash} in
/-- The announcement of a blob is accepted, and gives the receiver the sender's geometry. -/
theorem fromAnnounce_announce {blob : Bytes} {chunkLen : ℕ} {set : ChunkSet}
    (h : chunkBlob hash blob chunkLen = .ok set) :
    ∃ r, fromAnnounce set.announce = some (.ok r) ∧ Invariant r [] r ∧ Matches set r := by
  obtain ⟨hpos, -, hchunks, htotal, hlen, hcount⟩ := chunkBlob_eq_ok h
  have htiles : set.totalLen.toNat ⌈/⌉ set.chunkLen.toNat = set.nChunks.toNat := by
    rw [htotal, hlen, hcount, hchunks, Pieces.length_cut hpos]
  have hne : set.chunkLen ≠ 0 := by
    rintro hzero
    rw [hzero] at hlen
    exact hpos.ne hlen
  have hnew : new set.root set.nChunks set.totalLen set.chunkLen
      = .ok ⟨set.root, set.totalLen, set.chunkLen, List.replicate set.nChunks.toNat none⟩ := by
    rw [new, if_neg hne, if_neg (not_not.mpr htiles)]
  refine ⟨_, congrArg some hnew, invariant_new hnew, rfl, ?_, fun i data hdata => ?_⟩
  · rw [List.length_replicate, hcount]
  · rw [hchunks] at hdata
    rw [htotal, hlen, Pieces.length_of_getElem?_cut hpos hdata]

variable {hash} in
/-- Its chunks, all of them, in any order and however often, make up the blob. -/
theorem finish_delivered {blob : Bytes} {chunkLen : ℕ} {set : ChunkSet}
    (h : chunkBlob hash blob chunkLen = .ok set) (hr : Invariant r [] r) (hm : Matches set r)
    {calls : List Call} (hcalls : ∀ call, call ∈ calls ↔ Serves set call) :
    (Run.final step r calls).finish hash = .ok blob := by
  obtain ⟨hpos, hroot, hchunks, -⟩ := chunkBlob_eq_ok h
  have hempty : ∀ (i : ℕ) data, r.slots[i]? = some (some data) → set.chunks[i]? = some data := by
    intro i data hdata
    have hi : i < r.slots.length := (List.getElem?_eq_some_iff.mp hdata).1
    have hindex : (UInt16.ofNat i).toNat = i :=
      UInt16.toNat_ofNat_of_lt' (hi.trans hr.wellFormed.few)
    obtain ⟨_, _, _, hmem⟩ := (hr.held_iff (UInt16.ofNat i)).mp ⟨data, by rw [hindex, hdata]⟩
    exact absurd hmem List.not_mem_nil
  have hrec : Receiving set r (Run.log step r calls) (Run.final step r calls) :=
    Run.invariant ⟨hr, hempty, by simp⟩ (fun _ _ _ hinv hcall => hinv.step hm hcall)
      (Run.Always.of_forall_mem fun call hcall => (hcalls call).mp hcall)
  have hslots := hrec.complete hm fun call hcall => by
    rw [Run.map_fst_log]
    exact (hcalls call).mpr hcall
  have hblob : set.chunks.flatten = blob := by rw [hchunks, Pieces.flatten_cut hpos]
  rw [finish_of_complete hash hslots, hblob, hrec.inv.root_eq, hm.root_eq, hroot, if_neg (by simp)]

/-- **Chunk transfer.** The announcement of an accepted blob is accepted, and its chunks, all of
them, in any order and however often, put together the blob. And under any announcement that is
accepted, whatever `accept` is called with: a call that fails changes nothing, no length
computation leaves its word, `missing` is what was not accepted yet, and `finish` returns only a
blob of the announced length and root. -/
theorem transfer :
    (∀ blob chunkLen set, chunkBlob hash blob chunkLen = .ok set →
      ∃ r, fromAnnounce set.announce = some (.ok r) ∧
        ∀ calls : List Call,
          (∀ root index data, (root, index, data) ∈ calls ↔
            set.data index = some (.chunkData root index data)) →
          (Run.final step r calls).finish hash = .ok blob) ∧
    ∀ root nChunks totalLen chunkLen r, new root nChunks totalLen chunkLen = .ok r →
      ∀ calls : List Call,
        Run.Always step r (fun _ r call =>
          (∀ e, (r.step call).2 = some (.error e) → (r.step call).1 = r) ∧
            (r.step call).2 ≠ none) calls ∧
        (∀ index, index ∈ (Run.final step r calls).missing ↔
          index.toNat < nChunks.toNat ∧ ¬ Accepted (Run.log step r calls) index) ∧
        ∀ blob, (Run.final step r calls).finish hash = .ok blob →
          blob.length = totalLen.toNat ∧ hash blob = root := by
  refine ⟨fun blob chunkLen set h => ?_, fun root nChunks totalLen chunkLen r h calls => ?_⟩
  · obtain ⟨r, hannounce, hr, hm⟩ := fromAnnounce_announce h
    refine ⟨r, hannounce, fun calls hcalls => finish_delivered h hr hm ?_⟩
    rintro ⟨root, index, data⟩
    exact hcalls root index data
  · obtain ⟨hr, -⟩ := new_eq_ok h
    have hinv := (invariant_new h).final calls
    refine ⟨?_, fun index => ?_, fun blob hblob => ?_⟩
    · refine Run.Always.of_invariant (invariant_new h) (fun _ _ call hinv _ => hinv.step call)
        (fun _ s call hinv _ => ?_) (Run.Always.true calls)
      exact hinv.wellFormed.step_answers call
    · rw [hinv.wellFormed.mem_missing_iff, hinv.held_iff, hinv.length_eq, hr, List.length_replicate]
    · obtain ⟨hlen, hhash⟩ := hinv.wellFormed.finish_eq_ok hash hblob
      rw [hlen, hhash, hinv.totalLen_eq, hinv.root_eq, hr]
      exact ⟨rfl, rfl⟩

end Reassembler

end ApexOS.Mesh
