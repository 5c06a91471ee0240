import ApexOS.Lib.ByteStuffing
import ApexOS.Lib.Run
import ApexOS.Lib.Varint
import ApexOS.Mesh.Crypto

/-!
# The stream codec

`apexos-mesh-proto/src/frame.rs`: a frame is serialised, given a checksum, COBS-encoded so that it
holds no zero byte, and ended by one. The `Deframer` reads such a stream in whatever pieces it
arrives, byte by byte, and survives everything else.

The serialiser and COBS are parameters, with what their documentation promises gathered in
`Wire.Lawful`; the checksum is any function at all. The deframer is a machine over bytes, so that
a read of any size is a run of it, and cutting the stream differently is cutting a run differently.

What carries the rest is one fact about the zero byte: whatever came before, it leaves the
deframer at a boundary, and from there only what comes next matters.

## Main definitions

* `encodeFrame`, `decodeFrame`, `encodeDatagram`, `decodeDatagram`: the source's codecs
* `Deframer`, `Deframer.pushByte`, `Deframer.push`: the source's deframer
* `Deframer.Segment`: an intact frame, or anything else up to the next delimiter

## Main results

* `decodeFrame_encodeFrame`, `decodeDatagram_encodeDatagram`: what was encoded decodes
* `Deframer.push_append`: a read cut in two gives what the whole read gives
* `Deframer.stream_end_to_end`: over any cutting, from any boundary, every segment yields what it
  yields alone
-/

namespace ApexOS.Mesh

open LittleEndian

/-! ### Encoding and decoding -/

/-- `cobs`: `encode_vec` and `decode_vec`. -/
structure Cobs where
  encodeVec : Bytes → Bytes
  decodeVec : Bytes → Option Bytes

/-- What the stream codec is built from. -/
structure Wire where
  postcard : Postcard MeshFrame
  cobs : Cobs
  /-- `crc32fast::hash`. -/
  crc : Bytes → UInt32

/-- What the codec relies on. -/
structure Wire.Lawful (w : Wire) : Prop where
  /-- `postcard` reads its own encoding back, and all of it. -/
  decode_encode : ∀ frame bytes, w.postcard.toAllocvec frame = some bytes →
    w.postcard.takeFromBytes bytes = some (frame, [])
  /-- A frame takes at least one byte: its version. -/
  encode_ne_nil : ∀ frame, w.postcard.toAllocvec frame ≠ some []
  /-- COBS reads its own encoding back. -/
  cobs_decode : ∀ body, w.cobs.decodeVec (w.cobs.encodeVec body) = some body
  /-- COBS output has no zero byte. -/
  cobs_no_zero : ∀ body, 0 ∉ w.cobs.encodeVec body
  /-- COBS output starts with a code byte. -/
  cobs_ne_nil : ∀ body, w.cobs.encodeVec body ≠ []

variable (w : Wire)

/-- `encode_frame`. -/
def encodeFrame (frame : MeshFrame) : Except Error Bytes :=
  match w.postcard.toAllocvec frame with
  | none => .error .postcard
  | some body =>
    let wire := w.cobs.encodeVec (body ++ toLE 4 (w.crc body).toNat) ++ [0]
    if maxWireFrame < wire.length then .error .tooLarge else .ok wire

/-- `decode_frame`. -/
def decodeFrame (wire : Bytes) : Except Error MeshFrame :=
  match w.cobs.decodeVec wire with
  | none => .error .cobs
  | some body =>
    if body.length < 5 then .error .truncated
    else
      let payload := body.take (body.length - 4)
      let trailer := body.drop (body.length - 4)
      if (w.crc payload).toNat ≠ ofLE trailer then .error .crcMismatch
      else
        match w.postcard.takeFromBytes payload with
        | none => .error .postcard
        | some (frame, rest) => if rest ≠ [] then .error .postcard else .ok frame

/-- `MAX_DATAGRAM_FRAME`. -/
def maxDatagramFrame : ℕ := 248

/-- `encode_datagram`. -/
def encodeDatagram (frame : MeshFrame) : Except Error Bytes :=
  match w.postcard.toAllocvec frame with
  | none => .error .postcard
  | some body => if maxDatagramFrame < body.length then .error .tooLarge else .ok body

/-- `decode_datagram`. -/
def decodeDatagram (bytes : Bytes) : Except Error MeshFrame :=
  if maxDatagramFrame < bytes.length then .error .tooLarge
  else
    match w.postcard.takeFromBytes bytes with
    | none => .error .postcard
    | some (frame, rest) => if rest ≠ [] then .error .postcard else .ok frame

variable {w}

/-- An encoded frame is a body without zeros, not empty and below the limit, and one zero. -/
theorem encodeFrame_eq_ok (hw : w.Lawful) {frame : MeshFrame} {wire : Bytes}
    (h : encodeFrame w frame = .ok wire) :
    ∃ body, wire = body ++ [0] ∧ 0 ∉ body ∧ body ≠ [] ∧ body.length < maxWireFrame ∧
      decodeFrame w body = .ok frame := by
  rw [encodeFrame] at h
  cases henc : w.postcard.toAllocvec frame with
  | none => simp [henc] at h
  | some payload =>
    simp only [henc] at h
    split at h
    · cases h
    · rename_i hlen
      obtain rfl := Except.ok.inj h
      have hne : payload ≠ [] := fun hnil => hw.encode_ne_nil frame (hnil ▸ henc)
      have hpos : 0 < payload.length := List.length_pos_iff.mpr hne
      refine ⟨_, rfl, hw.cobs_no_zero _, hw.cobs_ne_nil _, ?_, ?_⟩
      · simp only [List.length_append, List.length_singleton] at hlen
        omega
      · have hlen4 : (payload ++ toLE 4 (w.crc payload).toNat).length - 4 = payload.length := by
          simp
        have hcrc : ofLE (toLE 4 (w.crc payload).toNat) = (w.crc payload).toNat :=
          ofLE_toLE (by simpa using (w.crc payload).toNat_lt)
        rw [decodeFrame, hw.cobs_decode]
        simp only [hlen4, List.take_left' rfl, List.drop_left' rfl, hcrc]
        rw [if_neg (by simp; omega), if_neg (by simp), hw.decode_encode frame payload henc]
        simp

/-- **What was encoded decodes.** -/
theorem decodeFrame_encodeFrame (hw : w.Lawful) {frame : MeshFrame} {wire : Bytes}
    (h : encodeFrame w frame = .ok wire) : decodeFrame w wire.dropLast = .ok frame := by
  obtain ⟨body, rfl, -, -, -, hdec⟩ := encodeFrame_eq_ok hw h
  rwa [List.dropLast_concat]

/-- The same on the air, where a packet is a frame and needs neither delimiter nor checksum. -/
theorem decodeDatagram_encodeDatagram (hw : w.Lawful) {frame : MeshFrame} {bytes : Bytes}
    (h : encodeDatagram w frame = .ok bytes) : decodeDatagram w bytes = .ok frame := by
  rw [encodeDatagram] at h
  cases henc : w.postcard.toAllocvec frame with
  | none => simp [henc] at h
  | some body =>
    simp only [henc] at h
    split at h
    · cases h
    · rename_i hlen
      obtain rfl := Except.ok.inj h
      rw [decodeDatagram, if_neg hlen, hw.decode_encode frame body henc]
      rfl

/-! ### The deframer -/

/-- `DeframerStats`. -/
structure DeframerStats where
  rxFrames : UInt64
  crcFail : UInt64
  decodeFail : UInt64
  resyncs : UInt64
  oversizeDrops : UInt64
  deriving DecidableEq, Repr

/-- `Deframer`. -/
structure Deframer where
  buf : Bytes
  skipping : Bool
  stats : DeframerStats
  deriving DecidableEq

namespace Deframer

/-- `Deframer::new`. -/
def new : Deframer := ⟨[], false, ⟨0, 0, 0, 0, 0⟩⟩

variable (w)

/-- The body of the loop of `Deframer::push`: one byte, and the frame it completes. -/
def pushByte (d : Deframer) (b : UInt8) : Deframer × Option MeshFrame :=
  if b = 0 then
    if d.skipping then
      ({ d with skipping := false, stats.resyncs := d.stats.resyncs + 1 }, none)
    else if d.buf = [] then (d, none)
    else
      match decodeFrame w d.buf with
      | .ok frame => ({ d with buf := [], stats.rxFrames := d.stats.rxFrames + 1 }, some frame)
      | .error .crcMismatch => ({ d with buf := [], stats.crcFail := d.stats.crcFail + 1 }, none)
      | .error _ => ({ d with buf := [], stats.decodeFail := d.stats.decodeFail + 1 }, none)
  else if d.skipping then (d, none)
  else
    let buf := d.buf ++ [b]
    if maxWireFrame ≤ buf.length then
      ({ d with
        buf := [], skipping := true, stats.oversizeDrops := d.stats.oversizeDrops + 1 }, none)
    else ({ d with buf := buf }, none)

/-- `Deframer::push`. -/
def push (d : Deframer) (bytes : Bytes) : Deframer × List MeshFrame :=
  (Run.final (pushByte w) d bytes, (Run.log (pushByte w) d bytes).filterMap Prod.snd)

/-- Reading the chunks one after another. -/
def pushAll (d : Deframer) : List Bytes → Deframer × List MeshFrame
  | [] => (d, [])
  | chunk :: chunks =>
    let r := push w d chunk
    let rs := pushAll r.1 chunks
    (rs.1, r.2 ++ rs.2)

/-- **Fragmentation.** A read cut in two gives the frames, and the state, of the whole read. -/
theorem push_append (d : Deframer) (a b : Bytes) :
    push w d (a ++ b)
      = ((push w (push w d a).1 b).1, (push w d a).2 ++ (push w (push w d a).1 b).2) := by
  simp [push]

theorem push_cons (d : Deframer) (b : UInt8) (bytes : Bytes) :
    push w d (b :: bytes) = ((push w (pushByte w d b).1 bytes).1,
      (pushByte w d b).2.toList ++ (push w (pushByte w d b).1 bytes).2) := by
  cases h : (pushByte w d b).2 <;> simp [push, h]

theorem pushAll_eq_push (d : Deframer) (chunks : List Bytes) :
    pushAll w d chunks = push w d chunks.flatten := by
  induction chunks generalizing d with
  | nil => rfl
  | cons chunk chunks ih => rw [pushAll, ih, List.flatten_cons, push_append]

/-! ### Bounds and boundaries -/

/-- What every byte leaves behind: the buffer is below the limit, and empty while skipping. -/
structure WellFormed (d : Deframer) : Prop where
  bounded : d.buf.length < maxWireFrame
  skips_empty : d.skipping = true → d.buf = []

/-- A delimiter was just read: nothing is buffered and nothing is being skipped. -/
def AtBoundary (d : Deframer) : Prop := d.buf = [] ∧ d.skipping = false

theorem wellFormed_new : WellFormed new := ⟨by decide, fun _ => rfl⟩

variable {w} {d : Deframer}

theorem WellFormed.pushByte (h : WellFormed d) (b : UInt8) : WellFormed (pushByte w d b).1 := by
  have hempty : ([] : Bytes).length < maxWireFrame := by decide
  fun_cases Deframer.pushByte w d b with
  | case1 hb hskip => exact ⟨h.bounded, fun hc => by cases hc⟩
  | case2 => exact h
  | case3 => exact ⟨hempty, fun _ => rfl⟩
  | case4 => exact ⟨hempty, fun _ => rfl⟩
  | case5 => exact ⟨hempty, fun _ => rfl⟩
  | case6 => exact h
  | case7 => exact ⟨hempty, fun _ => rfl⟩
  | case8 hb hskip buf hlen =>
    exact ⟨not_le.mp hlen, fun hc => absurd hc hskip⟩

/-- **Bounded memory**: along every read. -/
theorem WellFormed.push (h : WellFormed d) (bytes : Bytes) : WellFormed (push w d bytes).1 := by
  induction bytes generalizing d with
  | nil => exact h
  | cons b bytes ih => exact ih (h.pushByte b)

/-- Whatever came before, a zero leaves the deframer at a boundary. -/
theorem WellFormed.atBoundary_zero (h : WellFormed d) : AtBoundary (Deframer.pushByte w d 0).1 := by
  fun_cases Deframer.pushByte w d 0 with
  | case1 hb hskip => exact ⟨h.skips_empty hskip, rfl⟩
  | case2 hb hskip hbuf => exact ⟨hbuf, by simpa using hskip⟩
  | case3 hb hskip => exact ⟨rfl, by simpa using hskip⟩
  | case4 hb hskip => exact ⟨rfl, by simpa using hskip⟩
  | case5 hb hskip => exact ⟨rfl, by simpa using hskip⟩
  | case6 hb => exact absurd rfl hb
  | case7 hb => exact absurd rfl hb
  | case8 hb => exact absurd rfl hb

theorem WellFormed.atBoundary_push (h : WellFormed d) (bytes : Bytes) :
    AtBoundary (Deframer.push w d (bytes ++ [0])).1 := by
  rw [push_append]
  exact (h.push bytes).atBoundary_zero

/-! ### What a read yields -/

/-- The counters do not matter to what is read. -/
def SameView (d e : Deframer) : Prop := d.buf = e.buf ∧ d.skipping = e.skipping

theorem SameView.pushByte {e : Deframer} (h : SameView d e) (b : UInt8) :
    SameView (Deframer.pushByte w d b).1 (Deframer.pushByte w e b).1 ∧
      (Deframer.pushByte w d b).2 = (Deframer.pushByte w e b).2 := by
  obtain ⟨buf, skipping, stats⟩ := d
  obtain ⟨buf', skipping', stats'⟩ := e
  obtain ⟨rfl, rfl⟩ : buf = buf' ∧ skipping = skipping' := h
  simp only [Deframer.pushByte]
  repeat' split
  all_goals exact ⟨⟨rfl, rfl⟩, rfl⟩

theorem SameView.push {e : Deframer} (h : SameView d e) (bytes : Bytes) :
    (Deframer.push w d bytes).2 = (Deframer.push w e bytes).2 := by
  induction bytes generalizing d e with
  | nil => rfl
  | cons b bytes ih =>
    obtain ⟨hview, hout⟩ := h.pushByte (w := w) b
    rw [push_cons, push_cons, hout, ih hview]

theorem AtBoundary.sameView_new (h : AtBoundary d) : SameView d new := h

/-- Bytes without a zero, with room for them, are buffered. -/
theorem push_body {body : Bytes} (hskip : d.skipping = false) (hzero : 0 ∉ body)
    (hroom : d.buf.length + body.length < maxWireFrame) :
    push w d body = ({ d with buf := d.buf ++ body }, []) := by
  induction body generalizing d with
  | nil => simp [push]
  | cons b body ih =>
    obtain ⟨hb, hbody⟩ : ¬ 0 = b ∧ 0 ∉ body := by simpa using hzero
    rw [List.length_cons] at hroom
    have hstep : pushByte w d b = ({ d with buf := d.buf ++ [b] }, none) := by
      rw [pushByte, if_neg (Ne.symm hb), hskip, if_neg (by simp), if_neg]
      rw [List.length_append, List.length_singleton]
      omega
    have hroom' : (d.buf ++ [b]).length + body.length < maxWireFrame := by
      rw [List.length_append, List.length_singleton]
      omega
    have hrest := ih (d := { d with buf := d.buf ++ [b] }) hskip hbody hroom'
    rw [push_cons, hstep, hrest, List.append_assoc]
    rfl

/-- At a boundary, an encoded frame yields itself. -/
theorem AtBoundary.push_wire (hw : w.Lawful) (h : AtBoundary d) {frame : MeshFrame} {wire : Bytes}
    (henc : encodeFrame w frame = .ok wire) : (push w d wire).2 = [frame] := by
  obtain ⟨body, rfl, hzero, hne, hlen, hdec⟩ := encodeFrame_eq_ok hw henc
  have hbody := push_body (w := w) h.2 hzero (by rw [h.1]; simpa using hlen)
  rw [push_append, hbody, h.1]
  simp [push, pushByte, h.2, hne, hdec]

/-! ### Segments of a stream -/

/-- A frame that encodes within the limit, with its encoding. -/
structure Intact (w : Wire) where
  frame : MeshFrame
  wire : Bytes
  encodes : encodeFrame w frame = .ok wire

/-- What stands between two delimiters: an intact frame, or anything at all. -/
inductive Segment (w : Wire)
  | intact (x : Intact w)
  | noise (bytes : Bytes)

/-- The segment on the wire, its delimiter included. -/
def Segment.wire : Segment w → Bytes
  | .intact x => x.wire
  | .noise bytes => bytes ++ [0]

/-- What the segment yields alone. -/
def Segment.yields : Segment w → List MeshFrame
  | .intact x => [x.frame]
  | .noise bytes => (push w new (bytes ++ [0])).2

theorem AtBoundary.push_segment (hw : w.Lawful) (h : AtBoundary d) (hwf : WellFormed d)
    (seg : Segment w) :
    (push w d seg.wire).2 = seg.yields ∧ AtBoundary (push w d seg.wire).1 := by
  cases seg with
  | noise bytes => exact ⟨h.sameView_new.push _, hwf.atBoundary_push bytes⟩
  | intact x =>
    refine ⟨h.push_wire hw x.encodes, ?_⟩
    obtain ⟨body, hwire, -⟩ := encodeFrame_eq_ok hw x.encodes
    rw [Segment.wire, hwire]
    exact hwf.atBoundary_push body

/-- From a boundary, a stream of segments yields what each yields alone, in order. -/
theorem AtBoundary.push_segments (hw : w.Lawful) (h : AtBoundary d) (hwf : WellFormed d)
    (segs : List (Segment w)) :
    (push w d (segs.map Segment.wire).flatten).2 = (segs.map Segment.yields).flatten := by
  induction segs generalizing d with
  | nil => rfl
  | cons seg segs ih =>
    obtain ⟨hout, hnext⟩ := h.push_segment hw hwf seg
    rw [List.map_cons, List.flatten_cons, push_append, hout, ih hnext (hwf.push _), List.map_cons,
      List.flatten_cons]

/-- Any bytes that end in a delimiter, or none at all, leave a new deframer at a boundary. -/
theorem atBoundary_of_earlier {earlier : Bytes} (h : earlier = [] ∨ earlier.getLast? = some 0) :
    AtBoundary (push w new earlier).1 := by
  rcases h with rfl | h
  · exact ⟨rfl, rfl⟩
  · obtain ⟨bytes, rfl⟩ := List.getLast?_eq_some_iff.mp h
    exact wellFormed_new.atBoundary_push bytes

/-- **The stream, end to end.** However the bytes are cut into reads, and whatever came before as
long as it ended in a delimiter: encoded frames come out as they went in; a read cut in two is the
two reads; the buffer stays below the limit; and noise between delimiters costs no frame beside
it. -/
theorem stream_end_to_end (hw : w.Lawful) :
    (∀ (earlier : Bytes) (frames : List (Intact w)) (chunks : List Bytes),
      earlier = [] ∨ earlier.getLast? = some 0 →
      chunks.flatten = (frames.map Intact.wire).flatten →
      (pushAll w (push w new earlier).1 chunks).2 = frames.map Intact.frame) ∧
    (∀ (d : Deframer) (a b : Bytes), push w d (a ++ b)
      = ((push w (push w d a).1 b).1, (push w d a).2 ++ (push w (push w d a).1 b).2)) ∧
    (∀ bytes : Bytes, (push w new bytes).1.buf.length < maxWireFrame) ∧
    ∀ (earlier : Bytes) (segs : List (Segment w)) (chunks : List Bytes),
      earlier = [] ∨ earlier.getLast? = some 0 →
      chunks.flatten = (segs.map Segment.wire).flatten →
      (pushAll w (push w new earlier).1 chunks).2 = (segs.map Segment.yields).flatten := by
  have hsegs : ∀ (earlier : Bytes) (segs : List (Segment w)) (chunks : List Bytes),
      earlier = [] ∨ earlier.getLast? = some 0 →
      chunks.flatten = (segs.map Segment.wire).flatten →
      (pushAll w (push w new earlier).1 chunks).2 = (segs.map Segment.yields).flatten := by
    intro earlier segs chunks hearlier hchunks
    rw [pushAll_eq_push, hchunks]
    exact (atBoundary_of_earlier hearlier).push_segments hw (wellFormed_new.push earlier) segs
  refine ⟨fun earlier frames chunks hearlier hchunks => ?_, push_append w,
    fun bytes => (wellFormed_new.push bytes).bounded, hsegs⟩
  have h := hsegs earlier (frames.map .intact) chunks hearlier
    (by rw [hchunks, List.map_map]; rfl)
  rw [h, List.map_map, ← List.flatMap_def]
  exact List.flatMap_pure_eq_map _ _

end Deframer

/-! ### The codec as published -/

/-- The class with this variant index. -/
def MeshClass.ofByte (b : UInt8) : Option MeshClass :=
  if b = 0 then some critical
  else if b = 1 then some gossip
  else if b = 2 then some bulk
  else if b = 3 then some digest
  else none

theorem MeshClass.ofByte_toByte (cls : MeshClass) : ofByte cls.toByte = some cls := by
  cases cls <;> rfl

open Varint

/-- `postcard` on a frame: bytes as they are, wider integers and lengths as varints. -/
def postcardFrame : Postcard MeshFrame where
  toAllocvec frame :=
    if frame.ct.length < 2 ^ 64 then
      some (frame.ver :: frame.cls.toByte :: (toVarint 2 frame.sender.toNat ++
        (toVarint 9 frame.ctr.toNat ++ (toVarint 9 frame.ct.length ++ frame.ct))))
    else none
  takeFromBytes
    | ver :: cls :: bytes => do
      let cls ← MeshClass.ofByte cls
      let (sender, bytes) ← ofVarint 2 bytes
      let (ctr, bytes) ← ofVarint 9 bytes
      let (len, bytes) ← ofVarint 9 bytes
      if sender < 2 ^ 16 ∧ ctr < 2 ^ 64 ∧ len < 2 ^ 64 ∧ len ≤ bytes.length then
        some (⟨ver, cls, UInt16.ofNat sender, UInt64.ofNat ctr, bytes.take len⟩, bytes.drop len)
      else none
    | _ => none

/-- One bit of the reflected CRC-32. -/
def crc32Bit (crc : UInt32) : UInt32 :=
  if crc &&& 1 = 1 then (crc >>> 1) ^^^ 0xEDB88320 else crc >>> 1

/-- `crc32fast::hash`, bit by bit. -/
def crc32 (bytes : Bytes) : UInt32 :=
  ~~~ bytes.foldl (fun crc b => crc32Bit^[8] (crc ^^^ b.toUInt32)) 0xFFFFFFFF

/-- The wire as the source builds it. -/
def publishedWire : Wire where
  postcard := postcardFrame
  cobs := ⟨ByteStuffing.encode, ByteStuffing.decode⟩
  crc := crc32

theorem postcardFrame_decode_encode (frame : MeshFrame) (bytes : Bytes)
    (h : postcardFrame.toAllocvec frame = some bytes) :
    postcardFrame.takeFromBytes bytes = some (frame, []) := by
  simp only [postcardFrame, Option.ite_none_right_eq_some, Option.some.injEq] at h
  obtain ⟨hlen, rfl⟩ := h
  have hsender : frame.sender.toNat < 2 ^ 16 := frame.sender.toNat_lt
  have hctr : frame.ctr.toNat < 2 ^ 64 := frame.ctr.toNat_lt
  have hsender' : frame.sender.toNat < 128 ^ (2 + 1) := hsender.trans (by decide)
  have hctr' : frame.ctr.toNat < 128 ^ (9 + 1) := hctr.trans (by decide)
  have hlen' : frame.ct.length < 128 ^ (9 + 1) := hlen.trans (by decide)
  simp [postcardFrame, MeshClass.ofByte_toByte, ofVarint_toVarint hsender',
    ofVarint_toVarint hctr', ofVarint_toVarint hlen']
  exact ⟨hsender, hctr, hlen⟩

theorem publishedWire_lawful : publishedWire.Lawful where
  decode_encode := postcardFrame_decode_encode
  encode_ne_nil frame h := by
    simp [publishedWire, postcardFrame] at h
  cobs_decode := ByteStuffing.decode_encode
  cobs_no_zero := ByteStuffing.zero_notMem_encode
  cobs_ne_nil body := ByteStuffing.encodeFrom_ne_nil [] body

namespace Deframer

/-- An empty frame of node `2`, and its encoding. -/
def emptyFrame : Intact publishedWire where
  frame := ⟨1, .gossip, 2, 3, []⟩
  wire := [5, 1, 1, 2, 3, 5, 101, 62, 87, 107, 0]
  encodes := by decide +kernel

/-- A frame read in two pieces, after noise. -/
theorem emptyFrame_after_noise :
    publishedWire.Lawful ∧
      (pushAll publishedWire (push publishedWire new [7, 0]).1
        [[5, 1, 1, 2], [3, 5, 101, 62, 87, 107, 0]]).2 = [⟨1, .gossip, 2, 3, []⟩] := by
  refine ⟨publishedWire_lawful, ?_⟩
  exact (stream_end_to_end publishedWire_lawful).1 [7, 0] [emptyFrame] _ (Or.inr rfl) rfl

end Deframer

end ApexOS.Mesh
