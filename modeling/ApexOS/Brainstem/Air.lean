import ApexOS.Mesh.Envelope
import ApexOS.Mesh.Frame

/-!
# Frames on the air

`firmware/brainstem/src/radio.rs`: the HCI command that puts a frame into an advertisement, and the
parser of advertising reports. An access out of bounds would stop the board, so the parser is read
with accesses that can fail: an index or a slice that is not in its bytes is an error, `get` is not.

The walk over a report's AD structures goes by offsets. What it computes is said once over lists, as
`firstFrame`; it ends because every offset is beyond the last one.

## Main definitions

* `advertise`: the command for a frame
* `parseExtAdvReport`, `walk`: the parser
* `firstFrame`: what the walk finds
* `Airborne`: what is expected of a frame that is advertised

## Main results

* `parseExtAdvReport_safe`: no report makes the parser leave its bytes
* `airborne_iff`: a frame is put on the air and heard exactly if the command's length fits its byte
-/

namespace ApexOS.Brainstem.Air

open Mesh

variable (w : Wire)

/-! ### Advertising -/

/-- `COMPANY_ID`. -/
def companyId : Bytes := [0xFF, 0xFF]

/-- `MAGIC`. -/
def magic : Bytes := [0x41, 0x58]

/-- `AD_OVERHEAD`. -/
def adOverhead : ℕ := 5

/-- `MAX_GOSSIP_FRAME`. -/
def maxGossipFrame : ℕ := 254 - adOverhead - 1

/-- `RadioError`. -/
inductive RadioError
  | command
  | tooLarge

/-- The type and the content of the AD structure. -/
def adLen (body : Bytes) : ℕ := 1 + companyId.length + magic.length + body.length

/-- The AD structure on the air. -/
def advDataLen (body : Bytes) : ℕ := 1 + adLen body

/-- The parameters of the command. -/
def paramLen (body : Bytes) : ℕ := 4 + advDataLen body

/-- The buffer of the command. -/
def commandBuffer : ℕ := 4 + 4 + 1 + adOverhead + maxGossipFrame

/-- The AD structure that carries a frame. -/
def adStructure (body : Bytes) : Bytes :=
  UInt8.ofNat (adLen body) :: 0xFF :: (companyId ++ magic ++ body)

/-- LE Set Extended Advertising Data. -/
def advertiseCommand (body : Bytes) : Bytes :=
  [0x01, 0x37, 0x20, UInt8.ofNat (paramLen body), 0x00, 0x03, 0x01, UInt8.ofNat (advDataLen body)]
    ++ adStructure body

/-- `Radio::advertise`, up to its first command. -/
def advertise (frame : MeshFrame) : Except RadioError Bytes :=
  match encodeDatagram w frame with
  | .error _ => .error .tooLarge
  | .ok body =>
    if maxGossipFrame < body.length then .error .tooLarge else .ok (advertiseCommand body)

/-! ### Hearing -/

/-- An access out of bounds. -/
inductive Panic
  | outOfBounds

/-- `bytes[i]`. -/
def index (bytes : Bytes) (i : ℕ) : Except Panic UInt8 :=
  match bytes[i]? with
  | some b => .ok b
  | none => .error .outOfBounds

/-- `&bytes[a..b]`. -/
def slice (bytes : Bytes) (a b : ℕ) : Except Panic Bytes :=
  if a ≤ b ∧ b ≤ bytes.length then .ok ((bytes.take b).drop a) else .error .outOfBounds

/-- `bytes.get(a..b)`. -/
def get (bytes : Bytes) (a b : ℕ) : Option Bytes :=
  if a ≤ b ∧ b ≤ bytes.length then some ((bytes.take b).drop a) else none

/-- `Heard`. -/
structure Heard where
  frame : MeshFrame
  rssiDbm : Int8

/-- The frame in an AD structure, if it is one of ours. -/
def ours (adType : UInt8) (body : Bytes) : Except Panic (Option MeshFrame) :=
  if adType = 0xFF ∧ companyId.length + magic.length < body.length then do
    if (← slice body 0 2) = companyId then
      if (← slice body 2 4) = magic then
        match decodeDatagram w (← slice body 4 body.length) with
        | .ok frame => pure (some frame)
        | .error _ => pure none
      else pure none
    else pure none
  else pure none

/-- The walk over the AD structures, from an offset on. -/
def walk (data : Bytes) (i : ℕ) : Except Panic (Option MeshFrame) :=
  if i < data.length then do
    let len ← index data i
    if len = 0 ∨ data.length < i + 1 + len.toNat then pure none
    else
      let adType ← index data (i + 1)
      let body ← slice data (i + 2) (i + 1 + len.toNat)
      match ← ours w adType body with
      | some frame => pure (some frame)
      | none => walk data (i + 1 + len.toNat)
  else pure none
  termination_by data.length - i

/-- What stands before a report's data. -/
def headerLen : ℕ := 5

def fixedLen : ℕ := 23

/-- `parse_ext_adv_report`. -/
def parseExtAdvReport (pkt : Bytes) : Except Panic (Option Heard) := do
  if pkt.length < headerLen + fixedLen + 1 then pure none
  else if (← index pkt 0) ≠ 0x04 then pure none
  else if (← index pkt 1) ≠ 0x3E then pure none
  else if (← index pkt 3) ≠ 0x0D then pure none
  else
    let rssiDbm := (← index pkt (headerLen + 13)).toInt8
    let dataLen := (← index pkt (headerLen + fixedLen)).toNat
    let dataStart := headerLen + fixedLen + 1
    match get pkt dataStart (dataStart + dataLen) with
    | none => pure none
    | some data => pure ((← walk w data 0).map fun frame => ⟨frame, rssiDbm⟩)

/-! ### What the walk finds -/

/-- The frame in an AD structure, without slices. -/
def carried (adType : UInt8) (content : Bytes) : Option MeshFrame :=
  if adType = 0xFF ∧ content.take 4 = companyId ++ magic ∧ 4 < content.length then
    (decodeDatagram w (content.drop 4)).toOption
  else none

/-- The first frame among AD structures. A length of zero ends them, and so does one that lies. -/
def firstFrame : Bytes → Option MeshFrame
  | [] => none
  | _ :: [] => none
  | len :: adType :: rest =>
    if len = 0 ∨ rest.length + 1 < len.toNat then none
    else
      match carried w adType (rest.take (len.toNat - 1)) with
      | some frame => some frame
      | none => firstFrame (rest.drop (len.toNat - 1))
  termination_by bytes => bytes.length
  decreasing_by
    rw [List.length_drop, List.length_cons, List.length_cons]
    exact Nat.lt_succ_of_le (Nat.le_succ_of_le (Nat.sub_le _ _))

variable {w}

theorem index_eq {bytes : Bytes} {i : ℕ} (h : i < bytes.length) : index bytes i = .ok bytes[i] := by
  rw [index, List.getElem?_eq_getElem h]

theorem slice_eq {bytes : Bytes} {a b : ℕ} (hab : a ≤ b) (hb : b ≤ bytes.length) :
    slice bytes a b = .ok ((bytes.drop a).take (b - a)) := by
  rw [slice, if_pos ⟨hab, hb⟩, List.drop_take]

theorem take_four_eq {content : Bytes} (h : 4 < content.length) :
    content.take 4 = companyId ++ magic ↔
      content.take 2 = companyId ∧ (content.drop 2).take 2 = magic := by
  rw [show content.take 4 = content.take 2 ++ (content.drop 2).take 2 from
    List.take_add (i := 2) (j := 2)]
  constructor
  · intro heq
    exact List.append_inj heq (by simp only [List.length_take]; exact min_eq_left (by omega))
  · rintro ⟨hcompany, hmagic⟩
    rw [hcompany, hmagic]

/-- No slice of an AD structure leaves it: the length was checked first. -/
theorem ours_eq (adType : UInt8) (content : Bytes) :
    ours w adType content = .ok (carried w adType content) := by
  unfold ours carried
  by_cases hlong : adType = 0xFF ∧ companyId.length + magic.length < content.length
  · obtain ⟨htype, hlen⟩ := hlong
    replace hlen : 4 < content.length := hlen
    have hframe : (content.drop 4).take (content.length - 4) = content.drop 4 :=
      List.take_of_length_le (List.length_drop ..).le
    rw [if_pos ⟨htype, hlen⟩, slice_eq (by decide) (by omega), slice_eq (by decide) (by omega),
      slice_eq (by omega) le_rfl, hframe]
    simp only [take_four_eq hlen, htype, hlen, true_and, and_true]
    show (if content.take 2 = companyId then (if (content.drop 2).take 2 = magic then _ else _)
      else _) = _
    by_cases hcompany : content.take 2 = companyId
    · rw [if_pos hcompany]
      show (if (content.drop 2).take 2 = magic then _ else _) = _
      by_cases hmagic : (content.drop 2).take 2 = magic
      · rw [if_pos hmagic, if_pos ⟨hcompany, hmagic⟩]
        show (match decodeDatagram w (content.drop 4) with
          | .ok frame => pure (some frame)
          | .error _ => pure none) = _
        cases decodeDatagram w (content.drop 4) <;> rfl
      · rw [if_neg hmagic, if_neg fun h => hmagic h.2]
        rfl
    · rw [if_neg hcompany, if_neg fun h => hcompany h.1]
      rfl
  · rw [if_neg hlong, if_neg fun h => hlong ⟨h.1, h.2.2⟩]
    rfl

/-- The walk never leaves its bytes, and finds the first frame of those it has not passed. -/
theorem walk_eq (data : Bytes) (i : ℕ) :
    walk w data i = .ok (firstFrame w (data.drop i)) := by
  induction hleft : data.length - i using Nat.strong_induction_on generalizing i with
  | _ left ih =>
    rw [walk]
    by_cases hi : i < data.length
    · rw [if_pos hi, index_eq hi, List.drop_eq_getElem_cons hi]
      show (if _ then _ else _) = _
      by_cases hstop : data[i] = 0 ∨ data.length < i + 1 + data[i].toNat
      · rw [if_pos hstop]
        cases hrest : data.drop (i + 1) with
        | nil => rw [firstFrame]; rfl
        | cons adType rest =>
          have hlen := congrArg List.length hrest
          rw [List.length_drop, List.length_cons] at hlen
          rw [firstFrame, if_pos (hstop.imp_right fun h => by omega)]
          rfl
      · obtain ⟨hzero, hroom⟩ := not_or.mp hstop
        have hpos : 0 < data[i].toNat := 
          Nat.pos_of_ne_zero fun h => hzero (UInt8.toNat_inj.mp h)
        have hnext : i + 1 < data.length := by omega
        have hlen : (data.drop (i + 1 + 1)).length + 1 = data.length - (i + 1) := by
          rw [List.length_drop]
          omega
        have hbody : i + 1 + data[i].toNat - (i + 2) = data[i].toNat - 1 := by omega
        have hskip : (data.drop (i + 1 + 1)).drop (data[i].toNat - 1)
            = data.drop (i + 1 + data[i].toNat) := by
          rw [List.drop_drop]
          congr 1
          omega
        rw [if_neg hstop, index_eq hnext, slice_eq (by omega) (by omega), hbody,
          List.drop_eq_getElem_cons hnext, firstFrame,
          if_neg (not_or.mpr ⟨hzero, by omega⟩), hskip]
        show (do match ← ours w _ _ with
          | some frame => pure (some frame)
          | none => walk w data _ : Except Panic (Option MeshFrame)) = _
        rw [ours_eq]
        show (match carried w data[i + 1] ((data.drop (i + 2)).take (data[i].toNat - 1)) with
          | some frame => pure (some frame)
          | none => walk w data _) = _
        cases carried w data[i + 1] ((data.drop (i + 2)).take (data[i].toNat - 1)) with
        | some frame => rfl
        | none => exact ih _ (by omega) _ rfl
    · rw [if_neg hi, List.drop_eq_nil_of_le (not_lt.mp hi), firstFrame]
      rfl

/-- What the parser reads of a packet that is long enough. -/
theorem parseExtAdvReport_eq {pkt : Bytes} (hlen : 28 < pkt.length) :
    parseExtAdvReport w pkt = .ok
      (if pkt[0] = 0x04 ∧ pkt[1] = 0x3E ∧ pkt[3] = 0x0D then
        (get pkt 29 (29 + pkt[28].toNat)).bind fun data =>
          (firstFrame w data).map fun frame => ⟨frame, pkt[18].toInt8⟩
      else none) := by
  unfold parseExtAdvReport headerLen fixedLen
  rw [if_neg (by omega), index_eq (by omega), index_eq (by omega), index_eq (by omega)]
  simp only [bind, Except.bind, pure, Except.pure, walk_eq, List.drop_zero]
  rw [index_eq (by omega), index_eq (by omega)]
  by_cases hevent : pkt[0] = 0x04
  · by_cases hmeta : pkt[1] = 0x3E
    · by_cases hsub : pkt[3] = 0x0D
      · rw [if_neg (not_not.mpr hevent), if_neg (not_not.mpr hmeta), if_neg (not_not.mpr hsub),
          if_pos ⟨hevent, hmeta, hsub⟩]
        cases hdata : get pkt 29 (29 + pkt[28].toNat) <;> simp [hdata]
      · rw [if_neg (not_not.mpr hevent), if_neg (not_not.mpr hmeta), if_pos hsub,
          if_neg fun h => hsub h.2.2]
    · rw [if_neg (not_not.mpr hevent), if_pos hmeta, if_neg fun h => hmeta h.2.1]
  · rw [if_pos hevent, if_neg fun h => hevent h.1]

/-- **No report makes the parser leave its bytes**, and every walk ends. -/
theorem parseExtAdvReport_safe (pkt : Bytes) : ∃ heard, parseExtAdvReport w pkt = .ok heard := by
  by_cases hlen : 28 < pkt.length
  · exact ⟨_, parseExtAdvReport_eq hlen⟩
  · exact ⟨none, if_pos (Nat.lt_succ_of_le (not_lt.mp hlen))⟩

/-! ### What is advertised is heard -/

/-- An AD structure: its type and content, with a length that fits its byte. -/
structure Ad where
  adType : UInt8
  content : Bytes
  fits : 1 + content.length < 256

/-- The AD structure on the air. -/
def Ad.bytes (ad : Ad) : Bytes := UInt8.ofNat (1 + ad.content.length) :: ad.adType :: ad.content

/-- Of another type, or of another vendor. -/
def Ad.Foreign (ad : Ad) : Prop := ad.adType = 0xFF → ad.content.take 4 ≠ companyId ++ magic

theorem firstFrame_ad (ad : Ad) (rest : Bytes) :
    firstFrame w (ad.bytes ++ rest)
      = (carried w ad.adType ad.content).orElse fun _ => firstFrame w rest := by
  have hlen : (UInt8.ofNat (1 + ad.content.length)).toNat = 1 + ad.content.length :=
    Nat.mod_eq_of_lt ad.fits
  have hne : UInt8.ofNat (1 + ad.content.length) ≠ 0 := by
    intro h
    rw [h] at hlen
    simp at hlen
    omega
  have hskip : 1 + ad.content.length - 1 = ad.content.length := by omega
  rw [Ad.bytes, List.cons_append, List.cons_append, firstFrame, hlen,
    if_neg (not_or.mpr ⟨hne, by rw [List.length_append]; omega⟩), hskip, List.take_left' rfl,
    List.drop_left' rfl]
  cases carried w ad.adType ad.content <;> rfl

theorem Ad.Foreign.carried_eq_none {ad : Ad} (h : ad.Foreign) :
    carried w ad.adType ad.content = none :=
  if_neg fun hours => h hours.1 hours.2.1

/-- Foreign structures are passed over. -/
theorem firstFrame_foreign {others : List Ad} (h : ∀ ad ∈ others, ad.Foreign) (rest : Bytes) :
    firstFrame w ((others.map Ad.bytes).flatten ++ rest) = firstFrame w rest := by
  induction others with
  | nil => rfl
  | cons ad others ih =>
    obtain ⟨had, hothers⟩ := List.forall_mem_cons.mp h
    rw [List.map_cons, List.flatten_cons, List.append_assoc, firstFrame_ad, had.carried_eq_none]
    exact ih hothers

/-- The fixed part of a report: an LE meta event, an extended advertising report. -/
structure ReportHeader (header : Bytes) : Prop where
  length_eq : header.length = 28
  event : header[0]? = some 0x04
  leMeta : header[1]? = some 0x3E
  subevent : header[3]? = some 0x0D

/-- A report, with whatever stands behind it. -/
def report (header data trailing : Bytes) : Bytes :=
  header ++ UInt8.ofNat data.length :: (data ++ trailing)

/-- What is expected of a frame that is advertised in `body`. -/
structure Airborne (w : Wire) (frame : MeshFrame) (body : Bytes) : Prop where
  adLen_lt : adLen body < 256
  advDataLen_lt : advDataLen body < 256
  paramLen_lt : paramLen body < 256
  fits : 4 + paramLen body ≤ commandBuffer
  /-- a report yields the frame, behind any structures of other types or vendors -/
  heard : ∀ (header trailing : Bytes) (others : List Ad), ReportHeader header →
    (∀ ad ∈ others, ad.Foreign) →
    ((others.map Ad.bytes).flatten ++ adStructure body).length < 256 →
    ∃ rssi, header[18]? = some rssi ∧
      parseExtAdvReport w
          (report header ((others.map Ad.bytes).flatten ++ adStructure body) trailing)
        = .ok (some ⟨frame, rssi.toInt8⟩)

/-- The parser reads the data of a report. -/
theorem parseExtAdvReport_report {header data trailing : Bytes} (hheader : ReportHeader header)
    (hdata : data.length < 256) :
    ∃ rssi, header[18]? = some rssi ∧
      parseExtAdvReport w (report header data trailing)
        = .ok ((firstFrame w data).map fun frame => ⟨frame, rssi.toInt8⟩) := by
  obtain ⟨hlength, hevent, hmeta, hsub⟩ := hheader
  have hlen : 28 < (report header data trailing).length := by
    rw [report, List.length_append, List.length_cons, hlength]
    omega
  have hbyte : ∀ i, i < header.length → (report header data trailing)[i]? = header[i]? :=
    fun i h => List.getElem?_append_left h
  have hcount : (report header data trailing)[28].toNat = data.length := by
    simpa [report, List.getElem_append_right, hlength] using hdata
  have hdrop : (report header data trailing).drop 29 = data ++ trailing := by
    rw [report, List.append_cons, List.drop_left' (by simp [hlength])]
  have hget : get (report header data trailing) 29 (29 + data.length) = some data := by
    have hroom : 29 + data.length ≤ (report header data trailing).length := by
      simp only [report, List.length_append, List.length_cons, hlength]
      omega
    rw [get, if_pos ⟨by omega, hroom⟩, List.drop_take, hdrop, Nat.add_sub_cancel_left,
      List.take_left' rfl]
  have hread : (report header data trailing)[0] = 0x04 ∧ (report header data trailing)[1] = 0x3E ∧
      (report header data trailing)[3] = 0x0D := by
    refine ⟨Option.some.inj ?_, Option.some.inj ?_, Option.some.inj ?_⟩
    · rw [← List.getElem?_eq_getElem, hbyte 0 (by omega), hevent]
    · rw [← List.getElem?_eq_getElem, hbyte 1 (by omega), hmeta]
    · rw [← List.getElem?_eq_getElem, hbyte 3 (by omega), hsub]
  refine ⟨(report header data trailing)[18], ?_, ?_⟩
  · rw [← hbyte 18 (by omega), List.getElem?_eq_getElem]
  · rw [parseExtAdvReport_eq hlen, if_pos hread, hcount, hget]
    rfl

theorem adLen_eq (body : Bytes) : adLen body = 1 + (companyId ++ magic ++ body).length := by
  rw [adLen, List.length_append, List.length_append, Nat.add_assoc, Nat.add_assoc, Nat.add_assoc]

theorem adStructure_eq {body : Bytes} (h : adLen body < 256) :
    adStructure body = Ad.bytes ⟨0xFF, companyId ++ magic ++ body, adLen_eq body ▸ h⟩ :=
  congrArg (fun n => UInt8.ofNat n :: 0xFF :: (companyId ++ magic ++ body)) (adLen_eq body)

/-- What is advertised is what the serialiser gave, within the limit. -/
theorem encodeDatagram_eq_ok {frame : MeshFrame} {body : Bytes}
    (h : encodeDatagram w frame = .ok body) :
    w.postcard.toAllocvec frame = some body ∧ body.length ≤ maxGossipFrame := by
  rw [encodeDatagram] at h
  split at h
  · cases h
  · rename_i bytes henc
    split at h
    · cases h
    · rename_i hlen
      obtain rfl := Except.ok.inj h
      exact ⟨henc, not_lt.mp hlen⟩

theorem advertise_eq {frame : MeshFrame} {body : Bytes} (h : encodeDatagram w frame = .ok body) :
    advertise w frame = .ok (advertiseCommand body) := by
  rw [advertise, h]
  exact if_neg (not_lt.mpr (encodeDatagram_eq_ok h).2)

theorem paramLen_eq (body : Bytes) : paramLen body = 10 + body.length := by
  rw [paramLen, advDataLen, adLen_eq, List.length_append]
  show 4 + (1 + (1 + (4 + body.length))) = _
  omega

/-- The structure of a frame carries it. -/
theorem carried_adStructure (hw : w.Lawful) {frame : MeshFrame} {body : Bytes}
    (h : encodeDatagram w frame = .ok body) :
    carried w 0xFF (companyId ++ magic ++ body) = some frame := by
  have hne : body ≠ [] := fun hnil => hw.encode_ne_nil frame (hnil ▸ (encodeDatagram_eq_ok h).1)
  have hlen : 4 < (companyId ++ magic ++ body).length := by
    rw [List.length_append]
    exact Nat.lt_add_of_pos_right (List.length_pos_iff.mpr hne)
  have hdrop : (companyId ++ magic ++ body).drop 4 = body := rfl
  rw [carried, if_pos ⟨rfl, rfl, hlen⟩, hdrop, decodeDatagram_encodeDatagram hw h]
  rfl

theorem heard_of_encodeDatagram (hw : w.Lawful) {frame : MeshFrame} {body : Bytes}
    (h : encodeDatagram w frame = .ok body) (hfits : adLen body < 256) {header trailing : Bytes}
    {others : List Ad} (hheader : ReportHeader header) (hothers : ∀ ad ∈ others, ad.Foreign)
    (hdata : ((others.map Ad.bytes).flatten ++ adStructure body).length < 256) :
    ∃ rssi, header[18]? = some rssi ∧
      parseExtAdvReport w
          (report header ((others.map Ad.bytes).flatten ++ adStructure body) trailing)
        = .ok (some ⟨frame, rssi.toInt8⟩) := by
  have hours : firstFrame w (adStructure body) = some frame := by
    rw [adStructure_eq hfits, ← List.append_nil (Ad.bytes _), firstFrame_ad,
      carried_adStructure hw h]
    rfl
  obtain ⟨rssi, hrssi, hparse⟩ := parseExtAdvReport_report hheader hdata
  refine ⟨rssi, hrssi, ?_⟩
  rw [hparse, firstFrame_foreign hothers, hours]
  rfl

/-- **A frame is advertised as intended, and heard, exactly if its command's length fits in its
byte.** -/
theorem airborne_iff (hw : w.Lawful) :
    (∀ pkt, ∃ heard, parseExtAdvReport w pkt = .ok heard) ∧
      ∀ frame body, encodeDatagram w frame = .ok body →
        advertise w frame = .ok (advertiseCommand body) ∧
          (Airborne w frame body ↔ body.length ≤ 245) := by
  refine ⟨parseExtAdvReport_safe, fun frame body h => ?_⟩
  have hlen : body.length ≤ 248 := (encodeDatagram_eq_ok h).2
  have hparam := paramLen_eq body
  refine ⟨advertise_eq h, fun hair => ?_, fun hshort => ?_⟩
  · have := hair.paramLen_lt
    omega
  · have hsum : paramLen body = 4 + (1 + adLen body) := rfl
    exact {
      adLen_lt := by omega
      advDataLen_lt := by
        rw [advDataLen]
        omega
      paramLen_lt := by omega
      fits := by
        show _ ≤ 262
        omega
      heard := fun _ _ _ => heard_of_encodeDatagram hw h (by omega) }

/-- A frame with a long ciphertext. -/
def longFrame : MeshFrame := ⟨1, .gossip, 2, 3, List.replicate 240 0⟩

/-- Its encoding. -/
def longBody : Bytes := [1, 1, 2, 3, 0xF0, 0x01] ++ List.replicate 240 0

/-- **Not every frame that is advertised.** The length of the command for this one is `256`. -/
theorem not_airborne :
    advertise publishedWire longFrame = .ok (advertiseCommand longBody) ∧
      encodeDatagram publishedWire longFrame = .ok longBody ∧
      ¬ Airborne publishedWire longFrame longBody := by
  have h : encodeDatagram publishedWire longFrame = .ok longBody := by decide +kernel
  have hlen : longBody.length = 246 := by decide +kernel
  refine ⟨advertise_eq h, h, fun hair => ?_⟩
  have hparam := hair.paramLen_lt
  rw [paramLen_eq, hlen] at hparam
  exact absurd hparam (by decide)

/-- A heartbeat. -/
theorem airborne_iff_heartbeat : publishedWire.Lawful ∧
    Airborne publishedWire ⟨1, .gossip, 2, 3, []⟩ [1, 1, 2, 3, 0] :=
  ⟨publishedWire_lawful,
    (((airborne_iff publishedWire_lawful).2 _ _ (by decide +kernel)).2).mpr (by decide)⟩

end ApexOS.Brainstem.Air
