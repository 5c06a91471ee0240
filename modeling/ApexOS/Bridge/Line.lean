import ApexOS.Lib.Flow
import ApexOS.Mesh.Frame

/-!
# The bridge between the cortex and the radio

`tools/crates/apexos-mesh-bridge`: the daemon of `main.rs` over `run_link` of `lib.rs`. It owns the
serial line to a brainstem and opens it again whenever it fails; it dials the cortex and dials it
again; frames cross between the two through queues. A link, the task that feeds its queue and the
socket of the cortex take steps in any order.

A new link has a new deframer, so that no frame is put together from two of them, and what one of
them has not written is lost with it. The queue of the frames for the radio is bounded: a link that
falls too far behind does not lose the oldest of them, it ends, and the daemon with it.

## Main definitions

* `Daemon`, `Daemon.step`: the daemon, and what happens to it

## Main results

* `down_the_line`: while a link lasts, a board reads what the cortex sent, in order and whole
* `up_the_line`: over any number of links, what boards sent is taken for the cortex, in order and
  whole, or waits
* `totals`: the counters, over any number of links
* `ends_only`: the daemon ends where the address of the cortex does not parse or a link fell behind
-/

namespace ApexOS.Bridge.Line

open ApexOS.Mesh Deframer

/-! ### The daemon -/

/-- `backoff_ms`. -/
def backoffMs (attempt : ℕ) : ℕ := min (250 * 2 ^ min attempt 5) 5000

/-- `attempt.saturating_add(1)`. -/
def nextAttempt (attempt : ℕ) : ℕ := min (attempt + 1) (2 ^ 32 - 1)

/-- `LinkStats`. -/
structure LinkStats where
  rxFrames : UInt64
  txFrames : UInt64
  crcFail : UInt64
  decodeFail : UInt64
  resyncs : UInt64
  oversizeDrops : UInt64
  linkDowns : UInt64
  deriving DecidableEq, Repr

/-- `absorb_deframer_delta`. -/
def LinkStats.absorbDeframerDelta (stats : LinkStats) (current last : DeframerStats) : LinkStats :=
  { stats with
    crcFail := stats.crcFail + (current.crcFail - last.crcFail)
    decodeFail := stats.decodeFail + (current.decodeFail - last.decodeFail)
    resyncs := stats.resyncs + (current.resyncs - last.resyncs)
    oversizeDrops := stats.oversizeDrops + (current.oversizeDrops - last.oversizeDrops) }

/-- The task `pump`, with the frames of the broadcast channel that it has not received. -/
inductive Pump
  | receiving (unread : List MeshFrame)
  | sending (frame : MeshFrame) (unread : List MeshFrame)
  | ended
  deriving DecidableEq

/-- The frames that the pump will send on. -/
def Pump.holds : Pump → List MeshFrame
  | .receiving unread => unread
  | .sending frame unread => frame :: unread
  | .ended => []

/-- What `run_link` keeps: `rxBefore` is the count of frames when it began, and `old` says that
five seconds have passed. -/
structure Link where
  deframer : Deframer
  lastStats : DeframerStats
  tx : List MeshFrame
  pump : Pump
  rxBefore : UInt64
  old : Bool
  deriving DecidableEq

/-- The task `cortex_link`: it only logs frames, it has yet to connect to an address that parses
or not, it is connected, or it has returned. -/
inductive Cortex
  | logging
  | dialing (parses : Bool)
  | joined
  | returned
  deriving DecidableEq, Repr

/-- `daemon`: `pending` are the frames of the last read that are yet to be sent to `inbound`. -/
structure Daemon where
  link : Option Link
  attempt : ℕ
  stats : LinkStats
  pending : List MeshFrame
  inbound : List MeshFrame
  cortex : Cortex
  cortexAttempt : ℕ
  down : Bool
  deriving DecidableEq

/-- The bound of the channel of a link, and of the broadcast channel. -/
def txBound : ℕ := 64

/-- The bound of `inbound`. -/
def inboundBound : ℕ := 256

/-- How a write ends: after all of it, or in an error after some of its bytes. -/
inductive WriteIo
  | ok
  | failed (written : ℕ)
  deriving DecidableEq, Repr

inductive Input
  | openPort (ok : Bool)
  | fiveSeconds
  | read (chunk : Bytes)
  | readError
  | deliver
  | transmit (io : WriteIo)
  | pump
  | dial (ok : Bool)
  | take (sent : Bool)
  | message (bytes : Bytes)
  | hangUp
  deriving DecidableEq

/-- What each did; waits are in milliseconds. -/
inductive Output
  | quiet
  | up
  | heard (chunk : Bytes) (frames : List MeshFrame)
  | wrote (frame : MeshFrame) (wire : Bytes)
  | cut (wire : Bytes) (wait : ℕ)
  | linkDown (wait : ℕ)
  | retry (wait : ℕ)
  | given (frame : MeshFrame)
  | lagged
  | took (frame : MeshFrame) (sent : Option Bytes)
  | ended
  deriving DecidableEq

namespace Daemon

/-- The daemon as it starts; `address` is whether `AGENTD_MESH_WS` parses, where it is set. -/
def new (address : Option Bool) : Daemon :=
  ⟨none, 0, ⟨0, 0, 0, 0, 0, 0, 0⟩, [], [], address.elim .logging .dialing, 0, false⟩

variable (b : Daemon)

/-- A link begins. -/
def linkUp : Daemon :=
  { b with link := some ⟨.new, ⟨0, 0, 0, 0, 0⟩, [], .receiving [], b.stats.rxFrames, false⟩ }

/-- A link that moved a frame or lasted starts the ladder anew. -/
def attemptAfter (link : Link) : ℕ :=
  if link.old ∨ link.rxBefore < b.stats.rxFrames then 0 else b.attempt

/-- `LinkExit::Eof` and `LinkExit::Io`. -/
def linkDown (link : Link) : Daemon :=
  { b with
    link := none
    attempt := nextAttempt (b.attemptAfter link)
    stats.linkDowns := b.stats.linkDowns + 1 }

/-- `LinkExit::Closed`. -/
def close : Daemon :=
  { b with link := none, stats.linkDowns := b.stats.linkDowns + 1, down := true }

variable (w : Wire)

/-- The bytes of a read go through the deframer. -/
def hear (link : Link) (chunk : Bytes) : Daemon × Output :=
  let r := link.deframer.push w chunk
  ({ b with
    link := some { link with deframer := r.1, lastStats := r.1.stats }
    stats := b.stats.absorbDeframerDelta r.1.stats link.lastStats
    pending := r.2 }, .heard chunk r.2)

/-- A wakeup of `run_link` by the port: a read of nothing is the end of the link. -/
def read (link : Link) (chunk : Bytes) : Daemon × Output :=
  if chunk = [] then (b.linkDown link, .linkDown (backoffMs (b.attemptAfter link)))
  else b.hear w link chunk

/-- A frame of a read goes to `inbound`, which waits for room. -/
def deliver (frame : MeshFrame) (rest : List MeshFrame) : Daemon × Output :=
  let counted := { b with stats.rxFrames := b.stats.rxFrames + 1 }
  if b.cortex = .returned then (counted.close, .ended)
  else if b.inbound.length < inboundBound then
    ({ counted with inbound := b.inbound ++ [frame], pending := rest }, .quiet)
  else (b, .quiet)

/-- A wakeup of `run_link` by its channel. -/
def transmit (link : Link) (io : WriteIo) : Daemon × Output :=
  match link.tx with
  | frame :: tx =>
    match encodeFrame w frame, io with
    | .error _, _ => ({ b with link := some { link with tx } }, .quiet)
    | .ok wire, .ok =>
      ({ b with
        link := some { link with tx }
        stats.txFrames := b.stats.txFrames + 1 }, .wrote frame wire)
    | .ok wire, .failed n =>
      (b.linkDown link, .cut (wire.take n) (backoffMs (b.attemptAfter link)))
  | [] => if link.pump = .ended then (b.close, .ended) else (b, .quiet)

/-- The pump, for which `recv` is an error where more than the bound is unread. -/
def pump (link : Link) : Daemon × Output :=
  match link.pump with
  | .receiving (frame :: unread) =>
    if txBound < (frame :: unread).length then
      ({ b with link := some { link with pump := .ended } }, .lagged)
    else ({ b with link := some { link with pump := .sending frame unread } }, .quiet)
  | .sending frame unread =>
    if link.tx.length < txBound then
      ({ b with link := some { link with tx := link.tx ++ [frame], pump := .receiving unread } },
        .quiet)
    else (b, .quiet)
  | _ => (b, .quiet)

/-- A frame of the cortex goes to the link that listens. -/
def give (frame : MeshFrame) : Daemon × Output :=
  match b.link with
  | some link =>
    match link.pump with
    | .receiving unread =>
      ({ b with link := some { link with pump := .receiving (unread ++ [frame]) } }, .given frame)
    | .sending f unread =>
      ({ b with link := some { link with pump := .sending f (unread ++ [frame]) } }, .given frame)
    | .ended => (b, .quiet)
  | none => (b, .quiet)

/-- `cortex_link` takes a frame from `inbound`; `sent` is whether the socket took it. -/
def take (frame : MeshFrame) (rest : List MeshFrame) (sent : Bool) : Daemon × Output :=
  match b.cortex with
  | .logging => ({ b with inbound := rest }, .took frame none)
  | .joined =>
    match encodeDatagram w frame with
    | .error _ => ({ b with inbound := rest }, .took frame none)
    | .ok bytes =>
      if sent then ({ b with inbound := rest }, .took frame (some bytes))
      else ({ b with inbound := rest, cortex := .dialing true }, .took frame none)
  | _ => (b, .quiet)

/-- A try to connect to the cortex. -/
def dial (ok : Bool) : Daemon × Output :=
  match b.cortex with
  | .dialing true =>
    if ok then ({ b with cortex := .joined, cortexAttempt := 0 }, .quiet)
    else
      ({ b with cortexAttempt := nextAttempt b.cortexAttempt }, .retry (backoffMs b.cortexAttempt))
  | .dialing false => ({ b with cortex := .returned }, .quiet)
  | _ => (b, .quiet)

/-- A step of a daemon that runs. -/
def act : Input → Daemon × Output
  | .openPort ok =>
    if b.link.isSome then (b, .quiet)
    else if ok then (b.linkUp, .up)
    else ({ b with attempt := nextAttempt b.attempt }, .retry (backoffMs b.attempt))
  | .fiveSeconds => ({ b with link := b.link.map fun link => { link with old := true } }, .quiet)
  -- while frames of a read are to be delivered, the loop of the link does not go round
  | .read chunk =>
    match b.link, b.pending with
    | some link, [] => b.read w link chunk
    | _, _ => (b, .quiet)
  | .readError =>
    match b.link, b.pending with
    | some link, [] => (b.linkDown link, .linkDown (backoffMs (b.attemptAfter link)))
    | _, _ => (b, .quiet)
  | .deliver =>
    match b.link, b.pending with
    | some _, frame :: rest => b.deliver frame rest
    | _, _ => (b, .quiet)
  | .transmit io =>
    match b.link, b.pending with
    | some link, [] => b.transmit w link io
    | _, _ => (b, .quiet)
  | .pump => b.link.elim (b, .quiet) b.pump
  | .dial ok => b.dial ok
  | .take sent =>
    match b.inbound with
    | frame :: rest => b.take w frame rest sent
    | [] => (b, .quiet)
  | .message bytes =>
    match b.cortex, decodeDatagram w bytes with
    | .joined, .ok frame => b.give frame
    | _, _ => (b, .quiet)
  | .hangUp =>
    if b.cortex = .joined then ({ b with cortex := .dialing true }, .quiet) else (b, .quiet)

/-- The process, which ends with `daemon`. -/
def step (b : Daemon) (i : Input) : Daemon × Output := if b.down then (b, .quiet) else b.act w i

end Daemon

/-! ### What crosses -/

namespace Output

/-- The frames of a read. -/
def assembled : Output → List MeshFrame
  | .heard _ frames => frames
  | _ => []

/-- The frame that `cortex_link` takes. -/
def taken : Output → List MeshFrame
  | .took frame _ => [frame]
  | _ => []

/-- The frame that the cortex gives to a link. -/
def handed : Output → List MeshFrame
  | .given frame => [frame]
  | _ => []

/-- The frame that goes out whole. -/
def written : Output → List MeshFrame
  | .wrote frame _ => [frame]
  | _ => []

/-- The bytes that go out. -/
def line : Output → Bytes
  | .wrote _ wire => wire
  | .cut wire _ => wire
  | _ => []

/-- A link ends, or falls behind. -/
def breaks : Output → Bool
  | .cut _ _ | .linkDown _ | .lagged | .ended => true
  | _ => false

end Output

variable (w : Wire)

/-- What goes out to either side is the encoding of its frame. -/
def Output.Encodes : Output → Prop
  | .wrote frame wire => encodeFrame w frame = .ok wire
  | .took frame (some bytes) => encodeDatagram w frame = .ok bytes
  | _ => True

/-- The frame has an encoding for the line. -/
def crosses (frame : MeshFrame) : Bool := (encodeFrame w frame).isOk

namespace Daemon

/-- The frames that wait for the cortex. -/
def forCortex (b : Daemon) : List MeshFrame := b.inbound ++ b.pending

/-- The frames that wait for the line. -/
def forRadio (b : Daemon) : List MeshFrame := b.link.elim [] fun link => link.tx ++ link.pump.holds

/-- What a step does to the frames on their way. -/
structure Relays (b : Daemon) (r : Daemon × Output) : Prop where
  cortex : b.forCortex ++ r.2.assembled = r.2.taken ++ r.1.forCortex
  radio : r.2.breaks = false →
    (b.forRadio ++ r.2.handed).filter (crosses w) = r.2.written ++ r.1.forRadio.filter (crosses w)
  broken : r.2.breaks = true → r.2.written = [] ∧ r.1.forRadio.Sublist b.forRadio
  encodes : r.2.Encodes w

variable {w} {b : Daemon}

/-- A step in which no link breaks. -/
theorem Relays.lasts {b' : Daemon} {out : Output} (hbreaks : out.breaks = false)
    (hcortex : b.forCortex ++ out.assembled = out.taken ++ b'.forCortex)
    (hradio : (b.forRadio ++ out.handed).filter (crosses w)
      = out.written ++ b'.forRadio.filter (crosses w))
    (hencodes : out.Encodes w) : Relays w b (b', out) where
  cortex := hcortex
  radio _ := hradio
  broken h := by rw [hbreaks] at h; cases h
  encodes := hencodes

theorem Relays.quiet {b' : Daemon} (hcortex : b'.forCortex = b.forCortex)
    (hradio : b'.forRadio = b.forRadio) : Relays w b (b', .quiet) :=
  .lasts rfl (by simp [Output.assembled, Output.taken, hcortex])
    (by simp [Output.handed, Output.written, hradio]) trivial

theorem Relays.retry {b' : Daemon} (wait : ℕ) (hcortex : b'.forCortex = b.forCortex)
    (hradio : b'.forRadio = b.forRadio) : Relays w b (b', .retry wait) :=
  .lasts rfl (by simp [Output.assembled, Output.taken, hcortex])
    (by simp [Output.handed, Output.written, hradio]) trivial

/-- A link that ends takes what it has not written with it. -/
theorem Relays.unlinked {b' : Daemon} {out : Output} (hlink : b'.link = none)
    (hcortex : b'.forCortex = b.forCortex) (hbreaks : out.breaks = true)
    (hassembled : out.assembled = []) (htaken : out.taken = []) (hwritten : out.written = [])
    (hencodes : out.Encodes w) : Relays w b (b', out) where
  cortex := by simp [hassembled, htaken, hcortex]
  radio h := by simp [hbreaks] at h
  broken _ := ⟨hwritten, by simp [forRadio, hlink]⟩
  encodes := hencodes

theorem relays_read {link : Link} (hlink : b.link = some link) (hpending : b.pending = [])
    (chunk : Bytes) : Relays w b (b.read w link chunk) := by
  rw [Daemon.read]
  split
  · exact .unlinked rfl rfl rfl rfl rfl rfl trivial
  · refine .lasts rfl ?_ ?_ trivial
    · simp [forCortex, hpending, Output.assembled, Output.taken]
    · simp [forRadio, hlink, Output.handed, Output.written]

theorem relays_deliver {frame : MeshFrame} {rest : List MeshFrame}
    (hpending : b.pending = frame :: rest) : Relays w b (b.deliver frame rest) := by
  rw [Daemon.deliver]
  split
  · exact .unlinked rfl rfl rfl rfl rfl rfl trivial
  · split
    · exact .quiet (by simp [forCortex, hpending]) rfl
    · exact .quiet rfl rfl

theorem relays_transmit {link : Link} (hlink : b.link = some link) (io : WriteIo) :
    Relays w b (b.transmit w link io) := by
  rw [Daemon.transmit]
  split
  · rename_i frame tx htx
    split
    · rename_i why henc
      have hcrosses : crosses w frame = false := by simp [crosses, henc, Except.isOk, Except.toBool]
      refine .lasts rfl ?_ ?_ trivial
      · simp [forCortex, Output.assembled, Output.taken]
      · simp [forRadio, hlink, htx, hcrosses, Output.handed, Output.written]
    · rename_i wire henc
      have hcrosses : crosses w frame = true := by simp [crosses, henc, Except.isOk, Except.toBool]
      refine .lasts rfl ?_ ?_ henc
      · simp [forCortex, Output.assembled, Output.taken]
      · simp [forRadio, hlink, htx, hcrosses, Output.handed, Output.written]
    · exact .unlinked rfl rfl rfl rfl rfl rfl trivial
  · split
    · exact .unlinked rfl rfl rfl rfl rfl rfl trivial
    · exact .quiet rfl rfl

theorem relays_pump {link : Link} (hlink : b.link = some link) : Relays w b (b.pump link) := by
  rw [Daemon.pump]
  split
  · rename_i frame unread hpump
    split
    · constructor
      · simp [forCortex, Output.assembled, Output.taken]
      · intro h
        cases h
      · intro _
        exact ⟨rfl, by simp [forRadio, hlink, Pump.holds]⟩
      · trivial
    · exact .quiet rfl (by simp [forRadio, hlink, hpump, Pump.holds])
  · rename_i frame unread hpump
    split
    · exact .quiet rfl (by simp [forRadio, hlink, hpump, Pump.holds])
    · exact .quiet rfl rfl
  · exact .quiet rfl rfl

theorem relays_give (frame : MeshFrame) : Relays w b (b.give frame) := by
  have hgiven : ∀ b' : Daemon, b'.forCortex = b.forCortex → b'.forRadio = b.forRadio ++ [frame] →
      Relays w b (b', .given frame) := by
    intro b' hcortex hradio
    refine .lasts rfl ?_ ?_ trivial
    · simp [hcortex, Output.assembled, Output.taken]
    · simp [hradio, Output.handed, Output.written]
  rw [Daemon.give]
  split
  · rename_i link hlink
    split
    · rename_i unread hpump
      exact hgiven _ rfl (by simp [forRadio, hlink, hpump, Pump.holds])
    · rename_i f unread hpump
      exact hgiven _ rfl (by simp [forRadio, hlink, hpump, Pump.holds])
    · exact .quiet rfl rfl
  · exact .quiet rfl rfl

theorem relays_take {frame : MeshFrame} {rest : List MeshFrame}
    (hinbound : b.inbound = frame :: rest) (sent : Bool) :
    Relays w b (b.take w frame rest sent) := by
  have htook : ∀ (b' : Daemon) (s : Option Bytes), b'.inbound = rest → b'.pending = b.pending →
      b'.link = b.link → (Output.took frame s).Encodes w → Relays w b (b', .took frame s) := by
    intro b' s hrest hpending hlink hencodes
    refine .lasts rfl ?_ ?_ hencodes
    · simp [forCortex, hinbound, hrest, hpending, Output.assembled, Output.taken]
    · simp [forRadio, hlink, Output.handed, Output.written]
  rw [Daemon.take]
  split
  · exact htook _ _ rfl rfl rfl trivial
  · split
    · exact htook _ _ rfl rfl rfl trivial
    · rename_i bytes henc
      split
      · exact htook _ _ rfl rfl rfl henc
      · exact htook _ _ rfl rfl rfl trivial
  · exact .quiet rfl rfl

theorem relays_dial (ok : Bool) : Relays w b (b.dial ok) := by
  rw [dial]
  split
  · split
    · exact .quiet rfl rfl
    · exact .retry _ rfl rfl
  · exact .quiet rfl rfl
  · exact .quiet rfl rfl

theorem relays_act (i : Input) : Relays w b (b.act w i) := by
  fun_cases Daemon.act b w i with
  | case2 hlink =>
    have hnone : b.link = none := by simpa using hlink
    refine .lasts rfl ?_ ?_ trivial
    · simp [forCortex, linkUp, Output.assembled, Output.taken]
    · simp [forRadio, linkUp, hnone, Pump.holds, Output.handed, Output.written]
  | case3 => exact .retry _ rfl rfl
  | case4 => exact .quiet rfl (by cases hlink : b.link <;> simp [forRadio, hlink])
  | case5 chunk link hpending hlink => exact relays_read hlink hpending chunk
  | case7 => exact .unlinked rfl rfl rfl rfl rfl rfl trivial
  | case9 link frame rest hpending => exact relays_deliver hpending
  | case11 io link hpending hlink => exact relays_transmit hlink io
  | case13 =>
    cases hlink : b.link with
    | none => exact .quiet rfl rfl
    | some link => exact relays_pump hlink
  | case14 ok => exact relays_dial ok
  | case15 sent frame rest hinbound => exact relays_take hinbound sent
  | case17 bytes frame => exact relays_give frame
  | case19 => exact .quiet rfl rfl
  | _ => exact .quiet rfl rfl

theorem relays_step (i : Input) : Relays w b (b.step w i) := by
  rw [step]
  split
  · exact .quiet rfl rfl
  · exact relays_act i

end Daemon

open Daemon

variable {w} {b : Daemon} {es : List Input}

/-! ### Down the line -/

/-- The bytes of a run in which no link breaks are the encodings of the frames written. -/
theorem line_intact (hlasts : ∀ x ∈ Run.log (Daemon.step w) b es, x.2.breaks = false) :
    ∃ frames : List (Intact w),
      (Run.log (Daemon.step w) b es).flatMap (fun x => x.2.line)
        = (frames.map Intact.wire).flatten ∧
      (Run.log (Daemon.step w) b es).flatMap (fun x => x.2.written) = frames.map Intact.frame := by
  induction es generalizing b with
  | nil => exact ⟨[], rfl, rfl⟩
  | cons e es ih =>
    rw [Run.log_cons, List.forall_mem_cons] at hlasts
    obtain ⟨hbreaks, hlasts⟩ := hlasts
    obtain ⟨frames, hline, hwritten⟩ := ih hlasts
    simp only [Run.log_cons, List.flatMap_cons, hline, hwritten]
    have hencodes := (relays_step (w := w) (b := b) e).encodes
    generalize (Daemon.step w b e).2 = out at hbreaks hencodes
    cases out with
    | wrote frame wire => exact ⟨⟨frame, wire, hencodes⟩ :: frames, rfl, rfl⟩
    | cut => cases hbreaks
    | linkDown => cases hbreaks
    | lagged => cases hbreaks
    | ended => cases hbreaks
    | quiet => exact ⟨frames, rfl, rfl⟩
    | up => exact ⟨frames, rfl, rfl⟩
    | heard => exact ⟨frames, rfl, rfl⟩
    | retry => exact ⟨frames, rfl, rfl⟩
    | given => exact ⟨frames, rfl, rfl⟩
    | took => exact ⟨frames, rfl, rfl⟩

/-- While no link breaks, every frame that has an encoding is written or waits, in order. -/
theorem written_append_forRadio (hlasts : ∀ x ∈ Run.log (Daemon.step w) b es, x.2.breaks = false) :
    (Run.log (Daemon.step w) b es).flatMap (fun x => x.2.written)
        ++ (Run.final (Daemon.step w) b es).forRadio.filter (crosses w)
      = (b.forRadio ++ (Run.log (Daemon.step w) b es).flatMap fun x => x.2.handed).filter
          (crosses w) := by
  have hlasts' : Run.Always (Daemon.step w) b
      (fun _ b e => (Daemon.step w b e).2.breaks = false) es := by
    rintro before e after rfl
    refine hlasts (e, (Daemon.step w (Run.final (Daemon.step w) b before) e).2) ?_
    rw [Run.log_append, Run.log_cons]
    simp
  have hflow := Run.flow_eq (Daemon.step w) (fun b => b.forRadio.filter (crosses w))
    (fun x => x.2.handed.filter (crosses w)) (fun x => x.2.written)
    (fun b e he => by rw [← List.filter_append, (relays_step e).radio he]) hlasts'
  rw [← hflow, List.filter_append, List.filter_flatMap]

/-- What goes out whole is a part of what was there and what the cortex gave, in its order. -/
theorem written_sublist : ((Run.log (Daemon.step w) b es).flatMap fun x => x.2.written).Sublist
    ((b.forRadio ++ (Run.log (Daemon.step w) b es).flatMap fun x => x.2.handed).filter
      (crosses w)) := by
  have hflow := Run.flow_sublist (Daemon.step w) (fun b => b.forRadio.filter (crosses w))
    (fun x => x.2.handed.filter (crosses w)) (fun x => x.2.written)
    (fun b e => by
      rw [← List.filter_append]
      cases hbreaks : (Daemon.step w b e).2.breaks with
      | false => rw [(relays_step e).radio hbreaks]
      | true =>
        obtain ⟨hwritten, hsub⟩ := (relays_step e).broken hbreaks
        rw [hwritten]
        exact (hsub.trans (List.sublist_append_left _ _)).filter _) b es
  rw [List.filter_append, List.filter_flatMap]
  exact (List.sublist_append_left _ _).trans hflow

/-- **Down the line.** Over any number of links, the frames that go out whole are among those that
the cortex gave, in its order and each once. While no link breaks, what a board reads of the line
and what still waits are the frames that were there and that the cortex gave, but for those without
an encoding. -/
theorem down_the_line (hw : w.Lawful) (b : Daemon) (es : List Input) :
    ((Run.log (Daemon.step w) b es).flatMap fun x => x.2.written).Sublist
      ((b.forRadio ++ (Run.log (Daemon.step w) b es).flatMap fun x => x.2.handed).filter
        (crosses w)) ∧
    ∀ d : Deframer, d.WellFormed → d.AtBoundary →
      (∀ x ∈ Run.log (Daemon.step w) b es, x.2.breaks = false) →
      (d.push w ((Run.log (Daemon.step w) b es).flatMap fun x => x.2.line)).2
          ++ (Run.final (Daemon.step w) b es).forRadio.filter (crosses w)
        = (b.forRadio ++ (Run.log (Daemon.step w) b es).flatMap fun x => x.2.handed).filter
            (crosses w) := by
  refine ⟨written_sublist, fun d hwf hboundary hlasts => ?_⟩
  obtain ⟨frames, hline, hwritten⟩ := line_intact hlasts
  have hread : (d.push w (frames.map Intact.wire).flatten).2 = frames.map Intact.frame := by
    have hsegments := hboundary.push_segments hw hwf (frames.map Segment.intact)
    rw [List.map_map, List.map_map] at hsegments
    exact hsegments.trans (List.flatMap_pure_eq_map _ _)
  rw [hline, hread, ← hwritten, written_append_forRadio hlasts]

/-- A message of the cortex goes all the way down. -/
def messageDown : List Input :=
  [.openPort true, .dial true, .message [1, 1, 2, 3, 0], .pump, .pump, .transmit .ok]

theorem down_the_line_messageDown :
    (Deframer.new.push publishedWire ((Run.log (Daemon.step publishedWire) (Daemon.new (some true))
      messageDown).flatMap fun x => x.2.line)).2 = [⟨1, .gossip, 2, 3, []⟩] := by
  have hdown := (down_the_line publishedWire_lawful (Daemon.new (some true)) messageDown).2 .new
    wellFormed_new ⟨rfl, rfl⟩ (by decide +kernel)
  have hgiven : ((Daemon.new (some true)).forRadio ++ (Run.log (Daemon.step publishedWire)
      (Daemon.new (some true)) messageDown).flatMap fun x => x.2.handed).filter
        (crosses publishedWire)
      = [⟨1, .gossip, 2, 3, []⟩] := by decide +kernel
  have hwaits : (Run.final (Daemon.step publishedWire) (Daemon.new (some true))
      messageDown).forRadio = [] := by
    decide +kernel
  rw [hgiven, hwaits] at hdown
  rw [List.filter_nil, List.append_nil] at hdown
  exact hdown

/-! ### Up the line -/

/-- The counters of a deframer that `absorb_deframer_delta` adds up. -/
inductive Counter
  | crcFail
  | decodeFail
  | resyncs
  | oversizeDrops

def LinkStats.total (stats : LinkStats) : Counter → UInt64
  | .crcFail => stats.crcFail
  | .decodeFail => stats.decodeFail
  | .resyncs => stats.resyncs
  | .oversizeDrops => stats.oversizeDrops

def countOf (stats : DeframerStats) : Counter → UInt64
  | .crcFail => stats.crcFail
  | .decodeFail => stats.decodeFail
  | .resyncs => stats.resyncs
  | .oversizeDrops => stats.oversizeDrops

theorem LinkStats.total_absorbDeframerDelta (stats : LinkStats) (current last : DeframerStats)
    (c : Counter) : (stats.absorbDeframerDelta current last).total c
      = stats.total c + (countOf current c - countOf last c) := by
  cases c <;> rfl

/-- The bytes of a read. -/
def Output.chunk : Output → Bytes
  | .heard chunk _ => chunk
  | _ => []

/-- A step that neither opens a link nor reads of one. -/
structure Still (b : Daemon) (r : Daemon × Output) : Prop where
  link : ∀ link', r.1.link = some link' → ∃ link, b.link = some link ∧
    link'.deframer = link.deframer ∧ link'.lastStats = link.lastStats ∧
    (link'.pump = .ended → link.pump = .ended ∨ r.2 = .lagged)
  total : ∀ c, r.1.stats.total c = b.stats.total c
  up : r.2 ≠ .up
  chunk : r.2.chunk = []
  assembled : r.2.assembled = []
  cortex : r.1.cortex = .returned ∨ r.1.cortex = .dialing false →
    b.cortex = .returned ∨ b.cortex = .dialing false
  down : r.1.down = true → b.down = true ∨ b.cortex = .returned ∨
    ∃ link, b.link = some link ∧ link.pump = .ended

theorem Still.quiet (b : Daemon) : Still b (b, .quiet) :=
  ⟨fun link h => ⟨link, h, rfl, rfl, Or.inl⟩, fun _ => rfl, nofun, rfl, rfl, id, Or.inl⟩

namespace Daemon

theorem still_linkDown (link : Link) {out : Output} (hup : out ≠ .up) (hchunk : out.chunk = [])
    (hassembled : out.assembled = []) : Still b (b.linkDown link, out) :=
  ⟨nofun, fun c => (by cases c <;> rfl), hup, hchunk, hassembled, id, Or.inl⟩

/-- The link goes on, and its pump does not end. -/
theorem still_link {link link' : Link} {b' : Daemon} {out : Output} (hlink : b.link = some link)
    (hlink' : b'.link = some link') (hdeframer : link'.deframer = link.deframer)
    (hlast : link'.lastStats = link.lastStats)
    (hpump : link'.pump = .ended → link.pump = .ended ∨ out = .lagged)
    (htotal : ∀ c, b'.stats.total c = b.stats.total c) (hup : out ≠ .up) (hchunk : out.chunk = [])
    (hassembled : out.assembled = []) (hcortex : b'.cortex = b.cortex) (hdown : b'.down = b.down) :
    Still b (b', out) where
  link link'' h := by
    obtain rfl := Option.some.inj (hlink'.symm.trans h)
    exact ⟨link, hlink, hdeframer, hlast, hpump⟩
  total := htotal
  up := hup
  chunk := hchunk
  assembled := hassembled
  cortex h := by rwa [hcortex] at h
  down h := Or.inl (hdown ▸ h)

theorem still_deliver {link : Link} (hlink : b.link = some link) (frame : MeshFrame)
    (rest : List MeshFrame) : Still b (b.deliver frame rest) := by
  have hcounted : ∀ c, { b.stats with rxFrames := b.stats.rxFrames + 1 }.total c
      = b.stats.total c := fun c => by cases c <;> rfl
  rw [deliver]
  split
  · rename_i hreturned
    exact ⟨nofun, fun c => (by cases c <;> rfl), nofun, rfl, rfl, id,
      fun _ => Or.inr (Or.inl hreturned)⟩
  · split
    · exact still_link hlink hlink rfl rfl Or.inl hcounted nofun rfl rfl rfl rfl
    · exact .quiet b

theorem still_transmit {link : Link} (hlink : b.link = some link) (io : WriteIo) :
    Still b (b.transmit w link io) := by
  rw [transmit]
  split
  · split
    · exact still_link hlink rfl rfl rfl Or.inl (fun _ => rfl) nofun rfl rfl rfl rfl
    · exact still_link hlink rfl rfl rfl Or.inl (fun c => (by cases c <;> rfl)) nofun rfl rfl rfl
        rfl
    · exact still_linkDown link nofun rfl rfl
  · split
    · rename_i hended
      exact ⟨nofun, fun c => (by cases c <;> rfl), nofun, rfl, rfl, id,
        fun _ => Or.inr (Or.inr ⟨link, hlink, hended⟩)⟩
    · exact .quiet b

theorem still_pump {link : Link} (hlink : b.link = some link) : Still b (b.pump link) := by
  rw [Daemon.pump]
  split
  · split
    · exact still_link hlink rfl rfl rfl (fun _ => Or.inr rfl) (fun _ => rfl) nofun rfl rfl rfl rfl
    · exact still_link hlink rfl rfl rfl nofun (fun _ => rfl) nofun rfl rfl rfl rfl
  · split
    · exact still_link hlink rfl rfl rfl nofun (fun _ => rfl) nofun rfl rfl rfl rfl
    · exact .quiet b
  · exact .quiet b

theorem still_give (frame : MeshFrame) : Still b (b.give frame) := by
  rw [give]
  split
  · rename_i link hlink
    split
    · exact still_link hlink rfl rfl rfl nofun (fun _ => rfl) nofun rfl rfl rfl rfl
    · exact still_link hlink rfl rfl rfl nofun (fun _ => rfl) nofun rfl rfl rfl rfl
    · exact .quiet b
  · exact .quiet b

/-- A step of `cortex_link` that is not a return. -/
theorem still_cortex {b' : Daemon} {out : Output} (hlink : b'.link = b.link)
    (hstats : b'.stats = b.stats) (hdown : b'.down = b.down) (hup : out ≠ .up)
    (hchunk : out.chunk = []) (hassembled : out.assembled = [])
    (hcortex : b'.cortex = .returned ∨ b'.cortex = .dialing false →
      b.cortex = .returned ∨ b.cortex = .dialing false) : Still b (b', out) where
  link link h := ⟨link, hlink ▸ h, rfl, rfl, Or.inl⟩
  total c := by rw [hstats]
  up := hup
  chunk := hchunk
  assembled := hassembled
  cortex := hcortex
  down h := Or.inl (hdown ▸ h)

theorem still_take (frame : MeshFrame) (rest : List MeshFrame) (sent : Bool) :
    Still b (b.take w frame rest sent) := by
  rw [Daemon.take]
  split
  · exact still_cortex rfl rfl rfl nofun rfl rfl id
  · split
    · exact still_cortex rfl rfl rfl nofun rfl rfl id
    · split
      · exact still_cortex rfl rfl rfl nofun rfl rfl id
      · exact still_cortex rfl rfl rfl nofun rfl rfl nofun
  · exact .quiet b

theorem still_dial (ok : Bool) : Still b (b.dial ok) := by
  rw [dial]
  split
  · split
    · exact still_cortex rfl rfl rfl nofun rfl rfl nofun
    · exact still_cortex rfl rfl rfl nofun rfl rfl id
  · rename_i hdialing
    exact still_cortex rfl rfl rfl nofun rfl rfl fun _ => Or.inr hdialing
  · exact .quiet b

/-- What a step can be. -/
theorem act_cases (i : Input) :
    b.act w i = (b.linkUp, .up) ∨
    (∃ link chunk, b.link = some link ∧ b.act w i = b.hear w link chunk) ∨
    Still b (b.act w i) := by
  fun_cases Daemon.act b w i with
  | case2 => exact Or.inl rfl
  | case5 chunk link hpending hlink =>
    rw [Daemon.read]
    split
    · exact Or.inr (Or.inr (still_linkDown link nofun rfl rfl))
    · exact Or.inr (Or.inl ⟨link, chunk, hlink, rfl⟩)
  | case3 => exact Or.inr (Or.inr (still_cortex rfl rfl rfl nofun rfl rfl id))
  | case4 =>
    refine Or.inr (Or.inr ?_)
    cases hlink : b.link with
    | none => exact still_cortex (by simp [hlink]) rfl rfl nofun rfl rfl id
    | some link =>
      exact still_link hlink rfl rfl rfl Or.inl (fun _ => rfl) nofun rfl rfl rfl rfl
  | case7 link => exact Or.inr (Or.inr (still_linkDown link nofun rfl rfl))
  | case9 link frame rest hpending hlink => exact Or.inr (Or.inr (still_deliver hlink frame rest))
  | case11 io link hpending hlink => exact Or.inr (Or.inr (still_transmit hlink io))
  | case13 =>
    refine Or.inr (Or.inr ?_)
    cases hlink : b.link with
    | none => exact .quiet b
    | some link => exact still_pump hlink
  | case14 ok => exact Or.inr (Or.inr (still_dial ok))
  | case15 sent frame rest => exact Or.inr (Or.inr (still_take frame rest sent))
  | case17 bytes frame => exact Or.inr (Or.inr (still_give frame))
  | case19 => exact Or.inr (Or.inr (still_cortex rfl rfl rfl nofun rfl rfl nofun))
  | _ => exact Or.inr (Or.inr (.quiet b))

theorem step_cases (i : Input) :
    b.step w i = (b.linkUp, .up) ∨
    (∃ link chunk, b.link = some link ∧ b.step w i = b.hear w link chunk) ∨
    Still b (b.step w i) := by
  rw [step]
  split
  · exact Or.inr (Or.inr (.quiet b))
  · exact act_cases i

end Daemon

/-- The bytes read of each link; `cur` was read of the present one before. -/
def lines (cur : Bytes) : List (Input × Output) → List Bytes
  | [] => [cur]
  | (_, .up) :: log => cur :: lines [] log
  | (_, .heard chunk _) :: log => lines (cur ++ chunk) log
  | _ :: log => lines cur log

/-- The deframer of the link is that of the bytes `cur`, and its counters were absorbed. -/
def Reads (w : Wire) (b : Daemon) (cur : Bytes) : Prop :=
  ∀ link, b.link = some link →
    link.deframer = (push w .new cur).1 ∧ link.lastStats = link.deframer.stats

theorem reads_new (address : Option Bool) : Reads w (Daemon.new address) [] := nofun

theorem Reads.linkUp : Reads w b.linkUp [] := by
  intro link h
  cases h
  exact ⟨rfl, rfl⟩

theorem Still.reads {r : Daemon × Output} {cur : Bytes} (h : Still b r) (hreads : Reads w b cur) :
    Reads w r.1 cur := by
  intro link' hlink'
  obtain ⟨link, hlink, hdeframer, hlast, -⟩ := h.link link' hlink'
  rw [hdeframer, hlast]
  exact hreads link hlink

/-- A read goes on where the one before it ended. -/
theorem Reads.hear {cur : Bytes} (h : Reads w b cur) {link : Link} (hlink : b.link = some link)
    (chunk : Bytes) :
    Reads w (b.hear w link chunk).1 (cur ++ chunk) ∧
      (push w .new (cur ++ chunk)).2 = (push w .new cur).2 ++ (b.hear w link chunk).2.assembled ∧
      ∀ c, (b.hear w link chunk).1.stats.total c + countOf (push w .new cur).1.stats c
        = b.stats.total c + countOf (push w .new (cur ++ chunk)).1.stats c := by
  obtain ⟨hdeframer, hlast⟩ := h link hlink
  rw [hdeframer] at hlast
  refine ⟨?_, ?_, fun c => ?_⟩
  · intro link' hlink'
    cases hlink'
    exact ⟨by rw [hdeframer, push_append], rfl⟩
  · rw [push_append, Daemon.hear, hdeframer]
    rfl
  · rw [Daemon.hear, LinkStats.total_absorbDeframerDelta, hdeframer, hlast, push_append]
    grind

theorem lines_still {cur : Bytes} {log : List (Input × Output)} {x : Input × Output}
    (hup : x.2 ≠ .up) (hchunk : x.2.chunk = []) : lines cur (x :: log) = lines cur log := by
  obtain ⟨e, out⟩ := x
  cases out with
  | up => exact absurd rfl hup
  | heard chunk frames =>
    obtain rfl : chunk = [] := hchunk
    rw [lines, List.append_nil]
  | _ => rfl

/-- What was assembled is what a new deframer for each link makes of its bytes. -/
theorem assembled_lines (es : List Input) {cur : Bytes} (h : Reads w b cur) :
    (push w .new cur).2 ++ (Run.log (Daemon.step w) b es).flatMap (fun x => x.2.assembled)
      = (lines cur (Run.log (Daemon.step w) b es)).flatMap fun bytes => (push w .new bytes).2 := by
  induction es generalizing b cur with
  | nil => simp [lines]
  | cons e es ih =>
    rw [Run.log_cons, List.flatMap_cons]
    rcases step_cases (w := w) (b := b) e with hstep | ⟨link, chunk, hlink, hstep⟩ | hstill
    · rw [hstep, lines, List.flatMap_cons, ← ih Reads.linkUp]
      simp [Output.assembled, push]
    · obtain ⟨hreads, hframes, -⟩ := h.hear hlink chunk
      rw [hstep, ← List.append_assoc, ← hframes, ih hreads]
      rfl
    · rw [lines_still hstill.up hstill.chunk, ← ih (hstill.reads h), hstill.assembled]
      rfl

/-- **Totals.** The counters are the sums of those of the deframers, a new one for each link. -/
theorem totals {cur : Bytes} (h : Reads w b cur) (c : Counter) :
    (Run.final (Daemon.step w) b es).stats.total c + countOf (push w .new cur).1.stats c
      = b.stats.total c + ((lines cur (Run.log (Daemon.step w) b es)).map fun bytes =>
          countOf (push w .new bytes).1.stats c).foldr (· + ·) 0 := by
  induction es generalizing b cur with
  | nil => simp [lines]
  | cons e es ih =>
    rw [Run.log_cons, Run.final_cons]
    rcases step_cases (w := w) (b := b) e with hstep | ⟨link, chunk, hlink, hstep⟩ | hstill
    · have hnil : countOf (push w .new []).1.stats c = 0 := by cases c <;> rfl
      have hrest := ih (b := b.linkUp) Reads.linkUp
      rw [hnil] at hrest
      rw [hstep, lines, List.map_cons, List.foldr_cons]
      have hsame : b.linkUp.stats.total c = b.stats.total c := rfl
      grind
    · obtain ⟨hreads, -, hcounts⟩ := h.hear hlink chunk
      have hrest := ih hreads
      have hchunk := hcounts c
      rw [hstep]
      have hlines : lines cur ((e, (b.hear w link chunk).2) ::
          Run.log (Daemon.step w) (b.hear w link chunk).1 es)
          = lines (cur ++ chunk) (Run.log (Daemon.step w) (b.hear w link chunk).1 es) := rfl
      rw [hlines]
      grind
    · rw [lines_still hstill.up hstill.chunk, ih (hstill.reads h), hstill.total c]

/-- Bytes without a delimiter complete no frame. -/
theorem push_tail {tail : Bytes} (hzero : 0 ∉ tail) (d : Deframer) : (d.push w tail).2 = [] := by
  induction tail generalizing d with
  | nil => rfl
  | cons byte tail ih =>
    obtain ⟨hbyte, htail⟩ : ¬ 0 = byte ∧ 0 ∉ tail := by simpa using hzero
    have hnone : (d.pushByte w byte).2 = none := by
      simp only [pushByte, if_neg (Ne.symm hbyte)]
      split
      · rfl
      · split <;> rfl
    rw [push_cons, hnone, ih htail]
    rfl

/-- What was assembled was taken for the cortex or waits for it. -/
theorem taken_append_forCortex :
    b.forCortex ++ (Run.log (Daemon.step w) b es).flatMap (fun x => x.2.assembled)
      = (Run.log (Daemon.step w) b es).flatMap (fun x => x.2.taken)
        ++ (Run.final (Daemon.step w) b es).forCortex :=
  Run.flow_eq (Daemon.step w) forCortex (fun x => x.2.assembled) (fun x => x.2.taken)
    (fun _ e _ => (relays_step e).cortex) (Run.Always.true es)

theorem encodes_of_mem {x : Input × Output} (hx : x ∈ Run.log (Daemon.step w) b es) :
    x.2.Encodes w := by
  obtain ⟨l₁, l₂, hlog⟩ := List.append_of_mem hx
  obtain ⟨before, after, -, -, hout, -⟩ := Run.exists_of_log_eq (Daemon.step w) b hlog
  rw [hout]
  exact (relays_step x.1).encodes

/-- **Up the line.** Over any number of links, whatever ended them: what boards sent and noise
yielded was taken for the cortex, in order and each once, or waits; and what went to the cortex
decodes to the frame that was taken. -/
theorem up_the_line (hw : w.Lawful) (address : Option Bool) (es : List Input)
    (sent : List (List (Segment w) × Bytes)) (htail : ∀ x ∈ sent, 0 ∉ x.2)
    (hlines : lines [] (Run.log (Daemon.step w) (Daemon.new address) es)
      = [] :: sent.map fun x => (x.1.map Segment.wire).flatten ++ x.2) :
    sent.flatMap (fun x => (x.1.map Segment.yields).flatten)
      = (Run.log (Daemon.step w) (Daemon.new address) es).flatMap (fun x => x.2.taken)
        ++ (Run.final (Daemon.step w) (Daemon.new address) es).forCortex ∧
    ∀ x ∈ Run.log (Daemon.step w) (Daemon.new address) es, ∀ frame bytes,
      x.2 = .took frame (some bytes) → decodeDatagram w bytes = .ok frame := by
  constructor
  · have hyields : ∀ x ∈ sent, (push w .new ((x.1.map Segment.wire).flatten ++ x.2)).2
        = (x.1.map Segment.yields).flatten := by
      intro x hx
      rw [push_append, push_tail (htail x hx), List.append_nil]
      exact AtBoundary.push_segments hw ⟨rfl, rfl⟩ wellFormed_new x.1
    have hassembled := assembled_lines es (reads_new (w := w) address)
    rw [hlines, List.flatMap_cons, List.flatMap_map, List.flatMap_congr hyields] at hassembled
    rw [← taken_append_forCortex]
    exact (List.append_cancel_left hassembled).symm
  · intro x hx frame bytes htook
    have hencodes := encodes_of_mem hx
    rw [htook] at hencodes
    exact decodeDatagram_encodeDatagram hw hencodes

/-- A frame of a board, read in two pieces, goes all the way up. -/
def frameUp : List Input :=
  [.openPort true, .read [5, 1, 1, 2], .read [3, 5, 101, 62, 87, 107, 0], .deliver, .dial true,
    .take true]

theorem up_the_line_frameUp :
    [emptyFrame.frame]
      = (Run.log (Daemon.step publishedWire) (Daemon.new (some true)) frameUp).flatMap
          (fun x => x.2.taken)
        ++ (Run.final (Daemon.step publishedWire) (Daemon.new (some true)) frameUp).forCortex :=
  (up_the_line publishedWire_lawful (some true) frameUp [([.intact emptyFrame], [])] (by decide)
    (by decide +kernel)).1

/-! ### The end -/

/-- The last link that came up fell behind. -/
def FellBehind (past : List (Input × Output)) : Prop :=
  Run.Since (fun x => x.2 = .lagged) (fun x => x.2 = .up) past

/-- What the end of the daemon would rest on: that the address of the cortex does not parse, which
is `P`, or that the last link fell behind. -/
structure Grounds (P : Prop) (past : List (Input × Output)) (b : Daemon) : Prop where
  cortex : b.cortex = .returned ∨ b.cortex = .dialing false → P
  pump : ∀ link, b.link = some link → link.pump = .ended → FellBehind past
  down : b.down = true → P ∨ FellBehind past

theorem Grounds.step {P : Prop} {past : List (Input × Output)} (h : Grounds P past b) (e : Input) :
    Grounds P (past ++ [(e, (Daemon.step w b e).2)]) (Daemon.step w b e).1 := by
  have hmore : (Daemon.step w b e).2 ≠ .up → FellBehind past →
      FellBehind (past ++ [(e, (Daemon.step w b e).2)]) :=
    fun hup hbehind => Run.since_concat.mpr (Or.inr ⟨hbehind, hup⟩)
  rcases step_cases (w := w) (b := b) e with hstep | ⟨link, chunk, hlink, hstep⟩ | hstill
  · have hruns : b.down = false := by
      cases hdown : b.down with
      | false => rfl
      | true => simp [Daemon.step, hdown] at hstep
    rw [hstep]
    refine ⟨h.cortex, fun link hlink hpump => ?_, fun hdown => ?_⟩
    · cases hlink
      cases hpump
    · rw [show b.linkUp.down = b.down from rfl, hruns] at hdown
      cases hdown
  · rw [hstep] at hmore ⊢
    have hheard := hmore nofun
    refine ⟨h.cortex, fun link' hlink' hpump => ?_, fun hdown => (h.down hdown).imp_right hheard⟩
    cases hlink'
    exact hheard (h.pump link hlink hpump)
  · have hstays := hmore hstill.up
    refine ⟨fun hc => h.cortex (hstill.cortex hc), fun link' hlink' hpump => ?_, fun hdown => ?_⟩
    · obtain ⟨link, hlink, -, -, hended⟩ := hstill.link link' hlink'
      rcases hended hpump with hpump | hlagged
      · exact hstays (h.pump link hlink hpump)
      · exact Run.since_concat.mpr (Or.inl hlagged)
    · rcases hstill.down hdown with hdown | hreturned | ⟨link, hlink, hpump⟩
      · exact (h.down hdown).imp_right hstays
      · exact Or.inl (h.cortex (Or.inl hreturned))
      · exact Or.inr (hstays (h.pump link hlink hpump))

theorem grounds_new (address : Option Bool) :
    Grounds (address = some false) [] (Daemon.new address) where
  cortex h := by
    match address, h with
    | some false, _ => rfl
  pump _ h := by cases h
  down h := by cases h

/-- Messages that come in before the pump takes its turn are unread. -/
theorem final_messages (link : Link) {unread frames : List MeshFrame} {messages : List Bytes}
    (hdown : b.down = false) (hcortex : b.cortex = .joined) (hlink : b.link = some link)
    (hpump : link.pump = .receiving unread)
    (hmessages : messages.map (decodeDatagram w) = frames.map .ok) :
    Run.final (Daemon.step w) b (messages.map .message)
      = { b with link := some { link with pump := .receiving (unread ++ frames) } } := by
  induction messages generalizing b link unread frames with
  | nil =>
    obtain rfl : frames = [] := by simpa using hmessages
    rw [List.append_nil, ← hpump]
    exact congrArg (fun l => { b with link := l }) hlink
  | cons message messages ih =>
    cases frames with
    | nil => simp at hmessages
    | cons frame frames =>
      obtain ⟨hmessage, hrest⟩ := List.cons.inj hmessages
      have hstep : (Daemon.step w b (.message message)).1
          = { b with link := some { link with pump := .receiving (unread ++ [frame]) } } := by
        simp [Daemon.step, hdown, act, hcortex, hmessage, give, hlink, hpump]
      rw [List.map_cons, Run.final_cons, hstep, List.append_cons unread frame frames]
      exact ih { link with pump := .receiving (unread ++ [frame]) } hdown hcortex rfl rfl hrest

/-- A link whose pump has ended writes what is in its queue, and then the daemon ends. -/
theorem drained (link : Link) (hdown : b.down = false) (hpending : b.pending = [])
    (hlink : b.link = some link) (hpump : link.pump = .ended) :
    (Run.final (Daemon.step w) b
      (List.replicate (link.tx.length + 1) (.transmit .ok))).down = true := by
  induction htx : link.tx generalizing b link with
  | nil => simp [Daemon.step, hdown, act, hlink, hpending, transmit, htx, hpump, close]
  | cons frame tx ih =>
    rw [List.length_cons, List.replicate_succ, Run.final_cons]
    cases henc : encodeFrame w frame with
    | error why =>
      have hstep : (Daemon.step w b (.transmit .ok)).1
          = { b with link := some { link with tx } } := by
        simp [Daemon.step, hdown, act, hlink, hpending, transmit, htx, henc]
      rw [hstep]
      exact ih { link with tx } hdown hpending rfl hpump rfl
    | ok wire =>
      have hstep : (Daemon.step w b (.transmit .ok)).1 = { b with
          link := some { link with tx }
          stats := { b.stats with txFrames := b.stats.txFrames + 1 } } := by
        simp [Daemon.step, hdown, act, hlink, hpending, transmit, htx, henc]
      rw [hstep]
      exact ih { link with tx } hdown hpending rfl hpump rfl

/-- **The end.** In every run the daemon ends only where the address of the cortex does not parse,
or where the last link fell behind; and it does end where more messages than the channel holds come
in between two turns of the pump, however idle the link is. -/
theorem ends_only :
    (∀ (address : Option Bool) (es : List Input),
      (Run.final (Daemon.step w) (Daemon.new address) es).down = true →
      address = some false ∨ FellBehind (Run.log (Daemon.step w) (Daemon.new address) es)) ∧
    ∀ (b : Daemon) (link : Link) (unread frames : List MeshFrame) (messages : List Bytes),
      b.down = false → b.cortex = .joined → b.pending = [] → b.link = some link →
      link.pump = .receiving unread → messages.map (decodeDatagram w) = frames.map .ok →
      txBound < (unread ++ frames).length →
      (Run.final (Daemon.step w) b (messages.map .message ++
        .pump :: List.replicate (link.tx.length + 1) (.transmit .ok))).down = true := by
  refine ⟨fun address es hdown => ?_, ?_⟩
  · have hgrounds := Run.invariant (I := Grounds (address = some false)) (grounds_new address)
      (fun _ _ e h _ => h.step (w := w) e) (Run.Always.true es)
    exact hgrounds.down hdown
  intro b link unread frames messages hdown hcortex hpending hlink hpump hmessages hmany
  rw [Run.final_append, final_messages link hdown hcortex hlink hpump hmessages, Run.final_cons]
  obtain ⟨frame, rest, hunread⟩ : ∃ frame rest, unread ++ frames = frame :: rest := by
    cases h : unread ++ frames with
    | nil => simp [h] at hmany
    | cons frame rest => exact ⟨frame, rest, rfl⟩
  rw [hunread] at hmany ⊢
  have hlag : (Daemon.step w
      { b with link := some { link with pump := .receiving (frame :: rest) } } .pump).1
      = { b with link := some { link with pump := .ended } } := by
    simp only [Daemon.step, hdown, act, Daemon.pump, Option.elim_some, if_pos hmany,
      Bool.false_eq_true, if_false]
  rw [hlag]
  exact drained { link with pump := .ended } hdown hpending rfl rfl

/-- Sixty-five messages come in for an idle link. -/
def burst : List Input :=
  .openPort true :: .dial true ::
    ((List.replicate 65 [1, 1, 2, 3, 0]).map .message ++ [.pump, .transmit .ok])

theorem ends_only_burst :
    (Run.final (Daemon.step publishedWire) (Daemon.new (some true)) burst).down = true ∧
      FellBehind (Run.log (Daemon.step publishedWire) (Daemon.new (some true)) burst) := by
  have hmessages : (List.replicate 65 [1, 1, 2, 3, 0]).map (decodeDatagram publishedWire)
      = (List.replicate 65 ⟨1, .gossip, 2, 3, []⟩).map .ok := by
    rw [List.map_replicate, List.map_replicate]
    decide +kernel
  have hdown : (Run.final (Daemon.step publishedWire) (Daemon.new (some true)) burst).down
      = true := by
    rw [burst, Run.final_cons, Run.final_cons]
    exact ends_only.2 _ ⟨.new, ⟨0, 0, 0, 0, 0⟩, [], .receiving [], 0, false⟩ [] _ _ rfl rfl rfl rfl
      rfl hmessages (by decide)
  exact ⟨hdown, (ends_only.1 (some true) burst hdown).resolve_left (by decide)⟩

end ApexOS.Bridge.Line
