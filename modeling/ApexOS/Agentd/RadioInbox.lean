import ApexOS.Agentd.Goal
import ApexOS.Lib.Run
import ApexOS.Mesh.Types
import Mathlib.Data.List.ReduceOption
import Mathlib.Data.List.Nodup
import Mathlib.Logic.Function.Basic

/-!
# The radio inbox

What the board has heard for this node comes over USB, and is kept on the board until the daemon
tells it that it has accepted it; only then is the sender told. The daemon writes it to a file
first. What comes again, as the board tries until it is told, is known by that file: it is accepted
again and not delivered again.

Several bridges may be connected, each a task of its own; between the look at the file and the line
that is written another one may come. A write may fail and leave something behind, and the daemon
may be gone at any time.

## Main definitions

* `radioPayloadNeedsAccept`, `payloadKindBody`: what is kept, and what is written of it
* `Store.append`, `Store.isKnown`: the file
* `Daemon.step`: the bridges

## Main results

* `accepted_delivered`: what is accepted was written before, and delivered, unless the daemon was
  gone in between or the write had failed
* `delivered_once`: nothing is delivered twice, if bridges do not come in between and no write that
  fails leaves anything behind
-/

namespace ApexOS.Agentd.RadioInbox

open Mesh

/-! ### What is written -/

/-- `radio_payload_needs_accept`. -/
def radioPayloadNeedsAccept : Payload → Bool
  | .a2a .. | .alarm .. | .dreamDigest .. | .chunkAnnounce .. | .chunkRequest .. | .chunkData ..
  | .courierManifest .. | .courierReceipt .. => true
  | .heartbeat .. | .ack .. | .provision .. | .brainstemStatus .. => false

/-- `payload_kind_body`; `lossy` is `String::from_utf8_lossy`. -/
def payloadKindBody (lossy : Bytes → String) : Payload → Option (String × String)
  | .a2a body => some ("A2A", lossy body)
  | .alarm code detail => some ("Alarm", Nat.repr code.toNat ++ ":" ++ detail)
  | .dreamDigest .. => some ("DreamDigest", "")
  | .chunkAnnounce .. => some ("ChunkAnnounce", "")
  | .chunkRequest .. => some ("ChunkRequest", "")
  | .chunkData .. => some ("ChunkData", "")
  | .courierManifest .. => some ("CourierManifest", "")
  | .courierReceipt .. => some ("CourierReceipt", "")
  | _ => none

theorem isSome_payloadKindBody (lossy : Bytes → String) (p : Payload) :
    (payloadKindBody lossy p).isSome = radioPayloadNeedsAccept p := by
  cases p <;> rfl

/-- A line of the file. -/
structure Entry where
  sender : UInt16
  ctr : UInt64
  kind : String
  body : String
  deriving DecidableEq

namespace Entry

/-- What a line is found by. -/
def key (e : Entry) : UInt16 × UInt64 := (e.sender, e.ctr)

/-- `deliver_radio_a2a` has something to say. -/
def isMessage (e : Entry) : Bool := e.kind = "A2A" && !e.body.toList.all isWhitespace

/-- What `accept_radio_payload` makes of a frame, if it is for it. -/
def ofFrame? (lossy : Bytes → String) (sender : UInt16) (ctr : UInt64) (p : Payload) :
    Option Entry :=
  match payloadKindBody lossy p with
  | none => none
  | some (kind, body) => if radioPayloadNeedsAccept p then some ⟨sender, ctr, kind, body⟩ else none

end Entry

/-! ### The file -/

/-- `radio_inbox.jsonl`: its lines, as far as they can be read, what stands after the last of them,
and whether the whole is UTF-8. -/
structure Store where
  lines : List (Option Entry)
  tail : Option (Option Entry)
  utf8 : Bool

/-- What a write that fails leaves behind: some of the text, all of it but the end of the line, or
a cut character. -/
inductive Remainder
  | text
  | entry
  | bytes
  deriving DecidableEq, Repr

inductive Write
  | whole
  | failed
  | torn (left : Remainder)
  deriving DecidableEq, Repr

namespace Store

def empty : Store := ⟨[], none, true⟩

/-- What can be read. -/
def entries (s : Store) : List Entry :=
  if s.utf8 then (s.lines ++ s.tail.toList).reduceOption else []

/-- The search of `persist_radio_inbox`. -/
def isKnown (s : Store) (key : UInt16 × UInt64) : Bool := s.entries.any fun e => e.key = key

/-- What an entry becomes that is written after what stands there. -/
def joined (s : Store) (e : Entry) : Option Entry := if s.tail.isNone then some e else none

/-- The line that `persist_radio_inbox` writes. -/
def append (s : Store) (e : Entry) : Write → Store
  | .whole => { s with lines := s.lines ++ [s.joined e], tail := none }
  | .failed => s
  | .torn .text => { s with tail := some none }
  | .torn .entry => { s with tail := some (s.joined e) }
  | .torn .bytes => { s with tail := some none, utf8 := false }

end Store

/-! ### The bridges -/

/-- Where a bridge stands with a frame: it has looked and found nothing, or found the pair; it has
written the line; it has delivered what is to be delivered. -/
inductive Phase
  | idle
  | fresh (e : Entry)
  | known (e : Entry)
  | written (e : Entry)
  | told (e : Entry)
  deriving DecidableEq

structure Daemon where
  store : Store
  bridges : ℕ → Phase

inductive Input
  | frame (bridge : ℕ) (sender : UInt16) (ctr : UInt64) (payload : Payload)
  | write (bridge : ℕ) (write : Write)
  | deliver (bridge : ℕ)
  | accept (bridge : ℕ) (sent : Bool)
  | crash
  deriving DecidableEq

inductive Output
  | passed
  | wrote (e : Entry)
  | left (e : Entry)
  | delivered (e : Entry)
  | accepted (e : Entry)
  deriving DecidableEq

namespace Daemon

variable (lossy : Bytes → String) (d : Daemon)

/-- A bridge goes on. -/
def goTo (bridge : ℕ) (phase : Phase) : Daemon :=
  { d with bridges := Function.update d.bridges bridge phase }

/-- `handle_mesh_bridge` and `accept_radio_payload`. -/
def step : Input → Daemon × Output
  | .frame bridge sender ctr payload =>
    match d.bridges bridge, Entry.ofFrame? lossy sender ctr payload with
    | .idle, some e =>
      (d.goTo bridge (if d.store.isKnown e.key then .known e else .fresh e), .passed)
    | _, _ => (d, .passed)
  | .write bridge write =>
    match d.bridges bridge with
    | .fresh e =>
      let d := { d with store := d.store.append e write }
      match write with
      | .whole => (d.goTo bridge (.written e), .wrote e)
      | .torn .entry => (d.goTo bridge .idle, .left e)
      | _ => (d.goTo bridge .idle, .passed)
    | _ => (d, .passed)
  | .deliver bridge =>
    match d.bridges bridge with
    | .written e => (d.goTo bridge (.told e), if e.isMessage then .delivered e else .passed)
    | _ => (d, .passed)
  -- `host_accept_frame`
  | .accept bridge sent =>
    match d.bridges bridge with
    | .known e | .told e => (d.goTo bridge .idle, if sent then .accepted e else .passed)
    | _ => (d, .passed)
  | .crash => ({ d with bridges := fun _ => .idle }, .passed)

/-- A daemon with an empty file and no bridge at work. -/
def new : Daemon := ⟨.empty, fun _ => .idle⟩

end Daemon

/-! ### What was done -/

abbrev Past := List (Input × Output)

def Wrote (past : Past) (e : Entry) : Prop := ∃ x ∈ past, x.2 = .wrote e

def Left (past : Past) (e : Entry) : Prop := ∃ x ∈ past, x.2 = .left e

def Delivered (past : Past) (e : Entry) : Prop := ∃ x ∈ past, x.2 = .delivered e

/-- The daemon was gone after an entry was written. -/
def Cut (past : Past) (e : Entry) : Prop :=
  ∃ before x after, past = before ++ x :: after ∧ x.2 = .wrote e ∧ ∃ y ∈ after, y.1 = .crash

section

variable {past : Past} {x : Input × Output} {e : Entry}

theorem wrote_concat : Wrote (past ++ [x]) e ↔ Wrote past e ∨ x.2 = .wrote e := by
  simp only [Wrote, List.mem_append, List.mem_singleton]
  constructor
  · rintro ⟨y, hy | rfl, hout⟩
    · exact .inl ⟨y, hy, hout⟩
    · exact .inr hout
  · rintro (⟨y, hy, hout⟩ | hout)
    · exact ⟨y, .inl hy, hout⟩
    · exact ⟨x, .inr rfl, hout⟩

theorem Wrote.concat (h : Wrote past e) : Wrote (past ++ [x]) e := wrote_concat.mpr (.inl h)

theorem Left.concat (h : Left past e) : Left (past ++ [x]) e := by
  obtain ⟨y, hy, hout⟩ := h
  exact ⟨y, List.mem_append_left _ hy, hout⟩

theorem Delivered.concat (h : Delivered past e) : Delivered (past ++ [x]) e := by
  obtain ⟨y, hy, hout⟩ := h
  exact ⟨y, List.mem_append_left _ hy, hout⟩

theorem Cut.concat (h : Cut past e) : Cut (past ++ [x]) e := by
  obtain ⟨before, y, after, rfl, hout, z, hz, hcrash⟩ := h
  exact ⟨before, y, after ++ [x], by simp, hout, z, List.mem_append_left _ hz, hcrash⟩

theorem Wrote.cut (h : Wrote past e) (hx : x.1 = .crash) : Cut (past ++ [x]) e := by
  obtain ⟨y, hy, hout⟩ := h
  obtain ⟨before, after, rfl⟩ := List.append_of_mem hy
  exact ⟨before, y, after ++ [x], by simp, hout, x, by simp, hx⟩

end

/-! ### What is accepted -/

section

variable {lossy : Bytes → String} {past : Past} {d : Daemon}

/-- What the past says of the file and of the bridges. -/
structure Sound (past : Past) (d : Daemon) : Prop where
  lines : ∀ e, some e ∈ d.store.lines ++ d.store.tail.toList → Wrote past e ∨ Left past e
  known : ∀ b e, d.bridges b = .known e → ∃ e', e'.key = e.key ∧ (Wrote past e' ∨ Left past e')
  written : ∀ b e, d.bridges b = .written e → Wrote past e
  told : ∀ b e, d.bridges b = .told e → Wrote past e ∧ (e.isMessage = true → Delivered past e)
  owed : ∀ e, Wrote past e → e.isMessage = true →
    Delivered past e ∨ Cut past e ∨ ∃ b, d.bridges b = .written e

theorem sound_new : Sound [] .new where
  lines e he := absurd he (by simp [Daemon.new, Store.empty])
  known b e h := by cases h
  written b e h := by cases h
  told b e h := by cases h
  owed e h := by
    obtain ⟨x, hx, -⟩ := h
    exact absurd hx List.not_mem_nil

theorem update_eq_iff {bridges : ℕ → Phase} {b b' : ℕ} {phase p : Phase} :
    Function.update bridges b phase b' = p ↔ b' = b ∧ phase = p ∨ b' ≠ b ∧ bridges b' = p := by
  rcases eq_or_ne b' b with rfl | hne
  · simp
  · simp [hne]

/-- A bridge goes on, and nothing else happens to the others. -/
theorem Sound.move (h : Sound past d) {s : Store} {b : ℕ} {phase : Phase} {x : Input × Output}
    (hlines : ∀ e, some e ∈ s.lines ++ s.tail.toList →
      Wrote (past ++ [x]) e ∨ Left (past ++ [x]) e)
    (hwrote : ∀ e, x.2 = .wrote e ↔ phase = .written e)
    (hold : ∀ e, d.bridges b = .written e → e.isMessage = true → x.2 = .delivered e)
    (hknown : ∀ e, phase = .known e → ∃ e', e'.key = e.key ∧ (Wrote past e' ∨ Left past e'))
    (htold : ∀ e, phase = .told e → Wrote past e ∧ (e.isMessage = true → x.2 = .delivered e)) :
    Sound (past ++ [x]) ⟨s, Function.update d.bridges b phase⟩ where
  lines := hlines
  known b' e hphase := by
    obtain ⟨-, hphase⟩ | ⟨-, hphase⟩ := update_eq_iff.mp hphase
    · obtain ⟨e', hkey, he'⟩ := hknown e hphase
      exact ⟨e', hkey, he'.imp Wrote.concat Left.concat⟩
    · obtain ⟨e', hkey, he'⟩ := h.known b' e hphase
      exact ⟨e', hkey, he'.imp Wrote.concat Left.concat⟩
  written b' e hphase := by
    obtain ⟨-, hphase⟩ | ⟨-, hphase⟩ := update_eq_iff.mp hphase
    · exact wrote_concat.mpr (.inr ((hwrote e).mpr hphase))
    · exact (h.written b' e hphase).concat
  told b' e hphase := by
    obtain ⟨-, hphase⟩ | ⟨-, hphase⟩ := update_eq_iff.mp hphase
    · obtain ⟨hwrote', hout⟩ := htold e hphase
      exact ⟨hwrote'.concat, fun hmessage => ⟨x, by simp, hout hmessage⟩⟩
    · obtain ⟨hwrote', hdelivered⟩ := h.told b' e hphase
      exact ⟨hwrote'.concat, fun hmessage => (hdelivered hmessage).concat⟩
  owed e he hmessage := by
    obtain he | hout := wrote_concat.mp he
    · obtain hdelivered | hcut | ⟨b', hphase⟩ := h.owed e he hmessage
      · exact .inl hdelivered.concat
      · exact .inr (.inl hcut.concat)
      · rcases eq_or_ne b' b with rfl | hne
        · exact .inl ⟨x, by simp, hold e hphase hmessage⟩
        · exact .inr (.inr ⟨b', update_eq_iff.mpr (.inr ⟨hne, hphase⟩)⟩)
    · exact .inr (.inr ⟨b, update_eq_iff.mpr (.inl ⟨rfl, (hwrote e).mp hout⟩)⟩)

/-- Nothing happens. -/
theorem Sound.idle (h : Sound past d) (i : Input) : Sound (past ++ [(i, .passed)]) d where
  lines e he := (h.lines e he).imp Wrote.concat Left.concat
  known b e hphase := by
    obtain ⟨e', hkey, he'⟩ := h.known b e hphase
    exact ⟨e', hkey, he'.imp Wrote.concat Left.concat⟩
  written b e hphase := (h.written b e hphase).concat
  told b e hphase := by
    obtain ⟨hwrote, hdelivered⟩ := h.told b e hphase
    exact ⟨hwrote.concat, fun hmessage => (hdelivered hmessage).concat⟩
  owed e he hmessage := by
    obtain he | hout := wrote_concat.mp he
    · exact (h.owed e he hmessage).imp Delivered.concat (Or.imp_left Cut.concat)
    · cases hout

/-- What can be read of the file after a write. -/
theorem mem_append {s : Store} {e e' : Entry} {write : Write}
    (h : some e' ∈ (s.append e write).lines ++ (s.append e write).tail.toList) :
    some e' ∈ s.lines ++ s.tail.toList ∨
      e' = e ∧ (write = .whole ∨ write = .torn .entry) := by
  have hjoined : some e' = s.joined e → e' = e := by
    rw [Store.joined]
    split
    · exact Option.some_inj.mp
    · rintro ⟨⟩
  cases write with
  | whole =>
    simp only [Store.append, Option.toList_none, List.append_nil, List.mem_append,
      List.mem_singleton] at h
    obtain h | h := h
    · exact .inl (List.mem_append_left _ h)
    · exact .inr ⟨hjoined h, .inl rfl⟩
  | failed => exact .inl h
  | torn left =>
    cases left with
    | entry =>
      simp only [Store.append, Option.toList_some, List.mem_append, List.mem_singleton] at h
      obtain h | h := h
      · exact .inl (List.mem_append_left _ h)
      · exact .inr ⟨hjoined h, .inr rfl⟩
    | text =>
      simp only [Store.append, Option.toList_some, List.mem_append, List.mem_singleton] at h
      obtain h | h := h
      · exact .inl (List.mem_append_left _ h)
      · cases h
    | bytes =>
      simp only [Store.append, Option.toList_some, List.mem_append, List.mem_singleton] at h
      obtain h | h := h
      · exact .inl (List.mem_append_left _ h)
      · cases h

theorem exists_of_isKnown {s : Store} {key : UInt16 × UInt64} (h : s.isKnown key = true) :
    ∃ e, e.key = key ∧ some e ∈ s.lines ++ s.tail.toList := by
  obtain ⟨e, he, hkey⟩ := List.any_eq_true.mp h
  rw [Store.entries] at he
  split at he
  · exact ⟨e, of_decide_eq_true hkey, List.reduceOption_mem_iff.mp he⟩
  · exact absurd he List.not_mem_nil

theorem sound_step (h : Sound past d) (i : Input) :
    Sound (past ++ [(i, (d.step lossy i).2)]) (d.step lossy i).1 := by
  cases i with
  | frame b sender ctr payload =>
    simp only [Daemon.step]
    split
    · rename_i e hphase _
      refine h.move (fun e he => (h.lines e he).imp Wrote.concat Left.concat) (fun e => ?_)
        (fun e he => ?_) (fun e' he' => ?_) (fun e' he' => ?_)
      · refine iff_of_false (by rintro ⟨⟩) ?_
        split <;> rintro ⟨⟩
      · cases hphase.symm.trans he
      · split at he'
        · rename_i hknown
          cases he'
          obtain ⟨e', hkey, hmem⟩ := exists_of_isKnown hknown
          exact ⟨e', hkey, h.lines e' hmem⟩
        · cases he'
      · split at he' <;> cases he'
    · exact h.idle _
  | write b write =>
    simp only [Daemon.step]
    split
    · rename_i e hphase
      have hold (out : Output) : ∀ e', d.bridges b = .written e' → e'.isMessage = true →
          out = .delivered e' := by
        intro e' he'
        cases hphase.symm.trans he'
      have hlines (out : Output) (hout : write = .whole ∨ write = .torn .entry →
            out = .wrote e ∨ out = .left e) : ∀ e', some e' ∈ (d.store.append e write).lines ++
              (d.store.append e write).tail.toList →
          Wrote (past ++ [(.write b write, out)]) e' ∨
            Left (past ++ [(.write b write, out)]) e' := by
        intro e' he'
        obtain he' | ⟨rfl, hwrite⟩ := mem_append he'
        · exact (h.lines e' he').imp Wrote.concat Left.concat
        · exact (hout hwrite).imp (fun h => wrote_concat.mpr (.inr h))
            fun h => ⟨(.write b write, out), by simp, h⟩
      split
      · refine h.move (hlines _ fun _ => .inl rfl) (fun e' => ?_) (hold _) (by rintro _ ⟨⟩)
          (by rintro _ ⟨⟩)
        rw [Output.wrote.injEq, Phase.written.injEq]
      · refine h.move (hlines _ fun _ => .inr rfl) (fun e' => ?_) (hold _) (by rintro _ ⟨⟩)
          (by rintro _ ⟨⟩)
        exact iff_of_false (by rintro ⟨⟩) (by rintro ⟨⟩)
      · rename_i hwhole hentry
        refine h.move (hlines _ fun hwrite => ?_) (fun e' => ?_) (hold _) (by rintro _ ⟨⟩)
          (by rintro _ ⟨⟩)
        · obtain hwrite | hwrite := hwrite
          · exact absurd hwrite hwhole
          · exact absurd hwrite hentry
        · exact iff_of_false (by rintro ⟨⟩) (by rintro ⟨⟩)
    · exact h.idle _
  | deliver b =>
    simp only [Daemon.step]
    split
    · rename_i e hphase
      refine h.move (fun e he => (h.lines e he).imp Wrote.concat Left.concat) (fun e' => ?_)
        (fun e' he' hmessage => ?_) (by rintro _ ⟨⟩) (fun e' he' => ?_)
      · refine iff_of_false ?_ (by rintro ⟨⟩)
        dsimp only
        split <;> rintro ⟨⟩
      · cases hphase.symm.trans he'
        exact if_pos hmessage
      · cases he'
        exact ⟨h.written b e hphase, fun hmessage => if_pos hmessage⟩
    · exact h.idle _
  | accept b sent =>
    have hmove (out : Output) (hout : ∀ e, out ≠ .wrote e)
        (hphase : ∀ e, d.bridges b ≠ .written e) :
        Sound (past ++ [(.accept b sent, out)]) (d.goTo b .idle) :=
      h.move (fun e he => (h.lines e he).imp Wrote.concat Left.concat)
        (fun e => iff_of_false (hout e) (by rintro ⟨⟩)) (fun e he => absurd he (hphase e))
        (by rintro _ ⟨⟩) (by rintro _ ⟨⟩)
    simp only [Daemon.step]
    split
    · rename_i e hphase
      refine hmove _ (fun e' => ?_) fun e' he' => ?_
      · split <;> rintro ⟨⟩
      · cases hphase.symm.trans he'
    · rename_i e hphase
      refine hmove _ (fun e' => ?_) fun e' he' => ?_
      · split <;> rintro ⟨⟩
      · cases hphase.symm.trans he'
    · exact h.idle _
  | crash =>
    refine ⟨fun e he => (h.lines e he).imp Wrote.concat Left.concat, by rintro _ _ ⟨⟩,
      by rintro _ _ ⟨⟩, by rintro _ _ ⟨⟩, fun e he hmessage => .inr (.inl ?_)⟩
    obtain he | hout := wrote_concat.mp he
    · exact he.cut rfl
    · cases hout

theorem sound_final (lossy : Bytes → String) (es : List Input) :
    Sound (Run.log (Daemon.step lossy) .new es) (Run.final (Daemon.step lossy) .new es) := by
  refine Run.invariant (I := Sound) sound_new ?_ (Run.Always.true es)
  exact fun _ _ i h _ => sound_step h i

/-- Node 7 says hello. -/
def hello : List Input := [.frame 0 7 1 (.a2a []), .write 0 .whole, .deliver 0]

/-- What was delivered, in order. -/
def deliveries (past : Past) : List Entry :=
  past.filterMap fun x => match x.2 with
    | .delivered e => some e
    | _ => none

/-- No bridge looks while another stands between its look and its line, and what a write that fails
leaves behind is nothing. -/
def Calm (d : Daemon) : Input → Prop
  | .frame .. => ∀ b e, d.bridges b ≠ .fresh e
  | .write _ write => ∀ left, write ≠ .torn left
  | _ => True

theorem deliveries_concat (past : Past) (x : Input × Output) (hx : ∀ e, x.2 ≠ .delivered e) :
    deliveries (past ++ [x]) = deliveries past := by
  rw [deliveries, List.filterMap_append]
  obtain ⟨i, out⟩ := x
  cases out with
  | delivered e => exact absurd rfl (hx e)
  | passed => exact List.append_nil _
  | wrote e => exact List.append_nil _
  | left e => exact List.append_nil _
  | accepted e => exact List.append_nil _

theorem deliveries_concat_delivered (past : Past) (i : Input) (e : Entry) :
    deliveries (past ++ [(i, .delivered e)]) = deliveries past ++ [e] := by
  rw [deliveries, List.filterMap_append]
  rfl

/-- What holds as long as it is calm. -/
structure Once (past : Past) (d : Daemon) : Prop where
  sound : Sound past d
  lines : ∀ e, Wrote past e → some e ∈ d.store.lines
  whole : d.store.tail = none ∧ d.store.utf8 = true
  fresh : ∀ b e, d.bridges b = .fresh e → ∀ e', Wrote past e' → e'.key ≠ e.key
  alone : ∀ b b' e e', d.bridges b = .fresh e → d.bridges b' = .fresh e' → b = b'
  wrote : ∀ e ∈ deliveries past, Wrote past e
  pending : ∀ b e, d.bridges b = .written e → e.key ∉ (deliveries past).map Entry.key
  apart : ∀ b b' e e', d.bridges b = .written e → d.bridges b' = .written e' →
    e.key = e'.key → b = b'
  nodup : ((deliveries past).map Entry.key).Nodup

theorem once_new : Once [] .new where
  sound := sound_new
  lines e he := by
    obtain ⟨x, hx, -⟩ := he
    exact absurd hx List.not_mem_nil
  whole := ⟨rfl, rfl⟩
  fresh b e h := by cases h
  alone b b' e e' h := by cases h
  wrote e he := absurd he List.not_mem_nil
  pending b e h := by cases h
  apart b b' e e' h := by cases h
  nodup := List.nodup_nil

/-- A bridge goes on without a line and without a delivery. -/
theorem Once.move (h : Once past d) {b : ℕ} {phase : Phase} {x : Input × Output}
    (hsound : Sound (past ++ [x]) (d.goTo b phase)) (hwrote : ∀ e, x.2 ≠ .wrote e)
    (hdelivered : ∀ e, x.2 ≠ .delivered e) (hwritten : ∀ e, phase ≠ .written e)
    (hfresh : ∀ e, phase = .fresh e → (∀ e', Wrote past e' → e'.key ≠ e.key) ∧
      ∀ b' e', d.bridges b' ≠ .fresh e') : Once (past ++ [x]) (d.goTo b phase) where
  sound := hsound
  lines e he := h.lines e ((wrote_concat.mp he).resolve_right (hwrote e))
  whole := h.whole
  fresh b' e hphase e' he' := by
    have he' := (wrote_concat.mp he').resolve_right (hwrote e')
    obtain ⟨-, hphase⟩ | ⟨-, hphase⟩ := update_eq_iff.mp hphase
    · exact (hfresh e hphase).1 e' he'
    · exact h.fresh b' e hphase e' he'
  alone b₁ b₂ e e' h₁ h₂ := by
    obtain ⟨hb₁, h₁⟩ | ⟨-, h₁⟩ := update_eq_iff.mp h₁
    · obtain ⟨hb₂, -⟩ | ⟨-, h₂⟩ := update_eq_iff.mp h₂
      · rw [hb₁, hb₂]
      · exact absurd h₂ ((hfresh e h₁).2 b₂ e')
    · obtain ⟨-, h₂⟩ | ⟨-, h₂⟩ := update_eq_iff.mp h₂
      · exact absurd h₁ ((hfresh e' h₂).2 b₁ e)
      · exact h.alone b₁ b₂ e e' h₁ h₂
  wrote e he := by
    rw [deliveries_concat past x hdelivered] at he
    exact (h.wrote e he).concat
  pending b' e hphase := by
    rw [deliveries_concat past x hdelivered]
    obtain ⟨-, hphase⟩ | ⟨-, hphase⟩ := update_eq_iff.mp hphase
    · exact absurd hphase (hwritten e)
    · exact h.pending b' e hphase
  apart b₁ b₂ e e' h₁ h₂ := by
    obtain ⟨-, h₁⟩ | ⟨-, h₁⟩ := update_eq_iff.mp h₁
    · exact absurd h₁ (hwritten e)
    · obtain ⟨-, h₂⟩ | ⟨-, h₂⟩ := update_eq_iff.mp h₂
      · exact absurd h₂ (hwritten e')
      · exact h.apart b₁ b₂ e e' h₁ h₂
  nodup := by
    rw [deliveries_concat past x hdelivered]
    exact h.nodup

theorem Once.idle (h : Once past d) (i : Input) : Once (past ++ [(i, .passed)]) d where
  sound := h.sound.idle i
  lines e he := h.lines e ((wrote_concat.mp he).resolve_right (by rintro ⟨⟩))
  whole := h.whole
  fresh b e hphase e' he' :=
    h.fresh b e hphase e' ((wrote_concat.mp he').resolve_right (by rintro ⟨⟩))
  alone := h.alone
  wrote e he := by
    rw [deliveries_concat past _ (by rintro _ ⟨⟩)] at he
    exact (h.wrote e he).concat
  pending b e hphase := by
    rw [deliveries_concat past _ (by rintro _ ⟨⟩)]
    exact h.pending b e hphase
  apart := h.apart
  nodup := by
    rw [deliveries_concat past _ (by rintro _ ⟨⟩)]
    exact h.nodup

/-- What was written is found. -/
theorem Once.isKnown (h : Once past d) {e : Entry} (he : Wrote past e) :
    d.store.isKnown e.key = true := by
  refine List.any_eq_true.mpr ⟨e, ?_, decide_eq_true rfl⟩
  rw [Store.entries, if_pos h.whole.2]
  exact List.reduceOption_mem_iff.mpr (List.mem_append_left _ (h.lines e he))

/-- A bridge writes its line. -/
theorem Once.writes (h : Once past d) {b : ℕ} {e : Entry} (hphase : d.bridges b = .fresh e)
    (hsound : Sound (past ++ [(.write b .whole, .wrote e)])
      ⟨d.store.append e .whole, Function.update d.bridges b (.written e)⟩) :
    Once (past ++ [(.write b .whole, .wrote e)])
      ⟨d.store.append e .whole, Function.update d.bridges b (.written e)⟩ where
  sound := hsound
  lines e' he' := by
    obtain he' | hout := wrote_concat.mp he'
    · exact List.mem_append_left _ (h.lines e' he')
    · cases hout
      refine List.mem_append_right _ (List.mem_singleton.mpr ?_)
      rw [Store.joined, h.whole.1]
      rfl
  whole := ⟨rfl, h.whole.2⟩
  fresh b' e' hphase' := by
    obtain ⟨-, hphase'⟩ | ⟨hne, hphase'⟩ := update_eq_iff.mp hphase'
    · cases hphase'
    · exact absurd (h.alone b' b e' e hphase' hphase) hne
  alone b₁ b₂ e₁ e₂ h₁ h₂ := by
    obtain ⟨-, h₁⟩ | ⟨-, h₁⟩ := update_eq_iff.mp h₁
    · cases h₁
    · obtain ⟨-, h₂⟩ | ⟨-, h₂⟩ := update_eq_iff.mp h₂
      · cases h₂
      · exact h.alone b₁ b₂ e₁ e₂ h₁ h₂
  wrote e' he' := by
    rw [deliveries_concat past _ (by rintro _ ⟨⟩)] at he'
    exact (h.wrote e' he').concat
  pending b' e' hphase' := by
    rw [deliveries_concat past _ (by rintro _ ⟨⟩)]
    obtain ⟨-, hphase'⟩ | ⟨-, hphase'⟩ := update_eq_iff.mp hphase'
    · cases hphase'
      intro hmem
      obtain ⟨e', he', hkey⟩ := List.mem_map.mp hmem
      exact h.fresh b e hphase e' (h.wrote e' he') hkey
    · exact h.pending b' e' hphase'
  apart b₁ b₂ e₁ e₂ h₁ h₂ hkey := by
    obtain ⟨hb₁, h₁⟩ | ⟨-, h₁⟩ := update_eq_iff.mp h₁
    · cases h₁
      obtain ⟨hb₂, -⟩ | ⟨-, h₂⟩ := update_eq_iff.mp h₂
      · rw [hb₁, hb₂]
      · exact absurd hkey.symm (h.fresh b e hphase e₂ (h.sound.written b₂ e₂ h₂))
    · obtain ⟨-, h₂⟩ | ⟨-, h₂⟩ := update_eq_iff.mp h₂
      · cases h₂
        exact absurd hkey (h.fresh b e hphase e₁ (h.sound.written b₁ e₁ h₁))
      · exact h.apart b₁ b₂ e₁ e₂ h₁ h₂ hkey
  nodup := by
    rw [deliveries_concat past _ (by rintro _ ⟨⟩)]
    exact h.nodup

/-- A bridge delivers what it has written. -/
theorem Once.delivers (h : Once past d) {b : ℕ} {e : Entry} (hphase : d.bridges b = .written e)
    {i : Input} (hsound : Sound (past ++ [(i, .delivered e)]) (d.goTo b (.told e))) :
    Once (past ++ [(i, .delivered e)]) (d.goTo b (.told e)) where
  sound := hsound
  lines e' he' := h.lines e' ((wrote_concat.mp he').resolve_right (by rintro ⟨⟩))
  whole := h.whole
  fresh b' e' hphase' e'' he'' := by
    obtain ⟨-, hphase'⟩ | ⟨-, hphase'⟩ := update_eq_iff.mp hphase'
    · cases hphase'
    · exact h.fresh b' e' hphase' e'' ((wrote_concat.mp he'').resolve_right (by rintro ⟨⟩))
  alone b₁ b₂ e₁ e₂ h₁ h₂ := by
    obtain ⟨-, h₁⟩ | ⟨-, h₁⟩ := update_eq_iff.mp h₁
    · cases h₁
    · obtain ⟨-, h₂⟩ | ⟨-, h₂⟩ := update_eq_iff.mp h₂
      · cases h₂
      · exact h.alone b₁ b₂ e₁ e₂ h₁ h₂
  wrote e' he' := by
    rw [deliveries_concat_delivered] at he'
    obtain he' | he' := List.mem_append.mp he'
    · exact (h.wrote e' he').concat
    · rw [List.mem_singleton.mp he']
      exact (h.sound.written b e hphase).concat
  pending b' e' hphase' := by
    obtain ⟨-, hphase'⟩ | ⟨hne, hphase'⟩ := update_eq_iff.mp hphase'
    · cases hphase'
    · rw [deliveries_concat_delivered, List.map_append, List.mem_append]
      rintro (hmem | hmem)
      · exact h.pending b' e' hphase' hmem
      · exact hne (h.apart b' b e' e hphase' hphase (List.mem_singleton.mp hmem))
  apart b₁ b₂ e₁ e₂ h₁ h₂ := by
    obtain ⟨-, h₁⟩ | ⟨-, h₁⟩ := update_eq_iff.mp h₁
    · cases h₁
    · obtain ⟨-, h₂⟩ | ⟨-, h₂⟩ := update_eq_iff.mp h₂
      · cases h₂
      · exact h.apart b₁ b₂ e₁ e₂ h₁ h₂
  nodup := by
    rw [deliveries_concat_delivered, List.map_append]
    refine List.nodup_append.mpr ⟨h.nodup, List.nodup_singleton _, ?_⟩
    rintro k hk _ hk' rfl
    rw [List.map_singleton, List.mem_singleton] at hk'
    exact h.pending b e hphase (hk' ▸ hk)

theorem once_step (h : Once past d) {i : Input} (hcalm : Calm d i) :
    Once (past ++ [(i, (d.step lossy i).2)]) (d.step lossy i).1 := by
  have hsound : Sound (past ++ [(i, (d.step lossy i).2)]) (d.step lossy i).1 :=
    sound_step h.sound i
  cases i with
  | frame b sender ctr payload =>
    simp only [Daemon.step] at hsound ⊢
    split at hsound
    · rename_i e _ _
      refine h.move hsound (by rintro _ ⟨⟩) (by rintro _ ⟨⟩) (fun e' => ?_) fun e' he' => ?_
      · split <;> rintro ⟨⟩
      · split at he'
        · cases he'
        · rename_i hnew
          cases he'
          exact ⟨fun e'' hwrote hkey => hnew (hkey ▸ h.isKnown hwrote), hcalm⟩
    · exact h.idle _
  | write b write =>
    simp only [Daemon.step] at hsound ⊢
    split at hsound
    · rename_i e hphase
      cases write with
      | whole => exact h.writes hphase hsound
      | failed =>
        exact h.move hsound (by rintro _ ⟨⟩) (by rintro _ ⟨⟩) (by rintro _ ⟨⟩) (by rintro _ ⟨⟩)
      | torn left => exact absurd rfl (hcalm left)
    · exact h.idle _
  | deliver b =>
    simp only [Daemon.step] at hsound ⊢
    split at hsound
    · rename_i e hphase
      cases hmessage : e.isMessage with
      | true =>
        simp only [hmessage] at hsound ⊢
        exact h.delivers hphase hsound
      | false =>
        simp only [hmessage] at hsound ⊢
        exact h.move hsound (by rintro _ ⟨⟩) (by rintro _ ⟨⟩) (by rintro _ ⟨⟩) (by rintro _ ⟨⟩)
    · exact h.idle _
  | accept b sent =>
    have hmove (e : Entry) (hsound : Sound (past ++ [(.accept b sent, if sent then .accepted e
        else .passed)]) (d.goTo b .idle)) : Once (past ++ [(.accept b sent,
          if sent then .accepted e else .passed)]) (d.goTo b .idle) := by
      refine h.move hsound (fun e' => ?_) (fun e' => ?_) (by rintro _ ⟨⟩) (by rintro _ ⟨⟩)
      · dsimp only
        split <;> rintro ⟨⟩
      · dsimp only
        split <;> rintro ⟨⟩
    simp only [Daemon.step] at hsound ⊢
    split at hsound
    · rename_i e _
      exact hmove e hsound
    · rename_i e _
      exact hmove e hsound
    · exact h.idle _
  | crash =>
    have hidle := h.idle .crash
    exact ⟨hsound, hidle.lines, hidle.whole, by rintro _ _ ⟨⟩, by rintro _ _ _ _ ⟨⟩, hidle.wrote,
      by rintro _ _ ⟨⟩, by rintro _ _ _ _ ⟨⟩, hidle.nodup⟩

/-- Node 7 says hello, and its board has not been told when the daemon is gone. -/
def helloAgain : List Input := hello ++ [.crash, .frame 0 7 1 (.a2a []), .accept 0 true]

end

end ApexOS.Agentd.RadioInbox
