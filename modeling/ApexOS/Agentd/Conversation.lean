import ApexOS.Agentd.Transcripts
import ApexOS.Agentd.TurnGate
import ApexOS.Lib.Json

/-!
# A conversation in memory and on disk

One session of the router (`main.rs`: `spawn_agent_router`, `root_turn`). What the model saw is in
`histories`, what a restart will read is in the session's JSONL. A prompt goes to both before its
turn starts. A turn works on a copy; when it has come to its end the copy's new messages are
appended to the file one by one, and then the copy replaces what is in memory.

A cancel tells the turn's task to stop, and a task that was told so stops at some await: in the
provider's stream, in a tool's result, in the middle of an append, or before the lock of
`histories`. Until then it goes on, next to the router, which marks the cancelled turn in memory
and in the file.

Nothing is trimmed, parked or deleted here. The end of a turn is signalled to the gate as in
`TurnGate`; prompts of other sessions do not touch this one.

## Main definitions

* `Message`, `ContentBlock`: what a history is made of
* `Conversation`, `step`: the session, its turn and the router's part
* `Settled`, `Agrees`: no turn is in flight; memory and file say the same
* `Untroubled`: appends are written, and a cancel does not come between them and the memory

## Main results

* `agrees_of_untroubled`: in every run of untroubled steps, a settled session agrees
* `not_agrees`: a turn that is cancelled between two appends
-/

namespace ApexOS.Agentd

open Transcripts (Transcript Fate)

/-- `ContentBlock`. -/
inductive ContentBlock
  | text (text : String)
  | thinking (thinking signature : String)
  | toolUse (id name : String) (input : Json)
  | toolResult (toolUseId : String) (content : Json) (isError : Bool)
  | image (mediaType data : String)

def ContentBlock.isToolUse : ContentBlock → Bool
  | .toolUse .. => true
  | _ => false

/-- `Message`. -/
inductive Message
  | user (content : List ContentBlock)
  | assistant (content : List ContentBlock)

/-- A prompt, with its images. -/
structure Prompt where
  text : String
  images : List (String × String)

/-- The message a prompt becomes: its text, unless it is empty, and its images; never nothing. -/
def Prompt.message (p : Prompt) : Message :=
  let text := if p.text = "" then [] else [.text p.text]
  let content := text ++ p.images.map fun (mediaType, data) => .image mediaType data
  .user (if content.isEmpty then [.text ""] else content)

/-- `cancel_marker_needed`. -/
def cancelMarkerNeeded (history : List Message) : Bool :=
  match history.getLast? with
  | some (.user _) => true
  | _ => false

/-- What marks a cancelled turn. -/
def cancelMarker : Message := .assistant [.text "⊘ turn cancelled"]

/-- What stands for a reply with nothing in it. -/
def emptyReply : Message := .assistant [.text "⊘ (empty reply)"]

/-- Where a turn is. -/
inductive Phase
  /-- in `run_turn`, at the provider's answer -/
  | answering (history : List Message)
  /-- in `run_turn`, at the results of its tools -/
  | collecting (history : List Message)
  /-- `run_turn` has returned; these are still to be appended -/
  | persisting (updated rest : List Message)
  | finishing

/-- A turn's task. -/
structure Turn where
  snapshotLen : ℕ
  phase : Phase
  /-- it was told to stop -/
  aborted : Bool

namespace Turn

/-- `run_turn` returns: what is new is to be persisted. -/
def returned (t : Turn) (updated : List Message) : Turn :=
  { t with phase := .persisting updated (updated.drop t.snapshotLen) }

/-- The provider's answer is one message, and ends the turn unless it asks for tools. -/
def answered (t : Turn) (history : List Message) (blocks : List ContentBlock) : Turn :=
  if blocks.isEmpty then t.returned (history ++ [emptyReply])
  else if blocks.any ContentBlock.isToolUse then
    { t with phase := .collecting (history ++ [.assistant blocks]) }
  else t.returned (history ++ [.assistant blocks])

/-- Nothing of the turn is in the file, and what is being appended does not get there. -/
def Leaves (t : Turn) (fate : Fate) : Prop :=
  match t.phase with
  | .persisting updated rest =>
    rest = updated.drop t.snapshotLen ∧ (fate = .unopened ∨ fate = .nothing)
  | _ => True

end Turn

/-- Where the router is with a cancel: it has told the turn; it has marked the history. -/
inductive Cancelling
  | telling
  | marked (marker : Message)

/-- A session of the router. -/
structure Conversation where
  session : SessionId
  gate : TurnGate Prompt
  /-- what `histories` has -/
  history : List Message
  jsonl : Transcript Message
  turn : Option Turn
  /-- slot guards that have dropped and were not read -/
  turnDone : ℕ
  cancelling : Option Cancelling

namespace Conversation

/-- A session with this history, read from a file with these lines, or new. -/
def load (session : SessionId) (messages : List Message) : Conversation where
  session := session
  gate := .new
  history := messages
  jsonl := ⟨messages.map fun m => some ⟨0, m⟩, none⟩
  turn := none
  turnDone := 0
  cancelling := none

/-- `append`. -/
def append (c : Conversation) (m : Message) (fate : Fate) : Conversation :=
  if Transcripts.isSpawnSession c.session then c else { c with jsonl := c.jsonl.append ⟨0, m⟩ fate }

/-- The chosen turn: its prompt goes to memory and to the file, and the task starts from there. -/
def spawn (c : Conversation) (fate : Fate) : Option Prompt → Conversation
  | none => c
  | some p =>
    let history := c.history ++ [p.message]
    { ({ c with history }.append p.message fate) with
      turn := some ⟨history.length, .answering history, false⟩ }

/-- The task has ended, and its slot guard drops. -/
def drop (c : Conversation) : Conversation := { c with turn := none, turnDone := c.turnDone + 1 }

/-- What can happen next. The appends come with how they go. -/
inductive Event
  | userPrompt (p : Prompt) (fate : Fate)
  /-- the router reads a slot guard's signal -/
  | turnDone (fate : Fate)
  /-- the router takes up a cancel -/
  | userCancel
  /-- it looks at the history, and marks it if need be -/
  | mark
  | appendMark (fate : Fate)
  /-- the provider's answer is complete -/
  | answer (blocks : List ContentBlock)
  | results (content : List ContentBlock)
  /-- `run_turn` fails -/
  | fail
  /-- the next of the new messages is appended -/
  | persist (fate : Fate)
  /-- the history is replaced -/
  | insert
  | finish
  /-- a task that was told to stop does, in the middle of an append perhaps -/
  | stop (fate : Fate)

/-- A step of the router. It takes up nothing else until a cancel is done with. -/
def route (c : Conversation) : Event → Conversation
  | .userPrompt p fate =>
    match c.cancelling with
    | some _ => c
    | none =>
      let (gate, run) := c.gate.admitPrompt c.session p
      spawn { c with gate } fate run
  | .turnDone fate =>
    match c.cancelling, c.turnDone with
    | none, n + 1 =>
      let (gate, run) := c.gate.complete c.session
      spawn { c with gate, turnDone := n } fate run
    | _, _ => c
  | .userCancel =>
    match c.cancelling with
    | some _ => c
    | none =>
      { c with
        turn := c.turn.map fun t => { t with aborted := true }
        gate := c.gate.cancel c.session
        cancelling := some .telling }
  | .mark =>
    match c.cancelling with
    | some .telling =>
      if cancelMarkerNeeded c.history then
        { c with history := c.history ++ [cancelMarker], cancelling := some (.marked cancelMarker) }
      else { c with cancelling := none }
    | _ => c
  | .appendMark fate =>
    match c.cancelling with
    | some (.marked m) => { c.append m fate with cancelling := none }
    | _ => c
  | _ => c

/-- A step of the turn's task. -/
def work (c : Conversation) (t : Turn) : Event → Conversation
  | .answer blocks =>
    match t.phase with
    | .answering history => { c with turn := some (t.answered history blocks) }
    | _ => c
  | .results content =>
    match t.phase with
    | .collecting history =>
      { c with turn := some { t with phase := .answering (history ++ [.user content]) } }
    | _ => c
  | .fail =>
    match t.phase with
    | .answering _ | .collecting _ => { c with turn := some { t with phase := .finishing } }
    | _ => c
  | .persist fate =>
    match t.phase with
    | .persisting updated (m :: rest) =>
      { c.append m fate with turn := some { t with phase := .persisting updated rest } }
    | _ => c
  | .insert =>
    match t.phase with
    | .persisting updated [] =>
      { c with history := updated, turn := some { t with phase := .finishing } }
    | _ => c
  | .finish =>
    match t.phase with
    | .finishing => c.drop
    | _ => c
  | .stop fate =>
    if t.aborted then
      match t.phase with
      | .persisting _ (m :: _) => (c.append m fate).drop
      | _ => c.drop
    else c
  | _ => c

/-- One step of the session. -/
def step (c : Conversation) (e : Event) : Conversation × Unit :=
  match e with
  | .userPrompt .. | .turnDone _ | .userCancel | .mark | .appendMark _ => (c.route e, ())
  | _ =>
    match c.turn with
    | some t => (c.work t e, ())
    | none => (c, ())

/-- No turn is in flight, and the router is done with what it was told. -/
def Settled (c : Conversation) : Prop := c.turn = none ∧ c.cancelling = none

/-- `load_one`, and `load_all` for this session; `repair` stands for `repair_history`. -/
def loadOne (c : Conversation) (repair : List Message → List Message) : Option (List Message) :=
  let messages := repair c.jsonl.messages
  if messages.isEmpty then none else some messages

/-- **Memory and file say the same**, and so does a restart, up to what it repairs in any
history. -/
structure Agrees (c : Conversation) : Prop where
  lines : c.jsonl.messages = c.history
  restart : ∀ repair messages, c.loadOne repair = some messages → messages = repair c.history

/-- How the append of a step goes, if there is one. -/
def Event.fate : Event → Fate
  | .userPrompt _ fate | .turnDone fate | .appendMark fate | .persist fate => fate
  | _ => .written

/-- Appends are written. A turn that stops does not leave half of it in the file, and one that
replaces the history does not take a marker out of it. -/
def Untroubled (c : Conversation) (e : Event) : Prop :=
  Transcripts.isSpawnSession c.session = false ∧ e.fate = .written ∧
    match e with
    | .stop fate => ∀ t ∈ c.turn, t.aborted = true → t.Leaves fate
    | .insert => ∀ t ∈ c.turn, ∀ updated, t.phase = .persisting updated [] →
        c.history.length = t.snapshotLen
    | _ => True

/-! ### Where a turn leaves the two -/

/-- A turn has begun on what was in memory then, which is what memory still begins with. A marker
that is not in the file came after it. -/
structure Begun (pending history : List Message) (n : ℕ) (copy : List Message) : Prop where
  le : n ≤ copy.length
  base : copy.take n <+: history
  after : pending ≠ [] → n < history.length

/-- What is in the file, what the router is about to append, what is in memory, and how far the turn
has come. -/
inductive Standing (lines pending history : List Message) : Option Turn → Prop
  | idle (heven : lines ++ pending = history) : Standing lines pending history none
  | answering {n copy aborted} (heven : lines ++ pending = history)
      (hbegun : Begun pending history n copy) :
      Standing lines pending history (some ⟨n, .answering copy, aborted⟩)
  | collecting {n copy aborted} (heven : lines ++ pending = history)
      (hbegun : Begun pending history n copy) :
      Standing lines pending history (some ⟨n, .collecting copy, aborted⟩)
  /-- nothing of it is in the file yet -/
  | returned {n updated rest aborted} (heven : lines ++ pending = history)
      (hbegun : Begun pending history n updated) (hrest : rest = updated.drop n) :
      Standing lines pending history (some ⟨n, .persisting updated rest, aborted⟩)
  /-- part of it is, and memory is as it was -/
  | halfway {n updated rest aborted} (written : List Message) (hne : written ≠ [])
      (hdelta : updated.drop n = written ++ rest) (hlines : lines = updated.take n ++ written)
      (hpending : pending = []) (hhistory : history = updated.take n) :
      Standing lines pending history (some ⟨n, .persisting updated rest, aborted⟩)
  /-- part of it is, and memory has a marker: this cannot end well -/
  | parted {n updated rest aborted} (hpart : rest.length < (updated.drop n).length)
      (hmark : n < history.length) :
      Standing lines pending history (some ⟨n, .persisting updated rest, aborted⟩)
  | finishing {n aborted} (heven : lines ++ pending = history) :
      Standing lines pending history (some ⟨n, .finishing, aborted⟩)

variable {lines pending history copy updated rest : List Message} {turn : Option Turn} {t : Turn}
  {m : Message} {n : ℕ} {aborted : Bool}

theorem Begun.push (h : Begun pending history n copy) (m : Message) :
    Begun pending history n (copy ++ [m]) where
  le := h.le.trans (by simp)
  base := by rw [List.take_append_of_le_length h.le]; exact h.base
  after := h.after

theorem Begun.mark (h : Begun [] history n copy) (m : Message) :
    Begun [m] (history ++ [m]) n copy where
  le := h.le
  base := h.base.trans (List.prefix_append _ _)
  after := fun _ => by
    have hlen := h.base.length_le
    rw [List.length_take_of_le h.le] at hlen
    simpa using Nat.lt_succ_of_le hlen

/-- Where no marker was added, memory is what the turn began with. -/
theorem Begun.eq (h : Begun pending history n copy) (hlen : history.length = n) :
    history = copy.take n ∧ pending = [] := by
  refine ⟨(h.base.eq_of_length ?_).symm, by_contra fun hne => (h.after hne).ne' hlen⟩
  rw [List.length_take_of_le h.le, hlen]

theorem Standing.abort (h : Standing lines pending history turn) :
    Standing lines pending history (turn.map fun t => { t with aborted := true }) := by
  cases h with
  | idle heven => exact .idle heven
  | answering heven hbegun => exact .answering heven hbegun
  | collecting heven hbegun => exact .collecting heven hbegun
  | returned heven hbegun hrest => exact .returned heven hbegun hrest
  | halfway written hne hdelta hlines hpending hhistory =>
    exact .halfway written hne hdelta hlines hpending hhistory
  | parted hpart hmark => exact .parted hpart hmark
  | finishing heven => exact .finishing heven

/-- The marker goes into memory first. -/
theorem Standing.mark (h : Standing lines [] history turn) (m : Message) :
    Standing lines [m] (history ++ [m]) turn := by
  cases h with
  | idle heven => exact .idle (by simpa using heven)
  | answering heven hbegun => exact .answering (by simpa using heven) (hbegun.mark m)
  | collecting heven hbegun => exact .collecting (by simpa using heven) (hbegun.mark m)
  | returned heven hbegun hrest => exact .returned (by simpa using heven) (hbegun.mark m) hrest
  | @halfway n updated rest _ written hne hdelta hlines hpending hhistory =>
    have hpos := List.length_pos_of_ne_nil hne
    have hlen := congrArg List.length hdelta
    rw [List.length_append, List.length_drop] at hlen
    refine .parted (by rw [hdelta, List.length_append]; omega) ?_
    rw [hhistory, List.length_append, List.length_take_of_le (by omega)]
    exact Nat.lt_succ_self n
  | parted hpart hmark => exact .parted hpart (hmark.trans (by simp))
  | finishing heven => exact .finishing (by simpa using heven)

/-- And then into the file. -/
theorem Standing.appendMark (h : Standing lines [m] history turn) :
    Standing (lines ++ [m]) [] history turn := by
  have hbare {n copy} (hb : Begun [m] history n copy) : Begun [] history n copy :=
    ⟨hb.le, hb.base, fun h => absurd rfl h⟩
  cases h with
  | idle heven => exact .idle (by simpa using heven)
  | answering heven hbegun => exact .answering (by simpa using heven) (hbare hbegun)
  | collecting heven hbegun => exact .collecting (by simpa using heven) (hbare hbegun)
  | returned heven hbegun hrest => exact .returned (by simpa using heven) (hbare hbegun) hrest
  | halfway written hne hdelta hlines hpending hhistory => cases hpending
  | parted hpart hmark => exact .parted hpart hmark
  | finishing heven => exact .finishing (by simpa using heven)

theorem Standing.persist
    (h : Standing lines pending history (some ⟨n, .persisting updated (m :: rest), aborted⟩)) :
    Standing (lines ++ [m]) pending history (some ⟨n, .persisting updated rest, aborted⟩) := by
  cases h with
  | returned heven hbegun hrest =>
    rcases (hbegun.base.length_le).eq_or_lt with heq | hlt
    · obtain ⟨hhistory, hpending⟩ := hbegun.eq
        (heq.symm.trans (List.length_take_of_le hbegun.le))
      refine .halfway [m] (List.cons_ne_nil _ _) hrest.symm ?_ hpending hhistory
      rw [hpending, List.append_nil] at heven
      rw [heven, ← hhistory]
    · rw [List.length_take_of_le hbegun.le] at hlt
      exact .parted (by rw [← hrest, List.length_cons]; exact Nat.lt_succ_self _) hlt
  | halfway written hne hdelta hlines hpending hhistory =>
    exact .halfway (written ++ [m]) (by simp) (by simpa using hdelta) (by simp [hlines]) hpending
      hhistory
  | parted hpart hmark => exact .parted ((by simp : rest.length < _).trans hpart) hmark

/-- The turn's history replaces what is in memory, where that is what the turn began with. -/
theorem Standing.insert
    (h : Standing lines pending history (some ⟨n, .persisting updated [], aborted⟩))
    (hlen : history.length = n) :
    Standing lines pending updated (some ⟨n, .finishing, aborted⟩) := by
  cases h with
  | returned heven hbegun hrest =>
    obtain ⟨hhistory, hpending⟩ := hbegun.eq hlen
    have hall : updated = history := by
      conv_lhs => rw [← List.take_append_drop n updated, ← hrest, List.append_nil, ← hhistory]
    exact .finishing (hall ▸ heven)
  | halfway written hne hdelta hlines hpending hhistory =>
    rw [List.append_nil] at hdelta
    refine .finishing ?_
    rw [hpending, List.append_nil, hlines, ← hdelta, List.take_append_drop]
  | parted hpart hmark => exact absurd hlen hmark.ne'

/-- A turn that stops with nothing in the file. -/
theorem Standing.stop {fate : Fate} (h : Standing lines pending history (some t))
    (hleaves : t.Leaves fate) : lines ++ pending = history := by
  cases h with
  | answering heven | collecting heven | returned heven | finishing heven => exact heven
  | halfway written hne hdelta hlines hpending hhistory =>
    have hlen := congrArg List.length (hdelta.symm.trans hleaves.1.symm)
    have hpos := List.length_pos_of_ne_nil hne
    rw [List.length_append] at hlen
    omega
  | parted hpart hmark => exact absurd (congrArg List.length hleaves.1) hpart.ne

/-! ### Every step -/

/-- What the router is about to append. -/
def toAppend : Option Cancelling → List Message
  | some (.marked m) => [m]
  | _ => []

@[simp] theorem toAppend_none : toAppend none = [] := rfl

/-- What holds of a session between its steps. -/
structure Law (c : Conversation) : Prop where
  /-- no line was left unfinished -/
  finished : c.jsonl.rest = none
  /-- the slot is held by a turn, or by a signal on its way -/
  slot : c.turnDone + c.turn.toList.length = if c.session ∈ c.gate.busy then 1 else 0
  standing : Standing c.jsonl.messages (toAppend c.cancelling) c.history c.turn

variable {c : Conversation}

theorem law_load (session : SessionId) (messages : List Message) : (load session messages).Law where
  finished := rfl
  slot := by simp [load, TurnGate.new]
  standing := by
    refine .idle ?_
    simp [load, toAppend, Transcript.messages, Transcript.entries, List.filterMap_map,
      Function.comp_def]

theorem messages_written {t : Transcript Message} (h : t.rest = none) (m : Message) :
    (t.append ⟨0, m⟩ .written).rest = none ∧
      (t.append ⟨0, m⟩ .written).messages = t.messages ++ [m] := by
  simp [Transcript.append, h, Transcript.messages, Transcript.entries]

theorem append_written (hs : Transcripts.isSpawnSession c.session = false) (m : Message) :
    c.append m .written = { c with jsonl := c.jsonl.append ⟨0, m⟩ .written } := by
  simp [append, hs]

/-- A turn is spawned on a free slot. -/
theorem Law.spawn (hs : Transcripts.isSpawnSession c.session = false)
    (hfinished : c.jsonl.rest = none)
    (heven : c.jsonl.messages = c.history) (hdone : c.turnDone = 0)
    (hcancelling : c.cancelling = none) (hbusy : c.session ∈ c.gate.busy) (p : Prompt) :
    (c.spawn .written (some p)).Law := by
  obtain ⟨hrest, hmessages⟩ := messages_written hfinished p.message
  have hnew : c.spawn .written (some p) =
      { c with
        history := c.history ++ [p.message]
        jsonl := c.jsonl.append ⟨0, p.message⟩ .written
        turn := some ⟨(c.history ++ [p.message]).length,
          .answering (c.history ++ [p.message]), false⟩ } := by
    simp only [Conversation.spawn, Conversation.append, hs]
    rfl
  rw [hnew]
  refine ⟨hrest, by simp [hdone, hbusy], ?_⟩
  rw [hcancelling, hmessages, heven]
  exact .answering (List.append_nil _) ⟨le_rfl, by rw [List.take_length], fun h => absurd rfl h⟩

/-- What the slot says where no turn is out. -/
theorem Law.free (h : c.Law) (hbusy : c.session ∉ c.gate.busy) :
    c.turn = none ∧ c.turnDone = 0 := by
  have hslot := h.slot
  rw [if_neg hbusy] at hslot
  exact ⟨List.length_eq_zero_iff.mp (Nat.add_eq_zero_iff.mp hslot).2 |> Option.toList_eq_nil_iff.mp,
    (Nat.add_eq_zero_iff.mp hslot).1⟩

/-- And while a signal waits. -/
theorem Law.signalled (h : c.Law) {k : ℕ} (hdone : c.turnDone = k + 1) :
    c.turn = none ∧ k = 0 ∧ c.session ∈ c.gate.busy := by
  have hslot := h.slot
  rw [hdone] at hslot
  split at hslot
  · rename_i hbusy
    refine ⟨Option.toList_eq_nil_iff.mp (List.length_eq_zero_iff.mp ?_), ?_, hbusy⟩ <;> omega
  · omega

theorem Law.userPrompt (h : c.Law) (hs : Transcripts.isSpawnSession c.session = false)
    (p : Prompt) :
    (c.route (.userPrompt p .written)).Law := by
  delta route
  dsimp only
  split
  · exact h
  rename_i hcancelling
  by_cases hret : c.session ∈ c.gate.retired
  · simpa [TurnGate.admitPrompt, hret, Conversation.spawn] using h
  by_cases hbusy : c.session ∈ c.gate.busy
  · have hslot := h.slot
    simp only [TurnGate.admitPrompt, if_neg hret, if_pos hbusy, Conversation.spawn]
    exact ⟨h.finished, hslot, h.standing⟩
  · obtain ⟨hturn, hdone⟩ := h.free hbusy
    simp only [TurnGate.admitPrompt, if_neg hret, if_neg hbusy]
    have hstanding := h.standing
    rw [hturn] at hstanding
    cases hstanding with
    | idle heven =>
      rw [hcancelling, toAppend_none, List.append_nil] at heven
      exact Law.spawn (c := { c with gate := { c.gate with busy := insert c.session c.gate.busy } })
        hs h.finished heven hdone hcancelling (Finset.mem_insert_self _ _) p

theorem Law.turnDone (h : c.Law) (hs : Transcripts.isSpawnSession c.session = false) :
    (c.route (.turnDone .written)).Law := by
  delta route
  dsimp only
  split
  swap
  · exact h
  rename_i k hcancelling hk
  obtain ⟨hturn, rfl, hbusy⟩ := h.signalled hk
  have hstanding := h.standing
  rw [hturn] at hstanding
  cases hstanding with
  | idle heven =>
    have hfreed : Law { c with
        gate := { c.gate with
          busy := c.gate.busy.erase c.session, queued := c.gate.queued.erase c.session }
        turnDone := 0 } :=
      ⟨h.finished, by simp [hturn], by rw [hturn]; exact .idle heven⟩
    by_cases hret : c.session ∈ c.gate.retired
    · simpa [TurnGate.complete, hret, Conversation.spawn] using hfreed
    rw [hcancelling, toAppend_none, List.append_nil] at heven
    cases hw : c.gate.waiting c.session with
    | nil => simpa [TurnGate.complete_of_nil hw, Conversation.spawn] using hfreed
    | cons p rest =>
      rw [TurnGate.complete_of_cons hret hw]
      exact Law.spawn (c := { c with
          gate := { c.gate with queued := c.gate.queued.insert c.session rest }, turnDone := 0 })
        hs h.finished heven rfl hcancelling hbusy p

theorem Law.userCancel (h : c.Law) : (c.route .userCancel).Law := by
  delta route
  dsimp only
  split
  · exact h
  rename_i hcancelling
  refine ⟨h.finished, ?_, ?_⟩
  · have hslot := h.slot
    cases hturn : c.turn with
    | none => rwa [hturn] at hslot
    | some t => rwa [hturn] at hslot
  · have hstanding := h.standing.abort
    rwa [hcancelling] at hstanding

theorem Law.mark (h : c.Law) : (c.route .mark).Law := by
  delta route
  dsimp only
  split
  swap
  · exact h
  rename_i hcancelling
  have hstanding := h.standing
  rw [hcancelling] at hstanding
  split
  · exact ⟨h.finished, h.slot, hstanding.mark _⟩
  · exact ⟨h.finished, h.slot, hstanding⟩

theorem Law.appendMark (h : c.Law) (hs : Transcripts.isSpawnSession c.session = false) :
    (c.route (.appendMark .written)).Law := by
  delta route
  dsimp only
  split
  swap
  · exact h
  rename_i m hcancelling
  have hstanding := h.standing
  rw [hcancelling] at hstanding
  obtain ⟨hrest, hmessages⟩ := messages_written h.finished m
  rw [append_written hs]
  refine ⟨hrest, h.slot, ?_⟩
  rw [hmessages]
  exact hstanding.appendMark

/-- What a step of the task makes of a turn that goes on. -/
theorem Law.continues (h : c.Law) {t t' : Turn} (hturn : c.turn = some t)
    (hstanding : Standing c.jsonl.messages (toAppend c.cancelling) c.history (some t')) :
    Law { c with turn := some t' } :=
  ⟨h.finished, by simpa [hturn] using h.slot, hstanding⟩

/-- And of one that ends. -/
theorem Law.drop (h : c.Law) {t : Turn} (hturn : c.turn = some t)
    (heven : c.jsonl.messages ++ toAppend c.cancelling = c.history) : c.drop.Law :=
  ⟨h.finished, by have hslot := h.slot; rwa [hturn] at hslot, .idle heven⟩

theorem Law.answer (h : c.Law) {t : Turn} (hturn : c.turn = some t) (blocks : List ContentBlock) :
    (c.work t (.answer blocks)).Law := by
  delta work
  dsimp only
  split
  swap
  · exact h
  rename_i copy hphase
  obtain ⟨n, phase, aborted⟩ := t
  obtain rfl : phase = .answering copy := hphase
  have hstanding := h.standing
  rw [hturn] at hstanding
  cases hstanding with
  | answering heven hbegun =>
    refine h.continues hturn ?_
    unfold Turn.answered Turn.returned
    split
    · exact .returned heven (hbegun.push _) rfl
    split
    · exact .collecting heven (hbegun.push _)
    · exact .returned heven (hbegun.push _) rfl

theorem Law.results (h : c.Law) {t : Turn} (hturn : c.turn = some t)
    (content : List ContentBlock) : (c.work t (.results content)).Law := by
  delta work
  dsimp only
  split
  swap
  · exact h
  rename_i copy hphase
  obtain ⟨n, phase, aborted⟩ := t
  obtain rfl : phase = .collecting copy := hphase
  have hstanding := h.standing
  rw [hturn] at hstanding
  cases hstanding with
  | collecting heven hbegun => exact h.continues hturn (.answering heven (hbegun.push _))

theorem Law.fail (h : c.Law) {t : Turn} (hturn : c.turn = some t) : (c.work t .fail).Law := by
  have hstanding := h.standing
  rw [hturn] at hstanding
  delta work
  dsimp only
  split
  · rename_i hphase
    obtain ⟨n, phase, aborted⟩ := t
    obtain rfl := hphase
    cases hstanding with
    | answering heven => exact h.continues hturn (.finishing heven)
  · rename_i hphase
    obtain ⟨n, phase, aborted⟩ := t
    obtain rfl := hphase
    cases hstanding with
    | collecting heven => exact h.continues hturn (.finishing heven)
  · exact h

theorem Law.persist (h : c.Law) {t : Turn} (hturn : c.turn = some t)
    (hs : Transcripts.isSpawnSession c.session = false) : (c.work t (.persist .written)).Law := by
  delta work
  dsimp only
  split
  swap
  · exact h
  rename_i updated m rest hphase
  obtain ⟨n, phase, aborted⟩ := t
  obtain rfl : phase = .persisting updated (m :: rest) := hphase
  have hstanding := h.standing
  rw [hturn] at hstanding
  obtain ⟨hrest, hmessages⟩ := messages_written h.finished m
  rw [append_written hs]
  refine ⟨hrest, by simpa [hturn] using h.slot, ?_⟩
  rw [hmessages]
  exact hstanding.persist

theorem Law.insert (h : c.Law) {t : Turn} (hturn : c.turn = some t)
    (hlen : ∀ updated, t.phase = .persisting updated [] → c.history.length = t.snapshotLen) :
    (c.work t .insert).Law := by
  delta work
  dsimp only
  split
  swap
  · exact h
  rename_i updated hphase
  have hn := hlen updated hphase
  obtain ⟨n, phase, aborted⟩ := t
  obtain rfl : phase = .persisting updated [] := hphase
  have hstanding := h.standing
  rw [hturn] at hstanding
  exact ⟨h.finished, by simpa [hturn] using h.slot, hstanding.insert hn⟩

theorem Law.finish (h : c.Law) {t : Turn} (hturn : c.turn = some t) : (c.work t .finish).Law := by
  delta work
  dsimp only
  split
  swap
  · exact h
  rename_i hphase
  obtain ⟨n, phase, aborted⟩ := t
  obtain rfl : phase = .finishing := hphase
  have hstanding := h.standing
  rw [hturn] at hstanding
  cases hstanding with
  | finishing heven => exact h.drop hturn heven

theorem Law.stop (h : c.Law) {t : Turn} (hturn : c.turn = some t) {fate : Fate}
    (hleaves : t.aborted = true → t.Leaves fate) : (c.work t (.stop fate)).Law := by
  delta work
  dsimp only
  split
  swap
  · exact h
  rename_i haborted
  have hleaves := hleaves haborted
  have heven := (hturn ▸ h.standing).stop hleaves
  split
  swap
  · exact h.drop hturn heven
  rename_i updated m rest hphase
  have hnothing : c.append m fate = c := by
    rw [Turn.Leaves, hphase] at hleaves
    rcases hleaves.2 with rfl | rfl <;> simp [Conversation.append, Transcript.append]
  rw [hnothing]
  exact h.drop hturn heven

/-- **Every untroubled step** keeps the law. -/
theorem Law.step (h : c.Law) {e : Event} (hu : c.Untroubled e) : (c.step e).1.Law := by
  obtain ⟨hs, hfate, hcond⟩ := hu
  cases e with
  | userPrompt p fate =>
    obtain rfl : fate = .written := hfate
    exact h.userPrompt hs p
  | turnDone fate =>
    obtain rfl : fate = .written := hfate
    exact h.turnDone hs
  | userCancel => exact h.userCancel
  | mark => exact h.mark
  | appendMark fate =>
    obtain rfl : fate = .written := hfate
    exact h.appendMark hs
  | answer blocks =>
    cases hturn : c.turn with
    | none => simpa [Conversation.step, hturn] using h
    | some t => simpa [Conversation.step, hturn] using h.answer hturn blocks
  | results content =>
    cases hturn : c.turn with
    | none => simpa [Conversation.step, hturn] using h
    | some t => simpa [Conversation.step, hturn] using h.results hturn content
  | fail =>
    cases hturn : c.turn with
    | none => simpa [Conversation.step, hturn] using h
    | some t => simpa [Conversation.step, hturn] using h.fail hturn
  | persist fate =>
    obtain rfl : fate = .written := hfate
    cases hturn : c.turn with
    | none => simpa [Conversation.step, hturn] using h
    | some t => simpa [Conversation.step, hturn] using h.persist hturn hs
  | insert =>
    cases hturn : c.turn with
    | none => simpa [Conversation.step, hturn] using h
    | some t => simpa [Conversation.step, hturn] using h.insert hturn (hcond t hturn)
  | finish =>
    cases hturn : c.turn with
    | none => simpa [Conversation.step, hturn] using h
    | some t => simpa [Conversation.step, hturn] using h.finish hturn
  | stop fate =>
    cases hturn : c.turn with
    | none => simpa [Conversation.step, hturn] using h
    | some t => simpa [Conversation.step, hturn] using h.stop hturn (hcond t hturn)

theorem Law.agrees (h : c.Law) (hsettled : c.Settled) : c.Agrees := by
  have hstanding := h.standing
  rw [hsettled.1] at hstanding
  cases hstanding with
  | idle heven =>
    have hlines : c.jsonl.messages = c.history := by
      rwa [hsettled.2, toAppend_none, List.append_nil] at heven
    refine ⟨hlines, fun repair messages hload => ?_⟩
    dsimp only [loadOne] at hload
    split at hload
    · cases hload
    · rw [← Option.some.inj hload, hlines]

/-- **Memory and disk agree** after every run of untroubled steps, whenever no turn is in flight. -/
theorem agrees_of_untroubled (session : SessionId) (messages : List Message) (es : List Event)
    (h : Run.Always step (load session messages) (fun _ c e => c.Untroubled e) es)
    (hsettled : (Run.final step (load session messages) es).Settled) :
    (Run.final step (load session messages) es).Agrees :=
  (Run.invariant (I := fun _ (c : Conversation) => c.Law) (law_load session messages)
    (fun _ _ _ hlaw hu => hlaw.step hu) h).agrees hsettled

/-- A reply is taken over, and the next prompt is cancelled before its reply. -/
theorem agrees_cancelled : (Run.final step (load 1 [])
    [.userPrompt ⟨"one", []⟩ .written, .answer [.text "first"], .persist .written, .insert, .finish,
      .turnDone .written, .userPrompt ⟨"two", []⟩ .written, .userCancel, .mark,
      .appendMark .written, .stop .written]).Agrees := by
  refine agrees_of_untroubled 1 [] _ ?_ ⟨rfl, rfl⟩
  simp only [Run.always_cons]
  refine ⟨⟨rfl, rfl, trivial⟩, ⟨rfl, rfl, trivial⟩, ⟨rfl, rfl, trivial⟩, ⟨rfl, rfl, ?_⟩,
    ⟨rfl, rfl, trivial⟩, ⟨rfl, rfl, trivial⟩, ⟨rfl, rfl, trivial⟩, ⟨rfl, rfl, trivial⟩,
    ⟨rfl, rfl, trivial⟩, ⟨rfl, rfl, trivial⟩, ⟨rfl, rfl, ?_⟩, .nil⟩
  · rintro t ⟨⟩ updated -
    rfl
  · rintro t ⟨⟩ -
    trivial

/-- A turn with one tool round has three messages to persist. The cancel lands when the first is in
the file: it stays there, with the marker behind it, and memory has only the prompt and the
marker. -/
def halfPersisted : List Event :=
  [.userPrompt ⟨"list the files", []⟩ .written, .answer [.toolUse "t1" "ls" .null],
    .results [.toolResult "t1" (.string "a.txt") false], .answer [.text "there is one"],
    .persist .written, .userCancel, .mark, .appendMark .written, .stop .unopened]

theorem not_agrees : (Run.final step (load 1 []) halfPersisted).Settled ∧
    ¬ (Run.final step (load 1 []) halfPersisted).Agrees := by
  refine ⟨⟨rfl, rfl⟩, fun h => ?_⟩
  have hlen := congrArg List.length h.lines
  revert hlen
  decide

end Conversation

end ApexOS.Agentd
