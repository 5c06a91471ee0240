import ApexOS.Agentd.Goal
import ApexOS.Lib.Run
import ApexOS.Lib.Table
import Mathlib.Data.Finset.Basic

/-!
# One turn at a time

Prompts for a session arrive whenever they like, and two turns of one session must not run at
once. The router keeps a gate: a prompt that finds its session free runs, one that finds it busy
queues, and the end of a turn runs the next in the queue. The end is signalled by the turn's task
itself: it holds a guard whose drop sends the session on a channel of the router's, whether the
turn completed, failed or was aborted.

Between the drop and the moment the router reads the channel the session is neither running nor
free, and commands may be handled in between. So the law that carries the rest counts both: turns
in flight and signals not yet read are together one if the session is busy and none if it is not.

Prompts are numbered as they arrive. The number is no part of the daemon; it tells two prompts of
the same text apart.

## Main definitions

* `TurnGate`: the gate, with its four operations
* `TurnRouter`, `TurnRouter.step`: the gate with the tasks it starts and the channel they signal on
* `TurnRouter.Serialized`: what holds of a session after a run

## Main results

* `TurnRouter.turns_serialized`: it holds of every session after every run
-/

namespace ApexOS.Agentd

variable {α : Type*}

/-- Per-session turn serialization: who is busy, who waits, who was retired. -/
structure TurnGate (α : Type*) where
  busy : Finset SessionId
  queued : Table SessionId (List α)
  retired : Finset SessionId

namespace TurnGate

/-- `TurnGate::default()`. -/
def new : TurnGate α := ⟨∅, .empty, ∅⟩

/-- The prompts queued behind a session's turn. -/
def waiting (g : TurnGate α) (session : SessionId) : List α := (g.queued.get? session).getD []

/-- `admit`: a prompt arrived. It runs now, or is queued behind a turn in flight, or is refused
because the session was retired. -/
def admitPrompt (g : TurnGate α) (session : SessionId) (p : α) : TurnGate α × Option α :=
  if session ∈ g.retired then (g, none)
  else if session ∈ g.busy then
    ({ g with queued := g.queued.insert session (g.waiting session ++ [p]) }, none)
  else ({ g with busy := insert session g.busy }, some p)

/-- The turn in flight ended: the next queued prompt runs, or the slot is freed. -/
def complete (g : TurnGate α) (session : SessionId) : TurnGate α × Option α :=
  if session ∈ g.retired then
    ({ g with busy := g.busy.erase session, queued := g.queued.erase session }, none)
  else
    match g.waiting session with
    | p :: rest => ({ g with queued := g.queued.insert session rest }, some p)
    | [] => ({ g with busy := g.busy.erase session, queued := g.queued.erase session }, none)

/-- Drop everything queued behind the turn; the slot clears when the turn's guard fires. -/
def cancel (g : TurnGate α) (session : SessionId) : TurnGate α :=
  { g with queued := g.queued.erase session }

/-- Drop the queue and refuse further prompts. -/
def retire (g : TurnGate α) (session : SessionId) : TurnGate α :=
  { g with queued := g.queued.erase session, retired := insert session g.retired }

variable {g : TurnGate α} {session : SessionId}

theorem complete_of_nil (h : g.waiting session = []) :
    g.complete session =
      ({ g with busy := g.busy.erase session, queued := g.queued.erase session }, none) := by
  rw [complete, h]
  split <;> rfl

theorem complete_of_cons (hret : session ∉ g.retired) {p : α} {rest : List α}
    (h : g.waiting session = p :: rest) :
    g.complete session = ({ g with queued := g.queued.insert session rest }, some p) := by
  rw [complete, if_neg hret, h]

end TurnGate

/-- The router's state that turns depend on. -/
structure TurnRouter (α : Type*) where
  /-- prompts wait under the number they arrived with -/
  gate : TurnGate (ℕ × α)
  /-- sessions deleted or archived, as the session store remembers them -/
  tombstones : Finset SessionId
  /-- tasks whose slot guard has not dropped -/
  running : List SessionId
  /-- what guards have sent and the router has not read -/
  turnDone : List SessionId
  arrived : ℕ

namespace TurnRouter

/-- What a router starts with. -/
def new : TurnRouter α := ⟨.new, ∅, [], [], 0⟩

/-- What can happen next. `revived` is whether a parked worker session could be read back from
disk, true where there is nothing to read. A turn's end is its guard's drop, whatever ended it: an
abort (of a cancel, of a retire, or of a parent's cancel) only makes it come sooner. -/
inductive Event (α : Type*)
  | userPrompt (session : SessionId) (p : α) (revived : Bool)
  | turnEnd (session : SessionId)
  | turnDone
  | userCancel (session : SessionId)
  | retire (session : SessionId)

/-- What an event did: the prompt the gate took, the turn that was started, the session whose
signal was read. -/
structure Outcome (α : Type*) where
  admitted : Option (SessionId × ℕ × α) := none
  started : Option (SessionId × ℕ × α) := none
  completed : Option SessionId := none

/-- `to_run`: the chosen turn is spawned, with its guard. -/
def spawn (r : TurnRouter α) (session : SessionId) : Option (ℕ × α) → TurnRouter α
  | some _ => { r with running := session :: r.running }
  | none => r

/-- The router's loop, one event. -/
def step (r : TurnRouter α) : Event α → TurnRouter α × Outcome α
  | .userPrompt session p revived =>
    let r := { r with arrived := r.arrived + 1 }
    let x := (r.arrived - 1, p)
    if session ∈ r.tombstones ∨ revived = false then (r, {})
    else
      let (gate, run) := r.gate.admitPrompt session x
      (spawn { r with gate } session run,
        { admitted := if session ∈ r.gate.retired then none else some (session, x)
          started := run.map (session, ·) })
  | .turnEnd session =>
    if session ∈ r.running then
      ({ r with running := r.running.erase session, turnDone := r.turnDone ++ [session] }, {})
    else (r, {})
  | .turnDone =>
    match r.turnDone with
    | [] => (r, {})
    | session :: rest =>
      let (gate, run) := r.gate.complete session
      (spawn { r with gate, turnDone := rest } session run,
        { started := run.map (session, ·), completed := some session })
  | .userCancel session => ({ r with gate := r.gate.cancel session }, {})
  | .retire session =>
    ({ r with gate := r.gate.retire session, tombstones := insert session r.tombstones }, {})

/-! ### What a session sees -/

/-- The session an event is about. -/
def Event.session (r : TurnRouter α) : Event α → Option SessionId
  | .userPrompt session _ _ | .turnEnd session | .userCancel session | .retire session =>
    some session
  | .turnDone => r.turnDone.head?

/-- A session's share of something said of any session. -/
def ofSession {β : Type*} (session : SessionId) (x : Option (SessionId × β)) : Option β :=
  x.bind fun x => if x.1 = session then some x.2 else none

/-- What an event and its outcome were to one session. -/
structure Label (β : Type*) where
  admitted : Option β := none
  started : Option β := none
  completed : Bool := false
  cancels : Bool := false
  retires : Bool := false

/-- Both drop what waits. -/
def Label.cuts {β : Type*} (a : Label β) : Bool := a.cancels || a.retires

/-- An event of the log as one session sees it. -/
def label (session : SessionId) (x : Event α × Outcome α) : Label (ℕ × α) where
  admitted := ofSession session x.2.admitted
  started := ofSession session x.2.started
  completed := x.2.completed = some session
  cancels := match x.1 with
    | .userCancel t => t = session
    | _ => false
  retires := match x.1 with
    | .retire t => t = session
    | _ => false

/-- The prompts of a session that the gate took, in order. -/
def admissions (session : SessionId) (past : List (Event α × Outcome α)) : List (ℕ × α) :=
  past.filterMap fun x => (label session x).admitted

/-- The prompts of a session whose turns were started, in order. -/
def starts (session : SessionId) (past : List (Event α × Outcome α)) : List (ℕ × α) :=
  past.filterMap fun x => (label session x).started

/-- How many ends of the session's turns the router has learnt of. -/
def completions (session : SessionId) (past : List (Event α × Outcome α)) : ℕ :=
  past.countP fun x => (label session x).completed

/-- One session's part of the router. -/
structure Lane (β : Type*) where
  busy : Prop
  waiting : List β
  retired : Prop
  running : ℕ
  signalled : ℕ

/-- What the router holds of a session. -/
def lane (r : TurnRouter α) (session : SessionId) : Lane (ℕ × α) where
  busy := session ∈ r.gate.busy
  waiting := r.gate.waiting session
  retired := session ∈ r.gate.retired
  running := r.running.count session
  signalled := r.turnDone.count session

/-- **Turns of a session are serialized**, after a run with this past that led to this state. -/
structure Serialized (session : SessionId) (past : List (Event α × Outcome α))
    (r : TurnRouter α) : Prop where
  /-- at most one turn is in flight -/
  one : r.running.count session ≤ 1
  /-- prompts are numbered in the order of their arrival -/
  numbered : (admissions session past).Pairwise fun p q => p.1 < q.1
  /-- and start in that order, none twice -/
  order : (starts session past).Sublist (admissions session past)
  /-- a prompt after which nothing was cancelled has started, or waits for a turn to end -/
  served : ∀ p, Run.Since (fun x => (label session x).admitted = some p)
      (fun x => (label session x).cuts = true) past →
    p ∈ starts session past ∨
      p ∈ r.gate.waiting session ∧ (session ∈ r.running ∨ session ∈ r.turnDone)
  /-- and it starts when the turns before it have ended -/
  drains : ∀ es, (∀ y ∈ Run.log step r es, (label session y).cuts = false) →
    (r.gate.waiting session).length ≤ completions session (Run.log step r es) →
      ∀ p ∈ r.gate.waiting session, p ∈ starts session (Run.log step r es)
  /-- nothing starts once the session is retired -/
  retired : ∀ before x after, past = before ++ x :: after →
    (label session x).retires = true → starts session after = []
  /-- an event of another session changes nothing here -/
  apart : ∀ e : Event α, e.session r ≠ some session →
    label session (e, (step r e).2) = {} ∧ lane (step r e).1 session = lane r session

/-! ### The lane of a session -/

/-- What one event can do to a session's lane. -/
inductive Lane.Step {β : Type*} (l : Lane β) : Label β → Lane β → Prop
  /-- nothing: another session's event, or a prompt refused -/
  | stays : Step l {} l
  /-- a prompt found the slot free -/
  | runs (p : β) (hbusy : ¬ l.busy) (hret : ¬ l.retired) :
      Step l { admitted := some p, started := some p }
        { l with busy := True, running := l.running + 1 }
  /-- a prompt found it taken -/
  | queues (p : β) (hbusy : l.busy) (hret : ¬ l.retired) :
      Step l { admitted := some p } { l with waiting := l.waiting ++ [p] }
  /-- a turn's guard dropped -/
  | ends (n : ℕ) (hn : l.running = n + 1) :
      Step l {} { l with running := n, signalled := l.signalled + 1 }
  /-- its signal was read, and the next prompt runs -/
  | next (p : β) (rest : List β) (n : ℕ) (hn : l.signalled = n + 1)
      (hwait : l.waiting = p :: rest) (hret : ¬ l.retired) :
      Step l { started := some p, completed := true }
        { l with waiting := rest, running := l.running + 1, signalled := n }
  /-- its signal was read, and the slot is freed -/
  | frees (n : ℕ) (hn : l.signalled = n + 1) (hnone : l.retired ∨ l.waiting = []) :
      Step l { completed := true } { l with busy := False, waiting := [], signalled := n }
  | cancels : Step l { cancels := true } { l with waiting := [] }
  | retires : Step l { retires := true } { l with waiting := [], retired := True }

variable {r : TurnRouter α} {session : SessionId}

@[simp] theorem ofSession_none {β : Type*} :
    ofSession session (none : Option (SessionId × β)) = none :=
  rfl

@[simp] theorem ofSession_self {β : Type*} {x : β} :
    ofSession session (some (session, x)) = some x := by
  simp [ofSession]

/-- **An event of another session** leaves this one's lane as it is. -/
theorem step_apart (e : Event α) (h : e.session r ≠ some session) :
    label session (e, (step r e).2) = {} ∧ lane (step r e).1 session = lane r session := by
  cases e with
  | userPrompt t p revived =>
    have hne : t ≠ session := fun heq => h (congrArg some heq)
    have hne' : session ≠ t := hne.symm
    simp only [step, TurnGate.admitPrompt]
    split
    · exact ⟨rfl, rfl⟩
    · split <;> [skip; split] <;>
        simp [label, lane, spawn, ofSession, TurnGate.waiting, Table.get?_insert, *]
  | turnEnd t =>
    have hne : t ≠ session := fun heq => h (congrArg some heq)
    simp only [step]
    split
    · simp [label, lane, hne, List.count_erase]
    · exact ⟨rfl, rfl⟩
  | turnDone =>
    simp only [step]
    cases hd : r.turnDone with
    | nil => simp [label, lane, hd]
    | cons t rest =>
      have hne : t ≠ session := fun heq => h (by simp [Event.session, hd, heq])
      have hne' : session ≠ t := hne.symm
      simp only [TurnGate.complete]
      split <;> [skip; split] <;>
        simp [label, lane, spawn, ofSession, TurnGate.waiting, Table.get?_insert, Table.get?_erase,
          *]
  | userCancel t =>
    have hne : t ≠ session := fun heq => h (congrArg some heq)
    simp [step, label, lane, TurnGate.cancel, TurnGate.waiting, Table.get?_erase, hne, hne.symm]
  | retire t =>
    have hne : t ≠ session := fun heq => h (congrArg some heq)
    simp [step, label, lane, TurnGate.retire, TurnGate.waiting, Table.get?_erase, hne, hne.symm]

theorem step_userPrompt (p : α) (revived : Bool) :
    (lane r session).Step (label session (.userPrompt session p revived,
      (step r (.userPrompt session p revived)).2))
      (lane (step r (.userPrompt session p revived)).1 session) := by
  simp only [step, TurnGate.admitPrompt]
  split
  · exact .stays
  by_cases hret : session ∈ r.gate.retired
  · simpa [label, spawn, hret] using .stays
  by_cases hbusy : session ∈ r.gate.busy
  · have := Lane.Step.queues (l := lane r session) (r.arrived, p) hbusy hret
    simpa [label, lane, spawn, hret, hbusy, TurnGate.waiting, Table.get?_insert] using this
  · have := Lane.Step.runs (l := lane r session) (r.arrived, p) hbusy hret
    simpa [label, lane, spawn, hret, hbusy, TurnGate.waiting] using this

theorem step_turnEnd :
    (lane r session).Step (label session (.turnEnd session, (step r (.turnEnd session)).2))
      (lane (step r (.turnEnd session)).1 session) := by
  by_cases h : session ∈ r.running
  · obtain ⟨n, hn⟩ := Nat.exists_eq_succ_of_ne_zero (List.count_pos_iff.mpr h).ne'
    have := Lane.Step.ends (l := lane r session) n hn
    simpa [step, h, label, lane, hn] using this
  · simpa [step, h, label] using .stays

theorem step_turnDone {rest : List SessionId} (hd : r.turnDone = session :: rest) :
    (lane r session).Step (label session (.turnDone, (step r .turnDone).2))
      (lane (step r .turnDone).1 session) := by
  have hn : r.turnDone.count session = rest.count session + 1 := by simp [hd]
  by_cases hret : session ∈ r.gate.retired
  · have := Lane.Step.frees (l := lane r session) _ hn (.inl hret)
    simpa [step, hd, label, lane, spawn, hret, TurnGate.complete, TurnGate.waiting,
      Table.get?_erase] using this
  cases hw : r.gate.waiting session with
  | nil =>
    have := Lane.Step.frees (l := lane r session) _ hn (.inr hw)
    simpa [step, hd, label, lane, spawn, hret, TurnGate.complete_of_nil hw, TurnGate.waiting,
      Table.get?_erase] using this
  | cons p waiting =>
    have := Lane.Step.next (l := lane r session) p waiting _ hn hw hret
    simpa [step, hd, label, lane, spawn, hret, TurnGate.complete_of_cons hret hw,
      TurnGate.waiting, Table.get?_insert] using this

/-- **Every event is one step of every session's lane.** -/
theorem step_lane (r : TurnRouter α) (session : SessionId) (e : Event α) :
    (lane r session).Step (label session (e, (step r e).2)) (lane (step r e).1 session) := by
  by_cases h : e.session r = some session
  swap
  · obtain ⟨hlabel, hlane⟩ := step_apart e h
    rw [hlabel, hlane]
    exact .stays
  cases e with
  | userPrompt t p revived =>
    obtain rfl : t = session := by simpa [Event.session] using h
    exact step_userPrompt p revived
  | turnEnd t =>
    obtain rfl : t = session := by simpa [Event.session] using h
    exact step_turnEnd
  | turnDone =>
    obtain ⟨rest, hd⟩ := List.head?_eq_some_iff.mp h
    exact step_turnDone hd
  | userCancel t =>
    obtain rfl : t = session := by simpa [Event.session] using h
    simpa [step, label, lane, TurnGate.cancel, TurnGate.waiting, Table.get?_erase] using
      Lane.Step.cancels (l := lane r t)
  | retire t =>
    obtain rfl : t = session := by simpa [Event.session] using h
    simpa [step, label, lane, TurnGate.retire, TurnGate.waiting, Table.get?_erase] using
      Lane.Step.retires (l := lane r t)

/-! ### The law of a lane -/

variable {past : List (Event α × Outcome α)} {x : Event α × Outcome α} {l l' : Lane (ℕ × α)}

theorem starts_append (past after : List (Event α × Outcome α)) :
    starts session (past ++ after) = starts session past ++ starts session after :=
  List.filterMap_append

theorem starts_cons (x : Event α × Outcome α) (after : List (Event α × Outcome α)) :
    starts session (x :: after) = (label session x).started.toList ++ starts session after := by
  rw [starts, List.filterMap_cons]
  cases (label session x).started <;> rfl

theorem starts_concat : starts session (past ++ [x]) =
    starts session past ++ (label session x).started.toList := by
  rw [starts_append, starts_cons]
  exact congrArg _ (List.append_nil _)

theorem admissions_concat : admissions session (past ++ [x]) =
    admissions session past ++ (label session x).admitted.toList := by
  rw [admissions, List.filterMap_append, List.filterMap_cons]
  cases (label session x).admitted <;> rfl

/-- What holds of a session's lane after a run with this past. -/
structure Law (session : SessionId) (past : List (Event α × Outcome α)) (l : Lane (ℕ × α)) :
    Prop where
  /-- the slot is held by a turn, or by a signal on its way -/
  held : l.busy → l.running + l.signalled = 1
  free : ¬ l.busy → l.running + l.signalled = 0
  waits : l.waiting ≠ [] → l.busy ∧ ¬ l.retired
  order : (starts session past ++ l.waiting).Sublist (admissions session past)
  served : ∀ p, Run.Since (fun x => (label session x).admitted = some p)
    (fun x => (label session x).cuts = true) past → p ∈ starts session past ∨ p ∈ l.waiting
  retired : ∀ before x after, past = before ++ x :: after →
    (label session x).retires = true → l.retired ∧ starts session after = []

theorem law_new : Law session [] (lane (new : TurnRouter α) session) where
  held := by simp [lane, new, TurnGate.new]
  free := by simp [lane, new]
  waits := by simp [lane, new, TurnGate.new, TurnGate.waiting]
  order := by simp [starts, lane, new, TurnGate.new, TurnGate.waiting]
  served := fun p h => absurd h Run.not_since_nil
  retired := by simp

/-- A signal is read only while the slot is held. -/
theorem Law.busy_of_signalled (h : Law session past l) {n : ℕ} (hn : l.signalled = n + 1) :
    l.busy := by
  by_contra hbusy
  have := h.free hbusy
  omega

theorem Law.held_step (h : Law session past l) (hs : l.Step (label session x) l') :
    (l'.busy → l'.running + l'.signalled = 1) ∧ (¬ l'.busy → l'.running + l'.signalled = 0) := by
  have hheld := h.held
  have hfree := h.free
  generalize label session x = a at hs
  cases hs with
  | stays | queues | cancels | retires => exact ⟨hheld, hfree⟩
  | runs p hbusy hret =>
    have := hfree hbusy
    exact ⟨fun _ => by dsimp only; omega, fun hf => (hf trivial).elim⟩
  | ends n hn =>
    refine ⟨fun hb => ?_, fun hb => ?_⟩
    · have := hheld hb
      dsimp only
      omega
    · have := hfree hb
      omega
  | next p rest n hn hwait hret =>
    have := hheld (h.waits (by simp [hwait])).1
    refine ⟨fun _ => by dsimp only; omega, fun hf => (hf (h.waits (by simp [hwait])).1).elim⟩
  | frees n hn hnone =>
    have := hheld (h.busy_of_signalled hn)
    exact ⟨False.elim, fun _ => by dsimp only; omega⟩

theorem Law.waits_step (h : Law session past l) (hs : l.Step (label session x) l') :
    l'.waiting ≠ [] → l'.busy ∧ ¬ l'.retired := by
  intro hw
  generalize label session x = a at hs
  cases hs with
  | stays | ends => exact h.waits hw
  | runs p hbusy hret => exact ⟨trivial, hret⟩
  | queues p hbusy hret => exact ⟨hbusy, hret⟩
  | next p rest n hn hwait hret => exact ⟨(h.waits (by simp [hwait])).1, hret⟩
  | frees | cancels | retires => exact (hw rfl).elim

theorem Law.order_step (h : Law session past l) (hs : l.Step (label session x) l') :
    (starts session (past ++ [x]) ++ l'.waiting).Sublist (admissions session (past ++ [x])) := by
  have horder := h.order
  have hstarted : (starts session past).Sublist (admissions session past) :=
    (List.sublist_append_left _ _).trans horder
  rw [starts_concat, admissions_concat]
  generalize label session x = a at hs
  cases hs with
  | stays | ends => simpa using horder
  | runs p hbusy hret =>
    have hempty : l.waiting = [] := by
      by_contra hw
      exact hbusy (h.waits hw).1
    simpa [hempty] using hstarted
  | queues p hbusy hret =>
    have := horder.append_right [p]
    simpa using this
  | next p rest n hn hwait hret => simpa [hwait] using horder
  | frees | cancels | retires => simpa using hstarted

theorem Law.served_step (h : Law session past l) (hs : l.Step (label session x) l') (p : ℕ × α)
    (hp : Run.Since (fun x => (label session x).admitted = some p)
      (fun x => (label session x).cuts = true) (past ++ [x])) :
    p ∈ starts session (past ++ [x]) ∨ p ∈ l'.waiting := by
  have hserved : (label session x).cuts = false → (label session x).admitted ≠ some p →
      p ∈ starts session past ∨ p ∈ l.waiting := by
    intro hcut hne
    exact h.served p ((Run.since_concat.mp hp).resolve_left hne).1
  have hcut : (label session x).admitted ≠ some p → (label session x).cuts = false := by
    intro hne
    simpa using ((Run.since_concat.mp hp).resolve_left hne).2
  rw [starts_concat]
  generalize label session x = a at hs hserved hcut
  cases hs with
  | stays | ends => simpa using hserved rfl (by simp)
  | runs q hbusy hret =>
    by_cases hq : q = p
    · simp [hq]
    · have := hserved rfl (by simpa using hq)
      simp only [List.mem_append]
      tauto
  | queues q hbusy hret =>
    by_cases hq : q = p
    · simp [hq]
    · have := hserved rfl (by simpa using hq)
      simp only [List.mem_append]
      tauto
  | next q rest n hn hwait hret =>
    have := hserved rfl (by simp)
    rw [hwait] at this
    simpa [or_assoc] using this
  | frees n hn hnone =>
    have hempty : l.waiting = [] := by
      by_contra hw
      exact hnone.elim (h.waits hw).2 hw
    have := hserved rfl (by simp)
    simpa [hempty] using this
  | cancels | retires => cases hcut (by simp)

theorem Law.retired_step (h : Law session past l) (hs : l.Step (label session x) l')
    {before after : List (Event α × Outcome α)} {y : Event α × Outcome α}
    (hsplit : past ++ [x] = before ++ y :: after) (hy : (label session y).retires = true) :
    l'.retired ∧ starts session after = [] := by
  rcases List.eq_nil_or_concat after with rfl | ⟨after, z, rfl⟩
  · obtain ⟨-, hxy⟩ := List.append_inj' hsplit rfl
    obtain rfl : x = y := by simpa using hxy
    generalize label session x = a at hs hy
    cases hs with
    | retires => exact ⟨trivial, rfl⟩
    | _ => cases hy
  · rw [List.concat_eq_append, ← List.cons_append, ← List.append_assoc] at hsplit
    obtain ⟨hpast, hxz⟩ := List.append_inj' hsplit rfl
    obtain rfl : x = z := by simpa using hxz
    obtain ⟨hret, hstarts⟩ := h.retired before y after hpast hy
    rw [List.concat_eq_append, starts_concat, hstarts]
    generalize label session x = a at hs
    cases hs with
    | runs p hbusy hne | next p rest n hn hwait hne => exact (hne hret).elim
    | retires => exact ⟨trivial, rfl⟩
    | _ => exact ⟨hret, rfl⟩

/-- **One event keeps the law.** -/
theorem Law.step (h : Law session past l) (hs : l.Step (label session x) l') :
    Law session (past ++ [x]) l' where
  held := (h.held_step hs).1
  free := (h.held_step hs).2
  waits := h.waits_step hs
  order := h.order_step hs
  served := h.served_step hs
  retired := fun _ _ _ hsplit hy => h.retired_step hs hsplit hy

/-- And so does every run. -/
theorem law_run (session : SessionId) (es : List (Event α)) :
    Law session (Run.log TurnRouter.step new es)
      (lane (Run.final TurnRouter.step new es) session) := by
  refine Run.invariant (I := fun past r => Law session past (lane r session))
    (P := fun _ _ _ => True) law_new (fun past r e h _ => ?_) (fun _ _ _ _ => trivial)
  exact h.step (step_lane r session e)

/-! ### Waiting ends -/

/-- A prompt that waits moves up by one with every turn that ends, and then starts. -/
theorem Lane.Step.moves_up {β : Type*} {l l' : Lane β} {a : Label β} (hs : l.Step a l')
    (hwaits : l.waiting ≠ [] → ¬ l.retired) (hcut : a.cuts = false) {i : ℕ} {p : β}
    (hp : l.waiting[i]? = some p) :
    a.started = some p ∨ ∃ j, l'.waiting[j]? = some p ∧ i = j + a.completed.toNat := by
  cases hs with
  | stays | runs | ends => exact .inr ⟨i, hp, rfl⟩
  | queues q hbusy hret =>
    refine .inr ⟨i, ?_, rfl⟩
    exact (List.getElem?_append_left (List.getElem?_eq_some_iff.mp hp).1).trans hp
  | next q rest n hn hwait hret =>
    rw [hwait] at hp
    cases i with
    | zero => exact .inl hp
    | succ j => exact .inr ⟨j, hp, rfl⟩
  | frees n hn hnone =>
    have hne : l.waiting ≠ [] := by
      rintro hw
      simp [hw] at hp
    exact (hnone.elim (hwaits hne) hne).elim
  | cancels | retires => cases hcut

/-- **A prompt with `i` others before it starts with the `i + 1`st turn that ends.** -/
theorem Law.starts_of_lt {r : TurnRouter α} (h : Law session past (lane r session))
    {es : List (Event α)}
    (hcut : ∀ y ∈ Run.log TurnRouter.step r es, (label session y).cuts = false)
    {i : ℕ} {p : ℕ × α} (hp : (r.gate.waiting session)[i]? = some p)
    (hi : i < completions session (Run.log TurnRouter.step r es)) :
    p ∈ starts session (Run.log TurnRouter.step r es) := by
  induction es generalizing past r i with
  | nil => cases hi
  | cons e es ih =>
    have hs := step_lane r session e
    rw [Run.log_cons, starts_cons]
    obtain hstart | ⟨j, hj, rfl⟩ := hs.moves_up (fun hw => (h.waits hw).2)
      (hcut _ List.mem_cons_self) hp
    · simp [hstart]
    · refine List.mem_append_right _ (ih (h.step hs) (fun y hy => ?_) hj ?_)
      · exact hcut y (List.mem_cons_of_mem _ hy)
      · rw [Run.log_cons, completions, List.countP_cons] at hi
        cases hc : (label session (e, (TurnRouter.step r e).2)).completed <;>
          simp only [hc, Bool.toNat_true, Bool.toNat_false] at hi ⊢ <;>
          simpa [completions] using hi

/-! ### The numbers -/

@[simp] theorem spawn_arrived (r : TurnRouter α) (t : SessionId) (run : Option (ℕ × α)) :
    (spawn r t run).arrived = r.arrived := by
  cases run <;> rfl

theorem le_arrived_step (r : TurnRouter α) (e : Event α) : r.arrived ≤ (step r e).1.arrived := by
  cases e with
  | userPrompt t q revived =>
    simp only [step]
    split <;> simp
  | turnEnd t =>
    simp only [step]
    split <;> exact le_refl _
  | turnDone =>
    simp only [step]
    split <;> simp
  | userCancel t | retire t => exact le_refl _

/-- A prompt the gate takes bears the number of its arrival. -/
theorem number_of_admitted {e : Event α} {p : ℕ × α}
    (h : (label session (e, (step r e).2)).admitted = some p) :
    p.1 = r.arrived ∧ (step r e).1.arrived = r.arrived + 1 := by
  cases e with
  | userPrompt t q revived =>
    simp only [step] at h ⊢
    split at h
    · cases h
    · rename_i hopen
      rw [if_neg hopen]
      refine ⟨?_, spawn_arrived _ _ _⟩
      simp only [label, ofSession, Option.bind_eq_some_iff] at h
      obtain ⟨x, hx, hp⟩ := h
      split at hx
      · cases hx
      · obtain rfl := Option.some.inj hx
        split at hp
        · obtain rfl := Option.some.inj hp
          rfl
        · cases hp
  | turnEnd t =>
    simp only [step] at h
    split at h <;> cases h
  | turnDone =>
    simp only [step] at h
    split at h <;> cases h
  | userCancel t | retire t => cases h

/-- The numbers of what the gate took grow, and stay below the count of arrivals. -/
theorem numbered_run (session : SessionId) (es : List (Event α)) :
    (admissions session (Run.log step new es)).Pairwise (fun p q => p.1 < q.1) ∧
      ∀ p ∈ admissions session (Run.log step new es), p.1 < (Run.final step new es).arrived := by
  refine Run.invariant (P := fun _ _ _ => True)
    (I := fun past r => (admissions session past).Pairwise (fun p q => p.1 < q.1) ∧
      ∀ p ∈ admissions session past, p.1 < TurnRouter.arrived r)
    ⟨.nil, fun _ h => nomatch h⟩ (fun past r e h _ => ?_) (fun _ _ _ _ => trivial)
  obtain ⟨hpair, hlt⟩ := h
  rw [admissions_concat]
  cases ha : (label session (e, (step r e).2)).admitted with
  | none =>
    rw [Option.toList_none, List.append_nil]
    exact ⟨hpair, fun p hp => (hlt p hp).trans_le (le_arrived_step r e)⟩
  | some p =>
    obtain ⟨hp, harr⟩ := number_of_admitted ha
    rw [Option.toList_some, harr, List.pairwise_append]
    refine ⟨⟨hpair, List.pairwise_singleton _ _, fun q hq q' hq' => ?_⟩, fun q hq => ?_⟩
    · rw [List.mem_singleton.mp hq', hp]
      exact hlt q hq
    · rcases List.mem_append.mp hq with hq | hq
      · exact (hlt q hq).trans (Nat.lt_succ_self _)
      · rw [List.mem_singleton.mp hq, hp]
        exact Nat.lt_succ_self _

/-- **Turns are serialized**: after every run, every session's. -/
theorem turns_serialized (es : List (Event α)) (session : SessionId) :
    Serialized session (Run.log step new es) (Run.final step new es) := by
  have law := law_run session es
  refine ⟨?_, (numbered_run session es).1, ?_, fun p hp => ?_, fun fs hcut hlen p hp => ?_,
    fun before x after hsplit hx => ?_, fun e he => step_apart e he⟩
  · by_cases hbusy : (lane (Run.final step new es) session).busy
    · have hheld : List.count session _ + List.count session _ = 1 := law.held hbusy
      omega
    · have hfree : List.count session _ + List.count session _ = 0 := law.free hbusy
      omega
  · exact (List.sublist_append_left _ _).trans law.order
  · refine (law.served p hp).imp_right fun hwait => ⟨hwait, ?_⟩
    have hheld : List.count session _ + List.count session _ = 1 :=
      law.held (law.waits (List.ne_nil_of_mem hwait)).1
    by_contra hnone
    obtain ⟨hrun, hsig⟩ := not_or.mp hnone
    rw [List.count_eq_zero.mpr hrun, List.count_eq_zero.mpr hsig] at hheld
    cases hheld
  · obtain ⟨i, hi, rfl⟩ := List.mem_iff_getElem.mp hp
    exact law.starts_of_lt hcut (List.getElem?_eq_getElem hi) (hi.trans_le hlen)
  · exact (law.retired before x after hsplit hx).2

end TurnRouter

end ApexOS.Agentd
