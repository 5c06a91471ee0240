import ApexOS.Fabrica.Handling
import ApexOS.Fabrica.Boot
import ApexOS.Lib.Run

/-!
# Slots, and the queue

Two laws of the worker tier over whole runs. A worker holds a slot while a turn is in flight on its
session: that is what `holds_slot` and the cap count, and what `turn_inflight` is kept for. And a
queued worker waits for its admission: supervision does not take it out of the queue.

Both hold of every handler but one. A late approval makes a worker run that is blocked without a
turn, and a review parks a gate that opened late and found the cap full. Each law is proved for
every run in which that does not happen, whatever the files the process starts from, and with
restarts.

## Main definitions

* `Worker.Slotted`, `Driver.SlotLaw`: slots and turns agree
* `Node.ApprovalMeetsTurn`: an approval finds its turn
* `Node.StaysQueued`: what may become of a queued worker in one step
* `Node.ReviewSparesQueue`: a tick finds no queued worker to park

## Main results

* `Node.slotLaw_iff_approvals`, `Node.staysQueued_of_spared`: the laws along a run
-/

namespace ApexOS.Fabrica

open ApexOS.Agentd (SessionId ActionId WorkerState)

/-- A worker that runs has its turn in flight, and one that neither runs nor is blocked has none. -/
structure Worker.Slotted (wk : Worker) : Prop where
  running : wk.state = .running → wk.turnInflight = true
  resting : wk.state ≠ .running → wk.state ≠ .blocked → wk.turnInflight = false

theorem Worker.Slotted.of_not_inflight {wk : Worker} (h : wk.turnInflight = false)
    (hstate : wk.state ≠ .running) : wk.Slotted :=
  ⟨fun hrunning => absurd hrunning hstate, fun _ _ => h⟩

theorem Worker.Slotted.holdsSlot_eq {wk : Worker} (h : wk.Slotted) :
    wk.holdsSlot = wk.turnInflight := by
  unfold Worker.holdsSlot
  by_cases hrunning : wk.state = .running
  · simp [hrunning, h.running hrunning]
  · by_cases hblocked : wk.state = .blocked
    · simp [hblocked]
    · simp [hrunning, hblocked, h.resting hrunning hblocked]

/-- A worker that waits for input has no turn and is held by no gate. -/
theorem Worker.of_posture_waiting {wk : Worker} (h : wk.posture = .waiting) :
    wk.isTerminal = false ∧ wk.state ≠ .running ∧ (wk.state = .blocked → wk.turnInflight = false) ∧
      (wk.state = .queued → wk.barrierHeld = false) := by
  unfold Worker.posture at h
  cases hterm : wk.isTerminal <;> grind

namespace Driver

variable {cfg : Config} {w : World} {d d' : Driver} {c : Cause} {i : Input} {id : ℕ}
  {wk wk' : Worker}

/-! ### One step of a worker -/

/-- Everything but an approval keeps slots and turns together. -/
theorem Life.slotted (h : Life cfg w id c wk wk') (hc : ∀ s, c ≠ .handling (.userApproval s))
    (hwk : wk.Slotted) : wk'.Slotted := by
  cases h with
  | reported _ => exact ⟨hwk.running, hwk.resting⟩
  | turned hstep hturn =>
    cases hturn with
    | rests hstate =>
      refine .of_not_inflight rfl ?_
      rcases hstate with rfl | rfl | rfl | rfl <;> simp
    | goesOn =>
      refine ⟨fun _ => rfl, fun hrunning hblocked => ?_⟩
      simp_all [Worker.stepping]
  | lastReview _ => exact ⟨hwk.running, hwk.resting⟩
  | woken _ => exact ⟨fun _ => rfl, fun h _ => absurd rfl h⟩
  | episode _ => exact ⟨hwk.running, hwk.resting⟩
  | suspended _ => exact ⟨fun h => (by cases h), fun _ h => absurd rfl h⟩
  | resumed _ => exact absurd rfl (hc _)
  | errored => exact ⟨hwk.running, hwk.resting⟩
  | cancelled _ _ => exact .of_not_inflight rfl (by simp)
  | opened _ _ => exact ⟨hwk.running, hwk.resting⟩
  | stalled _ _ _ => exact .of_not_inflight rfl (by simp)
  | parked hpost _ _ _ =>
    obtain ⟨-, hrunning, hblocked, -⟩ := Worker.of_posture_waiting hpost
    refine .of_not_inflight ?_ (by simp)
    by_cases hstate : wk.state = .blocked
    · exact hblocked hstate
    · exact hwk.resting hrunning hstate
  | looked _ => exact ⟨hwk.running, hwk.resting⟩

/-- Slots and turns agree on every worker. -/
def Slotted (d : Driver) : Prop := ∀ id wk, d.workers.get? id = some wk → wk.Slotted

theorem Move.slotted (h : Move cfg w c d d') (hc : ∀ s, c ≠ .handling (.userApproval s))
    (hd : d.Slotted) : d'.Slotted := by
  intro id wk' hget'
  rcases h.prev hget' with ⟨wk, hget, hnext⟩ | ⟨-, -, hqueued, hinflight⟩
  · cases hnext with
    | same => exact hd id wk' hget
    | life hlife => exact hlife.slotted hc (hd id wk hget)
    | admission _ _ => exact ⟨fun _ => rfl, fun h _ => absurd rfl h⟩
  · exact .of_not_inflight hinflight (hqueued ▸ by simp)

theorem slotted_boot (cfg : Config) (w : World) (k : Disk) : (boot cfg w k).Slotted := by
  intro id wk hget
  obtain ⟨hstate, hinflight⟩ := of_booted (booted cfg w k) hget
  refine .of_not_inflight hinflight fun hrunning => ?_
  simp [hrunning, Worker.isTerminal, terminal] at hstate

/-! ### Admission and the cap -/

theorem slotsUsed_admitOne (d : Driver) (id : ℕ) (wk : Worker) :
    slotsUsed (d.admitOne cfg w id wk).workers ≤ slotsUsed d.workers + 1 := by
  rw [show (d.admitOne cfg w id wk).workers = _ from
    congrArg Core.workers (admitOne_spec d cfg w id wk).1]
  exact Table.count_modify_le ..

/-- Admission never takes the slots in use above the cap. -/
theorem slotsUsed_admitQueued_le (d : Driver) (cfg : Config) (w : World) :
    slotsUsed (d.admitQueued cfg w).workers ≤ max (slotsUsed d.workers) cfg.cap := by
  have hloop (n : ℕ) (d : Driver) :
      slotsUsed (admitLoop cfg w n d).workers ≤ max (slotsUsed d.workers) cfg.cap := by
    induction n generalizing d with
    | zero => exact le_max_left ..
    | succ n ih =>
      rw [admitLoop]
      split
      · split
        · exact le_max_left ..
        · rename_i hcap _ id wk _
          refine (ih _).trans (max_le ?_ (le_max_right ..))
          exact ((slotsUsed_admitOne d id wk).trans hcap).trans (le_max_right ..)
      · exact le_max_left ..
  exact hloop _ d

/-- **The law of slots**: a worker runs only while its turn is in flight, a worker that neither runs
nor is blocked has no turn; so the slots in use are the turns in flight, and admission does not take
them above the cap. -/
structure SlotLaw (cfg : Config) (d : Driver) : Prop where
  slotted : ∀ id wk, d.workers.get? id = some wk → wk.Slotted
  counts : slotsUsed d.workers = d.workers.count Worker.turnInflight
  capped : ∀ w, slotsUsed (d.admitQueued cfg w).workers ≤ max (slotsUsed d.workers) cfg.cap

theorem Slotted.slotLaw (h : d.Slotted) : SlotLaw cfg d := by
  refine ⟨h, ?_, slotsUsed_admitQueued_le d cfg⟩
  refine List.countP_congr fun x hx => ?_
  rw [(h x.1 x.2 (Table.mem_iff_get?.mp hx)).holdsSlot_eq]

/-! ### The handlers -/

/-- The worker an approval resumes has its turn in flight. -/
def ApprovalMeetsTurn (d : Driver) : Input → Prop
  | .userApproval session => isWorkerSession session = true →
      (d.workers.find? fun _ wk => wk.session = session && wk.state = .blocked).all
        (fun x => x.2.turnInflight) = true
  | _ => True

theorem workers_userApproval {session : SessionId} (hsession : isWorkerSession session = true)
    (hfind : (d.workers.find? fun _ wk => wk.session = session && wk.state = .blocked) =
      some (id, wk)) : (d.handle cfg w (.userApproval session)).workers =
        d.workers.modify id fun _ => { wk with state := .running, started := w.now } := by
  have hresume : d.resumeFromApproval w session =
      some ((d.put id { wk with state := .running, started := w.now }).emitState id
        { wk with state := .running, started := w.now } "approval resolved") := by
    rw [resumeFromApproval, hfind]
    rfl
  unfold handle
  dsimp only
  rw [if_pos hsession, hresume]
  exact congrArg Core.workers (core_saveWorkerState ..)

theorem handle_userApproval_of_none {session : SessionId}
    (hfind : isWorkerSession session = true →
      (d.workers.find? fun _ wk => wk.session = session && wk.state = .blocked) = none) :
    d.handle cfg w (.userApproval session) = d := by
  unfold handle
  dsimp only
  split
  · rename_i hsession
    rw [resumeFromApproval, hfind hsession]
    rfl
  · rfl

theorem slotted_userApproval {session : SessionId} (hd : d.Slotted)
    (h : d.ApprovalMeetsTurn (.userApproval session)) :
    (d.handle cfg w (.userApproval session)).Slotted := by
  by_cases hsession : isWorkerSession session = true
  · specialize h hsession
    cases hfind : d.workers.find? fun _ wk => wk.session = session && wk.state = .blocked with
    | none =>
      rw [handle_userApproval_of_none fun _ => hfind]
      exact hd
    | some x =>
      obtain ⟨id, wk⟩ := x
      rw [hfind] at h
      intro id' wk' hget
      rw [workers_userApproval hsession hfind, Table.get?_modify] at hget
      split at hget
      · obtain ⟨wk₀, -, rfl⟩ := Option.map_eq_some_iff.mp hget
        exact ⟨fun _ => h, fun hrunning _ => absurd rfl hrunning⟩
      · exact hd id' wk' hget
  · rw [handle_userApproval_of_none fun h => absurd h hsession]
    exact hd

/-- A turn of the loop keeps slots and turns together, unless an approval finds no turn. -/
theorem slotted_react (hd : d.Fresh) (hs : d.Slotted) (hi : d.ApprovalMeetsTurn i) :
    (d.react cfg w i).Slotted := by
  by_cases happroval : ∃ s, i = .userApproval s
  · obtain ⟨s, rfl⟩ := happroval
    exact slotted_userApproval (d := { d with out := [] }) hs hi
  · refine (react_induction (P := Slotted) hd hs i fun c d₁ d₂ hc hmove _ h₁ => ?_).1
    refine hmove.slotted (fun s hs => ?_) h₁
    rcases hc with rfl | rfl | rfl
    · cases hs
    · exact happroval ⟨s, Cause.handling.inj hs⟩
    · cases hs

/-! ### The queue -/

/-- A review has no reason to park this worker out of the queue. -/
def Spared (cfg : Config) (w : World) (wk : Worker) : Prop :=
  wk.admissible = true → wk.nextReview.any (· ≤ w.now) = true → wk.elapsed w.now ≤ cfg.idleTtl

instance (cfg : Config) (w : World) (wk : Worker) : Decidable (Spared cfg w wk) :=
  inferInstanceAs (Decidable (_ → _ → _))

/-- What may have become of a worker that was queued, `wk`, by now: it is queued still, held only if
it was, and `R` holds of it; its first work order has gone out; a send has overridden its barrier;
or it has been cancelled. -/
def Waits (R : Worker → Prop) (i : Input) (id : ℕ) (wk : Worker) (d : Driver) : Prop :=
  ∃ wk', d.workers.get? id = some wk' ∧ Same wk wk' ∧
    ((wk'.state = .queued ∧ (wk'.barrierHeld = true → wk.barrierHeld = true) ∧ R wk') ∨
      (∃ e ∈ d.out, e.isOrder id = true) ∨ (wk.barrierHeld = true ∧ i = .userPrompt wk.session) ∨
      (i.Cancels id wk ∧ wk'.state = .cancelled))

theorem Input.Cancels.congr (h : i.Cancels id wk') (hsame : Same wk wk') : i.Cancels id wk := by
  obtain ⟨hbatch, hparent, -⟩ := hsame
  unfold Input.Cancels at *
  split at h <;> simp_all

/-- What can happen to a queued worker, its admission apart. -/
theorem Life.queued (h : Life cfg w id c wk wk') (hwk : wk.state = .queued) :
    (wk'.state = .queued ∧ (wk'.barrierHeld = true → wk.barrierHeld = true) ∧
      (c = .review → Spared cfg w wk')) ∨
    (wk.barrierHeld = true ∧ c = .handling (.userPrompt wk.session)) ∨
    (∃ i, c = .handling i ∧ i.Cancels id wk ∧ wk'.state = .cancelled) ∨
    (c = .review ∧ ¬ Spared cfg w wk) := by
  cases h with
  | reported hstep => simp [Worker.stepping, hwk] at hstep
  | turned hstep _ => simp [Worker.stepping, hwk] at hstep
  | lastReview hterm => simp [Worker.isTerminal, terminal, hwk] at hterm
  | woken hwakes =>
    have hheld : wk.barrierHeld = true := by simpa [wakes, hwk] using hwakes
    exact Or.inr (Or.inl ⟨hheld, rfl⟩)
  | episode _ => exact Or.inl ⟨hwk, fun h => h, fun hc => Cause.noConfusion hc⟩
  | suspended hstate => simp [hwk] at hstate
  | resumed hstate => simp [hwk] at hstate
  | errored => exact Or.inl ⟨hwk, fun h => h, fun hc => Cause.noConfusion hc⟩
  | cancelled _ hi => exact Or.inr (Or.inr (Or.inl ⟨_, rfl, hi, rfl⟩))
  | opened hheld _ => exact Or.inl ⟨hwk, fun _ => hheld, fun hc => Cause.noConfusion hc⟩
  | stalled _ hstate _ => simp [hwk] at hstate
  | parked hpost hdue helapsed _ =>
    refine Or.inr (Or.inr (Or.inr ⟨rfl, fun hspared => ?_⟩))
    have hheld := (Worker.of_posture_waiting hpost).2.2.2 hwk
    have := hspared (by simp [Worker.admissible, hwk, hheld]) hdue
    omega
  | looked ht =>
    refine Or.inl ⟨hwk, fun h => h, fun _ _ hdue => ?_⟩
    obtain ⟨s, hs, hle⟩ := (Option.any_eq_true ..).mp hdue
    have hlive : wk.isTerminal = false := by simp [Worker.isTerminal, terminal, hwk]
    have := ht hlive s hs
    simp only [decide_eq_true_eq] at hle
    omega

/-- A move keeps a queued worker waiting; in a sweep, one that there is no reason to park. -/
theorem Move.waits {R : Worker → Prop} (h : Move cfg w c d d')
    (hc : c = .review ∨ c = .handling i ∨ c = .closing) (hR : c = .review → R = Spared cfg w)
    (hR' : c ≠ .review → R = fun _ => True) (hd : Waits R i id wk d) : Waits R i id wk d' := by
  obtain ⟨wk₁, hget, hsame, hwaits⟩ := hd
  obtain ⟨effs, hout⟩ := h.out_append
  obtain ⟨wk₂, hget', hnext⟩ := h.next hget
  refine ⟨wk₂, hget', hsame.trans hnext.keeps, ?_⟩
  rcases hwaits with ⟨hqueued, hheld, hr⟩ | ⟨e, he, horder⟩ | hsend | ⟨hi, hcancelled⟩
  · cases hnext with
    | same => exact Or.inl ⟨hqueued, hheld, hr⟩
    | admission _ horder => exact Or.inr (Or.inl horder)
    | life hlife =>
      rcases hlife.queued hqueued with ⟨hqueued', hheld', hspared⟩ | ⟨hheld', hc'⟩ |
        ⟨i', hc', hi, hcancelled⟩ | ⟨hc', hnot⟩
      · refine Or.inl ⟨hqueued', fun h => hheld (hheld' h), ?_⟩
        by_cases hreview : c = .review
        · rw [hR hreview]
          exact hspared hreview
        · rw [hR' hreview]
          trivial
      · subst hc'
        obtain rfl : i = .userPrompt wk₁.session := by simpa [eq_comm] using hc
        exact Or.inr (Or.inr (Or.inl ⟨hheld hheld', by rw [hsame.session]⟩))
      · subst hc'
        obtain rfl : i' = i := by simpa using hc
        exact Or.inr (Or.inr (Or.inr ⟨hi.congr hsame, hcancelled⟩))
      · rw [hR hc'] at hr
        exact absurd hr hnot
  · exact Or.inr (Or.inl ⟨e, by simp [hout, he], horder⟩)
  · exact Or.inr (Or.inr (Or.inl hsend))
  · refine Or.inr (Or.inr (Or.inr ⟨hi, ?_⟩))
    rw [hnext.ended (by simp [Worker.isTerminal, terminal, hcancelled]), hcancelled]

theorem Moves.waits {R : Worker → Prop} (h : Moves cfg w c d d')
    (hc : c = .review ∨ c = .handling i ∨ c = .closing) (hR : c = .review → R = Spared cfg w)
    (hR' : c ≠ .review → R = fun _ => True) (hd : Waits R i id wk d) : Waits R i id wk d' := by
  induction h with
  | refl => exact hd
  | tail _ hmove ih => exact hmove.waits hc hR hR' ih

/-- A tick finds no worker it would park out of the queue. -/
def ReviewSparesQueue (cfg : Config) (w : World) (d : Driver) : Input → Prop
  | .tick => ∀ x ∈ d.workers.entries, Spared cfg w x.2
  | _ => True

/-- A queued worker waits for its admission, through a turn of the loop. -/
theorem waits_react (hd : d.Fresh) (hi : d.ReviewSparesQueue cfg w i)
    (hget : d.workers.get? id = some wk) (hqueued : wk.state = .queued) :
    Waits (fun _ => True) i id wk (d.react cfg w i) := by
  obtain ⟨d₁, hreview, hsweep, d₂, hwork, hclose⟩ := reacted cfg w hd i
  have h₁ : Waits (fun _ => True) i id wk d₁ := by
    by_cases htick : i = .tick
    · subst htick
      have h₀ : Waits (Spared cfg w) .tick id wk { d with out := [] } :=
        ⟨wk, hget, .refl wk, Or.inl ⟨hqueued, fun h => h, hi _ (Table.mem_of_get? hget)⟩⟩
      obtain ⟨wk', hget', hsame, hwaits⟩ := hreview.waits (Or.inl rfl) (fun _ => rfl) (by simp) h₀
      exact ⟨wk', hget', hsame, hwaits.imp_left fun h => ⟨h.1, h.2.1, trivial⟩⟩
    · rw [hsweep htick]
      exact ⟨wk, hget, .refl wk, Or.inl ⟨hqueued, fun h => h, trivial⟩⟩
  have h₂ := hwork.waits (Or.inr (Or.inl rfl)) (by simp) (fun _ => rfl) h₁
  exact hclose.waits (Or.inr (Or.inr rfl)) (by simp) (fun _ => rfl) h₂

end Driver

namespace Node

open Driver (SlotLaw)

variable {cfg : Config} {n : Node} {e : Happening}

/-! ### Runs -/

theorem fresh_step (h : n.driver.Fresh) (e : Happening) : (n.step cfg e).1.driver.Fresh := by
  cases e with
  | handled w i => exact Driver.fresh_react h i
  | crashed w i effects bootWorld => exact (Driver.booted ..).fresh
  | restarted bootWorld => exact (Driver.booted ..).fresh

/-- An approval that is handled finds its turn. -/
def ApprovalMeetsTurn (n : Node) : Happening → Prop
  | .handled _ i => n.driver.ApprovalMeetsTurn i
  | _ => True

theorem slotted_step (hfresh : n.driver.Fresh) (h : n.driver.Slotted) (he : n.ApprovalMeetsTurn e) :
    (n.step cfg e).1.driver.Slotted := by
  cases e with
  | handled w i => exact Driver.slotted_react hfresh h he
  | crashed w i effects bootWorld => exact Driver.slotted_boot cfg bootWorld _
  | restarted bootWorld => exact Driver.slotted_boot cfg bootWorld _

/-- An approval that finds no turn leaves a worker running without one. -/
theorem approvalMeetsTurn_of_slotted (cfg : Config) (h : (n.step cfg e).1.driver.Slotted) :
    n.ApprovalMeetsTurn e := by
  cases e with
  | crashed w i effects bootWorld => exact trivial
  | restarted bootWorld => exact trivial
  | handled w i =>
    cases i with
    | userApproval session =>
      intro hsession
      rw [Option.all_eq_true]
      rintro ⟨id, wk⟩ hfind
      obtain ⟨hget, -⟩ := Table.find?_eq_some hfind
      refine (h id { wk with state := .running, started := w.now } ?_).running rfl
      have hworkers : (n.driver.react cfg w (.userApproval session)).workers =
          n.driver.workers.modify id fun _ => { wk with state := .running, started := w.now } :=
        Driver.workers_userApproval hsession hfind
      change (n.driver.react cfg w (.userApproval session)).workers.get? id = _
      rw [hworkers, Table.get?_modify_self, hget]
      rfl
    | _ => exact trivial

/-- **Slots and turns agree** in every state of a run, whatever files the process starts from, if
and only if every approval on the way found its turn in flight. -/
theorem slotLaw_iff_approvals (cfg : Config) (w : World) (k : Disk) (es : List Happening) :
    (∀ before after, es = before ++ after →
      SlotLaw cfg (Run.final (step cfg) (booted cfg w k).1 before).driver) ↔
    Run.Always (step cfg) (booted cfg w k).1 (fun _ n e => n.ApprovalMeetsTurn e) es := by
  constructor
  · intro h before e after hes
    refine approvalMeetsTurn_of_slotted cfg ?_
    have hlaw := h (before ++ [e]) after (by simp [hes])
    rw [Run.final_append] at hlaw
    exact hlaw.slotted
  · rintro h before after rfl
    have hinv : (Run.final (step cfg) (booted cfg w k).1 before).driver.Fresh ∧
        (Run.final (step cfg) (booted cfg w k).1 before).driver.Slotted :=
      Run.invariant (I := fun _ n => n.driver.Fresh ∧ n.driver.Slotted)
        ⟨(Driver.booted cfg w k).fresh, Driver.slotted_boot cfg w k⟩
        (fun _ _ e hn he => ⟨fresh_step hn.1 e, slotted_step hn.1 hn.2 he⟩) h.of_append
    exact hinv.2.slotLaw

/-- A worker says it is blocked, its turn completes, and then an approval arrives for it. -/
def lateApproval : List Happening :=
  let worker := workerSessionBase
  [.handled (.calm 0) (.request 7 1 "task_fanout" (taskArgs ["task"])),
    .handled (.calm 1) (.request worker 2 "worker_report" (textArgs [("status", "blocked")])),
    .handled (.calm 2) (.turnComplete worker),
    .handled (.calm 3) (.userApproval worker)]

/-- The worker runs, and no turn is in flight: it holds the one slot until the step times out. -/
theorem not_slotLaw_lateApproval :
    ¬ SlotLaw .small (Run.final (step .small) (booted .small (.calm 0) .blank).1
      lateApproval).driver := by
  intro h
  have hworker : ((Run.final (step .small) (booted .small (.calm 0) .blank).1
      lateApproval).driver.workers.get? 1).any
        (fun wk => wk.state = .running && !wk.turnInflight) = true := by
    decide +kernel
  obtain ⟨wk, hget, hwk⟩ := (Option.any_eq_true ..).mp hworker
  obtain ⟨hrunning, hidle⟩ : wk.state = .running ∧ wk.turnInflight = false := by simpa using hwk
  simp [(h.slotted 1 wk hget).running hrunning] at hidle

/-- A tick that is handled finds no worker it would park out of the queue. -/
def ReviewSparesQueue (cfg : Config) (n : Node) : Happening → Prop
  | .handled w i => n.driver.ReviewSparesQueue cfg w i
  | _ => True

/-- **The law of the queue**, for one step of a process: a worker that was queued is queued still,
or its first work order has gone out, or a send has overridden the barrier that held it, or it has
been cancelled. -/
def StaysQueued (cfg : Config) (n : Node) : Happening → Prop
  | .handled w i => ∀ id wk, n.driver.workers.get? id = some wk → wk.state = .queued →
      ∃ wk', (n.driver.react cfg w i).workers.get? id = some wk' ∧
        (wk'.state = .queued ∨ (∃ e ∈ (n.driver.react cfg w i).out, e.isOrder id = true) ∨
          (wk.barrierHeld = true ∧ i = .userPrompt wk.session) ∨
          (i.Cancels id wk ∧ wk'.state = .cancelled))
  | _ => True

theorem staysQueued_step (hfresh : n.driver.Fresh) (he : n.ReviewSparesQueue cfg e) :
    n.StaysQueued cfg e := by
  cases e with
  | crashed w i effects bootWorld => exact trivial
  | restarted bootWorld => exact trivial
  | handled w i =>
    intro id wk hget hqueued
    obtain ⟨wk', hget', -, hwaits⟩ := Driver.waits_react hfresh he hget hqueued
    exact ⟨wk', hget', hwaits.imp_left And.left⟩

/-- **Supervision drops nobody from the queue** at any point of a run, whatever files the process
starts from, if no tick on the way finds a queued worker that no gate holds, is due for its review
and has been there for longer than the idle timeout. -/
theorem staysQueued_of_spared (cfg : Config) (w : World) (k : Disk) (es : List Happening)
    (h : Run.Always (step cfg) (booted cfg w k).1 (fun _ n e => n.ReviewSparesQueue cfg e) es) :
    Run.Always (step cfg) (booted cfg w k).1 (fun _ n e => n.StaysQueued cfg e) es :=
  Run.Always.of_invariant (I := fun _ n => n.driver.Fresh) (Driver.booted cfg w k).fresh
    (fun _ _ e hn _ => fresh_step hn e) (fun _ _ _ hn he => staysQueued_step hn he) h

/-- Two tasks for one slot: the second waits, through the tick. -/
theorem staysQueued_twoTasks :
    Run.Always (step .small) (booted .small (.calm 0) .blank).1
        (fun _ n e => n.ReviewSparesQueue .small e)
        [.handled (.calm 0) (.request 7 1 "task_fanout" (taskArgs ["one", "two"])),
          .handled (.calm 60) .tick] ∧
      Run.Always (step .small) (booted .small (.calm 0) .blank).1
        (fun _ n e => n.StaysQueued .small e)
        [.handled (.calm 0) (.request 7 1 "task_fanout" (taskArgs ["one", "two"])),
          .handled (.calm 60) .tick] := by
  have hspared : Run.Always (step .small) (booted .small (.calm 0) .blank).1
      (fun _ n e => n.ReviewSparesQueue .small e)
      [.handled (.calm 0) (.request 7 1 "task_fanout" (taskArgs ["one", "two"])),
        .handled (.calm 60) .tick] := by
    simp only [Run.always_cons]
    refine ⟨trivial, ?_, Run.Always.nil⟩
    change ∀ x ∈ _, Driver.Spared _ _ _
    decide +kernel
  exact ⟨hspared, staysQueued_of_spared _ _ _ _ hspared⟩

/-- A mandala whose gate is held while the one slot is taken by a worker that awaits an approval.
The guard opens the gate; the next review of it comes half a minute later. -/
def lateGate : List Happening :=
  [.handled (.calm 0) (.request 7 1 "mandala_create"
      (textArgs [("objective", "o"), ("done_when", "d"), ("verify", "v")])),
    .handled (.calm 0) (.request 7 2 "task_fanout" (taskArgs ["task"])),
    .handled (.calm 0) (.request 7 3 "task_fanout" (.object [("tasks", .array [.string "join"]),
      ("mandala", .number (.posInt 1)), ("barrier_timeout_s", .number (.posInt 1801))])),
    .handled (.calm 10) (.approvalPending workerSessionBase "bash"),
    .handled (.calm 1802) .tick,
    .handled (.calm 1840) .tick]

/-- The gate is open and waits for the slot, and the review parks it. -/
theorem not_staysQueued_lateGate :
    ¬ Run.Always (step .small) (booted .small (.calm 0) .blank).1
      (fun _ n e => n.StaysQueued .small e) lateGate := by
  intro h
  have hlast := h (lateGate.take 5) (.handled (.calm 1840) .tick) [] rfl
  have hbefore : ((Run.final (step .small) (booted .small (.calm 0) .blank).1
      (lateGate.take 5)).driver.workers.get? 2).any (fun wk => wk.state = .queued) = true := by
    decide +kernel
  have hafter : (((Run.final (step .small) (booted .small (.calm 0) .blank).1
      (lateGate.take 5)).driver.react .small (.calm 1840) .tick).workers.get? 2).all
        (fun wk => wk.state = .parked) = true := by
    decide +kernel
  have horder : ((Run.final (step .small) (booted .small (.calm 0) .blank).1
      (lateGate.take 5)).driver.react .small (.calm 1840) .tick).out.any (Effect.isOrder 2) =
        false := by
    decide +kernel
  obtain ⟨wk, hget, hqueued⟩ := (Option.any_eq_true ..).mp hbefore
  obtain ⟨wk', hget', hwaits⟩ := hlast 2 wk hget (by simpa using hqueued)
  have hparked : wk'.state = .parked := by simpa [hget'] using hafter
  rcases hwaits with hstill | ⟨e, he, hfirst⟩ | ⟨-, hsend⟩ | ⟨hcancels, -⟩
  · simp [hparked] at hstill
  · have := List.any_eq_false.mp horder e he
    exact this hfirst
  · cases hsend
  · exact hcancels

end Node

end ApexOS.Fabrica
