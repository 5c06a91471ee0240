import ApexOS.Agentd.AwaitingBatch
import ApexOS.Fabrica.Trail

/-!
# The two drivers over the bus

The worker driver says on the bus what becomes of its workers, and the goal driver keeps from that
which batches of a session are out: a worker's card arms its batch, the batch's report disarms it,
and a turn that completes while a batch is armed is held. The worker driver's ledger is in a file;
what the goal driver has armed, and which reports it has heard, is in memory and is gone with the
process.

So a boot starts the goal driver from nothing, and the cards that the worker driver then sends, one
for every worker in the files, arm their batches again. If one of them has reported, no report will
follow. `Daemon.Hears` leaves that out, and a lag of the bus that drops a report.

## Main definitions

* `Daemon`, `Daemon.step`: the two drivers, the files, and what is on the bus
* `Daemon.ToCome`: the report of a batch is still to come
* `Daemon.Agrees`: whatever is armed has its report to come, and only that holds a turn
* `Daemon.Told`: the invariant

## Main results

* `Driver.announces_react`: what a handler says is what the books have
* `Daemon.agrees_of_hears`: the drivers agree, in every run that meets the condition
-/

namespace ApexOS.Fabrica

open ApexOS.Agentd (SessionId ActionId GoalDriver ToolCall Emit)

/-! ### The daemon -/

/-- What the goal driver makes of an event on the bus. -/
def Event.heard : Event → Option GoalDriver.Event
  | .workerStateChanged _ batch parent .. => some (.workerStateChanged (UInt64.ofNat batch) parent)
  | .taskBatchDone batch parent rows =>
    some (.taskBatchDone (UInt64.ofNat batch) parent (rows.map Row.wire))
  | _ => none

/-- What is sent on the bus. -/
def Effect.sent : Effect → Option Event
  | .event e => some e
  | _ => none

/-- The two drivers, the files of the one, and what it has sent and the other has not yet heard. -/
structure Daemon where
  node : Node
  goals : GoalDriver
  bus : List Event

namespace Daemon

/-- What happens to a daemon: the worker driver handles an input, the goal driver hears what is next
on the bus, or finds that it has missed so many events; the goal driver's other arms; and the
process ends, inside a handler of the worker driver or between two, and starts again. -/
inductive Happening
  | handled (w : World) (i : Driver.Input)
  | heard (world : Agentd.World)
  | lagged (missed : ℕ)
  | request (session : SessionId) (call : ToolCall) (world : Agentd.World)
  | turnComplete (session : SessionId) (world : Agentd.World)
  | approvalPending (session : SessionId) (tool : String) (world : Agentd.World)
  | tick (world : Agentd.World)
  | sessionTaken (world : Agentd.World)
  | restarted (inside : Option (World × Driver.Input × ℕ)) (boot : World)
      (nextSessionId : SessionId) (world : Agentd.World)

/-- The files as a process that ends leaves them. -/
def left (cfg : Config) (n : Node) : Option (World × Driver.Input × ℕ) → Disk
  | none => n.disk
  | some (w, i, effects) => ((n.driver.react cfg w i).out.take effects).foldl Disk.apply n.disk

/-- The process starts: the goal driver listens before the worker driver says anything. -/
def booted (cfg : Config) (boot : World) (k : Disk) (goals : GoalDriver) (nextSessionId : SessionId)
    (now : ℕ) : Daemon × List Emit :=
  let r := Node.booted cfg boot k
  let g := goals.restart nextSessionId now
  (⟨r.1, g.1, r.2.filterMap Effect.sent⟩, g.2)

/-- A new daemon: there may be goals, but there are no workers. -/
def fresh (cfg : Config) (boot : World) (goals : GoalDriver) (nextSessionId : SessionId) (now : ℕ) :
    Daemon := (booted cfg boot .blank goals nextSessionId now).1

/-- The goal driver has done something. -/
def goalsDid (d : Daemon) (r : GoalDriver × List Emit) : Daemon × List Emit :=
  ({ d with goals := r.1 }, r.2)

/-- One happening, with what the goal driver says. -/
def step (cfg : Config) (d : Daemon) : Happening → Daemon × List Emit
  | .handled w i =>
    let r := Node.step cfg d.node (.handled w i)
    ({ d with node := r.1, bus := d.bus ++ r.2.filterMap Effect.sent }, [])
  | .heard world =>
    match d.bus with
    | [] => (d, [])
    | e :: rest =>
      let d := { d with bus := rest }
      e.heard.elim (d, []) fun e => d.goalsDid (d.goals.step e world)
  | .lagged missed => ({ d with bus := d.bus.drop missed }, [])
  | .request session call world => d.goalsDid (d.goals.request session call world)
  | .turnComplete session world => d.goalsDid (d.goals.step (.turnComplete session) world)
  | .approvalPending session tool world =>
    d.goalsDid (d.goals.step (.approvalPending session tool) world)
  | .tick world => d.goalsDid (d.goals.step .tick world)
  | .sessionTaken world => d.goalsDid (d.goals.step .sessionTaken world)
  | .restarted inside boot nextSessionId world =>
    booted cfg boot (left cfg d.node inside) d.goals nextSessionId world.now

/-! ### The law -/

/-- The report of this batch, to this session, is on the bus. -/
def Reporting (d : Daemon) (batch : ℕ) (parent : SessionId) : Prop :=
  ∃ rows, .taskBatchDone batch parent rows ∈ d.bus

/-- **The report is still to come**: the batch is in the ledger, unreported, or its report is on the
bus. -/
def ToCome (d : Daemon) (parent : SessionId) (batch : UInt64) : Prop :=
  ∃ n, UInt64.ofNat n = batch ∧
    ((∃ b, d.node.driver.batches.get? n = some b ∧ b.parent = parent ∧ b.reported = false) ∨
      d.Reporting n parent)

/-- **The drivers agree**: whatever is armed in the goal driver has its report to come, and where a
turn that completes does not move its goal on, there is such a batch. -/
structure Agrees (d : Daemon) : Prop where
  armed : ∀ session, ∀ batch ∈ d.goals.pendingBatches session, d.ToCome session batch
  held : ∀ session world, d.goals.step (.turnComplete session) world ≠
      GoalDriver.saveIfChanged (d.goals.advance session world.now) world.disk →
    ∃ batch ∈ d.goals.pendingBatches session, d.ToCome session batch

end Daemon

/-- No worker in the files, here or on a peer, is of a batch that has reported. -/
def Disk.AllOut (k : Disk) : Prop :=
  (∀ pw ∈ k.workerRows, k.standing.reported pw.batch = false) ∧
    ∀ p ∈ k.remotesFile, k.standing.reported p.row.batch = false

/-- No report is missed, and no boot finds a worker of a batch that has reported. -/
def Daemon.Hears (cfg : Config) (d : Daemon) : Daemon.Happening → Prop
  | .lagged missed => ∀ batch parent rows, .taskBatchDone batch parent rows ∉ d.bus.take missed
  | .restarted inside .. => (Daemon.left cfg d.node inside).AllOut
  | _ => True

/-! ### What a handler says -/

namespace Register

/-- The batch has a worker, here or on a peer, with this conductor. -/
def Member (R : Register) (batch : ℕ) (parent : SessionId) : Prop :=
  (∃ id x, R.workers id = some x ∧ x.batch = batch ∧ x.parent = parent) ∨
    ∃ id x, R.remotes id = some x ∧ x.batch = batch ∧ x.parent = parent

/-- Nothing is taken out of a register. -/
structure Grows (R R' : Register) : Prop where
  workers : ∀ id x, R.workers id = some x → R'.workers id = some x
  remotes : ∀ id x, R.remotes id = some x → R'.remotes id = some x
  batches : ∀ batch p, R.batches batch = some p → R'.batches batch = some p

variable {R R' R'' : Register}

theorem Grows.refl (R : Register) : Grows R R := ⟨fun _ _ h => h, fun _ _ h => h, fun _ _ h => h⟩

theorem Grows.of_eq (h : R' = R) : Grows R R' := h ▸ Grows.refl R

theorem Grows.trans (h : Grows R R') (h' : Grows R' R'') : Grows R R'' :=
  ⟨fun id x hx => h'.workers id x (h.workers id x hx),
    fun id x hx => h'.remotes id x (h.remotes id x hx),
    fun batch p hp => h'.batches batch p (h.batches batch p hp)⟩

theorem Grows.member {batch : ℕ} {parent : SessionId} (h : Grows R R')
    (hm : R.Member batch parent) :
    R'.Member batch parent := by
  rcases hm with ⟨id, x, hx, hplace⟩ | ⟨id, x, hx, hplace⟩
  · exact Or.inl ⟨id, x, h.workers id x hx, hplace⟩
  · exact Or.inr ⟨id, x, h.remotes id x hx, hplace⟩

end Register

namespace Driver

open Register (Grows)

variable {cfg : Config} {w : World} {c : Cause} {d d' : Driver} {id batch : ℕ} {parent : SessionId}
  {e : Effect}

/-- What may be said on the bus: the card of a worker in the books, the report of a batch in the
ledger, each with its conductor. -/
def Vouched (R : Register) : Effect → Prop
  | .event (.workerStateChanged _ batch parent ..) => R.Member batch parent
  | .event (.taskBatchDone batch parent _) => R.batches batch = some parent
  | _ => True

theorem Vouched.mono {R R' : Register} (hgrows : Grows R R') (h : Vouched R e) : Vouched R' e := by
  cases e with
  | event ev =>
    cases ev with
    | workerStateChanged => exact hgrows.member h
    | taskBatchDone => exact hgrows.batches _ _ h
    | _ => trivial
  | _ => trivial

theorem vouched_of_plain {R : Register} (h : e.plain = true) : Vouched R e := by
  cases e with
  | event ev =>
    cases ev with
    | workerStateChanged | taskBatchDone => cases h
    | _ => trivial
  | _ => trivial

theorem vouched_of_isCard {R : Register} (h : e.isCard batch parent = true)
    (hm : R.Member batch parent) : Vouched R e := by
  cases e with
  | event ev =>
    cases ev with
    | workerStateChanged id batch' parent' =>
      obtain ⟨rfl, rfl⟩ : batch' = batch ∧ parent' = parent := by simpa [Effect.isCard] using h
      exact hm
    | _ => cases h
  | _ => cases h

theorem vouched_of_isMirror {R : Register} (h : e.isMirror = true) : Vouched R e := by
  cases e with
  | event => cases h
  | _ => trivial

theorem member_worker {wk : Worker} (hget : d.workers.get? id = some wk) :
    d.core.register.Member wk.batch wk.parent :=
  Or.inl ⟨id, wk.place, Option.map_eq_some_iff.mpr ⟨wk, hget, rfl⟩, rfl, rfl⟩

theorem member_row {r : RemoteWorker} (hget : d.remotes.get? id = some r) :
    d.core.register.Member r.batch r.parent :=
  Or.inr ⟨id, r.place, Option.map_eq_some_iff.mpr ⟨r, hget, rfl⟩, rfl, rfl⟩

/-- From `d` to `d'` only what the books have is said, nothing is taken out of them, and only
batches that were not in the ledger get new workers. -/
structure Announces (d d' : Driver) : Prop where
  out : ∃ effs, d'.out = d.out ++ effs ∧ ∀ e ∈ effs, Vouched d'.core.register e
  grows : Grows d.core.register d'.core.register
  member : ∀ batch parent, d'.core.register.Member batch parent →
    d.core.register.Member batch parent ∨ d.core.register.batches batch = none

theorem Announces.of_eq {effs : List Effect} (hregister : d'.core.register = d.core.register)
    (hout : d'.out = d.out ++ effs) (heffs : ∀ e ∈ effs, Vouched d.core.register e) :
    Announces d d' :=
  ⟨⟨effs, hout, by rwa [hregister]⟩, .of_eq hregister,
    fun _ _ h => Or.inl (hregister ▸ h)⟩

theorem Announces.trans {d'' : Driver} (h : Announces d d') (h' : Announces d' d'') :
    Announces d d'' := by
  obtain ⟨effs, hout, heffs⟩ := h.out
  obtain ⟨effs', hout', heffs'⟩ := h'.out
  refine ⟨⟨effs ++ effs', by rw [hout', hout, List.append_assoc], fun e he => ?_⟩,
    h.grows.trans h'.grows, fun batch parent hm => ?_⟩
  · rcases List.mem_append.mp he with he | he
    · exact (heffs e he).mono h'.grows
    · exact heffs' e he
  · rcases h'.member batch parent hm with hm | hnone
    · exact h.member batch parent hm
    · refine Or.inr ?_
      by_contra hsome
      obtain ⟨p, hp⟩ := Option.ne_none_iff_exists'.mp hsome
      rw [h.grows.batches batch p hp] at hnone
      cases hnone

/-- A fan-out opens a batch that was not in the ledger. -/
theorem Fanned.announces {b : BatchMeta} {locals : List (ℕ × Worker)}
    {rows : List (ℕ × RemoteWorker)}
    (h : Fanned d d' b locals rows) (hd : d.Fresh) : Grows d.core.register d'.core.register ∧
      ∀ batch parent, d'.core.register.Member batch parent →
        d.core.register.Member batch parent ∨ d.core.register.batches batch = none := by
  have hnone : d.core.register.batches d.nextBatchId = none :=
    Option.map_eq_none_iff.mpr
      (Table.get?_eq_none_of_forall fun x hx => Nat.ne_of_lt (hd.batch x hx))
  refine ⟨⟨fun _ _ hx => h.register_worker_of hx, fun _ _ hx => h.register_row_of hx,
    fun _ _ hx => h.register_batch_of hd hx⟩, ?_⟩
  rintro batch parent (⟨id, x, hx, rfl, rfl⟩ | ⟨id, x, hx, rfl, rfl⟩)
  · rcases h.register_worker hx with hx | ⟨-, -, hbatch, -⟩
    · exact Or.inl (Or.inl ⟨id, x, hx, rfl, rfl⟩)
    · exact Or.inr (hbatch ▸ hnone)
  · rcases h.register_row hx with hx | ⟨-, -, hbatch, -⟩
    · exact Or.inl (Or.inr ⟨id, x, hx, rfl, rfl⟩)
    · exact Or.inr (hbatch ▸ hnone)

theorem Trail.vouched {wk wk' : Worker} {effs : List Effect} (h : Trail id wk wk' effs)
    (hsame : Same wk wk') (hget : d.workers.get? id = some wk) :
    ∀ e ∈ effs, Vouched d.core.register e := by
  intro e he
  rcases h.kinds e he with he | he | he | he
  · exact vouched_of_plain he
  · refine vouched_of_isCard he ?_
    rw [hsame.batch, hsame.parent]
    exact member_worker hget
  · cases e with
    | event => cases he
    | _ => trivial
  · cases e with
    | event => cases he
    | _ => trivial

theorem Move.announces (h : Move cfg w c d d') (hd : d.Fresh) : Announces d d' := by
  cases h with
  | aside h =>
    obtain ⟨effs, hout, hplain⟩ := h.out
    exact .of_eq (congrArg Core.register h.core) hout fun e he => vouched_of_plain (hplain e he)
  | admission hc hcap hnext hget =>
    rename_i id wk
    obtain ⟨hcore, effs, hout, hplain⟩ := admitOne_spec d cfg w id wk
    refine .of_eq (by rw [hcore, register_worker hget same_admitted]) hout fun e he => ?_
    rcases List.mem_append.mp he with he | he
    · exact vouched_of_plain (hplain e he)
    · rcases List.mem_pair.mp he with rfl | rfl
      · change d.core.register.Member wk.batch wk.parent
        exact member_worker hget
      · trivial
  | life hget hlife hcore hout htrail =>
    exact .of_eq (by rw [hcore, register_worker hget hlife.same]) hout
      (htrail.vouched hlife.same hget)
  | card hget =>
    refine .of_eq rfl rfl fun e he => ?_
    rw [List.mem_singleton.mp he]
    exact member_worker hget
  | remoteCard hget =>
    refine .of_eq rfl rfl fun e he => ?_
    rw [List.mem_singleton.mp he]
    exact member_row hget
  | remote hc hget hsame hcore hout heffs =>
    refine .of_eq (by rw [hcore, register_row hget hsame]) hout fun e he => ?_
    exact (heffs e he).elim vouched_of_plain fun he => vouched_of_isCard he (member_row hget)
  | fan hc hfan hok =>
    rename_i d₁ b locals rows
    obtain ⟨effs, hout, hmirrors, -⟩ := out_saveWorkerState d₁ w
    obtain ⟨hgrows, hmember⟩ := hfan.announces hd
    refine ⟨⟨_, by rw [hout, hfan.out], fun e he => ?_⟩, ?_, ?_⟩
    · rcases List.mem_cons.mp he with rfl | he
      · trivial
      · exact vouched_of_isMirror (hmirrors e he)
    · rwa [core_saveWorkerState]
    · rwa [core_saveWorkerState]
  | lost hn hm hcore hout => exact .of_eq (by rw [hcore]; rfl) hout (by simp [Vouched])
  | save =>
    obtain ⟨effs, hout, hmirrors, -⟩ := out_saveWorkerState d w
    refine .of_eq (by rw [core_saveWorkerState]; rfl) hout fun e he => ?_
    rcases List.mem_cons.mp he with rfl | he
    · trivial
    · exact vouched_of_isMirror (hmirrors e he)
  | saveRemotes => exact .of_eq rfl rfl (by simp [Vouched])
  | report hc hget hdue =>
    obtain ⟨hcore, tail, hout, htail⟩ := @reportBatch_spec cfg d _ _ hget
    refine .of_eq (by rw [hcore, register_batch (by simp)]) hout fun e he => ?_
    rcases List.mem_cons.mp he with rfl | he
    · exact Option.map_eq_some_iff.mpr ⟨_, hget, rfl⟩
    · rcases htail e he with he | ⟨session, call, d₁, rfl⟩
      · exact vouched_of_plain he
      · trivial
  | fanned hlocal hremote => exact .of_eq rfl rfl (by simp [Vouched])
  | accepted hlocal => exact .of_eq rfl rfl (by simp [Vouched])

/-- **What a handler says is what the books have.** -/
theorem announces_react (hd : d.Fresh) (i : Input) :
    Announces { d with out := [] } (d.react cfg w i) :=
  (react_induction (P := fun d' => Announces { d with out := [] } d') hd
    (.of_eq rfl (List.append_nil _).symm (by simp)) i fun _ _ _ _ hmove hfresh h =>
      h.trans (hmove.announces hfresh)).1

/-- What a boot says, the books have. -/
theorem Restated.vouched (h : Restated d e) : Vouched d.core.register e := by
  rcases h with hplain | ⟨_, _, hget, hcard⟩ | ⟨_, _, hget, hcard⟩
  · exact vouched_of_plain hplain
  · exact vouched_of_isCard hcard (member_worker hget)
  · exact vouched_of_isCard hcard (member_row hget)

end Driver

/-! ### The invariant -/

namespace Daemon

open Driver (Vouched)
open Register (Grows)

variable {cfg : Config} {d : Daemon}

/-- The register and the standing of the books. -/
abbrev register (d : Daemon) : Register := d.node.driver.core.register

/-- The batch has reported. -/
abbrev reported (d : Daemon) (batch : ℕ) : Bool := d.node.driver.core.standing.reported batch

/-- The goal driver has heard that the batch reported, or will. -/
def Known (d : Daemon) (batch : ℕ) : Prop :=
  UInt64.ofNat batch ∈ d.goals.doneBatches ∨ ∃ parent, d.Reporting batch parent

/-- **What the goal driver has been told**: a batch that is armed is in the ledger, with the session
it is armed for, and its report is to come; what is on the bus is what the books have; and a batch
that has a worker and has reported is known to have. -/
structure Told (d : Daemon) : Prop where
  keeps : Node.Keeps [] d.node
  armed : ∀ session, ∀ batch ∈ d.goals.pendingBatches session, ∃ n, UInt64.ofNat n = batch ∧
    d.register.batches n = some session ∧ (d.reported n = false ∨ ∃ parent, d.Reporting n parent)
  vouched : ∀ e ∈ d.bus, Vouched d.register (.event e)
  known : ∀ batch parent, d.register.Member batch parent → d.reported batch = true → d.Known batch

/-- A report on the bus is to the conductor. -/
theorem Told.conductor (h : Told d) {batch : ℕ} {p q : SessionId} (hreport : d.Reporting batch p)
    (hq : d.register.batches batch = some q) : p = q := by
  obtain ⟨rows, hmem⟩ := hreport
  have hp : d.register.batches batch = some p := h.vouched _ hmem
  exact Option.some.inj (hp.symm.trans hq)

theorem homed_of_member (h : Node.Keeps [] d.node) {batch : ℕ} {parent : SessionId}
    (hm : d.register.Member batch parent) : d.register.batches batch = some parent := by
  rcases hm with ⟨id, x, hx, rfl, rfl⟩ | ⟨id, x, hx, rfl, rfl⟩
  · exact h.sound.homed id x hx
  · exact h.sound.rowHomed id x hx

/-- What was told gives agreement. -/
theorem Told.agrees (h : Told d) : d.Agrees := by
  have harmed : ∀ session, ∀ batch ∈ d.goals.pendingBatches session, d.ToCome session batch := by
    intro session batch hbatch
    obtain ⟨n, hn, hparent, hto⟩ := h.armed session batch hbatch
    refine ⟨n, hn, ?_⟩
    rcases hto with hout | ⟨parent, hreport⟩
    · obtain ⟨b, hget, hb⟩ := Option.map_eq_some_iff.mp hparent
      have hunreported : (d.node.driver.batches.get? n).any BatchMeta.reported = false := hout
      rw [show d.node.driver.batches.get? n = some b from hget] at hunreported
      exact Or.inl ⟨b, hget, hb, hunreported⟩
    · exact Or.inr (h.conductor hreport hparent ▸ hreport)
  refine ⟨harmed, fun session world hheld => ?_⟩
  by_cases hempty : (d.goals.pendingBatches session).Nonempty
  · obtain ⟨batch, hbatch⟩ := hempty
    exact ⟨batch, hbatch, harmed session batch hbatch⟩
  · exact absurd (by rw [GoalDriver.step, if_neg hempty]) hheld

/-- What does not touch the batches leaves what was told. -/
theorem Told.goalsDid (h : Told d) {r : GoalDriver × List Emit}
    (hr : GoalDriver.SameBatches d.goals r.1) : Told (d.goalsDid r).1 := by
  refine ⟨h.keeps, ?_, h.vouched, ?_⟩
  · rw [show (d.goalsDid r).1.goals.pendingBatches = _ from hr.pending]
    exact h.armed
  · intro batch parent hm hreported
    rw [Known, show (d.goalsDid r).1.goals.doneBatches = _ from hr.done]
    exact h.known batch parent hm hreported

/-- Events are missed, but no report. -/
theorem Told.lagged (h : Told d) {missed : ℕ}
    (hmissed : ∀ batch parent rows, .taskBatchDone batch parent rows ∉ d.bus.take missed) :
    Told { d with bus := d.bus.drop missed } := by
  have hreporting {batch : ℕ} {parent : SessionId} (hr : d.Reporting batch parent) :
      Reporting { d with bus := d.bus.drop missed } batch parent := by
    obtain ⟨rows, hmem⟩ := hr
    refine ⟨rows, ?_⟩
    rw [← List.take_append_drop missed d.bus] at hmem
    exact (List.mem_append.mp hmem).resolve_left (hmissed batch parent rows)
  refine ⟨h.keeps, fun session batch hbatch => ?_,
    fun e he => h.vouched e (List.mem_of_mem_drop he),
    fun batch parent hm hreported => ?_⟩
  · obtain ⟨n, hn, hparent, hto⟩ := h.armed session batch hbatch
    exact ⟨n, hn, hparent, hto.imp_right fun ⟨p, hp⟩ => ⟨p, hreporting hp⟩⟩
  · exact (h.known batch parent hm hreported).imp_right fun ⟨p, hp⟩ => ⟨p, hreporting hp⟩

section Heard

variable {e : Event} {rest : List Event} {batch : ℕ} {parent : SessionId}

/-- What is next on the bus is taken off; it is no report. -/
theorem Told.tail (h : Told d) (hbus : d.bus = e :: rest)
    (he : ∀ batch parent rows, e ≠ .taskBatchDone batch parent rows) :
    Told { d with bus := rest } := by
  have hdrop := @Told.lagged d h 1 (by
    rw [hbus]
    simpa using fun batch parent rows => (he batch parent rows).symm)
  rwa [hbus] at hdrop

/-- A card is heard: its batch is armed, unless its report was heard. -/
theorem Told.card (h : Told d) {id : ℕ} {session : SessionId} {task : String}
    {state : Agentd.WorkerState} {detail : String} {yolo : Bool} {peer : Option String}
    (hbus : d.bus = .workerStateChanged id batch parent session task state detail yolo peer :: rest)
    (hdone : UInt64.ofNat batch ∉ d.goals.doneBatches) :
    Told { d with
      bus := rest
      goals := { d.goals with
        pendingBatches := Function.update d.goals.pendingBatches parent
          (insert (UInt64.ofNat batch) (d.goals.pendingBatches parent)) } } := by
  have htail := h.tail hbus (by simp)
  have hmember : d.register.Member batch parent := h.vouched
    (.workerStateChanged id batch parent session task state detail yolo peer) (by simp [hbus])
  refine ⟨h.keeps, fun s b hb => ?_, htail.vouched, htail.known⟩
  have hold : b ∈ d.goals.pendingBatches s ∨ s = parent ∧ b = UInt64.ofNat batch := by
    by_cases hs : s = parent
    · subst hs
      simpa [or_comm] using hb
    · simpa [hs] using hb
  rcases hold with hb | ⟨rfl, rfl⟩
  · exact htail.armed s b hb
  · refine ⟨batch, rfl, homed_of_member h.keeps hmember, ?_⟩
    by_cases hreported : d.reported batch = true
    · exact Or.inr ((htail.known batch s hmember hreported).resolve_left hdone)
    · exact Or.inl (Bool.eq_false_iff.mpr hreported)

/-- A report is heard: its batch is armed no more, and will not be again. -/
theorem Told.report (h : Told d) {rows : List Row}
    (hbus : d.bus = .taskBatchDone batch parent rows :: rest) :
    Told { d with
      bus := rest
      goals := { d.goals with
        doneBatches := insert (UInt64.ofNat batch) d.goals.doneBatches
        pendingBatches := Function.update d.goals.pendingBatches parent
          ((d.goals.pendingBatches parent).erase (UInt64.ofNat batch)) } } := by
  have hconductor : d.register.batches batch = some parent :=
    h.vouched (.taskBatchDone batch parent rows) (by simp [hbus])
  have hreporting {n : ℕ} {p : SessionId} (hr : d.Reporting n p) :
      n = batch ∨ Reporting { d with bus := rest } n p := by
    obtain ⟨rows', hmem⟩ := hr
    rw [hbus] at hmem
    rcases List.mem_cons.mp hmem with heq | hmem
    · cases heq
      exact Or.inl rfl
    · exact Or.inr ⟨rows', hmem⟩
  refine ⟨h.keeps, fun s b hb => ?_, fun e he => h.vouched e (by simp [hbus, he]),
    fun n p hm hreported => ?_⟩
  · have hold : b ∈ d.goals.pendingBatches s ∧ (s = parent → b ≠ UInt64.ofNat batch) := by
      by_cases hs : s = parent
      · subst hs
        simpa [and_comm] using hb
      · simpa [hs] using hb
    obtain ⟨n, hn, hparent, hto⟩ := h.armed s b hold.1
    refine ⟨n, hn, hparent, hto.imp_right fun ⟨p, hp⟩ => ?_⟩
    rcases hreporting hp with rfl | hp
    · -- the one that is heard would have been disarmed
      exact absurd hn.symm (hold.2 (Option.some.inj (hparent.symm.trans hconductor)))
    · exact ⟨p, hp⟩
  · rcases h.known n p hm hreported with hdone | ⟨q, hq⟩
    · exact Or.inl (Finset.mem_insert_of_mem hdone)
    · rcases hreporting hq with rfl | hq
      · exact Or.inl (Finset.mem_insert_self _ _)
      · exact Or.inr ⟨q, hq⟩

/-- The goal driver hears what is next. -/
theorem Told.heard (h : Told d) (world : Agentd.World) : Told (step cfg d (.heard world)).1 := by
  rw [step]
  split
  · exact h
  · rename_i e rest hbus
    cases e with
    | workerStateChanged id batch parent session task state detail yolo peer =>
      simp only [Event.heard, Option.elim, GoalDriver.step]
      split
      · exact h.tail hbus (by simp)
      · rename_i hdone
        exact h.card hbus hdone
    | taskBatchDone batch parent rows =>
      simp only [Event.heard, Option.elim, GoalDriver.step]
      split
      · refine (h.report hbus).goalsDid (GoalDriver.SameBatches.saveIfChanged ?_ _)
        exact GoalDriver.sameBatches_resumeAfterBatch ..
      · exact h.report hbus
    | _ => exact h.tail hbus (by simp)

end Heard

section Steps

/-- A batch that has reported meanwhile said so. -/
theorem mem_of_reported {S S' : Standing} {effs : List Effect} {batch : ℕ} (h : Advance S S' effs)
    (hbefore : S.reported batch = false) (hafter : S'.reported batch = true) :
    ∃ parent rows, .event (.taskBatchDone batch parent rows) ∈ effs := by
  have hcount : effs.countP (Effect.isReport batch) = 1 := by
    simpa [hbefore, hafter] using h.report batch
  obtain ⟨e, he, hreport⟩ := List.countP_pos_iff.mp (hcount ▸ Nat.one_pos)
  cases e with
  | event ev =>
    cases ev with
    | taskBatchDone batch' parent rows =>
      obtain rfl : batch' = batch := by simpa [Effect.isReport] using hreport
      exact ⟨parent, rows, he⟩
    | _ => cases hreport
  | _ => cases hreport

/-- A handler of the worker driver: what it reports is on the bus. -/
theorem Told.handled (h : Told d) (w : World) (i : Driver.Input) :
    Told (step cfg d (.handled w i)).1 := by
  have hsaid : Driver.Announces _ (d.node.driver.react cfg w i) :=
    Driver.announces_react h.keeps.fresh i
  have hadvance : Advance _ (d.node.driver.react cfg w i).core.standing _ :=
    Driver.advance_react h.keeps.fresh i
  obtain ⟨effs, hout, heffs⟩ := hsaid.out
  rw [List.nil_append] at hout
  generalize hd' : (step cfg d (.handled w i)).1 = d'
  have hgoals : d'.goals = d.goals := by rw [← hd']; rfl
  have hbus : d'.bus = d.bus ++ (d.node.driver.react cfg w i).out.filterMap Effect.sent := by
    rw [← hd']
    rfl
  have hregister : d'.register = (d.node.driver.react cfg w i).core.register := by rw [← hd']; rfl
  have hregister' : d'.reported = (d.node.driver.react cfg w i).core.standing.reported := by
    rw [← hd']
    rfl
  have hgrows : Grows d.register d'.register := hregister ▸ hsaid.grows
  have hreporting {batch : ℕ} {p : SessionId} (hr : d.Reporting batch p) :
      d'.Reporting batch p := by
    obtain ⟨rows, hmem⟩ := hr
    exact ⟨rows, by rw [hbus]; exact List.mem_append_left _ hmem⟩
  have hnew {batch : ℕ} (hbefore : d.reported batch = false) (hafter : d'.reported batch = true) :
      ∃ p, d'.Reporting batch p := by
    obtain ⟨p, rows, hmem⟩ := mem_of_reported hadvance hbefore (hregister' ▸ hafter)
    refine ⟨p, rows, ?_⟩
    rw [hbus]
    exact List.mem_append_right _ (List.mem_filterMap.mpr ⟨_, hmem, rfl⟩)
  refine ⟨?_, fun s b hb => ?_, fun e he => ?_, fun batch parent hm hreported => ?_⟩
  · rw [← hd']
    exact Node.keeps_nil_handled h.keeps w i
  · rw [hgoals] at hb
    obtain ⟨n, hn, hparent, hto⟩ := h.armed s b hb
    refine ⟨n, hn, hgrows.batches n s hparent, ?_⟩
    rcases hto with hbefore | ⟨p, hp⟩
    · cases hafter : d'.reported n with
      | false => exact Or.inl rfl
      | true => exact Or.inr (hnew hbefore hafter)
    · exact Or.inr ⟨p, hreporting hp⟩
  · rw [hbus] at he
    rcases List.mem_append.mp he with he | he
    · exact (h.vouched e he).mono hgrows
    · obtain ⟨eff, heff, hsent⟩ := List.mem_filterMap.mp he
      rw [hout] at heff
      cases eff with
      | event ev =>
        obtain rfl : ev = e := Option.some.inj hsent
        exact hregister ▸ heffs _ heff
      | _ => cases hsent
  · rw [Known, hgoals]
    cases hbefore : d.reported batch with
    | false => exact Or.inr (hnew hbefore hreported)
    | true =>
      rw [hregister] at hm
      rcases hsaid.member batch parent hm with hold | hnone
      · exact (h.known batch parent hold hbefore).imp_right fun ⟨p, hp⟩ => ⟨p, hreporting hp⟩
      · -- a batch that was not in the ledger had not reported
        have hget : d.node.driver.batches.get? batch = none := Option.map_eq_none_iff.mp hnone
        have hreported : (d.node.driver.batches.get? batch).any BatchMeta.reported = true := hbefore
        rw [hget] at hreported
        cases hreported

/-- A boot: only workers whose batch is out are found, and nothing is armed yet. -/
theorem told_booted (boot : World) {R : Register} {k : Disk} (hk : Sound R [] k) (hout : k.AllOut)
    (goals : GoalDriver) (nextSessionId : SessionId) (now : ℕ) :
    Told (booted cfg boot k goals nextSessionId now).1 := by
  generalize hd' : (booted cfg boot k goals nextSessionId now).1 = d'
  have hregister : d'.register = k.register := by
    rw [← hd']
    exact Driver.register_boot cfg boot hk.homed_disk
  have hreported : d'.reported = k.standing.reported := by
    rw [← hd']
    exact congrArg Standing.reported (Driver.standing_boot cfg boot hk.homed_disk)
  refine ⟨?_, fun s b hb => ?_, fun e he => ?_, fun batch parent hm hreported' => ?_⟩
  · rw [← hd']
    exact Node.keeps_nil_booted boot hk
  · rw [← hd'] at hb
    exact absurd hb (Finset.notMem_empty b)
  · rw [← hd'] at he ⊢
    obtain ⟨eff, heff, hsent⟩ := List.mem_filterMap.mp he
    cases eff with
    | event ev =>
      obtain rfl : ev = e := Option.some.inj hsent
      exact ((Driver.booted cfg boot k).out _ heff).vouched
    | _ => cases hsent
  · -- no batch that has reported has a worker in the files
    rw [hreported] at hreported'
    rw [hregister] at hm
    rcases hm with ⟨id, x, hx, rfl, rfl⟩ | ⟨id, x, hx, rfl, rfl⟩
    · rcases Table.mem_of_get?_insertAll hx with hmem | hnone
      · obtain ⟨pw, hpw, heq⟩ := List.mem_map.mp hmem
        obtain ⟨rfl, rfl⟩ := Prod.mk.inj heq
        rw [show k.standing.reported pw.place.batch = false from hout.1 pw hpw] at hreported'
        cases hreported'
      · cases hnone
    · rcases Table.mem_of_get?_insertAll hx with hmem | hnone
      · obtain ⟨p, hp, heq⟩ := List.mem_map.mp hmem
        obtain ⟨rfl, rfl⟩ := Prod.mk.inj heq
        rw [show k.standing.reported p.row.place.batch = false from hout.2 p hp] at hreported'
        cases hreported'
      · cases hnone

theorem told_step (h : Told d) {e : Happening} (he : d.Hears cfg e) : Told (step cfg d e).1 := by
  cases e with
  | handled w i => exact h.handled w i
  | heard world => exact h.heard world
  | lagged missed => exact h.lagged he
  | request session call world => exact h.goalsDid (GoalDriver.sameBatches_request ..)
  | turnComplete session world => exact h.goalsDid (GoalDriver.sameBatches_turnComplete ..)
  | approvalPending session tool world =>
    refine h.goalsDid (GoalDriver.SameBatches.saveIfChanged ?_ _)
    exact (GoalDriver.calm_blockOnApproval session tool).sameBatches
  | tick world =>
    refine h.goalsDid (GoalDriver.SameBatches.saveIfChanged ?_ _)
    exact (GoalDriver.calm_failStalled world.now).sameBatches
  | sessionTaken world => exact h.goalsDid ⟨rfl, rfl⟩
  | restarted inside boot nextSessionId world =>
    cases inside with
    | none => exact told_booted boot h.keeps.sound he d.goals nextSessionId world.now
    | some x =>
      obtain ⟨R, hcut⟩ := @Node.Keeps.cut cfg d.node h.keeps x.1 x.2.1 x.2.2
      exact told_booted boot hcut he d.goals nextSessionId world.now

end Steps

/-! ### Runs -/

theorem told_fresh (cfg : Config) (boot : World) (goals : GoalDriver) (nextSessionId : SessionId)
    (now : ℕ) : Told (fresh cfg boot goals nextSessionId now) :=
  told_booted boot Node.sound_blank ⟨(fun _ h => nomatch h), (fun _ h => nomatch h)⟩
    goals nextSessionId
    now

/-- **The drivers agree**, in every run of a new daemon in which the goal driver misses no report
and no boot finds a worker of a batch that has reported. -/
theorem agrees_of_hears (cfg : Config) (boot : World) (goals : GoalDriver)
    (nextSessionId : SessionId) (now : ℕ) (es : List Happening)
    (h : Run.Always (step cfg) (fresh cfg boot goals nextSessionId now)
      (fun _ d e => d.Hears cfg e) es) :
    (Run.final (step cfg) (fresh cfg boot goals nextSessionId now) es).Agrees :=
  (Run.invariant (I := fun _ d => Told d) (told_fresh cfg boot goals nextSessionId now)
    (fun _ _ _ hd he => told_step hd he) h).agrees

/-- What the world answers the goal driver. -/
def calmly : Agentd.World := ⟨0, none, .stored⟩

/-- A daemon with no goals. -/
def small : Daemon := fresh .small (.calm 0) GoalDriver.firstBoot 7 0

/-- A goal's session fans a task out and its turn completes; then the process starts again. -/
def fannedOut : List Happening :=
  [.request 1 ⟨1, "goal_create", .object [("objective", .string "survey")]⟩ calmly,
    .handled (.calm 0) (.request 7 2 "task_fanout" (taskArgs ["one"])), .heard calmly,
    .turnComplete 7 calmly, .restarted none (.calm 5) 9 calmly, .heard calmly]

theorem agrees_fannedOut :
    Run.Always (step .small) small (fun _ d e => d.Hears .small e) fannedOut ∧
      (Run.final (step .small) small fannedOut).Agrees := by
  have hhears : Run.Always (step .small) small (fun _ d e => d.Hears .small e) fannedOut := by
    simp only [fannedOut, Run.always_cons]
    refine ⟨trivial, trivial, trivial, trivial, ?_, trivial, Run.Always.nil⟩
    change Disk.AllOut _
    rw [Disk.AllOut]
    decide +kernel
  exact ⟨hhears, agrees_of_hears .small (.calm 0) GoalDriver.firstBoot 7 0 fannedOut hhears⟩

/-- The worker is done and its batch reports; then the process starts again, and the worker's card
arms the batch. -/
def rearmed : List Happening :=
  [.handled (.calm 0) (.request 7 2 "task_fanout" (taskArgs ["one"])),
    .handled (.calm 1) (.turnComplete workerSessionBase), .restarted none (.calm 5) 9 calmly,
    .heard calmly]

/-- No report of it will come: the ledger has no other batch, and there is nothing on the bus. -/
theorem not_agrees_rearmed : ¬ (Run.final (step .small) small rearmed).Agrees := by
  intro h
  have harmed : 1 ∈ (Run.final (step .small) small rearmed).goals.pendingBatches 7 := by
    decide +kernel
  have hreported : (Run.final (step .small) small rearmed).node.driver.batches.values.all
      BatchMeta.reported = true := by
    decide +kernel
  have hbus : (Run.final (step .small) small rearmed).bus = [] := by
    decide +kernel
  obtain ⟨n, -, ⟨b, hget, -, hout⟩ | ⟨rows, hmem⟩⟩ := h.armed 7 1 harmed
  · have hb : b.reported = true :=
      List.all_eq_true.mp hreported b (List.mem_map.mpr ⟨_, Table.mem_of_get? hget, rfl⟩)
    rw [hb] at hout
    cases hout
  · rw [hbus] at hmem
    cases hmem

end Daemon

end ApexOS.Fabrica
