import ApexOS.Agentd.Registry
import ApexOS.Fabrica.Worker
import ApexOS.Lib.Numeral
import ApexOS.Lib.Run

/-!
# The scheduler

`agentd/crates/agentd/src/scheduler.rs`: recurring prompts, and wakeups, the one-shot notes an agent
leaves for itself. What keeps a chain of wakeups harmless is counted over the rows themselves: those
that have not fired are bounded, and a wakeup that has fired today counts against the cap of the
day, which is asked when the next one is scheduled.

`cancel_wakeup` takes only what has not fired, because the rest is the ledger of the cap.
`cancel_schedule` takes any row that has the id. Each call and each tick reads the clock once; the
rows on disk are read back at boot only, and are not here.

## Main definitions

* `ScheduledTask`, `Scheduler`, `Scheduler.step`: the rows, and what the calls and the tick do
* `Scheduler.SparesLedger`: a call does not cancel a wakeup that has fired today
* `Scheduler.Law`: the bounds on what has fired, and on what is still to fire

## Main results

* `Scheduler.law_of_sparesLedger`: the bounds hold throughout, where the ledger is spared
-/

namespace ApexOS.Agentd

open Fabrica (isWorkerSession saturatingAdd strField natField trim)

/-! ### Rows -/

/-- `ScheduledTask`; `fireAt` is its `at`. -/
structure ScheduledTask where
  id : String
  cron : String
  prompt : String
  sessionId : Option SessionId
  createdAt : ℕ
  lastRun : Option ℕ
  fireAt : Option ℕ
  wakeup : Bool
  deriving DecidableEq, Repr

/-- `AGENTD_WAKEUP`, `AGENTD_WAKEUP_MAX_PENDING`, `AGENTD_WAKEUP_DAILY_CAP`. -/
structure WakeupConfig where
  enabled : Bool
  maxPending : ℕ
  dailyCap : ℕ

/-- What the libraries for dates and cron expressions answer. -/
structure Calendar where
  /-- The seconds an RFC 3339 text stands for, or why it stands for none. -/
  parse : String → Except String ℤ
  /-- `rfc3339`. -/
  rfc3339 : ℕ → String
  /-- A cron expression as the first time after a given one, unless it does not parse. -/
  schedule : String → Option (ℕ → Option ℕ)

/-- `WAKEUP_MIN_DELAY_SECS`. -/
def wakeupMinDelaySecs : ℕ := 60

/-- `WAKEUP_MAX_HORIZON_SECS`. -/
def wakeupMaxHorizonSecs : ℕ := 90 * 86400

/-- `WAKEUP_FIRED_RETENTION_SECS`. -/
def wakeupFiredRetentionSecs : ℕ := 48 * 3600

/-- `utc_day`. -/
def utcDay (t : ℕ) : ℕ := t / 86400

/-- `resolve_fire_at`. -/
def resolveFireAt (cal : Calendar) (args : Json) (now : ℕ) : Except String ℕ := do
  let delay := natField args "delay_secs"
  let due ← match natField args "at", strField args "at" with
    | some n, _ => pure (some n)
    | none, some s =>
      match cal.parse s with
      | .ok t => pure (some t.toNat)
      | .error e => .error s!"could not parse 'at' as RFC3339 ('{s}'): {e}"
    | none, none => pure none
  let fire ← match delay, due with
    | some d, none => pure (saturatingAdd now d)
    | none, some t => pure t
    | some _, some _ => .error "pass exactly one of delay_secs / at, not both"
    | none, none =>
      .error "pass exactly one of delay_secs (seconds from now) or at (RFC3339 UTC)"
  if fire < saturatingAdd now wakeupMinDelaySecs then
    .error s!"wakeup must be at least {wakeupMinDelaySecs}s in the future"
  else if saturatingAdd now wakeupMaxHorizonSecs < fire then
    .error "wakeup horizon is 90 days — store a cerebro intention for anything further out"
  else pure fire

/-- `wakeup_home_session`. -/
def wakeupHomeSession (scheduler : SessionId) : Option SessionId :=
  if scheduler = 0 || isWorkerSession scheduler || isSpawnSession scheduler then none
  else some scheduler

/-- `wakeup_fire_session`. -/
def ScheduledTask.wakeupFireSession (t : ScheduledTask) (root : SessionId) : SessionId :=
  (t.sessionId.filter fun s => s ≠ 0 && !isWorkerSession s && !isSpawnSession s).getD root

/-- A wakeup that has not fired. -/
def ScheduledTask.pending (t : ScheduledTask) : Bool := t.wakeup && t.lastRun.isNone

/-- A wakeup that fired on the day. -/
def ScheduledTask.firedOn (day : ℕ) (t : ScheduledTask) : Bool :=
  t.wakeup && t.lastRun.any fun r => utcDay r = day

/-- `pending_wakeups`. -/
def pendingWakeups (tasks : List ScheduledTask) : ℕ := tasks.countP ScheduledTask.pending

/-- `fired_today`. -/
def firedToday (tasks : List ScheduledTask) (now : ℕ) : ℕ :=
  tasks.countP (ScheduledTask.firedOn (utcDay now))

/-- `prune_fired_wakeups`. -/
def pruneFiredWakeups (tasks : List ScheduledTask) (now : ℕ) : List ScheduledTask :=
  tasks.filter fun t =>
    !(t.wakeup && t.lastRun.any fun r => wakeupFiredRetentionSecs < now - r)

/-- `wakeup_frame`. -/
def ScheduledTask.wakeupFrame (cal : Calendar) (t : ScheduledTask) (now : ℕ) : String :=
  let late := now - t.fireAt.getD now
  let lateNote := if 120 < late then
      s!" — fired {late / 60}m late (the daemon was down or busy)"
    else ""
  s!"[wakeup {t.id} — a note you scheduled for yourself at {cal.rfc3339 t.createdAt}{lateNote}]: " ++
    t.prompt

/-- A number in lower-case hexadecimal. -/
def hex (n : ℕ) : String := String.ofList (Nat.toDigits 16 n)

/-- `unique_id`, with the nanoseconds of the clock and the counter of the process. -/
def uniqueId (nanos seq : ℕ) : String := s!"sched_{hex nanos}_{hex seq}"

/-! ### The tick and the calls -/

/-- The rows, and the counter that ids are made from. -/
structure Scheduler where
  tasks : List ScheduledTask
  seq : ℕ

/-- A prompt that the tick sends for a row. -/
structure Firing where
  task : ScheduledTask
  now : ℕ
  session : SessionId
  text : String

/-- What the calls answer when they succeed. -/
inductive ScheduleReply
  | scheduled (id : String)
  | schedules (tasks : List ScheduledTask)
  | cancelled (id : String)
  | wakeup (id firesAt : String) (firesInSecs : ℕ) (firesInto : Option SessionId)
      (pending firedToday dailyCap : ℕ)
  | wakeups (pending recentlyFired : List ScheduledTask) (firedToday dailyCap pendingCap : ℕ)

/-- What the clocks say when a call is handled. -/
structure Reading where
  now : ℕ
  nanos : ℕ

namespace Scheduler

/-- No rows yet. -/
def new : Scheduler := ⟨[], 0⟩

variable (cfg : WakeupConfig) (cal : Calendar) (root : SessionId)

/-- One row in a tick of `run_scheduler`: what it becomes, and what it sends. -/
def tickTask (now : ℕ) (t : ScheduledTask) : ScheduledTask × Option Firing :=
  match t.fireAt with
  | some due =>
    if t.wakeup && !cfg.enabled then (t, none)
    else if t.lastRun.isNone && due ≤ now then
      let session := if t.wakeup then t.wakeupFireSession root else t.sessionId.getD root
      let text := if t.wakeup then t.wakeupFrame cal now else t.prompt
      ({ t with lastRun := some now }, some ⟨t, now, session, text⟩)
    else (t, none)
  | none =>
    match cal.schedule t.cron with
    | none => (t, none)
    | some next =>
      if (next (t.lastRun.getD t.createdAt)).any (· ≤ now) then
        ({ t with lastRun := some now }, some ⟨t, now, t.sessionId.getD root, t.prompt⟩)
      else (t, none)

/-- A tick of `run_scheduler`. -/
def tick (s : Scheduler) (now : ℕ) : Scheduler × List Firing :=
  let ticked := s.tasks.map (tickTask cfg cal root now)
  ({ s with tasks := pruneFiredWakeups (ticked.map Prod.fst) now }, ticked.filterMap Prod.snd)

/-- `handle_schedule_task`. -/
def handleScheduleTask (s : Scheduler) (args : Json) (at' : Reading) :
    Scheduler × Except String ScheduleReply :=
  match strField args "cron", strField args "prompt" with
  | none, _ => (s, .error "cron is required")
  | some _, none => (s, .error "prompt is required")
  | some cron, some prompt =>
    if (cal.schedule cron).isNone then (s, .error s!"invalid cron expression: '{cron}'")
    else
      let task : ScheduledTask := {
        id := uniqueId at'.nanos s.seq
        cron := cron
        prompt := prompt
        sessionId := (args.get? "session_id").bind Json.asU64
        createdAt := at'.now
        lastRun := none
        fireAt := none
        wakeup := false }
      (⟨s.tasks ++ [task], s.seq + 1⟩, .ok (.scheduled task.id))

/-- `handle_cancel_schedule`. -/
def handleCancelSchedule (s : Scheduler) (args : Json) : Scheduler × Except String ScheduleReply :=
  match strField args "schedule_id" with
  | none => (s, .error "schedule_id is required")
  | some id =>
    let kept := s.tasks.filter fun t => t.id ≠ id
    if kept.length = s.tasks.length then (s, .error s!"schedule '{id}' not found")
    else ({ s with tasks := kept }, .ok (.cancelled id))

/-- `handle_schedule_wakeup`. -/
def handleScheduleWakeup (s : Scheduler) (session : SessionId) (args : Json) (at' : Reading) :
    Scheduler × Except String ScheduleReply :=
  if !cfg.enabled then (s, .error "wakeups are disabled on this node (AGENTD_WAKEUP=0)")
  else match ((strField args "note").map trim).filter fun n => !n.isEmpty with
  | none => (s, .error ("note is required — write it to your future self: context, why it matters, "
      ++ "the next concrete action"))
  | some note =>
    if 4000 < note.utf8ByteSize then
      (s, .error "note too long (>4000 chars) — put the detail in cerebro and reference it")
    else match resolveFireAt cal args at'.now with
    | .error e => (s, .error e)
    | .ok fire =>
      let pending := pendingWakeups s.tasks
      let today := firedToday s.tasks at'.now
      if cfg.maxPending ≤ pending then
        (s, .error (s!"pending-wakeup cap reached ({pending}/{cfg.maxPending}) — cancel one " ++
          "(list_wakeups → cancel_wakeup) or let one fire first"))
      else if cfg.dailyCap ≤ today then
        (s, .error (s!"daily wakeup cap reached ({today}/{cfg.dailyCap}) — resumes at the next " ++
          "UTC day; store an intention for anything that must survive"))
      else
        let home := wakeupHomeSession session
        let task : ScheduledTask := {
          id := uniqueId at'.nanos s.seq
          cron := ""
          prompt := note
          sessionId := home
          createdAt := at'.now
          lastRun := none
          fireAt := some fire
          wakeup := true }
        (⟨s.tasks ++ [task], s.seq + 1⟩,
          .ok (.wakeup task.id (cal.rfc3339 fire) (fire - at'.now) home (pending + 1) today
            cfg.dailyCap))

/-- `handle_list_wakeups`. -/
def handleListWakeups (s : Scheduler) (now : ℕ) : ScheduleReply :=
  .wakeups (s.tasks.filter ScheduledTask.pending)
    (s.tasks.filter fun t => t.wakeup && t.lastRun.isSome) (firedToday s.tasks now) cfg.dailyCap
    cfg.maxPending

/-- `handle_cancel_wakeup`. -/
def handleCancelWakeup (s : Scheduler) (args : Json) : Scheduler × Except String ScheduleReply :=
  match strField args "wakeup_id" with
  | none => (s, .error "wakeup_id is required")
  | some id =>
    let kept := s.tasks.filter fun t => !(t.pending && t.id = id)
    if kept.length = s.tasks.length then
      (s, .error (s!"no pending wakeup '{id}' (already fired, cancelled, or a cron schedule — " ++
        "see list_wakeups)"))
    else ({ s with tasks := kept }, .ok (.cancelled id))

/-- The tools that `spawn_scheduler_handler` answers. -/
inductive Tool
  | scheduleTask
  | listSchedules
  | cancelSchedule
  | scheduleWakeup
  | listWakeups
  | cancelWakeup
  deriving DecidableEq

/-- What the scheduler is woken by. -/
inductive Input
  | call (session : SessionId) (tool : Tool) (args : Json) (at' : Reading)
  | tick (now : ℕ)

/-- What comes of it. -/
inductive Output
  | fired (firings : List Firing)
  | result (r : Except String ScheduleReply)

/-- `spawn_scheduler_handler` on one call. -/
def handle (s : Scheduler) (session : SessionId) (tool : Tool) (args : Json) (at' : Reading) :
    Scheduler × Except String ScheduleReply :=
  match tool with
  | .scheduleTask => s.handleScheduleTask cal args at'
  | .listSchedules => (s, .ok (.schedules s.tasks))
  | .cancelSchedule => s.handleCancelSchedule args
  | .scheduleWakeup => s.handleScheduleWakeup cfg cal session args at'
  | .listWakeups => (s, .ok (s.handleListWakeups cfg at'.now))
  | .cancelWakeup => s.handleCancelWakeup args

/-- A call, or a tick. -/
def step (s : Scheduler) : Input → Scheduler × Output
  | .call session tool args at' =>
    let r := s.handle cfg cal session tool args at'
    (r.1, .result r.2)
  | .tick now =>
    let r := s.tick cfg cal root now
    (r.1, .fired r.2)

/-! ### The bounds -/

/-- When a call or a tick is handled. -/
def Input.now : Input → ℕ
  | .call _ _ _ at' => at'.now
  | .tick now => now

/-- What an output fires for wakeups. -/
def Output.wakeups : Output → List Firing
  | .fired firings => firings.filter fun f => f.task.wakeup
  | .result _ => []

/-- The wakeups that have fired. -/
def wakeupFirings (past : List (Input × Output)) : List Firing := past.flatMap fun x => x.2.wakeups

/-- The clock does not go back. -/
def Onward (past : List (Input × Output)) (i : Input) : Prop := ∀ x ∈ past, x.1.now ≤ i.now

/-- A call of `cancel_schedule` does not name a wakeup that fired on the day of the call. -/
def SparesLedger (s : Scheduler) : Input → Prop
  | .call _ .cancelSchedule args at' =>
    ∀ t ∈ s.tasks, strField args "schedule_id" = some t.id → t.firedOn (utcDay at'.now) = false
  | _ => True

instance (past : List (Input × Output)) (i : Input) : Decidable (Onward past i) :=
  inferInstanceAs (Decidable (∀ x ∈ past, _))

instance (s : Scheduler) (i : Input) : Decidable (s.SparesLedger i) :=
  match i with
  | .call _ .cancelSchedule _ _ => inferInstanceAs (Decidable (∀ t ∈ s.tasks, _ → _))
  | .call _ .scheduleTask _ _ | .call _ .listSchedules _ _ | .call _ .scheduleWakeup _ _
  | .call _ .listWakeups _ _ | .call _ .cancelWakeup _ _ | .tick _ => isTrue trivial

/-- The bounds on wakeups. -/
structure Law (cfg : WakeupConfig) (past : List (Input × Output)) (s : Scheduler) : Prop where
  /-- What fires on one day. -/
  daily : ∀ day, (wakeupFirings past).countP (fun f => utcDay f.now = day) ≤
    cfg.dailyCap - 1 + cfg.maxPending
  pending : pendingWakeups s.tasks ≤ cfg.maxPending
  /-- Each wakeup fires at most once. -/
  once : ((wakeupFirings past).map fun f => f.task.id).Nodup
  /-- No wakeup fires before it is due. -/
  notEarly : ∀ f ∈ wakeupFirings past, ∃ due, f.task.fireAt = some due ∧ due ≤ f.now

/-! ### What a call does to the rows -/

/-- What a call can do to the rows. -/
inductive Deed (cfg : WakeupConfig) (now : ℕ) (s : Scheduler) : Scheduler → Prop
  | idle : Deed cfg now s s
  | added (nanos : ℕ) (t : ScheduledTask) (hid : t.id = uniqueId nanos s.seq)
      (hrun : t.lastRun = none)
      (hwakeup : t.wakeup = true → t.fireAt.isSome = true ∧
        pendingWakeups s.tasks < cfg.maxPending ∧ firedToday s.tasks now < cfg.dailyCap) :
      Deed cfg now s ⟨s.tasks ++ [t], s.seq + 1⟩
  | dropped (p : ScheduledTask → Bool) : Deed cfg now s { s with tasks := s.tasks.filter p }

variable {cfg cal root}

theorem deed_handle (s : Scheduler) (session : SessionId) (tool : Tool) (args : Json)
    (at' : Reading) : Deed cfg at'.now s (s.handle cfg cal session tool args at').1 := by
  cases tool with
  | listSchedules => exact .idle
  | listWakeups => exact .idle
  | scheduleTask =>
    rw [handle, handleScheduleTask]
    repeat' split
    · exact .idle
    · exact .idle
    · exact .idle
    · exact .added at'.nanos _ rfl rfl fun h => nomatch h
  | cancelSchedule =>
    rw [handle, handleCancelSchedule]
    split
    · exact .idle
    · dsimp only
      split
      · exact .idle
      · exact .dropped _
  | cancelWakeup =>
    rw [handle, handleCancelWakeup]
    split
    · exact .idle
    · dsimp only
      split
      · exact .idle
      · exact .dropped _
  | scheduleWakeup =>
    rw [handle, handleScheduleWakeup]
    repeat' split
    · exact .idle
    · exact .idle
    · exact .idle
    · exact .idle
    · dsimp only
      split
      · exact .idle
      · rename_i hpending
        split
        · exact .idle
        · rename_i htoday
          exact .added at'.nanos _ rfl rfl fun _ => ⟨rfl, by omega, by omega⟩

/-- A wakeup that fired today stays where the ledger is spared. -/
theorem mem_tasks_handle {s : Scheduler} {session : SessionId} {tool : Tool} {args : Json}
    {at' : Reading} (h : SparesLedger s (.call session tool args at')) {t : ScheduledTask}
    (ht : t ∈ s.tasks) (hfired : t.firedOn (utcDay at'.now) = true) :
    t ∈ (s.handle cfg cal session tool args at').1.tasks := by
  cases tool with
  | listSchedules => exact ht
  | listWakeups => exact ht
  | scheduleTask =>
    rw [handle, handleScheduleTask]
    repeat' split
    all_goals first
      | exact ht
      | exact List.mem_append_left _ ht
  | cancelSchedule =>
    rw [handle, handleCancelSchedule]
    split
    · exact ht
    · rename_i id hid
      dsimp only
      split
      · exact ht
      · refine List.mem_filter.mpr ⟨ht, decide_eq_true fun heq => ?_⟩
        rw [h t ht (by rw [hid, heq])] at hfired
        cases hfired
  | cancelWakeup =>
    rw [handle, handleCancelWakeup]
    split
    · exact ht
    · dsimp only
      split
      · exact ht
      · refine List.mem_filter.mpr ⟨ht, ?_⟩
        have hrun : t.lastRun.isNone = false := by
          cases hlast : t.lastRun with
          | none => simp [ScheduledTask.firedOn, hlast] at hfired
          | some r => rfl
        simp [ScheduledTask.pending, hrun]
  | scheduleWakeup =>
    rw [handle, handleScheduleWakeup]
    repeat' split
    all_goals first
      | exact ht
      | skip
    dsimp only
    repeat' split
    all_goals first
      | exact ht
      | exact List.mem_append_left _ ht

/-! ### What a tick does to a row -/

/-- A tick leaves a row as it is, or marks it and sends for it; a row with a time of its own has not
been sent before, and is due. -/
theorem tickTask_cases (cfg : WakeupConfig) (cal : Calendar) (root : SessionId) (now : ℕ)
    (t : ScheduledTask) :
    tickTask cfg cal root now t = (t, none) ∨ ∃ session text,
      tickTask cfg cal root now t = ({ t with lastRun := some now }, some ⟨t, now, session, text⟩) ∧
        ∀ due, t.fireAt = some due → t.lastRun = none ∧ due ≤ now := by
  rw [tickTask]
  split
  · rename_i due hdue
    split
    · exact Or.inl rfl
    · split
      · rename_i hfire
        obtain ⟨hrun, hle⟩ := (Bool.and_eq_true _ _).mp hfire
        refine Or.inr ⟨_, _, rfl, fun due' hdue' => ?_⟩
        obtain rfl : due = due' := Option.some.inj (hdue.symm.trans hdue')
        exact ⟨Option.isNone_iff_eq_none.mp hrun, of_decide_eq_true hle⟩
      · exact Or.inl rfl
  · rename_i hdue
    repeat' split
    · exact Or.inl rfl
    · exact Or.inr ⟨_, _, rfl, fun due h => by rw [hdue] at h; cases h⟩
    · exact Or.inl rfl

/-- The row a tick sends for is the one it marks. -/
theorem task_of_mem_tickTask {now : ℕ} {t : ScheduledTask} {f : Firing}
    (h : (tickTask cfg cal root now t).2 = some f) :
    f.task = t ∧ f.now = now ∧ (∀ due, t.fireAt = some due → t.lastRun = none ∧ due ≤ now) ∧
      (tickTask cfg cal root now t).1 = { t with lastRun := some now } := by
  rcases tickTask_cases cfg cal root now t with
    ht | ⟨session, text, ht, hdue⟩
  · rw [ht] at h
    cases h
  · rw [ht] at h ⊢
    obtain rfl := Option.some.inj h
    exact ⟨rfl, rfl, hdue, rfl⟩

@[simp] theorem id_tickTask (now : ℕ) (t : ScheduledTask) :
    (tickTask cfg cal root now t).1.id = t.id := by
  rcases tickTask_cases cfg cal root now t with ht | ⟨_, _, ht, -⟩
  all_goals rw [ht]

@[simp] theorem wakeup_tickTask (now : ℕ) (t : ScheduledTask) :
    (tickTask cfg cal root now t).1.wakeup = t.wakeup := by
  rcases tickTask_cases cfg cal root now t with ht | ⟨_, _, ht, -⟩
  all_goals rw [ht]

@[simp] theorem fireAt_tickTask (now : ℕ) (t : ScheduledTask) :
    (tickTask cfg cal root now t).1.fireAt = t.fireAt := by
  rcases tickTask_cases cfg cal root now t with ht | ⟨_, _, ht, -⟩
  all_goals rw [ht]

/-- A row that is still pending after a tick is as it was, and the tick sent nothing for it. -/
theorem tickTask_of_pending {now : ℕ} {t : ScheduledTask}
    (h : (tickTask cfg cal root now t).1.pending = true) :
    tickTask cfg cal root now t = (t, none) := by
  rcases tickTask_cases cfg cal root now t with ht | ⟨_, _, ht, -⟩
  · exact ht
  · rw [ht] at h
    simp [ScheduledTask.pending] at h

/-! ### Counting rows -/

/-- What a filter keeps, it keeps the count of. -/
theorem countP_filter_of_imp {α : Type*} {p q : α → Bool} {l : List α}
    (h : ∀ x ∈ l, q x = true → p x = true) : (l.filter p).countP q = l.countP q := by
  rw [List.countP_filter]
  refine List.countP_congr fun x hx => ?_
  rw [Bool.and_eq_true]
  exact ⟨And.left, fun hq => ⟨hq, h x hx hq⟩⟩

/-- Every wakeup among the rows has a time. -/
def Timed (tasks : List ScheduledTask) : Prop :=
  ∀ t ∈ tasks, t.wakeup = true → t.fireAt.isSome = true

/-- What a tick sends for wakeups. -/
def sent (cfg : WakeupConfig) (cal : Calendar) (root : SessionId) (now : ℕ)
    (tasks : List ScheduledTask) : List Firing :=
  (tasks.filterMap fun t => (tickTask cfg cal root now t).2).filter fun f => f.task.wakeup

/-- What a tick makes of the rows. -/
def ticked (cfg : WakeupConfig) (cal : Calendar) (root : SessionId) (now : ℕ)
    (tasks : List ScheduledTask) : List ScheduledTask :=
  tasks.map fun t => (tickTask cfg cal root now t).1

theorem wakeups_step_tick (s : Scheduler) (now : ℕ) :
    (s.step cfg cal root (.tick now)).2.wakeups = sent cfg cal root now s.tasks := by
  rw [step, Output.wakeups, tick, sent, List.filterMap_map]
  rfl

theorem step_tick (s : Scheduler) (now : ℕ) : (s.step cfg cal root (.tick now)).1 =
    { s with tasks := pruneFiredWakeups (ticked cfg cal root now s.tasks) now } := by
  rw [step, tick, ticked, List.map_map]
  rfl

/-- A wakeup that a tick sends was pending, and counts as fired on the day from there on. -/
theorem counts_tick (cfg : WakeupConfig) (cal : Calendar) (root : SessionId)
    {tasks : List ScheduledTask} (h : Timed tasks) (now : ℕ) :
    (ticked cfg cal root now tasks).countP ScheduledTask.pending +
        (sent cfg cal root now tasks).length = tasks.countP ScheduledTask.pending ∧
      (ticked cfg cal root now tasks).countP (ScheduledTask.firedOn (utcDay now)) =
        tasks.countP (ScheduledTask.firedOn (utcDay now)) +
          (sent cfg cal root now tasks).length := by
  induction tasks with
  | nil => exact ⟨rfl, rfl⟩
  | cons t tasks ih =>
    obtain ⟨hpending, hfired⟩ := ih fun x hx => h x (List.mem_cons_of_mem _ hx)
    rw [ticked, List.map_cons, List.countP_cons, List.countP_cons, List.countP_cons,
      List.countP_cons, sent, List.filterMap_cons]
    rw [ticked] at hpending hfired
    rw [sent] at hpending hfired
    rcases tickTask_cases cfg cal root now t with
      ht | ⟨session, text, ht, hdue⟩
    · rw [ht]
      dsimp only
      omega
    · rw [ht]
      dsimp only
      by_cases hwakeup : t.wakeup = true
      · obtain ⟨due, hsome⟩ := Option.isSome_iff_exists.mp (h t List.mem_cons_self hwakeup)
        obtain ⟨hrun, -⟩ := hdue due hsome
        simp only [List.filter_cons, ScheduledTask.pending, ScheduledTask.firedOn, hwakeup, hrun,
          Option.isNone_none, Option.isNone_some, Option.any_some, Option.any_none, Bool.and_false,
          Bool.true_and, decide_true, if_true, List.length_cons]
        simp only [Bool.false_eq_true, if_false]
        omega
      · simp only [List.filter_cons, ScheduledTask.pending, ScheduledTask.firedOn, hwakeup,
          Bool.false_and,
          Bool.false_eq_true, if_false]
        omega

/-- Pruning takes neither what is pending nor what fired today. -/
theorem counts_prune (tasks : List ScheduledTask) (now : ℕ) :
    (pruneFiredWakeups tasks now).countP ScheduledTask.pending =
        tasks.countP ScheduledTask.pending ∧
      (pruneFiredWakeups tasks now).countP (ScheduledTask.firedOn (utcDay now)) =
        tasks.countP (ScheduledTask.firedOn (utcDay now)) := by
  refine ⟨countP_filter_of_imp fun t _ ht => ?_, countP_filter_of_imp fun t _ ht => ?_⟩
  · have hrun : t.lastRun = none := by
      simpa [ScheduledTask.pending] using ((Bool.and_eq_true _ _).mp ht).2
    simp [hrun]
  · cases hrun : t.lastRun with
    | none => simp
    | some r =>
      have hday : utcDay r = utcDay now := by
        simpa [hrun] using ((Bool.and_eq_true _ _).mp ht).2
      have hkept : ¬ wakeupFiredRetentionSecs < now - r := by
        simp only [wakeupFiredRetentionSecs, utcDay] at hday ⊢
        omega
      simp [hkept]

/-! ### Ids -/

theorem toList_uniqueId (nanos seq : ℕ) : (uniqueId nanos seq).toList =
    ("sched_".toList ++ Nat.toDigits 16 nanos) ++ '_' :: Nat.toDigits 16 seq := by
  simp only [uniqueId, hex, String.toList_append, List.append_assoc]
  rw [show (toString (String.ofList (Nat.toDigits 16 nanos))).toList = Nat.toDigits 16 nanos from
    String.toList_ofList, show (toString (String.ofList (Nat.toDigits 16 seq))).toList =
    Nat.toDigits 16 seq from String.toList_ofList]
  rfl

theorem uniqueId_injective {nanos nanos' seq seq' : ℕ}
    (h : uniqueId nanos seq = uniqueId nanos' seq') : seq = seq' := by
  have hlist := congrArg String.toList h
  rw [toList_uniqueId, toList_uniqueId] at hlist
  exact (Numeral.key_injective (by decide) le_rfl (by decide) hlist).2

/-- The id was made from an earlier value of the counter. -/
def Minted (seq : ℕ) (id : String) : Prop := ∃ nanos, ∃ k < seq, id = uniqueId nanos k

theorem Minted.mono {seq seq' : ℕ} {id : String} (h : Minted seq id) (hle : seq ≤ seq') :
    Minted seq' id := by
  obtain ⟨nanos, k, hk, hid⟩ := h
  exact ⟨nanos, k, lt_of_lt_of_le hk hle, hid⟩

theorem Minted.ne {seq : ℕ} {id : String} (h : Minted seq id) (nanos : ℕ) :
    id ≠ uniqueId nanos seq := by
  obtain ⟨nanos', k, hk, rfl⟩ := h
  exact fun heq => absurd (uniqueId_injective heq) (Nat.ne_of_lt hk)

/-! ### The rows over a run -/

/-- The rows at a time, beside what has fired. -/
structure Rows (cfg : WakeupConfig) (fired : List Firing) (now : ℕ) (s : Scheduler) : Prop where
  ids : (s.tasks.map ScheduledTask.id).Nodup
  minted : ∀ t ∈ s.tasks, Minted s.seq t.id
  known : ∀ f ∈ fired, Minted s.seq f.task.id
  once : (fired.map fun f => f.task.id).Nodup
  /-- What is pending has not fired. -/
  unfired : ∀ t ∈ s.tasks, t.pending = true → ∀ f ∈ fired, f.task.id ≠ t.id
  timed : Timed s.tasks
  ran : ∀ t ∈ s.tasks, ∀ r, t.lastRun = some r → r ≤ now
  due : ∀ f ∈ fired, f.now ≤ now ∧ ∃ due, f.task.fireAt = some due ∧ due ≤ f.now
  pending : pendingWakeups s.tasks ≤ cfg.maxPending

/-- The wakeups that fired on the day. -/
def firedOn (fired : List Firing) (day : ℕ) : ℕ := fired.countP fun f => utcDay f.now = day

/-- The rows as the ledger of the daily cap. -/
structure Ledger (cfg : WakeupConfig) (fired : List Firing) (now : ℕ) (s : Scheduler) : Prop where
  daily : ∀ day, firedOn fired day ≤ cfg.dailyCap - 1 + cfg.maxPending
  /-- What can still fire today is within the bound too. -/
  room : firedOn fired (utcDay now) + pendingWakeups s.tasks ≤ cfg.dailyCap - 1 + cfg.maxPending
  rows : firedToday s.tasks now = firedOn fired (utcDay now)

variable {fired : List Firing} {now now' : ℕ} {s s' : Scheduler} {i : Input}

theorem Rows.later (h : Rows cfg fired now s) (hle : now ≤ now') : Rows cfg fired now' s where
  __ := h
  ran := fun t ht r hr => le_trans (h.ran t ht r hr) hle
  due := fun f hf => ⟨le_trans (h.due f hf).1 hle, (h.due f hf).2⟩

/-- On a new day nothing has fired yet. -/
theorem Ledger.later (h : Ledger cfg fired now s) (hrows : Rows cfg fired now s)
    (hle : now ≤ now') : Ledger cfg fired now' s := by
  rcases eq_or_ne (utcDay now') (utcDay now) with hday | hday
  · refine ⟨h.daily, ?_, ?_⟩
    · rw [hday]
      exact h.room
    · rw [firedToday, hday]
      exact h.rows
  · have hlt : utcDay now < utcDay now' :=
      lt_of_le_of_ne (Nat.div_le_div_right hle) (Ne.symm hday)
    have hnone : firedOn fired (utcDay now') = 0 := by
      refine List.countP_eq_zero.mpr fun f hf => ?_
      have hf : utcDay f.now ≤ utcDay now := Nat.div_le_div_right (hrows.due f hf).1
      simp only [decide_eq_true_eq]
      omega
    refine ⟨h.daily, ?_, ?_⟩
    · rw [hnone]
      have := hrows.pending
      omega
    · rw [hnone]
      refine List.countP_eq_zero.mpr fun t ht hfired => ?_
      obtain ⟨-, hrun⟩ := (Bool.and_eq_true _ _).mp hfired
      cases hr : t.lastRun with
      | none => simp [hr] at hrun
      | some r =>
        have hle : utcDay r ≤ utcDay now := Nat.div_le_div_right (hrows.ran t ht r hr)
        have hday' : utcDay r = utcDay now' := by simpa [hr] using hrun
        omega

theorem pending_filter_le (p : ScheduledTask → Bool) (tasks : List ScheduledTask) :
    pendingWakeups (tasks.filter p) ≤ pendingWakeups tasks :=
  List.Sublist.countP_le List.filter_sublist

theorem Rows.deed (h : Rows cfg fired now s) (hdeed : Deed cfg now s s') :
    Rows cfg fired now s' := by
  cases hdeed with
  | idle => exact h
  | dropped p =>
    have hmem {t : ScheduledTask} (ht : t ∈ s.tasks.filter p) : t ∈ s.tasks :=
      List.mem_of_mem_filter ht
    exact {
      ids := h.ids.sublist (List.filter_sublist.map _)
      minted := fun t ht => h.minted t (hmem ht)
      known := h.known
      once := h.once
      unfired := fun t ht => h.unfired t (hmem ht)
      timed := fun t ht => h.timed t (hmem ht)
      ran := fun t ht => h.ran t (hmem ht)
      due := h.due
      pending := le_trans (pending_filter_le p s.tasks) h.pending }
  | added nanos t hid hrun hwakeup =>
    have hsplit {x : ScheduledTask} (hx : x ∈ s.tasks ++ [t]) : x ∈ s.tasks ∨ x = t := by
      simpa using hx
    refine {
      ids := ?_
      minted := ?_
      known := fun f hf => (h.known f hf).mono (Nat.le_succ _)
      once := h.once
      unfired := ?_
      timed := ?_
      ran := ?_
      due := h.due
      pending := ?_ }
    · rw [List.map_append, List.map_singleton, List.nodup_append]
      refine ⟨h.ids, List.nodup_singleton _, fun a ha b hb => ?_⟩
      obtain ⟨x, hx, rfl⟩ := List.mem_map.mp ha
      rw [List.mem_singleton.mp hb, hid]
      exact (h.minted x hx).ne nanos
    · intro x hx
      rcases hsplit hx with hx | rfl
      · exact (h.minted x hx).mono (Nat.le_succ _)
      · exact ⟨nanos, s.seq, Nat.lt_succ_self _, hid⟩
    · intro x hx hpending f hf
      rcases hsplit hx with hx | rfl
      · exact h.unfired x hx hpending f hf
      · rw [hid]
        exact (h.known f hf).ne nanos
    · intro x hx hw
      rcases hsplit hx with hx | rfl
      · exact h.timed x hx hw
      · exact (hwakeup hw).1
    · intro x hx r hr
      rcases hsplit hx with hx | rfl
      · exact h.ran x hx r hr
      · rw [hrun] at hr
        cases hr
    · rw [pendingWakeups, List.countP_append, List.countP_singleton]
      split
      · rename_i hpending
        have := (hwakeup ((Bool.and_eq_true _ _).mp hpending).1).2.1
        rw [pendingWakeups] at this
        omega
      · exact h.pending

/-- A call that leaves today's fired wakeups where they are keeps the ledger. -/
theorem Ledger.deed (h : Ledger cfg fired now s) (hcap : 1 ≤ cfg.dailyCap)
    (hdeed : Deed cfg now s s')
    (hspared : ∀ t ∈ s.tasks, t.firedOn (utcDay now) = true → t ∈ s'.tasks) :
    Ledger cfg fired now s' := by
  cases hdeed with
  | idle => exact h
  | dropped p =>
    refine ⟨h.daily, le_trans (Nat.add_le_add_left (pending_filter_le p s.tasks) _) h.room, ?_⟩
    rw [← h.rows]
    exact countP_filter_of_imp fun t ht hfired => (List.mem_filter.mp (hspared t ht hfired)).2
  | added nanos t hid hrun hwakeup =>
    have hrows : firedToday (s.tasks ++ [t]) now = firedToday s.tasks now := by
      rw [firedToday, List.countP_append, List.countP_singleton, if_neg, firedToday, Nat.add_zero]
      simp [ScheduledTask.firedOn, hrun]
    refine ⟨h.daily, ?_, hrows.trans h.rows⟩
    rw [pendingWakeups, List.countP_append, List.countP_singleton]
    split
    · rename_i hpending
      obtain ⟨-, hpending, htoday⟩ := hwakeup ((Bool.and_eq_true _ _).mp hpending).1
      rw [h.rows] at htoday
      rw [pendingWakeups] at hpending
      omega
    · exact h.room

/-! ### A tick -/

theorem mem_sent {tasks : List ScheduledTask} {f : Firing}
    (h : f ∈ sent cfg cal root now tasks) : f.task.wakeup = true ∧ f.task ∈ tasks ∧
      (tickTask cfg cal root now f.task).2 = some f := by
  obtain ⟨hf, hwakeup⟩ := List.mem_filter.mp h
  obtain ⟨t, ht, hsome⟩ := List.mem_filterMap.mp hf
  obtain ⟨rfl, -⟩ := task_of_mem_tickTask hsome
  exact ⟨hwakeup, ht, hsome⟩

/-- What a tick sends was pending, and due. -/
theorem Rows.mem_sent (h : Rows cfg fired now s) {f : Firing}
    (hf : f ∈ sent cfg cal root now s.tasks) : f.task ∈ s.tasks ∧ f.task.pending = true ∧
      f.now = now ∧ ∃ due, f.task.fireAt = some due ∧ due ≤ f.now := by
  obtain ⟨hwakeup, hmem, hsome⟩ := Scheduler.mem_sent hf
  obtain ⟨-, hnow, hdue, -⟩ := task_of_mem_tickTask hsome
  obtain ⟨due, hat⟩ := Option.isSome_iff_exists.mp (h.timed f.task hmem hwakeup)
  obtain ⟨hrun, hle⟩ := hdue due hat
  exact ⟨hmem, by simp [ScheduledTask.pending, hwakeup, hrun], hnow, due, hat, hnow.symm ▸ hle⟩

theorem ids_sent_sublist (tasks : List ScheduledTask) :
    ((sent cfg cal root now tasks).map fun f => f.task.id).Sublist
      (tasks.map ScheduledTask.id) := by
  refine (List.filter_sublist.map _).trans ?_
  induction tasks with
  | nil => exact List.Sublist.refl _
  | cons t tasks ih =>
    rw [List.filterMap_cons]
    split
    · exact ih.cons _
    · rename_i f hf
      obtain ⟨rfl, -⟩ := task_of_mem_tickTask hf
      exact ih.cons_cons _

theorem mem_prune_ticked {tasks : List ScheduledTask} {t : ScheduledTask}
    (h : t ∈ pruneFiredWakeups (ticked cfg cal root now tasks) now) :
    ∃ x ∈ tasks, (tickTask cfg cal root now x).1 = t :=
  List.mem_map.mp (List.mem_of_mem_filter h)

theorem Rows.tick (h : Rows cfg fired now s) :
    Rows cfg (fired ++ sent cfg cal root now s.tasks) now
      { s with tasks := pruneFiredWakeups (ticked cfg cal root now s.tasks) now } where
  ids := by
    refine (List.Nodup.sublist (List.filter_sublist.map _) ?_)
    rw [ticked, List.map_map]
    simpa [Function.comp_def] using h.ids
  minted := by
    intro t ht
    obtain ⟨x, hx, rfl⟩ := mem_prune_ticked ht
    rw [id_tickTask]
    exact h.minted x hx
  known := by
    intro f hf
    rcases List.mem_append.mp hf with hf | hf
    · exact h.known f hf
    · exact h.minted _ (h.mem_sent hf).1
  once := by
    rw [List.map_append, List.nodup_append]
    refine ⟨h.once, h.ids.sublist (ids_sent_sublist _), fun a ha b hb => ?_⟩
    obtain ⟨f, hf, rfl⟩ := List.mem_map.mp ha
    obtain ⟨g, hg, rfl⟩ := List.mem_map.mp hb
    obtain ⟨hmem, hpending, -⟩ := h.mem_sent hg
    exact h.unfired _ hmem hpending f hf
  unfired := by
    intro t ht hpending f hf
    obtain ⟨x, hx, rfl⟩ := mem_prune_ticked ht
    have hsame := tickTask_of_pending hpending
    rw [hsame] at hpending ⊢
    rcases List.mem_append.mp hf with hf | hf
    · exact h.unfired x hx hpending f hf
    · intro hid
      obtain ⟨-, hmem, hsome⟩ := Scheduler.mem_sent hf
      obtain rfl := List.inj_on_of_nodup_map h.ids hmem hx hid
      rw [hsame] at hsome
      cases hsome
  timed := by
    intro t ht hwakeup
    obtain ⟨x, hx, rfl⟩ := mem_prune_ticked ht
    rw [wakeup_tickTask] at hwakeup
    rw [fireAt_tickTask]
    exact h.timed x hx hwakeup
  ran := by
    intro t ht r hr
    obtain ⟨x, hx, rfl⟩ := mem_prune_ticked ht
    rcases tickTask_cases cfg cal root now x with
      hsame | ⟨_, _, hmarked, -⟩
    · rw [hsame] at hr
      exact h.ran x hx r hr
    · rw [hmarked] at hr
      exact (Option.some.inj hr).ge
  due := by
    intro f hf
    rcases List.mem_append.mp hf with hf | hf
    · exact h.due f hf
    · obtain ⟨-, -, hnow, hdue⟩ := h.mem_sent hf
      exact ⟨hnow.le, hdue⟩
  pending := by
    have hcount := (counts_tick cfg cal root h.timed now).1
    have := h.pending
    rw [pendingWakeups] at this ⊢
    rw [(counts_prune _ now).1]
    omega

theorem firedOn_append_sent (fired : List Firing) (h : Rows cfg fired now s) (day : ℕ) :
    firedOn (fired ++ sent cfg cal root now s.tasks) day = firedOn fired day +
      if utcDay now = day then (sent cfg cal root now s.tasks).length else 0 := by
  rw [firedOn, List.countP_append, firedOn]
  congr 1
  split
  · rename_i hday
    refine List.countP_eq_length.mpr fun f hf => decide_eq_true ?_
    rw [(h.mem_sent hf).2.2.1, hday]
  · rename_i hday
    refine List.countP_eq_zero.mpr fun f hf => ?_
    rw [(h.mem_sent hf).2.2.1]
    simpa using hday

/-- What fires moves from what is pending to what has fired today. -/
theorem Ledger.tick (h : Ledger cfg fired now s) (hrows : Rows cfg fired now s) :
    Ledger cfg (fired ++ sent cfg cal root now s.tasks) now
      { s with tasks := pruneFiredWakeups (ticked cfg cal root now s.tasks) now } := by
  obtain ⟨hpending, hfired⟩ := counts_tick cfg cal root hrows.timed now
  have hroom := h.room
  have hledger := h.rows
  rw [pendingWakeups] at hroom
  rw [firedToday] at hledger
  refine ⟨fun day => ?_, ?_, ?_⟩
  · rw [firedOn_append_sent fired hrows]
    split
    · rename_i hday
      subst hday
      omega
    · exact h.daily day
  · rw [firedOn_append_sent fired hrows, if_pos rfl, pendingWakeups, (counts_prune _ now).1]
    omega
  · rw [firedOn_append_sent fired hrows, if_pos rfl, firedToday, (counts_prune _ now).2]
    omega

/-! ### Runs -/

theorem wakeupFirings_concat (past : List (Input × Output)) (x : Input × Output) :
    wakeupFirings (past ++ [x]) = wakeupFirings past ++ x.2.wakeups := by
  simp [wakeupFirings]

/-- One call, or one tick. -/
theorem Rows.step (h : Rows cfg fired i.now s) :
    Rows cfg (fired ++ (s.step cfg cal root i).2.wakeups) i.now (s.step cfg cal root i).1 := by
  cases i with
  | call session tool args at' =>
    rw [show (s.step cfg cal root (.call session tool args at')).2.wakeups = [] from rfl,
      List.append_nil]
    exact h.deed (deed_handle s session tool args at')
  | tick now =>
    rw [wakeups_step_tick, step_tick]
    exact h.tick

theorem Ledger.step (h : Ledger cfg fired i.now s) (hrows : Rows cfg fired i.now s)
    (hcap : 1 ≤ cfg.dailyCap) (hspares : s.SparesLedger i) :
    Ledger cfg (fired ++ (s.step cfg cal root i).2.wakeups) i.now (s.step cfg cal root i).1 := by
  cases i with
  | call session tool args at' =>
    rw [show (s.step cfg cal root (.call session tool args at')).2.wakeups = [] from rfl,
      List.append_nil]
    exact h.deed hcap (deed_handle s session tool args at') fun t => mem_tasks_handle hspares
  | tick now =>
    rw [wakeups_step_tick, step_tick]
    exact h.tick hrows

theorem rows_new (cfg : WakeupConfig) (now : ℕ) : Rows cfg [] now new where
  ids := List.nodup_nil
  minted := fun _ h => nomatch h
  known := fun _ h => nomatch h
  once := List.nodup_nil
  unfired := fun _ h => nomatch h
  timed := fun _ h => nomatch h
  ran := fun _ h => nomatch h
  due := fun _ h => nomatch h
  pending := Nat.zero_le _

theorem ledger_new (cfg : WakeupConfig) (now : ℕ) : Ledger cfg [] now new where
  daily := fun _ => Nat.zero_le _
  room := Nat.zero_le _
  rows := rfl

theorem exists_le_now (past : List (Input × Output)) : ∃ now, ∀ x ∈ past, x.1.now ≤ now := by
  induction past with
  | nil => exact ⟨0, fun _ h => nomatch h⟩
  | cons y past ih =>
    obtain ⟨now, hnow⟩ := ih
    refine ⟨max y.1.now now, fun x hx => ?_⟩
    rcases List.mem_cons.mp hx with rfl | hx
    · exact le_max_left _ _
    · exact le_max_of_le_right (hnow x hx)

/-- **The bounds on wakeups**, in every run of calls and ticks of a clock that does not go back, in
which no call of `cancel_schedule` names a wakeup that fired on its day. -/
theorem law_of_sparesLedger (cfg : WakeupConfig) (cal : Calendar) (root : SessionId)
    (hcap : 1 ≤ cfg.dailyCap) (inputs : List Input)
    (h : Run.Always (step cfg cal root) new (fun past s i => Onward past i ∧ s.SparesLedger i)
      inputs) :
    Law cfg (Run.log (step cfg cal root) new inputs)
    (Run.final (step cfg cal root) new inputs) := by
  -- Whatever the time is, if it is not before anything that has happened.
  have hinv := Run.invariant
    (I := fun past s => ∀ now, (∀ x ∈ past, x.1.now ≤ now) →
      Rows cfg (wakeupFirings past) now s ∧ Ledger cfg (wakeupFirings past) now s)
    (fun now _ => ⟨rows_new cfg now, ledger_new cfg now⟩) ?_ h
  · obtain ⟨now, hnow⟩ := exists_le_now (Run.log (step cfg cal root) new inputs)
    obtain ⟨hrows, hledger⟩ := hinv now hnow
    exact ⟨hledger.daily, hrows.pending, hrows.once, fun f hf => (hrows.due f hf).2⟩
  · rintro past s i hinv ⟨honward, hspares⟩ now hnow
    obtain ⟨hrows, hledger⟩ := hinv i.now honward
    have hle : i.now ≤ now := hnow _ (List.mem_append_right _ (List.mem_singleton_self _))
    rw [wakeupFirings_concat]
    exact ⟨hrows.step.later hle, (hledger.step hrows hcap hspares).later hrows.step hle⟩

/-- A calendar without dates. -/
def noDates : Calendar where
  parse _ := .error "no date"
  rfc3339 _ := ""
  schedule _ := none

/-- A wakeup for a minute from now. -/
def inAMinute (now : ℕ) : Input :=
  .call 1 .scheduleWakeup
    (.object [("note", .string "look again"), ("delay_secs", .number (.posInt 60))]) ⟨now, now⟩

/-- A wakeup that fires and is cancelled on the next day. -/
def cancelledLater : List Input :=
  [inAMinute 0, .tick 60,
    .call 1 .cancelSchedule (.object [("schedule_id", .string "sched_0_0")]) ⟨86400, 86400⟩]

theorem law_cancelledLater :
    Run.Always (step ⟨true, 1, 1⟩ noDates 0) new
        (fun past s i => Onward past i ∧ s.SparesLedger i) cancelledLater ∧
      Law ⟨true, 1, 1⟩ (Run.log (step ⟨true, 1, 1⟩ noDates 0) new cancelledLater)
        (Run.final (step ⟨true, 1, 1⟩ noDates 0) new cancelledLater) := by
  have hspares : Run.Always (step ⟨true, 1, 1⟩ noDates 0) new
      (fun past s i => Onward past i ∧ s.SparesLedger i) cancelledLater := by decide +kernel
  exact ⟨hspares, law_of_sparesLedger ⟨true, 1, 1⟩ noDates 0 le_rfl cancelledLater hspares⟩

/-- A wakeup fires, its row is cancelled, and there is room for another the same day. -/
def cancelledToday : List Input :=
  [inAMinute 0, .tick 60,
    .call 1 .cancelSchedule (.object [("schedule_id", .string "sched_0_0")]) ⟨61, 61⟩,
    inAMinute 62, .tick 122]

/-- One wakeup may be pending and one may fire in a day, and two have fired. -/
theorem not_law_cancelledToday :
    Run.Always (step ⟨true, 1, 1⟩ noDates 0) new (fun past _ i => Onward past i) cancelledToday ∧
      ¬ Law ⟨true, 1, 1⟩ (Run.log (step ⟨true, 1, 1⟩ noDates 0) new cancelledToday)
        (Run.final (step ⟨true, 1, 1⟩ noDates 0) new cancelledToday) :=
  ⟨by decide +kernel, fun h => absurd (h.daily 0) (by decide +kernel)⟩

end Scheduler

end ApexOS.Agentd
