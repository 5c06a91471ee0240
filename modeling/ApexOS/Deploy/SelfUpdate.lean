import ApexOS.Lib.Run
import Mathlib.Data.Int.Notation
import Mathlib.Algebra.Group.Int.Defs

/-!
# The self-update watchdog

`deploy/apexos-self-update.sh`, with the two writes that lead up to it in `self_update.rs`: agentd
stages a binary and files a request, and a script that runs as root backs the live binary up, swaps
the staged one in and judges it by its health marker, or puts the backup back.

Five files take part: the live binary, `agentd.prev`, `agentd.staged`, the request and the phase
file. Each command of the script that touches one is a step, so that power may go between any two;
`> "$STATE"` is two commands, the truncation and the write. Commands that fail are inputs, and so is
what a copy that was cut short has left behind. The script holds a lock, and agentd files nothing
while a request is there.

What the script can resume from is the request together with the phase. There are two moments when
they do not say what has been done: the phase file is empty while the new binary is live, and the
request is gone while the phase file is not.

## Main definitions

* `Machine`, `Event`, `Machine.step`: the disk and the script
* `Watched`: and which binary was live when the request came, what was judged healthy since, and
  which request the phase was recorded for
* `Recoverable`: what the watchdog promises of one step
* `Sound`: no cut in one of the two moments, and no restore that fails while it is needed

## Main results

* `Law.step`: the invariant, by where the script stands
* `recoverable_of_sound`: every sound run keeps the promise
-/

namespace ApexOS.Deploy.SelfUpdate

/-! ### Requests and health -/

/-- `request.json`, by the fields that are read; a missing one is empty. -/
structure Request where
  stagedSha256 : String
  targetCommit : String
  prevCommit : String
  createdAt : String
  timeout : String
  deriving DecidableEq

/-- `grep -q`: some line of the text matches as a whole. -/
def grepLine (p : List Char → Bool) (s : String) : Bool := (s.toList.splitOn '\n').any p

/-- `is_sha256`. -/
def isSha256 : String → Bool :=
  grepLine fun cs => cs.length == 64 && cs.all fun c =>
    c.isDigit || ('a' ≤ c && c ≤ 'f') || ('A' ≤ c && c ≤ 'F')

/-- `^[0-9]+$`. -/
def isNumeric : String → Bool := grepLine fun cs => !cs.isEmpty && cs.all Char.isDigit

/-- What a request is rejected for, before anything else is looked at. -/
def Request.refusal (r : Request) : Option String :=
  let timeout := if r.timeout = "" then "120" else r.timeout
  if !isSha256 r.stagedSha256 then some "staged_sha256 required"
  else if r.targetCommit = "" then some "target_commit required"
  else if !isNumeric r.createdAt then some "created_at required"
  else if !isNumeric timeout then some "timeout required"
  else none

/-- `health.json`. -/
structure HealthMarker where
  status : String
  commit : String
  bootedAt : String
  deriving DecidableEq

/-- The number that `test` reads: digits, with a sign perhaps, in 64 bits. -/
def testNumber (s : String) : Option ℤ :=
  let digits (cs : List Char) : Option ℤ :=
    if cs.isEmpty || !cs.all Char.isDigit then none
    else some (cs.foldl (fun n c => 10 * n + (c.toNat - '0'.toNat : ℕ)) (0 : ℤ))
  let n := match s.toList with
    | '-' :: cs => (digits cs).map Neg.neg
    | '+' :: cs => digits cs
    | cs => digits cs
  n.filter fun n => decide (-2 ^ 63 ≤ n ∧ n < 2 ^ 63)

/-- `is_healthy_target`. -/
def isHealthyTarget (r : Request) : Option HealthMarker → Bool
  | none => false
  | some m =>
    m.status == "healthy" && m.commit == r.targetCommit && m.bootedAt != "" &&
      match testNumber m.bootedAt, testNumber r.createdAt with
      | some booted, some created => decide (created ≤ booted)
      | _, _ => false

/-- One turn of the loop in `poll_health`: the marker, and whether the unit is `failed`. -/
structure Probe where
  marker : Option HealthMarker
  unitFailed : Bool

/-- `poll_health`: the probes that the deadline leaves room for. -/
def pollHealth (r : Request) : List Probe → Bool
  | [] => false
  | p :: ps => isHealthyTarget r p.marker || (!p.unitFailed && pollHealth r ps)

/-! ### The machine -/

/-- What the phase file may say. -/
inductive Phase
  | backedUp
  | swapped
  deriving DecidableEq

/-- The file under the staging path. -/
structure StagedFile (β : Type*) where
  content : β
  symlink : Bool
  regular : Bool
  /-- It has the owner of the request. -/
  sameOwner : Bool
  deriving DecidableEq

/-- `staged_file_ok`. -/
def stagedFileOk {β : Type*} : Option (StagedFile β) → Bool
  | none => false
  | some s => !s.symlink && s.regular && s.sameOwner

/-- Why the backup is put back. -/
inductive Restore
  | swapFailed
  /-- `rollback` -/
  | rollback (reason : String)
  deriving DecidableEq

/-- Where the script stands: the command that comes next. -/
inductive Pc (β : Type*)
  | idle
  /-- the phase is `SWAPPED`: judge, without a new swap -/
  | resume (r : Request)
  /-- stage A -/
  | verify (r : Request) (backedUp : Bool)
  /-- stage B -/
  | backup (r : Request)
  /-- stage C: the two halves of `swap_in` -/
  | swapCopy (r : Request)
  | swapMove (r : Request) (x : β)
  /-- `echo PHASE > "$STATE"`, its two halves -/
  | truncate (r : Request) (phase : Phase)
  | record (r : Request) (phase : Phase)
  /-- stage D -/
  | poll (r : Request)
  /-- `swap_in "$PREV"` -/
  | restoreCopy (why : Restore)
  | restoreMove (why : Restore) (x : β)
  /-- `finish`, its three removals -/
  | finishStaged
  | finishRequest
  | finishState
  deriving DecidableEq

/-- The disk and the script. -/
structure Machine (β : Type*) where
  live : β
  prev : Option β
  staged : Option (StagedFile β)
  request : Option Request
  /-- The phase file: it may be there and empty. -/
  state : Option (Option Phase)
  pc : Pc β

/-- How one command goes. -/
structure Fate (β : Type*) where
  /-- The `cp` or `mv` succeeds. -/
  ok : Bool
  /-- What a copy that does not has made of its target, if it touched it. -/
  left : Option (Option β)
  marker : Option HealthMarker
  probes : List Probe

/-- The inputs. -/
inductive Event (β : Type*)
  /-- agentd stages a binary, and files a request -/
  | stage (s : StagedFile β)
  | file (r : Request)
  /-- the `.path` unit starts the script -/
  | run
  /-- the script's next command -/
  | command (f : Fate β)
  /-- power goes, in a copy perhaps -/
  | cut (left : Option (Option β))

/-- Which outcome file is written. -/
inductive Outcome
  | confirmed
  | rolledBack
  | rejected
  deriving DecidableEq

/-- `write_outcome`, with its reason. -/
abbrev Report := Outcome × String

/-- What is reported of a restore. -/
def Restore.report : Restore → (hasPrev ok : Bool) → Report
  | swapFailed, _, _ => (.rolledBack, "swap failed")
  | rollback reason, true, true => (.rolledBack, reason)
  | rollback reason, true, false => (.rolledBack, reason ++ " (restore mv failed!)")
  | rollback reason, false, _ => (.rolledBack, reason ++ " (no agentd.prev to restore!)")

section Step

variable {β : Type*} (sha : β → String)

/-- The script starts, down to the first command that depends on the phase. -/
def Machine.start (m : Machine β) : Machine β × Option Report :=
  match m.request with
  | none => (m, none)
  | some r =>
    match r.refusal with
    | some reason => ({ m with pc := .finishStaged }, some (.rejected, reason))
    | none =>
      match m.state with
      | some (some .swapped) => ({ m with pc := .resume r }, none)
      | some (some .backedUp) => ({ m with pc := .verify r true }, none)
      | _ => ({ m with pc := .verify r false }, none)

/-- The next command. -/
def Machine.command (m : Machine β) (f : Fate β) : Machine β × Option Report :=
  match m.pc with
  | .idle => (m, none)
  | .resume r =>
    if isHealthyTarget r f.marker then
      ({ m with pc := .finishStaged },
        some (.confirmed, "healthy after swap (reconciled at boot)"))
    else if pollHealth r f.probes then
      ({ m with pc := .finishStaged }, some (.confirmed, "healthy after swap"))
    else ({ m with pc := .restoreCopy (.rollback "health timeout after swap") }, none)
  | .verify r backedUp =>
    match m.staged with
    | none => ({ m with pc := .finishStaged }, some (.rejected, "staged binary missing or unsafe"))
    | some s =>
      if !stagedFileOk (some s) then
        ({ m with pc := .finishStaged }, some (.rejected, "staged binary missing or unsafe"))
      else if sha s.content ≠ r.stagedSha256 then
        ({ m with pc := .finishStaged }, some (.rejected, "staged sha256 mismatch"))
      else ({ m with pc := if backedUp then .swapCopy r else .backup r }, none)
  | .backup r =>
    if f.ok then ({ m with prev := some m.live, pc := .truncate r .backedUp }, none)
    else
      ({ m with prev := f.left.getD m.prev, pc := .finishStaged },
        some (.rejected, "backup failed"))
  | .swapCopy r =>
    match m.staged with
    | none => ({ m with pc := .restoreCopy .swapFailed }, none)
    | some s =>
      -- the copy is hashed again
      if f.ok && sha s.content == r.stagedSha256 then
        ({ m with pc := .swapMove r s.content }, none)
      else ({ m with pc := .restoreCopy .swapFailed }, none)
  | .swapMove r x =>
    if f.ok then ({ m with live := x, pc := .truncate r .swapped }, none)
    else ({ m with pc := .restoreCopy .swapFailed }, none)
  | .truncate r phase => ({ m with state := some none, pc := .record r phase }, none)
  | .record r phase =>
    ({ m with
        state := some (some phase)
        pc := match phase with
          | .backedUp => .swapCopy r
          | .swapped => .poll r }, none)
  | .poll r =>
    if pollHealth r f.probes then
      ({ m with pc := .finishStaged }, some (.confirmed, "healthy after swap"))
    else ({ m with pc := .restoreCopy (.rollback "health timeout") }, none)
  | .restoreCopy why =>
    match m.prev with
    | none => ({ m with pc := .finishStaged }, some (why.report false false))
    | some x =>
      if f.ok then ({ m with pc := .restoreMove why x }, none)
      else ({ m with pc := .finishStaged }, some (why.report true false))
  | .restoreMove why x =>
    ({ m with live := if f.ok then x else m.live, pc := .finishStaged },
      some (why.report true f.ok))
  | .finishStaged => ({ m with staged := none, pc := .finishRequest }, none)
  | .finishRequest => ({ m with request := none, pc := .finishState }, none)
  | .finishState => ({ m with state := none, pc := .idle }, none)

/-- One step, and the outcome file it writes. -/
def Machine.step (m : Machine β) : Event β → Machine β × Option Report
  -- `in_flight`: agentd touches nothing while a request is there
  | .stage s => (if m.request.isSome then m else { m with staged := some s }, none)
  | .file r => (if m.request.isSome then m else { m with request := some r }, none)
  | .run => if m.pc matches .idle then m.start else (m, none)
  | .command f => m.command sha f
  | .cut left =>
    ({ m with
        prev := if m.pc matches .backup _ then left.getD m.prev else m.prev
        pc := .idle }, none)

/-! ### What the watchdog promises -/

/-- The machine and its history. -/
structure Watched (β : Type*) where
  machine : Machine β
  /-- The binary that was live when the request was filed. -/
  base : β
  /-- The binary that was staged for it. -/
  offered : Option β
  /-- The binary that was judged healthy since. -/
  judged : Option β
  /-- How many requests were filed. -/
  filed : ℕ
  /-- The number of the request the phase was recorded for. -/
  phaseOf : ℕ

/-- A node that was never updated. -/
def Watched.new (live : β) (prev : Option β) (staged : Option (StagedFile β)) : Watched β where
  machine :=
    { live := live, prev := prev, staged := staged, request := none, state := none, pc := .idle }
  base := live
  offered := none
  judged := none
  filed := 0
  phaseOf := 0

/-- A step, with its history. -/
def Watched.step (w : Watched β) (e : Event β) : Watched β × Option Report :=
  let r := w.machine.step sha e
  match e with
  | .file _ =>
    if w.machine.request.isSome then ({ w with machine := r.1 }, r.2)
    else
      ({ machine := r.1
         base := w.machine.live
         offered := w.machine.staged.map StagedFile.content
         judged := none
         filed := w.filed + 1
         phaseOf := w.phaseOf }, r.2)
  | .command _ =>
    ({ w with
        machine := r.1
        judged := match r.2 with
          | some (.confirmed, _) => some w.machine.live
          | _ => w.judged
        phaseOf := match w.machine.pc with
          | .record _ _ => w.filed
          | _ => w.phaseOf }, r.2)
  | _ => ({ w with machine := r.1 }, r.2)

/-- The phase file says something. -/
def Machine.Recorded (m : Machine β) : Prop := ∃ phase, m.state = some (some phase)

/-- The live binary is the one from before, or was judged healthy. -/
def Watched.KnownGood (w : Watched β) : Prop :=
  w.machine.live = w.base ∨ w.judged = some w.machine.live

/-- The live binary is the one that was staged for the request, and has its hash. -/
def Watched.Offers (w : Watched β) (r : Request) : Prop :=
  w.offered = some w.machine.live ∧ sha w.machine.live = r.stagedSha256

/-- What the watchdog promises of one step. -/
structure Recoverable (w : Watched β) (e : Event β) : Prop where
  /-- While a binary is live that nothing was said for, the one from before is in `agentd.prev`. -/
  backup : (w.step sha e).1.KnownGood ∨
    (w.step sha e).1.machine.prev = some (w.step sha e).1.base
  /-- A request is consumed with the binary from before live, or with the one that was staged for
  it, which has its hash and was judged healthy. -/
  consumed : ∀ f r, e = .command f → w.machine.pc = .finishRequest →
    w.machine.request = some r → w.machine.live = w.base ∨
      (w.judged = some w.machine.live ∧ w.Offers sha r)
  /-- A run that starts for a request finds no phase but its own. -/
  ownPhase : e = .run → w.machine.pc = .idle → w.machine.request.isSome → w.machine.Recorded →
    w.phaseOf = w.filed

/-- No cut between the two halves of recording `SWAPPED`, none between the removal of the request
and that of a phase, and no restore that fails while the live binary is not known to be good. -/
def Sound (w : Watched β) : Event β → Prop
  | .cut _ => ¬ (w.machine.pc matches .record _ .swapped) ∧
      ((w.machine.pc matches .finishState) → ¬ w.machine.Recorded)
  | .command f =>
    (w.machine.pc matches .restoreCopy _ | .restoreMove _ _) → f.ok = false → w.KnownGood
  | _ => True

instance decidableRecorded (m : Machine β) : Decidable m.Recorded :=
  decidable_of_iff (m.state.join.isSome = true) (by
    simp [Machine.Recorded, Option.isSome_iff_exists, Option.join_eq_some_iff])

instance decidableKnownGood [DecidableEq β] (w : Watched β) : Decidable w.KnownGood :=
  inferInstanceAs (Decidable (_ ∨ _))

instance decidableSound [DecidableEq β] (w : Watched β) : ∀ e, Decidable (Sound w e)
  | .stage _ => inferInstanceAs (Decidable True)
  | .file _ => inferInstanceAs (Decidable True)
  | .run => inferInstanceAs (Decidable True)
  | .command _ => inferInstanceAs (Decidable (_ → _ → _))
  | .cut _ => inferInstanceAs (Decidable (¬ _ ∧ (_ → ¬ _)))

/-! ### The invariant -/

/-- What holds while a request is there. -/
structure Pending (w : Watched β) (r : Request) : Prop where
  request : w.machine.request = some r
  live : w.machine.live = w.base ∨ (w.Offers sha r ∧ r.refusal = none)
  staged : ∀ s ∈ w.machine.staged, w.offered = some s.content
  judged : ∀ x ∈ w.judged, w.machine.state = some (some .swapped)
  recorded : w.machine.Recorded → w.machine.prev = some w.base ∧ w.phaseOf = w.filed

/-- What holds while the script is at work for it. -/
structure Taken (w : Watched β) (r : Request) : Prop extends Pending sha w r where
  accepted : r.refusal = none

/-- The staged binary passes stage A. -/
def Watched.Verified (w : Watched β) (r : Request) : Prop :=
  ∃ s, w.machine.staged = some s ∧ stagedFileOk (some s) = true ∧
    sha s.content = r.stagedSha256

/-- A run can tell from the files that the live binary is the new one. -/
def Watched.Resumable (w : Watched β) (r : Request) : Prop :=
  w.machine.live ≠ w.base → w.machine.state = some (some .swapped) ∨
    (w.machine.state = some (some .backedUp) ∧ w.Verified sha r)

/-- **The invariant**, by where the script stands. -/
def Law (w : Watched β) : Prop :=
  match w.machine.pc with
  | .idle => (w.machine.request = none → w.KnownGood ∧ ¬ w.machine.Recorded) ∧
      ∀ r, w.machine.request = some r → Pending sha w r ∧ w.Resumable sha r
  | .resume r => Taken sha w r ∧ w.machine.state = some (some .swapped)
  | .verify r backedUp => Taken sha w r ∧ w.Resumable sha r ∧
      w.machine.state ≠ some (some .swapped) ∧
      (backedUp = true ↔ w.machine.state = some (some .backedUp))
  | .backup r => Taken sha w r ∧ w.machine.live = w.base ∧ ¬ w.machine.Recorded ∧
      w.Verified sha r
  | .truncate r .backedUp | .record r .backedUp => Taken sha w r ∧ w.machine.live = w.base ∧
      ¬ w.machine.Recorded ∧ w.Verified sha r ∧ w.machine.prev = some w.base
  | .swapCopy r => Taken sha w r ∧ w.machine.state = some (some .backedUp) ∧ w.Verified sha r
  | .swapMove r x => Taken sha w r ∧ w.machine.state = some (some .backedUp) ∧
      w.Verified sha r ∧ w.offered = some x ∧ sha x = r.stagedSha256
  | .truncate r .swapped => Taken sha w r ∧ w.machine.state = some (some .backedUp) ∧
      w.Verified sha r ∧ w.Offers sha r
  | .record r .swapped => Taken sha w r ∧ w.machine.prev = some w.base ∧
      w.machine.state = some none ∧ w.Offers sha r
  | .poll r => Taken sha w r ∧ w.machine.state = some (some .swapped)
  | .restoreCopy _ => ∃ r, Pending sha w r ∧ w.Resumable sha r ∧ w.machine.Recorded
  | .restoreMove _ x => ∃ r, Pending sha w r ∧ w.Resumable sha r ∧ w.machine.Recorded ∧ x = w.base
  | .finishStaged | .finishRequest => ∃ r, Pending sha w r ∧ w.KnownGood
  | .finishState => (w.machine.request = none → w.KnownGood) ∧
      ∀ r, w.machine.request = some r → w.machine.live = w.base ∧ w.judged = none ∧
        ∀ s ∈ w.machine.staged, w.offered = some s.content

variable {sha} {w : Watched β} {r : Request}

/-- Only the program counter and the phase's number change, and that to the current one. -/
theorem Pending.at (h : Pending sha w r) (pc : Pc β) :
    Pending sha { w with machine := { w.machine with pc := pc } } r :=
  ⟨h.request, h.live, h.staged, h.judged, h.recorded⟩

theorem Pending.judged_eq_none (h : Pending sha w r)
    (hstate : w.machine.state ≠ some (some .swapped)) : w.judged = none := by
  rw [Option.eq_none_iff_forall_not_mem]
  exact fun x hx => hstate (h.judged x hx)

/-- A run can resume from a binary that is known to be good. -/
theorem Pending.resumable (h : Pending sha w r) (hgood : w.KnownGood) : w.Resumable sha r := by
  intro hne
  rcases hgood with hbase | hjudged
  · exact absurd hbase hne
  · exact .inl (h.judged _ hjudged)

theorem Law.new (live : β) (prev : Option β) (staged : Option (StagedFile β)) :
    Law sha (Watched.new live prev staged) := by
  refine ⟨fun _ => ⟨.inl rfl, ?_⟩, fun r hr => by cases hr⟩
  rintro ⟨phase, hphase⟩
  cases hphase

/-- Without a request the script is not at work, but for the removal of the phase. -/
theorem Law.pc_of_no_request (h : Law sha w) (hreq : w.machine.request = none) :
    w.machine.pc = .idle ∨ w.machine.pc = .finishState := by
  have hno : ∀ {r}, ¬ Pending sha w r := fun hp => by
    have := hp.request
    rw [hreq] at this
    cases this
  rw [Law] at h
  split at h
  case h_1 => exact .inl ‹_›
  case h_16 => exact .inr ‹_›
  -- at work with the request in hand, or on the way out with it still filed
  any_goals exact absurd h.1.toPending hno
  all_goals
    obtain ⟨r, hp, -⟩ := h
    exact absurd hp hno

/-! What each input does to the machine and its history. -/

theorem step_stage (hreq : w.machine.request = none) (s : StagedFile β) :
    (w.step sha (.stage s)).1 = { w with machine := { w.machine with staged := some s } } := by
  simp [Watched.step, Machine.step, hreq]

theorem step_file (hreq : w.machine.request = none) (r : Request) :
    (w.step sha (.file r)).1 = { w with
      machine := { w.machine with request := some r }
      base := w.machine.live
      offered := w.machine.staged.map StagedFile.content
      judged := none
      filed := w.filed + 1 } := by
  simp [Watched.step, Machine.step, hreq]

theorem step_command (f : Fate β) :
    (w.step sha (.command f)).1 = { w with
      machine := (w.machine.command sha f).1
      judged := match (w.machine.command sha f).2 with
        | some (.confirmed, _) => some w.machine.live
        | _ => w.judged
      phaseOf := match w.machine.pc with
        | .record _ _ => w.filed
        | _ => w.phaseOf } := rfl

theorem step_cut (left : Option (Option β)) :
    (w.step sha (.cut left)).1 = { w with machine := { w.machine with
      prev := if w.machine.pc matches .backup _ then left.getD w.machine.prev else w.machine.prev
      pc := .idle } } := rfl

/-- agentd stages a binary. -/
theorem Law.stage (h : Law sha w) (s : StagedFile β) : Law sha (w.step sha (.stage s)).1 := by
  by_cases hreq : w.machine.request.isSome = true
  · simpa [Watched.step, Machine.step, hreq] using h
  · have hnone : w.machine.request = none := by simpa using hreq
    rw [step_stage hnone]
    rcases h.pc_of_no_request hnone with hpc | hpc <;> simp only [Law, hpc] at h ⊢
    · exact ⟨h.1, fun r hr => by simp [hnone] at hr⟩
    · exact ⟨h.1, fun r hr => by simp [hnone] at hr⟩

/-- agentd files a request: what is live now is what it was filed over. -/
theorem Law.file (h : Law sha w) (r : Request) : Law sha (w.step sha (.file r)).1 := by
  by_cases hreq : w.machine.request.isSome = true
  · simpa [Watched.step, Machine.step, hreq] using h
  · have hnone : w.machine.request = none := by simpa using hreq
    rw [step_file hnone]
    have hstaged : ∀ s ∈ w.machine.staged,
        w.machine.staged.map StagedFile.content = some s.content := by
      rintro s hs
      rw [hs]
      rfl
    rcases h.pc_of_no_request hnone with hpc | hpc <;> simp only [Law, hpc] at h ⊢
    · obtain ⟨-, hnot⟩ := h.1 hnone
      refine ⟨nofun, fun r' hr => ⟨⟨hr, .inl rfl, hstaged, ?_, ?_⟩, ?_⟩⟩
      · exact nofun
      · exact fun hrec => absurd hrec hnot
      · exact fun hne => absurd rfl hne
    · exact ⟨nofun, fun r' _ => ⟨trivial, trivial, hstaged⟩⟩

/-- The script is gone, and the files say how to go on. -/
theorem Law.idle (h : Pending sha w r) (hresume : w.Resumable sha r) :
    Law sha { w with machine := { w.machine with pc := .idle } } := by
  refine ⟨fun hr => ?_, fun r' hr => ?_⟩
  · have hnone : w.machine.request = none := hr
    rw [h.request] at hnone
    cases hnone
  · have hsome : w.machine.request = some r' := hr
    rw [h.request] at hsome
    obtain rfl := Option.some.inj hsome
    exact ⟨h.at .idle, hresume⟩

theorem Watched.resumable_of_base (hbase : w.machine.live = w.base) : w.Resumable sha r :=
  fun hne => absurd hbase hne

/-- Power goes. -/
theorem Law.cut (h : Law sha w) (left : Option (Option β)) (hsound : Sound w (.cut left)) :
    Law sha (w.step sha (.cut left)).1 := by
  obtain ⟨hrecord, hfinish⟩ := hsound
  rw [step_cut]
  rw [Law] at h
  split at h <;> rename_i hpc <;> simp only [hpc, Bool.false_eq_true, if_false, if_true]
  · refine ⟨h.1, fun r hr => ?_⟩
    obtain ⟨hp, hresume⟩ := h.2 r hr
    exact ⟨hp.at .idle, hresume⟩
  · exact Law.idle h.1.toPending fun _ => .inl h.2
  · exact Law.idle h.1.toPending h.2.1
  · -- half a backup may be there, but nothing was recorded of it
    obtain ⟨⟨hp, -⟩, hbase, hnot, -⟩ := h
    have hp' : Pending sha { w with machine := { w.machine with
        prev := left.getD w.machine.prev } } ‹_› :=
      ⟨hp.request, hp.live, hp.staged, hp.judged, fun hrec => absurd hrec hnot⟩
    exact Law.idle hp' (Watched.resumable_of_base hbase)
  · exact Law.idle h.1.toPending (Watched.resumable_of_base h.2.1)
  · exact Law.idle h.1.toPending (Watched.resumable_of_base h.2.1)
  · exact Law.idle h.1.toPending fun _ => .inr h.2
  · exact Law.idle h.1.toPending fun _ => .inr ⟨h.2.1, h.2.2.1⟩
  · exact Law.idle h.1.toPending fun _ => .inr ⟨h.2.1, h.2.2.1⟩
  · exact absurd (by rw [hpc]) hrecord
  · exact Law.idle h.1.toPending fun _ => .inl h.2
  · obtain ⟨r, hp, hresume, -⟩ := h
    exact Law.idle hp hresume
  · obtain ⟨r, hp, hresume, -⟩ := h
    exact Law.idle hp hresume
  · obtain ⟨r, hp, hgood⟩ := h
    exact Law.idle hp (hp.resumable hgood)
  · obtain ⟨r, hp, hgood⟩ := h
    exact Law.idle hp (hp.resumable hgood)
  · -- the phase is gone already, or there was none
    obtain ⟨hnone, hsome⟩ := h
    have hnot := hfinish (by rw [hpc])
    refine ⟨fun hr => ⟨hnone hr, hnot⟩, fun r hr => ?_⟩
    obtain ⟨hbase, hjudged, hstaged⟩ := hsome r hr
    refine ⟨⟨hr, .inl hbase, hstaged, fun x hx => ?_, fun hrec => absurd hrec hnot⟩,
      Watched.resumable_of_base hbase⟩
    have hx' : x ∈ w.judged := hx
    rw [hjudged] at hx'
    cases hx'

/-- The script starts. -/
theorem Law.start (h : Law sha w) (hpc : w.machine.pc = .idle) :
    Law sha { w with machine := w.machine.start.1 } := by
  have hidle := h
  simp only [Law, hpc] at hidle
  unfold Machine.start
  split
  · exact h
  rename_i r hr
  obtain ⟨hp, hresume⟩ := hidle.2 r hr
  split
  · -- a request that is refused was refused before, so nothing was swapped in for it
    rename_i reason hrefused
    refine ⟨r, hp.at .finishStaged, .inl ?_⟩
    rcases hp.live with hbase | ⟨-, hnone⟩
    · exact hbase
    · rw [hnone] at hrefused
      cases hrefused
  · rename_i haccepted
    split
    · rename_i hstate
      exact ⟨⟨hp.at (.resume r), haccepted⟩, hstate⟩
    · rename_i hstate
      have hne : w.machine.state ≠ some (some .swapped) := by simp [hstate]
      exact ⟨⟨hp.at (.verify r true), haccepted⟩, hresume, hne, by simp [hstate]⟩
    · rename_i hswapped hbacked
      exact ⟨⟨hp.at (.verify r false), haccepted⟩, hresume, hswapped, by simpa using hbacked⟩

theorem Law.run (h : Law sha w) : Law sha (w.step sha .run).1 := by
  simp only [Watched.step, Machine.step]
  split
  · exact h.start ‹_›
  · exact h

/-! The commands, by where the script stands. -/

theorem Law.finish {w : Watched β} (h : Pending sha w r) (hgood : w.KnownGood) :
    Law sha { w with machine := { w.machine with pc := .finishStaged } } :=
  ⟨r, h.at .finishStaged, hgood⟩

/-- The binary is judged healthy. -/
theorem Law.confirm (h : Pending sha w r) (hstate : w.machine.state = some (some .swapped)) :
    Law sha { w with
      machine := { w.machine with pc := .finishStaged }
      judged := some w.machine.live } :=
  ⟨r, ⟨h.request, h.live, h.staged, fun _ _ => hstate, h.recorded⟩, .inr rfl⟩

/-- It is not. -/
theorem Law.reject (h : Pending sha w r) (hstate : w.machine.state = some (some .swapped))
    (why : Restore) :
    Law sha { w with machine := { w.machine with pc := .restoreCopy why } } :=
  ⟨r, h.at _, fun _ => .inl hstate, _, hstate⟩

theorem Law.command_resume (h : Law sha w) (hpc : w.machine.pc = .resume r) (f : Fate β) :
    Law sha (w.step sha (.command f)).1 := by
  simp only [Law, hpc] at h
  obtain ⟨⟨hp, -⟩, hstate⟩ := h
  rw [step_command]
  simp only [Machine.command, hpc]
  by_cases hhealthy : isHealthyTarget r f.marker = true
  · simpa [hhealthy] using Law.confirm hp hstate
  · by_cases hpoll : pollHealth r f.probes = true
    · simpa [hhealthy, hpoll] using Law.confirm hp hstate
    · simpa [hhealthy, hpoll] using Law.reject hp hstate _

theorem Law.command_poll (h : Law sha w) (hpc : w.machine.pc = .poll r) (f : Fate β) :
    Law sha (w.step sha (.command f)).1 := by
  simp only [Law, hpc] at h
  obtain ⟨⟨hp, -⟩, hstate⟩ := h
  rw [step_command]
  simp only [Machine.command, hpc]
  by_cases hpoll : pollHealth r f.probes = true
  · simpa [hpoll] using Law.confirm hp hstate
  · simpa [hpoll] using Law.reject hp hstate _

/-- Stage A passes the staged binary, or rejects the request. -/
theorem command_verify (sha : β → String) {backedUp : Bool}
    (hpc : w.machine.pc = .verify r backedUp) (f : Fate β) :
    (w.Verified sha r ∧ w.machine.command sha f =
      ({ w.machine with pc := if backedUp then .swapCopy r else .backup r }, none)) ∨
    (¬ w.Verified sha r ∧ ∃ reason, w.machine.command sha f =
      ({ w.machine with pc := .finishStaged }, some (.rejected, reason))) := by
  cases hm : w.machine.staged with
  | none =>
    exact .inr ⟨by simp [Watched.Verified, hm], "staged binary missing or unsafe",
      by simp [Machine.command, hpc, hm]⟩
  | some s =>
    have hver : w.Verified sha r ↔
        stagedFileOk (some s) = true ∧ sha s.content = r.stagedSha256 := by
      simp [Watched.Verified, hm]
    rw [hver]
    by_cases hok : stagedFileOk (some s) = true
    · by_cases hsha : sha s.content = r.stagedSha256
      · exact .inl ⟨⟨hok, hsha⟩, by simp [Machine.command, hpc, hm, hok, hsha]⟩
      · exact .inr ⟨by simp [hsha], "staged sha256 mismatch",
          by simp [Machine.command, hpc, hm, hok, hsha]⟩
    · exact .inr ⟨by simp [hok], "staged binary missing or unsafe",
        by simp [Machine.command, hpc, hm, hok]⟩

/-- What stage A rejects was not swapped in. -/
theorem Law.command_verify {backedUp : Bool} (h : Law sha w)
    (hpc : w.machine.pc = .verify r backedUp) (f : Fate β) :
    Law sha (w.step sha (.command f)).1 := by
  simp only [Law, hpc] at h
  obtain ⟨hp, hresume, hswapped, hbacked⟩ := h
  rw [step_command]
  rcases SelfUpdate.command_verify sha hpc f with ⟨hver, heq⟩ | ⟨hver, reason, heq⟩
  · rw [heq, hpc]
    cases backedUp with
    | true => exact ⟨⟨hp.at _, hp.accepted⟩, hbacked.mp rfl, hver⟩
    | false =>
      have hnot : ¬ w.machine.state = some (some .backedUp) := by simpa using hbacked
      have hbase : w.machine.live = w.base := by
        by_contra hne
        rcases hresume hne with hstate | ⟨hstate, -⟩
        · exact hswapped hstate
        · exact hnot hstate
      have hrec : ¬ w.machine.Recorded := by
        rintro ⟨phase, hphase⟩
        cases phase
        · exact hnot hphase
        · exact hswapped hphase
      exact ⟨⟨hp.at _, hp.accepted⟩, hbase, hrec, hver⟩
  · rw [heq, hpc]
    refine Law.finish hp.toPending ?_
    by_contra hne
    rcases hresume fun hbase => hne (.inl hbase) with hstate | ⟨-, hverified⟩
    · exact hswapped hstate
    · exact hver hverified

/-- Stage B. -/
theorem Law.command_backup (h : Law sha w) (hpc : w.machine.pc = .backup r) (f : Fate β) :
    Law sha (w.step sha (.command f)).1 := by
  simp only [Law, hpc] at h
  obtain ⟨hp, hbase, hnot, hver⟩ := h
  -- whatever the copy leaves, nothing was recorded of it
  have hprev : ∀ prev, Pending sha { w with machine := { w.machine with prev := prev } } r :=
    fun _ => ⟨hp.request, hp.live, hp.staged, hp.judged, fun hrec => absurd hrec hnot⟩
  rw [step_command]
  simp only [Machine.command, hpc]
  by_cases hok : f.ok = true
  · have hlive : some w.machine.live = some w.base := congrArg some hbase
    simpa [hok] using
      ⟨⟨(hprev (some w.machine.live)).at _, hp.accepted⟩, hbase, hnot, hver, hlive⟩
  · simpa [hok] using Law.finish (hprev (f.left.getD w.machine.prev)) (.inl hbase)

/-- A swap that fails: the phase is still `BACKED_UP`, whatever is live. -/
theorem Law.swapFailed (h : Pending sha w r) (hstate : w.machine.state = some (some .backedUp))
    (hver : w.Verified sha r) :
    Law sha { w with machine := { w.machine with pc := .restoreCopy .swapFailed } } :=
  ⟨r, h.at _, fun _ => .inr ⟨hstate, hver⟩, _, hstate⟩

/-- Stage C, the copy. -/
theorem Law.command_swapCopy (h : Law sha w) (hpc : w.machine.pc = .swapCopy r) (f : Fate β) :
    Law sha (w.step sha (.command f)).1 := by
  simp only [Law, hpc] at h
  obtain ⟨hp, hstate, hver⟩ := h
  obtain ⟨s, hs, hok, hsha⟩ := hver
  have hver : w.Verified sha r := ⟨s, hs, hok, hsha⟩
  have heq : w.machine.command sha f = if f.ok then
      ({ w.machine with pc := .swapMove r s.content }, none)
      else ({ w.machine with pc := .restoreCopy .swapFailed }, none) := by
    simp [Machine.command, hpc, hs, hsha]
  rw [step_command, heq, hpc]
  split
  · exact ⟨⟨hp.at _, hp.accepted⟩, hstate, hver, hp.staged s hs, hsha⟩
  · exact Law.swapFailed hp.toPending hstate hver

/-- Stage C, the rename: from here on the staged binary is live. -/
theorem Law.command_swapMove {x : β} (h : Law sha w) (hpc : w.machine.pc = .swapMove r x)
    (f : Fate β) : Law sha (w.step sha (.command f)).1 := by
  simp only [Law, hpc] at h
  obtain ⟨hp, hstate, hver, hoffered, hsha⟩ := h
  have heq : w.machine.command sha f = if f.ok then
      ({ w.machine with live := x, pc := .truncate r .swapped }, none)
      else ({ w.machine with pc := .restoreCopy .swapFailed }, none) := by
    simp [Machine.command, hpc]
  rw [step_command, heq, hpc]
  split
  · have hoffers : { w with machine := { w.machine with
        live := x, pc := .truncate r .swapped } }.Offers sha r := ⟨hoffered, hsha⟩
    exact ⟨⟨⟨hp.request, .inr ⟨hoffers, hp.accepted⟩, hp.staged, hp.judged, hp.recorded⟩,
      hp.accepted⟩, hstate, hver, hoffers⟩
  · exact Law.swapFailed hp.toPending hstate hver

/-- The phase file is emptied. -/
theorem Law.command_truncate {phase : Phase} (h : Law sha w)
    (hpc : w.machine.pc = .truncate r phase) (f : Fate β) :
    Law sha (w.step sha (.command f)).1 := by
  have hempty (hp : Taken sha w r) (hstate : w.machine.state ≠ some (some .swapped)) :
      Taken sha { w with machine :=
        { w.machine with state := some none, pc := .record r phase } } r := by
    refine ⟨⟨hp.request, hp.live, hp.staged, ?_, ?_⟩, hp.accepted⟩
    · rw [hp.judged_eq_none hstate]
      exact nofun
    · rintro ⟨phase', hphase⟩
      cases hphase
  have hnot : ¬ { w with machine :=
      { w.machine with state := some none, pc := .record r phase } }.machine.Recorded := by
    rintro ⟨phase', hphase⟩
    cases hphase
  rw [step_command]
  cases phase with
  | backedUp =>
    simp only [Law, hpc] at h
    obtain ⟨hp, hbase, hrec, hver, hprev⟩ := h
    have hstate : w.machine.state ≠ some (some .swapped) := fun hs => hrec ⟨_, hs⟩
    simp only [Machine.command, hpc]
    exact ⟨hempty hp hstate, hbase, hnot, hver, hprev⟩
  | swapped =>
    simp only [Law, hpc] at h
    obtain ⟨hp, hstate, hver, hoffers⟩ := h
    have hne : w.machine.state ≠ some (some .swapped) := by simp [hstate]
    simp only [Machine.command, hpc]
    exact ⟨hempty hp hne, (hp.recorded ⟨_, hstate⟩).1, rfl, hoffers⟩

/-- The phase is written: it is this request's. -/
theorem Law.command_record {phase : Phase} (h : Law sha w)
    (hpc : w.machine.pc = .record r phase) (f : Fate β) :
    Law sha (w.step sha (.command f)).1 := by
  rw [step_command]
  cases phase with
  | backedUp =>
    simp only [Law, hpc] at h
    obtain ⟨hp, hbase, hrec, hver, hprev⟩ := h
    have hnone : w.judged = none := hp.judged_eq_none fun hs => hrec ⟨_, hs⟩
    simp only [Machine.command, hpc]
    refine ⟨⟨⟨hp.request, hp.live, hp.staged, ?_, fun _ => ⟨hprev, rfl⟩⟩, hp.accepted⟩, rfl, hver⟩
    rw [hnone]
    exact nofun
  | swapped =>
    simp only [Law, hpc] at h
    obtain ⟨hp, hprev, hstate, -⟩ := h
    simp only [Machine.command, hpc]
    exact ⟨⟨⟨hp.request, hp.live, hp.staged, fun _ _ => rfl, fun _ => ⟨hprev, rfl⟩⟩,
      hp.accepted⟩, rfl⟩

/-- No restore confirms anything. -/
theorem Restore.judged_eq (why : Restore) (ok : Bool) (judged new : Option β) :
    (match some (why.report true ok) with
      | some (.confirmed, _) => new
      | _ => judged) = judged := by
  cases why <;> cases ok <;> rfl

/-- The backup is put back, the copy. -/
theorem Law.command_restoreCopy {why : Restore} (h : Law sha w)
    (hpc : w.machine.pc = .restoreCopy why) (f : Fate β) (hsound : Sound w (.command f)) :
    Law sha (w.step sha (.command f)).1 := by
  simp only [Law, hpc] at h
  obtain ⟨r, hp, hresume, hrec⟩ := h
  have hprev := (hp.recorded hrec).1
  have heq : w.machine.command sha f = if f.ok then
      ({ w.machine with pc := .restoreMove why w.base }, none)
      else ({ w.machine with pc := .finishStaged }, some (why.report true false)) := by
    simp [Machine.command, hpc, hprev]
  rw [step_command, heq, hpc]
  split
  · exact ⟨r, hp.at _, hresume, hrec, rfl⟩
  · rename_i hfail
    have hgood : w.KnownGood := hsound (by rw [hpc]) (by simpa using hfail)
    simp only [Restore.judged_eq]
    exact Law.finish hp hgood

/-- The backup is put back, the rename. -/
theorem Law.command_restoreMove {why : Restore} {x : β} (h : Law sha w)
    (hpc : w.machine.pc = .restoreMove why x) (f : Fate β) (hsound : Sound w (.command f)) :
    Law sha (w.step sha (.command f)).1 := by
  simp only [Law, hpc] at h
  obtain ⟨r, hp, -, -, rfl⟩ := h
  rw [step_command]
  simp only [Machine.command, hpc, Restore.judged_eq]
  by_cases hok : f.ok = true
  · simp only [hok, if_true]
    exact ⟨r, ⟨hp.request, .inl rfl, hp.staged, hp.judged, hp.recorded⟩, .inl rfl⟩
  · have hgood : w.KnownGood := hsound (by rw [hpc]) (by simpa using hok)
    simp only [hok, Bool.false_eq_true, if_false]
    exact Law.finish hp hgood

/-- `finish`, one removal after the other. -/
theorem Law.command_finishStaged (h : Law sha w) (hpc : w.machine.pc = .finishStaged)
    (f : Fate β) : Law sha (w.step sha (.command f)).1 := by
  simp only [Law, hpc] at h
  obtain ⟨r, hp, hgood⟩ := h
  rw [step_command]
  simp only [Machine.command, hpc]
  exact ⟨r, ⟨hp.request, hp.live, nofun, hp.judged, hp.recorded⟩, hgood⟩

theorem Law.command_finishRequest (h : Law sha w) (hpc : w.machine.pc = .finishRequest)
    (f : Fate β) : Law sha (w.step sha (.command f)).1 := by
  simp only [Law, hpc] at h
  obtain ⟨r, hp, hgood⟩ := h
  rw [step_command]
  simp only [Machine.command, hpc]
  exact ⟨fun _ => hgood, nofun⟩

theorem Law.command_finishState (h : Law sha w) (hpc : w.machine.pc = .finishState)
    (f : Fate β) : Law sha (w.step sha (.command f)).1 := by
  simp only [Law, hpc] at h
  obtain ⟨hnone, hsome⟩ := h
  rw [step_command]
  simp only [Machine.command, hpc]
  have hnot : ¬ { w with machine := { w.machine with
      state := none, pc := .idle } }.machine.Recorded := by
    rintro ⟨phase, hphase⟩
    cases hphase
  refine ⟨fun hr => ⟨hnone hr, hnot⟩, fun r hr => ?_⟩
  obtain ⟨hbase, hjudged, hstaged⟩ := hsome r hr
  refine ⟨⟨hr, .inl hbase, hstaged, ?_, fun hrec => absurd hrec hnot⟩,
    Watched.resumable_of_base hbase⟩
  rw [hjudged]
  exact nofun

/-- One command. -/
theorem Law.command (h : Law sha w) (f : Fate β) (hsound : Sound w (.command f)) :
    Law sha (w.step sha (.command f)).1 := by
  cases hpc : w.machine.pc with
  | idle =>
    rw [step_command]
    simpa only [Machine.command, hpc] using h
  | resume r => exact h.command_resume hpc f
  | verify r backedUp => exact h.command_verify hpc f
  | backup r => exact h.command_backup hpc f
  | swapCopy r => exact h.command_swapCopy hpc f
  | swapMove r x => exact h.command_swapMove hpc f
  | truncate r phase => exact h.command_truncate hpc f
  | record r phase => exact h.command_record hpc f
  | poll r => exact h.command_poll hpc f
  | restoreCopy why => exact h.command_restoreCopy hpc f hsound
  | restoreMove why x => exact h.command_restoreMove hpc f hsound
  | finishStaged => exact h.command_finishStaged hpc f
  | finishRequest => exact h.command_finishRequest hpc f
  | finishState => exact h.command_finishState hpc f

/-- **Every sound step keeps the invariant.** -/
theorem Law.step (h : Law sha w) (e : Event β) (hsound : Sound w e) :
    Law sha (w.step sha e).1 := by
  cases e with
  | stage s => exact h.stage s
  | file r => exact h.file r
  | run => exact h.run
  | command f => exact h.command f hsound
  | cut left => exact h.cut left hsound

/-! ### What the invariant gives -/

/-- A run that can resume has the binary from before: live, or in the backup. -/
theorem Pending.kept (h : Pending sha w r) (hresume : w.Resumable sha r) :
    w.KnownGood ∨ w.machine.prev = some w.base := by
  by_cases hbase : w.machine.live = w.base
  · exact .inl (.inl hbase)
  · rcases hresume hbase with hstate | ⟨hstate, -⟩
    · exact .inr (h.recorded ⟨_, hstate⟩).1
    · exact .inr (h.recorded ⟨_, hstate⟩).1

theorem Law.kept (h : Law sha w) : w.KnownGood ∨ w.machine.prev = some w.base := by
  rw [Law] at h
  split at h
  · cases hreq : w.machine.request with
    | none => exact .inl (h.1 hreq).1
    | some r =>
      obtain ⟨hp, hresume⟩ := h.2 r hreq
      exact hp.kept hresume
  · exact .inr (h.1.recorded ⟨_, h.2⟩).1
  · exact h.1.kept h.2.1
  · exact .inl (.inl h.2.1)
  · exact .inl (.inl h.2.1)
  · exact .inl (.inl h.2.1)
  · exact .inr (h.1.recorded ⟨_, h.2.1⟩).1
  · exact .inr (h.1.recorded ⟨_, h.2.1⟩).1
  · exact .inr (h.1.recorded ⟨_, h.2.1⟩).1
  · exact .inr h.2.1
  · exact .inr (h.1.recorded ⟨_, h.2⟩).1
  · obtain ⟨r, hp, hresume, -⟩ := h
    exact hp.kept hresume
  · obtain ⟨r, hp, hresume, -⟩ := h
    exact hp.kept hresume
  · obtain ⟨r, -, hgood⟩ := h
    exact .inl hgood
  · obtain ⟨r, -, hgood⟩ := h
    exact .inl hgood
  · cases hreq : w.machine.request with
    | none => exact .inl (h.1 hreq)
    | some r => exact .inl (.inl (h.2 r hreq).1)

/-- **A step from the invariant, into it, keeps the promise.** -/
theorem Law.recoverable (h : Law sha w) (e : Event β) (hsound : Sound w e) :
    Recoverable sha w e where
  backup := (h.step e hsound).kept
  consumed := by
    intro f r _ hpc hr
    simp only [Law, hpc] at h
    obtain ⟨r', hp, hgood⟩ := h
    obtain rfl : r' = r := Option.some.inj (hp.request.symm.trans hr)
    rcases hp.live with hbase | ⟨hoffers, -⟩
    · exact .inl hbase
    · exact hgood.imp_right fun hjudged => ⟨hjudged, hoffers⟩
  ownPhase := by
    intro _ hpc hreq hrec
    simp only [Law, hpc] at h
    obtain ⟨r, hr⟩ := Option.isSome_iff_exists.mp hreq
    exact ((h.2 r hr).1.recorded hrec).2

/-! Three runs that break the promise. -/

/-- A digest for the numbers that stand for binaries here. -/
def digestOf (n : ℕ) : String := String.ofList (List.replicate 64 (Char.ofNat (97 + n % 6)))

/-- The request for a binary. -/
def requestFor (n : ℕ) : Request where
  stagedSha256 := digestOf n
  targetCommit := "c"
  prevCommit := "b"
  createdAt := "7"
  timeout := "9"

/-- A command that succeeds. -/
def done : Event ℕ := .command ⟨true, none, none, []⟩

/-- A poll that finds the target healthy. -/
def healthy : Event ℕ := .command ⟨true, none, none, [⟨some ⟨"healthy", "c", "8"⟩, false⟩]⟩

/-- A poll that finds the unit `failed`. -/
def failed : Event ℕ := .command ⟨true, none, none, [⟨none, true⟩]⟩

/-- From the request to the live binary. -/
def swapIn (n : ℕ) : List (Event ℕ) :=
  [.stage ⟨n, false, true, true⟩, .file (requestFor n), .run, done, done, done, done, done, done,
    done]

/-- `SWAPPED` is cut short: the next run takes the new binary for the one to back up. The phase is
there and the request is not: the next request's run acts on it. The restore fails: the request is
consumed, and nobody has judged the binary that is live. -/
theorem not_recoverable :
    ¬ Run.Always (Watched.step digestOf) (Watched.new 0 none none)
        (fun _ w e => Recoverable digestOf w e)
        (swapIn 1 ++ [.cut none, .run, done] ++ [done]) ∧
      ¬ Run.Always (Watched.step digestOf) (Watched.new 0 none none)
        (fun _ w e => Recoverable digestOf w e)
        (swapIn 1 ++ [done, healthy, done, done, .cut none, .stage ⟨2, false, true, true⟩,
          .file (requestFor 2)] ++ [.run]) ∧
      ¬ Run.Always (Watched.step digestOf) (Watched.new 0 none none)
        (fun _ w e => Recoverable digestOf w e)
        (swapIn 1 ++ [done, failed, .command ⟨false, none, none, []⟩, done] ++ [done]) := by
  refine ⟨fun h => ?_, fun h => ?_, fun h => ?_⟩
  · exact absurd (Run.always_concat.mp h).2.backup (by decide +kernel)
  · have hown := (Run.always_concat.mp h).2.ownPhase rfl
    exact absurd (hown (by decide +kernel) (by decide +kernel) (by decide +kernel))
      (by decide +kernel)
  · have hconsumed := (Run.always_concat.mp h).2.consumed _ (requestFor 1) rfl
    exact absurd ((hconsumed (by decide +kernel) (by decide +kernel)).imp_right And.left)
      (by decide +kernel)

/-- **In every run without a cut in one of the two moments, and without a restore that fails while
it is needed, the watchdog keeps its promise.** -/
theorem recoverable_of_sound (sha : β → String) (live : β) (prev : Option β)
    (staged : Option (StagedFile β)) (events : List (Event β))
    (hsound : Run.Always (Watched.step sha) (Watched.new live prev staged)
      (fun _ w e => Sound w e) events) :
    Run.Always (Watched.step sha) (Watched.new live prev staged)
      (fun _ w e => Recoverable sha w e) events :=
  Run.Always.of_invariant (I := fun _ w => Law sha w) (Law.new live prev staged)
    (fun _ _ e h hs => h.step e hs) (fun _ _ e h hs => h.recoverable e hs) hsound

/-- An update that is confirmed, one that is cut in the swap and rolled back. -/
theorem recoverable_of_sound_two :
    Run.Always (Watched.step digestOf) (Watched.new 0 none none)
      (fun _ w e => Recoverable digestOf w e)
      (swapIn 1 ++ [done, healthy, done, done, done] ++
        (swapIn 2).dropLast ++ [.cut none, .run, done, done, done, done, done, failed, done, done,
          done, done, done]) :=
  recoverable_of_sound digestOf 0 none none _ (by decide +kernel)

end Step

end ApexOS.Deploy.SelfUpdate
