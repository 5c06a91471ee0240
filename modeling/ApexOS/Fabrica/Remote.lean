import ApexOS.Agentd.Goal
import ApexOS.Fabrica.Review

/-!
# Remote workers

`agentd/crates/agentd/src/remote.rs`: what a node keeps of a worker that runs on a peer, a mirror
row, and what crosses the wire. States travel as strings: one that is not known reads as not
terminal.

Replies and reports come parsed; a row the parser skips is not there. A fingerprint is the hash of
a snapshot of rows; the hash function is a parameter of the driver.
-/

namespace ApexOS.Fabrica

open ApexOS.Agentd (SessionId WorkerState)

/-- `STATE_ASSIGNING`. -/
def stateAssigning : String := "assigning"

/-- `STATE_CANCEL_REQUESTED`. -/
def stateCancelRequested : String := "cancel requested"

/-- `state_str`. -/
def stateStr : WorkerState → String
  | .queued => "queued"
  | .running => "running"
  | .idle => "idle"
  | .parked => "parked"
  | .blocked => "blocked"
  | .done => "done"
  | .failed => "failed"
  | .cancelled => "cancelled"

/-- `is_terminal_state_str`. -/
def isTerminalStateStr (s : String) : Bool := s = "done" || s = "failed" || s = "cancelled"

/-- `parse_state_tolerant`. -/
def parseStateTolerant (s : String) : Option WorkerState :=
  [WorkerState.queued, .running, .idle, .parked, .blocked, .done, .failed, .cancelled].find?
    fun state => stateStr state = s

/-- `row_state`. -/
def rowState (raw : String) : WorkerState := (parseStateTolerant raw).getD .queued

/-- `hosted_step_ceiling`: absent is the sentinel of the node's own ceiling. -/
def hostedStepCeiling (steps : Option ℕ) : ℕ :=
  match steps with
  | none => 0
  | some n => max 1 (min (n % 2 ^ 32) 100)

/-- `RemoteTaskItem`. -/
structure RemoteTaskItem where
  prompt : String
  model : Option String
  steps : Option ℕ
  deriving DecidableEq, Repr

/-- `AcceptedRow`. -/
structure AcceptedRow where
  index : ℕ
  worker : ℕ
  session : SessionId
  deriving DecidableEq, Repr

/-- `WireRow`; of the evidence document, whether there is one. -/
structure WireRow where
  worker : ℕ
  session : SessionId
  state : String
  timedOut : Bool
  summary : Option String
  evidenceDoc : Bool
  deriving DecidableEq, Repr

/-- `RemoteWorker`. -/
structure RemoteWorker where
  batch : ℕ
  parent : SessionId
  node : String
  task : String
  model : Option String
  remoteBatch : Option ℕ
  remoteWorker : Option ℕ
  remoteSession : Option SessionId
  stateRaw : String
  summary : Option String
  evidence : Option String
  assignedEpoch : ℕ
  deriving DecidableEq, Repr

/-- `RemoteWorker::is_terminal`. -/
def RemoteWorker.isTerminal (r : RemoteWorker) : Bool := isTerminalStateStr r.stateRaw

/-- `PersistedRemoteWorker`. -/
structure PersistedRemoteWorker where
  id : ℕ
  row : RemoteWorker
  deriving DecidableEq, Repr

/-- A row as a restart brings it back. -/
def PersistedRemoteWorker.reload (p : PersistedRemoteWorker) : RemoteWorker :=
  { p.row with stateRaw := if p.row.stateRaw = "" then stateAssigning else p.row.stateRaw }

/-- What `rows_fingerprint` hashes. -/
def WireRow.picture (r : WireRow) : ℕ × String × Bool × Bool :=
  (r.worker, r.state, r.timedOut, r.evidenceDoc)

/-- `next_poll_in`. -/
def nextPollIn (attempt : ℕ) (changed : Bool) (base : ℕ) : ℕ :=
  if changed then base else fibBackoff attempt base

/-- `provenance_prefix`. -/
def provenancePrefix (sender : String) (originBatch : ℕ) (prompt : String) : String :=
  s!"[mesh: {sender} batch {originBatch}] {prompt}"

end ApexOS.Fabrica
