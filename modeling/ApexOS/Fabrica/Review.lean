import Mathlib.Data.Nat.Notation
import Mathlib.Algebra.Group.Nat.Defs

/-!
# The review procedure

`agentd/crates/agentd/src/review.rs`: the decision core of the worker tier's supervision. A posture
(what kind of clock the worker is on) and a word of six observables go in, one remediation comes
out. Who builds the observables, and how a remediation is carried out, is the driver's business.

Durations are in milliseconds. `golden_offset` is a product of floats; what it gives is a parameter
of the driver.
-/

namespace ApexOS.Fabrica

/-- `Posture`. -/
inductive Posture
  /-- A turn is in flight. -/
  | live
  /-- Waiting for input, no turn. -/
  | waiting
  /-- A gate's worker, held until its descendants have settled. -/
  | barrierWait
  | terminal
  deriving DecidableEq, Repr

/-- `Word`: the child's three observables, then the parent's. -/
structure Word where
  progress : Bool
  budget : Bool
  verified : Bool
  demand : Bool
  capacity : Bool
  horizon : Bool
  deriving DecidableEq, Repr

/-- `Word::bits`. -/
def Word.bits (word : Word) : String :=
  String.ofList ([word.progress, word.budget, word.verified, word.demand, word.capacity,
    word.horizon].map fun b => if b then '1' else '0')

/-- The letter a posture has in a census. -/
def Posture.letter : Posture → String
  | live => "L"
  | waiting => "W"
  | barrierWait => "B"
  | terminal => "T"

/-- `census_key`. -/
def censusKey (posture : Posture) (word : Word) : String := posture.letter ++ ":" ++ word.bits

/-- `Remediation`. -/
inductive Remediation
  | healthy
  | fail
  | park
  | reap
  | openBarrier
  | cancel
  deriving DecidableEq, Repr

/-- `review`. -/
def review (posture : Posture) (word : Word) : Remediation :=
  match posture with
  | .terminal => .reap
  | .live => if !word.progress then .fail else if !word.demand then .cancel else .healthy
  | .waiting => if !word.demand then .cancel else if !word.progress then .park else .healthy
  | .barrierWait =>
    if !word.demand then .cancel else if !word.progress then .openBarrier else .healthy

/-- `fib_backoff`. -/
def fibBackoff (attempt base : ℕ) : ℕ := base * [1, 1, 2, 3, 5, 8].getD (min attempt 5) 8

theorem fibBackoff_pos (attempt : ℕ) {base : ℕ} (h : 0 < base) : 0 < fibBackoff attempt base := by
  refine Nat.mul_pos h ?_
  rcases min attempt 5 with _ | _ | _ | _ | _ | _ | k <;> simp

/-- While somebody wants the work, nothing is cancelled; a live turn can only fail, a waiting worker
only be parked, a held gate only be opened. -/
theorem review_eq_of_demand {posture : Posture} {word : Word} (h : word.demand = true) :
    review posture word = match posture with
      | .terminal => .reap
      | .live => if word.progress then .healthy else .fail
      | .waiting => if word.progress then .healthy else .park
      | .barrierWait => if word.progress then .healthy else .openBarrier := by
  cases posture <;> cases hp : word.progress <;> simp [review, h, hp]

end ApexOS.Fabrica
