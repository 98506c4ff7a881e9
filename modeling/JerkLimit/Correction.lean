import JerkLimit.Retry
import JerkLimit.Settings
import JerkLimit.Solver

/-!
# Correction — one segment of a chain

A segment is solved from the corrected state before it toward its waypoint. If the answer lags the
target's velocity, that velocity is scaled down step by step until the lag is gone or the speed is
at its floor. Positions of the target are never touched. A lagging segment that goes nowhere is
collapsed onto its start.
-/

namespace JerkLimit

open Scalar

variable {σ K : Type} [Scalar K]

/-- What became of one segment. -/
structure Correction (K : Type) where
  /-- The corrected state at the end of the segment. -/
  state : State K
  status : Status
  /-- How many de-rating steps were taken, rejected ones included. -/
  deratings : Nat
  /-- Whether the segment was merged into its start. -/
  collapsed : Bool
  deriving DecidableEq, Repr

namespace Correction

/-- Whether some joint falls short of a target velocity that is not zero. -/
@[specialize] def isLagging : (reached target : List K) → Bool
  | r :: rs, t :: ts => (t != 0.0 && r / t < 1.0) || isLagging rs ts
  | _, _ => false

/-- The state of the de-rating loop. -/
structure Trial (K : Type) where
  target : State K
  /-- The latest answer that was not a rejection. -/
  latest : Reply K
  /-- Whether a de-rated target has been answered. -/
  answered : Bool
  lastError : Option (SolverError K)

/-- The target with its velocity scaled, and the acceleration that leads there from the latest
answer in `duration`. -/
@[specialize] def scaledTarget (factor duration : K) (t : Trial K) : Except Fault (State K) := do
  let n := t.target.position.length
  let latest := t.latest.state.velocity
  if t.target.velocity.length < n || t.target.acceleration.length < n || latest.length < n then
    throw .missingEntry
  let velocity := (t.target.velocity.take n).map fun v => v * factor
  let acceleration := List.zipWith (fun v l => (v - l) / duration) velocity latest
  return {
    position := t.target.position
    velocity := velocity ++ t.target.velocity.drop n
    acceleration := acceleration ++ t.target.acceleration.drop n }

/-- One de-rating step; the answer is whether it is the last. A rejected target counts as
lagging. -/
@[specialize] def derateOnce (solver : Solver σ K) (limits : Limits K) (factor floor : K)
    (current : State K) (duration : K) : StateT (Trial K) (Run σ (SolverError K)) Bool := do
  let trial ← get
  let target ← StateT.lift (Run.ofFault (scaledTarget factor duration trial))
  let slow := State.norm target.velocity ≤ floor
  match ← StateT.lift (Run.capture (solver.update { current, target, limits })) with
  | .ok reply =>
    set { trial with target, latest := reply, answered := true }
    return !isLagging reply.state.velocity target.velocity || slow
  | .error e =>
    set { trial with target, lastError := some e }
    return slow

/-- Scales the target's velocity down until the answer keeps up with it. -/
@[specialize] def derate (solver : Solver σ K) (limits : Limits K) (settings : ChainSettings K)
    (current target : State K) (duration : K) (first : Reply K) :
    Run σ (SolverError K) (Correction K) := do
  let factor := settings.deratingFactor
  let floor := settings.speedFloor
  let bound := deratingBound (State.norm target.velocity) floor factor
  let (attempts, trial) ←
    (retry bound (fun _ => derateOnce solver limits factor floor current duration) pure).run
      { target, latest := first, answered := false, lastError := none }
  match trial.answered, trial.lastError with
  | false, some e => throw (.error e)
  | _, _ =>
    return {
      state := trial.latest.state
      status := trial.latest.status
      deratings := (attempts.map Attempts.count).getD 0
      collapsed := false }

/-- Corrects the segment from `current` to `target` that lasts `duration`. -/
@[specialize] def segment (solver : Solver σ K) (limits : Limits K) (settings : ChainSettings K)
    (current target : State K) (duration : K) : Run σ (SolverError K) (Correction K) := do
  solver.setTimeStep duration
  let first ← solver.update { current, target, limits }
  let lagging := isLagging first.state.velocity target.velocity
    && settings.speedFloor < State.norm target.velocity
  if !lagging then
    return { state := first.state, status := first.status, deratings := 0, collapsed := false }
  else if current.distance target ≤ settings.identicalDistance then
    return { state := current, status := .finished, deratings := 0, collapsed := true }
  else derate solver limits settings current target duration first

end Correction

end JerkLimit
