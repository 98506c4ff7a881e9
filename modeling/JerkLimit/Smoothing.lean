import JerkLimit.Solver
import JerkLimit.Trajectory

/-!
# Smoothing — what a smoothing run ends with

A run ends with a `Report` or with a `SmoothingError`. Either way the trajectory it leaves is part
of the answer, because some errors come after it has been changed.
-/

namespace JerkLimit

/-- A parameter that is not what it has to be. -/
inductive Parameter where
  | filterCoefficient
  | seamTimeStep
  | limitsJointCount
  | seamSchedule
  | boundsCount
  | resetState
  | solverJointCount
  | extensionAttempts
  | sampleTimeStep
  | durationFactor
  deriving DecidableEq, Repr

inductive SmoothingError (K : Type) where
  | limits (e : LimitsError K)
  | waypoints (e : WaypointError K)
  | solver (e : SolverError K)
  | missingGroup
  | tooFewWaypoints (found : Nat)
  | invalid (parameter : Parameter) (value : K)
  | infeasible (attempts : Nat) (status : Option Status)
  | cancelled
  | segmentNotReached (waypoint steps : Nat)
  deriving Repr

/-- The summary of a smoothing run. -/
structure Report (K : Type) where
  attempts : Nat
  /-- The factor on the durations of the input. -/
  durationScale : K
  finalStatus : Option Status
  /-- Steps above the bound of the seam filter, per joint. -/
  seamFailures : List Nat
  waypointCount : Nat
  deratedSegments : Nat
  collapsedSegments : Nat
  deriving Repr

/-- How a smoothing run ends. -/
abbrev Outcome (K : Type) : Type := Except (Stop (SmoothingError K)) (Report K)

/-- The caller's answer to every poll, numbered from 0; `false` cancels. -/
abbrev KeepGoing : Type := Nat → Bool

/-- Polls the caller; the state is the number of polls. -/
def poll {K : Type} (keepGoing : KeepGoing) : Run Nat (SmoothingError K) Unit := do
  let n ← get
  set (n + 1)
  if keepGoing n then pure () else throw (.error .cancelled)

variable {K : Type} [Scalar K]

/-- A trajectory to be smoothed has a group and at least two waypoints. -/
def Trajectory.checkPlanned (t : Trajectory K) : Except (SmoothingError K) Unit := do
  ensure t.group.isSome .missingGroup
  ensure (2 ≤ t.waypointCount) (.tooFewWaypoints t.waypointCount)

/-- Checks shape and timing, and finds the limits of the joints. -/
@[specialize] def Trajectory.batchLimits (t : Trajectory K) (fallbacks : Fallbacks K)
    (velocityScale accelerationScale : K) : Except (SmoothingError K) (Limits K) := do
  t.checkShape.mapError .waypoints
  t.checkTiming.mapError .waypoints
  (Limits.forBatch t.bounds velocityScale accelerationScale fallbacks).mapError .limits

end JerkLimit
