import JerkLimit.Planner.Task

/-!
# Planner/Duration — how long a motion takes

`Task.minimalDuration` looks for the shortest feasible duration of one joint: a lower bound from the
limits, a geometric scan upward, a bisection between the last infeasible and the first feasible
candidate. `commonDuration` stretches the slowest joint's duration until all joints are feasible.
-/

namespace JerkLimit

open Scalar

variable {K : Type} [Scalar K]

/-- The factor from one candidate duration to the next. -/
@[inline] def scanGrowth : K := 1.05

@[inline] def minDuration : K := 1e-6

@[inline] def maxDuration : K := 1e4

/-- More steps than a scan from `minDuration` to `maxDuration` has. -/
def scanSteps : Nat := 512

def durationBisections : Nat := 50

def commonAttempts : Nat := 32

namespace Task

/-- A duration that the limits rule out going below. -/
@[specialize] def lowerBound (t : Task K) : K :=
  maxFrom minDuration
    [abs (t.goal.position - t.start.position) / t.limits.velocity,
      abs (t.goal.velocity - t.start.velocity) / t.limits.acceleration,
      abs (t.goal.acceleration - t.start.acceleration) / t.limits.jerk]

/-- Grows `candidate` until it is feasible. The answer is the last infeasible and the first feasible
duration, or nothing if the scan leaves the range of durations. -/
@[specialize] def scan (t : Task K) : Nat → K → K → Option (K × K)
  | 0, _, _ => none
  | n + 1, infeasible, candidate =>
    if t.feasible candidate then some (infeasible, candidate)
    else if maxDuration < candidate then none
    else scan t n candidate (candidate * scanGrowth)

/-- Halves the interval between an infeasible and a feasible duration `n` times. -/
@[specialize] def tighten (t : Task K) : Nat → K → K → K
  | 0, _, feasible => feasible
  | n + 1, infeasible, feasible =>
    let mid := 0.5 * (infeasible + feasible)
    if t.feasible mid then tighten t n infeasible mid else tighten t n mid feasible

/-- The shortest feasible duration that the search finds; 0 for a joint that has nothing to do. -/
@[specialize] def minimalDuration (t : Task K) : Option K :=
  if t.isStationary then some 0.0
  else
    let lower := t.lowerBound
    if t.feasible lower then some lower
    else (t.scan scanSteps lower (lower * scanGrowth)).map fun (infeasible, feasible) =>
      t.tighten durationBisections infeasible feasible

end Task

/-- The minimal durations of the joints, counting from `joint`. -/
@[specialize] def minimalDurations : Nat → List (Task K) → Except (SolverError K) (List K)
  | _, [] => .ok []
  | joint, t :: ts =>
    match t.minimalDuration with
    | none => .error (.noFeasibleProfile joint)
    | some d => do return d :: (← minimalDurations (joint + 1) ts)

@[specialize] def allFeasible (tasks : List (Task K)) (duration : K) : Bool :=
  tasks.all fun t => t.feasible duration

/-- Grows `duration` until all joints are feasible, in at most `n` attempts. -/
@[specialize] def stretch (tasks : List (Task K)) : Nat → K → Option K
  | 0, _ => none
  | n + 1, duration =>
    if allFeasible tasks duration then some duration
    else stretch tasks n (duration * scanGrowth)

/-- The slowest of the joints' durations. -/
@[specialize] def slowest (durations : List K) : K := maxFrom 0.0 durations

/-- One duration for all joints, neither below the slowest nor below `minimum`. -/
@[specialize] def commonDuration (tasks : List (Task K)) (durations : List K) (minimum : Option K) :
    Option K :=
  let slow := slowest durations
  let duration :=
    match minimum with
    | some m => if slow < m then m else slow
    | none => slow
  if duration ≤ 0.0 then some 0.0 else stretch tasks commonAttempts duration

end JerkLimit
