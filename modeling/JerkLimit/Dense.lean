import JerkLimit.Planner
import JerkLimit.Seam
import JerkLimit.Trajectory.Unwind

/-!
# Dense — every segment on its own, sampled at a fixed time step

A segment is generated by stepping the built-in solver from the end of the segment before to its
waypoint, asking each time for what is left of the requested duration. The samples of all segments
make a new trajectory, whose seams are filtered. The input is replaced only if everything succeeds.
-/

namespace JerkLimit

open Scalar

variable {K : Type} [Scalar K]

structure Dense (K : Type) where
  settings : DenseSettings K
  fallbacks : Fallbacks K
  seam : Seam K
  deriving Repr

namespace Dense

@[specialize] def create (settings : DenseSettings K) (fallbacks : Fallbacks K) (seam : Seam K) :
    Except (SmoothingError K) (Dense K) := do
  ensure (isPositive settings.timeStep) (.invalid .sampleTimeStep settings.timeStep)
  ensure (1.0 ≤ settings.durationFactor) (.invalid .durationFactor settings.durationFactor)
  return ⟨settings, fallbacks, seam⟩

/-- How many samples a segment may have. -/
@[specialize] def maxSamples (durationFactor timeStep desired : K) : Nat :=
  Nat.max 1 (natCeil (durationFactor * desired / timeStep))

/-- At most `n` samples toward `target`, numbered from `i`, on top of the earlier samples `done` in
reverse. The answer is `none` if the target is not reached. -/
@[specialize] def samplesFrom (planner : Planner K) (limits : Limits K) (target : State K)
    (desired : K) : Nat → Nat → State K → List (State K) →
      Except (Stop (SolverError K)) (Option (List (State K)))
  | 0, _, _, _ => .ok none
  | n + 1, i, current, done =>
    let remaining := desired - ofNat i * planner.timeStep
    let minimumDuration := if 0.0 < remaining then some remaining else none
    match planner.update { current, target, limits, minimumDuration } with
    | .error e => .error e
    | .ok reply =>
      if reply.status = .finished then .ok (some (reply.state :: done).reverse)
      else samplesFrom planner limits target desired n (i + 1) reply.state (reply.state :: done)

/-- The samples of the segment that ends at the waypoint with number `index`. -/
@[specialize] def segment (settings : DenseSettings K) (planner : Planner K) (limits : Limits K)
    (current target : State K) (desired : K) (index : Nat) :
    Except (Stop (SmoothingError K)) (List (State K)) :=
  let steps := maxSamples settings.durationFactor planner.timeStep desired
  match samplesFrom planner limits target desired steps 0 current [] with
  | .error e => .error (e.map .solver)
  | .ok none => .error (.error (.segmentNotReached index steps))
  | .ok (some samples) => .ok samples

/-- The samples of all segments to the given waypoints, numbered from `index`. -/
@[specialize] def segments (settings : DenseSettings K) (planner : Planner K) (limits : Limits K)
    (keepGoing : KeepGoing) (current : State K) (index : Nat) :
    List (Waypoint K) → Run Nat (SmoothingError K) (List (List (State K)))
  | [] => return []
  | w :: ws => do
    poll keepGoing
    -- The samples become waypoints without another check of their joint count, which could not fail:
    -- a planner refuses a request for other joints than its own, and answers with one entry each.
    let samples ← ExceptT.mk <| pure <|
      segment settings planner limits current w.state w.duration index
    let current := samples.getLast?.getD current
    return samples :: (← segments settings planner limits keepGoing current (index + 1) ws)

/-- The first waypoint and the samples after it, evenly spaced. -/
def assemble (t : Trajectory K) (first : Waypoint K) (timeStep : K)
    (samples : List (List (State K))) : Trajectory K :=
  { t with waypoints := first :: samples.flatten.map fun s => ⟨s, timeStep⟩ }

/-- The dense trajectory for an unwound one, seams filtered, and its report. -/
@[specialize] def resample (d : Dense K) (limits : Limits K) (keepGoing : KeepGoing)
    (t : Trajectory K) : Run Nat (SmoothingError K) (Trajectory K × Report K) := do
  let timeStep := d.settings.timeStep
  let planner ← Run.ofError .solver (Planner.create t.jointCount timeStep)
  match t.waypoints with
  | [] => throw (.error (.waypoints (.outOfRange 0 0)))
  | first :: rest =>
    let samples ← segments d.settings planner limits keepGoing first.state 1 rest
    let (output, seams) := d.seam.applyAt limits timeStep (assemble t first timeStep samples)
    let seams ← ExceptT.mk (pure seams)
    return (output, {
      attempts := 1
      durationScale := output.totalDuration / t.totalDuration
      finalStatus := some .finished
      seamFailures := seams.failures
      waypointCount := output.waypointCount
      deratedSegments := 0
      collapsedSegments := 0 })

/-- Smooths a trajectory; the last part of the answer is the number of polls. After an error what is
left is the input, unwound if it had passed the checks. -/
@[specialize] def smooth (d : Dense K) (keepGoing : KeepGoing) (velocityScale accelerationScale : K)
    (t : Trajectory K) : Trajectory K × Outcome K × Nat :=
  let input := do
    t.checkPlanned
    t.batchLimits d.fallbacks velocityScale accelerationScale
  match input with
  | .error e => (t, .error (.error e), 0)
  | .ok limits =>
    match t.unwind with
    | (t, .error f) => (t, .error (.fault f), 0)
    | (t, .ok ()) =>
      match (d.resample limits keepGoing t).run.run 0 with
      | (.error e, polls) => (t, .error e, polls)
      | (.ok (output, report), polls) => (output, .ok report, polls)

end Dense

end JerkLimit
