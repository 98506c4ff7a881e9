import JerkLimit.Chain
import JerkLimit.Dense
import JerkLimit.CommandStream

/-!
# Strategy — one way to smooth, chosen by the settings

`Strategy.ofSettings` builds the strategy that the settings name and `Strategy.smooth` runs it. The
streaming strategy replays a recorded trajectory: every waypoint is the command of one cycle.
-/

namespace JerkLimit

open Scalar

inductive Strategy (K : Type) where
  | streaming (period : K) (fallbacks : Fallbacks K)
  | chained (settings : ChainSettings K) (fallbacks : Fallbacks K)
  | segmentwise (dense : Dense K) (velocityScale accelerationScale : K)
  deriving Repr

variable {K : Type} [Scalar K]

namespace Strategy

/-! ## Replaying a trajectory -/

/-- Feeds waypoints to the stream one after the other and puts the commands that are sent in their
place. The answer is the status of the last cycle; after a stop the waypoints before it are
replaced. -/
@[specialize] def replay {σ : Type} (stream : CommandStream σ K) (period : K) (jointCount : Nat) :
    Option Status → Memory K → List (Waypoint K) →
      StateM σ (List (Waypoint K) × Except (Stop (SmoothingError K)) (Option Status))
  | status, _, [] => return ([], .ok status)
  | _, memory, w :: ws => do
    match ← (stream.step memory w.state).run with
    | .error (.fault f) => return (w :: ws, .error (.fault f))
    | .ok step =>
      match step.command.checkJointCount jointCount with
      | .error e => return (w :: ws, .error (.error (.waypoints e)))
      | .ok () =>
        let status :=
          match step.cycle with
          | .smoothed status => some status
          | .held _ => none
        let (ws, outcome) ← replay stream period jointCount status step.memory ws
        return (⟨step.command, period⟩ :: ws, outcome)

/-- A stream for the joints of a trajectory that starts at its first waypoint, with the state of its
solver. -/
@[specialize] def startStream (period : K) (fallbacks : Fallbacks K) (first : State K)
    (t : Trajectory K) :
    Except (SmoothingError K) (Planner K × CommandStream (Planner K) K × Memory K) := do
  t.checkShape.mapError .waypoints
  let (planner, stream, _) ← CommandStream.createPlanner t.bounds t.jointCount period fallbacks
  return (planner, stream, ← stream.reset planner first)

/-- Replaces every waypoint after the first by what a stream makes of it. -/
@[specialize] def smoothStream (period : K) (fallbacks : Fallbacks K) (t : Trajectory K) :
    Trajectory K × Outcome K :=
  match t.waypoints with
  | [] => (t, .error (.error (.tooFewWaypoints 0)))
  | first :: rest =>
    match startStream period fallbacks first.state t with
    | .error e => (t, .error (.error e))
    | .ok (planner, stream, memory) =>
      let ((rest, outcome), _) := (replay stream period t.jointCount none memory rest).run planner
      let t := { t with waypoints := first :: rest }
      (t, outcome.map fun status => {
        attempts := 1
        durationScale := 1.0
        finalStatus := status
        seamFailures := []
        waypointCount := t.waypointCount
        deratedSegments := 0
        collapsedSegments := 0 })

/-! ## Choosing and running -/

@[specialize] def ofSettings (s : Settings K) : Except (SmoothingError K) (Strategy K) :=
  match s.strategy with
  | .streaming => return .streaming s.streaming.period s.limits
  | .chained => return .chained s.chained s.limits
  | .segmentwise => do
    let seam ← Seam.create s.seam
    let dense ← Dense.create s.segmentwise s.limits seam
    return .segmentwise dense s.chained.velocityScale s.chained.accelerationScale

def kind : Strategy K → StrategyKind
  | streaming .. => .streaming
  | chained .. => .chained
  | segmentwise .. => .segmentwise

/-- Smooths a trajectory without polling anyone. -/
@[specialize] def smooth (s : Strategy K) (t : Trajectory K) : Trajectory K × Outcome K :=
  let always : KeepGoing := fun _ => true
  match s with
  | .streaming period fallbacks => smoothStream period fallbacks t
  | .chained settings fallbacks =>
    let (t, outcome, _) :=
      Chain.smooth settings fallbacks always settings.velocityScale settings.accelerationScale t
    (t, outcome)
  | .segmentwise dense velocityScale accelerationScale =>
    let (t, outcome, _) := dense.smooth always velocityScale accelerationScale t
    (t, outcome)

end Strategy

end JerkLimit
