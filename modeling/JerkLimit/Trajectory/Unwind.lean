import JerkLimit.Trajectory

/-!
# Trajectory/Unwind — angles without jumps

A continuous joint may be recorded with its angle folded into one turn. `Trajectory.unwind` adds a
running offset of whole turns, changed wherever two neighbouring recorded angles are more than half
a turn apart. Recorded angles are compared, not unwound ones.
-/

namespace JerkLimit.Trajectory

open Scalar

variable {K : Type} [Scalar K]

/-- The offset after a step from `last` to `raw`. -/
@[specialize] def turnOffset (halfTurn last raw offset : K) : K :=
  if raw + halfTurn < last then offset + 2.0 * halfTurn
  else if last + halfTurn < raw then offset - 2.0 * halfTurn
  else offset

/-- Unwinds one joint after a waypoint that recorded `last`. A waypoint without this joint ends the
work; those before it are done. -/
@[specialize] def unwindAfter (halfTurn : K) (joint : Nat) (last offset : K) :
    List (Waypoint K) → List (Waypoint K) × Except Fault Unit
  | [] => ([], .ok ())
  | w :: ws =>
    match entry w.state.position joint with
    | .error f => (w :: ws, .error f)
    | .ok raw =>
      let offset := turnOffset halfTurn last raw offset
      let (ws, outcome) := unwindAfter halfTurn joint raw offset ws
      (w.setJoint joint (raw + offset) :: ws, outcome)

/-- Unwinds one joint of all waypoints. -/
@[specialize] def unwindJoint (halfTurn : K) (joint : Nat) :
    List (Waypoint K) → List (Waypoint K) × Except Fault Unit
  | [] => ([], .ok ())
  | w :: ws =>
    match entry w.state.position joint with
    | .error f => (w :: ws, .error f)
    | .ok first =>
      let (ws, outcome) := unwindAfter halfTurn joint first 0.0 ws
      (w :: ws, outcome)

/-- Unwinds the continuous joints in order, counting from `joint`. -/
@[specialize] def unwindJoints (halfTurn : K) :
    Nat → List (Joint K) → List (Waypoint K) → List (Waypoint K) × Except Fault Unit
  | _, [], ws => (ws, .ok ())
  | joint, j :: js, ws =>
    if j.kind = .continuous then
      match unwindJoint halfTurn joint ws with
      | (ws, .error f) => (ws, .error f)
      | (ws, .ok ()) => unwindJoints halfTurn (joint + 1) js ws
    else unwindJoints halfTurn (joint + 1) js ws

/-- Unwinding with any value for half a turn. -/
@[specialize] def unwindBy (halfTurn : K) (t : Trajectory K) : Trajectory K × Except Fault Unit :=
  let (waypoints, outcome) := unwindJoints halfTurn 0 t.joints t.waypoints
  ({ t with waypoints }, outcome)

/-- Removes the jumps by a turn from the continuous joints. After a fault the joints and waypoints
that come before it are unwound. -/
@[specialize] def unwind (t : Trajectory K) : Trajectory K × Except Fault Unit :=
  t.unwindBy pi

end JerkLimit.Trajectory
