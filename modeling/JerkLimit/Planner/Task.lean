import JerkLimit.Solver

/-!
# Planner/Task — what one joint has to do

A request that passes `Request.tasks` is a list with one `Task` per joint, and everything after it
works on such lists. A joint may start faster than its limits allow; then its profile only has to
avoid growing past the start, so `Task.limits` are at least the magnitudes there.
-/

namespace JerkLimit

open Scalar

/-- The motion of one joint and the limits it has to keep. -/
structure Task (K : Type) where
  start : JointState K
  goal : JointState K
  limits : JointLimits K
  deriving Repr

variable {K : Type} [Scalar K]

namespace Task

/-- The limits of a joint, raised to what it starts with. -/
@[specialize] def ofLimits (start goal : JointState K) (limits : JointLimits K) : Task K :=
  { start, goal
    limits :=
      { velocity := max limits.velocity (abs start.velocity)
        acceleration := max limits.acceleration (abs start.acceleration)
        jerk := limits.jerk } }

/-- At rest where it has to be. -/
@[specialize] def isStationary (t : Task K) : Bool :=
  t.start.position == t.goal.position && t.start.velocity == t.goal.velocity
    && t.start.acceleration == t.goal.acceleration
    && t.start.velocity == 0.0 && t.start.acceleration == 0.0

/-- The profile that takes the given time. -/
@[specialize] def profile (t : Task K) (duration : K) : Quintic K :=
  Quintic.between t.start t.goal duration

/-- Whether the profile that takes the given time keeps the limits. -/
@[specialize] def feasible (t : Task K) (duration : K) : Bool :=
  (t.profile duration).within t.limits

/-- The state after `timeStep` on the profile that takes `duration`. -/
@[specialize] def advance (t : Task K) (timeStep duration : K) : Except Fault (JointState K) :=
  if duration ≤ timeStep then .ok t.goal else (t.profile duration).sample timeStep

end Task

/-! ## Checking a request -/

/-- A check that raises an error. -/
@[inline] def require {ε : Type} (ok : Bool) (e : ε) : Except (Stop ε) Unit :=
  ensure ok (.error e)

/-- Checks one joint of a request: its states are finite, its limits positive, its target within
the limits. -/
@[specialize] def Task.check (joint : Nat) (start goal : JointState K)
    (limits : Except Fault (JointLimits K)) : Except (Stop (SolverError K)) (Task K) := do
  require (isFinite start.position) (.notFinite .currentPosition joint)
  require (isFinite start.velocity) (.notFinite .currentVelocity joint)
  require (isFinite start.acceleration) (.notFinite .currentAcceleration joint)
  require (isFinite goal.position) (.notFinite .targetPosition joint)
  require (isFinite goal.velocity) (.notFinite .targetVelocity joint)
  require (isFinite goal.acceleration) (.notFinite .targetAcceleration joint)
  let limits ← limits.mapError .fault
  require (isPositive limits.velocity) (.invalidLimit joint .velocity limits.velocity)
  require (isPositive limits.acceleration)
    (.invalidLimit joint .acceleration limits.acceleration)
  require (isPositive limits.jerk) (.invalidLimit joint .jerk limits.jerk)
  require (withinLimit (abs goal.velocity) limits.velocity)
    (.targetOutsideLimits joint .velocity goal.velocity limits.velocity)
  require (withinLimit (abs goal.acceleration) limits.acceleration)
    (.targetOutsideLimits joint .acceleration goal.acceleration limits.acceleration)
  return .ofLimits start goal limits

namespace Request

/-- Every part has one entry per joint. -/
def checkJointCount (r : Request K) (n : Nat) : Except (Stop (SolverError K)) Unit := do
  let check (field : RequestField) (found : Nat) :=
    require (found == n) (SolverError.jointCount field n found)
  check .currentPosition r.current.position.length
  check .currentVelocity r.current.velocity.length
  check .currentAcceleration r.current.acceleration.length
  check .targetPosition r.target.position.length
  check .targetVelocity r.target.velocity.length
  check .targetAcceleration r.target.acceleration.length
  check .limits r.limits.jointCount

/-- The checked tasks of the joints, counting from `joint`. -/
@[specialize] def tasksFrom (limits : Limits K) :
    Nat → List (JointState K) → List (JointState K) → Except (Stop (SolverError K)) (List (Task K))
  | joint, start :: starts, goal :: goals => do
    let t ← Task.check joint start goal (limits.joint joint)
    return t :: (← tasksFrom limits (joint + 1) starts goals)
  | _, _, _ => .ok []

/-- The tasks of `n` joints, if the request makes sense. -/
@[specialize] def tasks (r : Request K) (n : Nat) :
    Except (Stop (SolverError K)) (List (Task K)) := do
  r.checkJointCount n
  let tasks ← tasksFrom r.limits 0 r.current.joints r.target.joints
  match r.minimumDuration with
  | some d => require (isFinite d) (.notFinite .minimumDuration 0)
  | none => pure ()
  return tasks

end Request

end JerkLimit
