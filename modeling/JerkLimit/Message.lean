import JerkLimit.Archive
import JerkLimit.Smoothing

/-!
# Message — the wording of errors

Every error has one text, in which numbers are written by `Decimal.text`.
-/

namespace JerkLimit

open Decimal (text)

def Quantity.name : Quantity → String
  | velocity => "velocity"
  | acceleration => "acceleration"
  | jerk => "jerk"

def RequestField.name : RequestField → String
  | currentPosition => "current position"
  | currentVelocity => "current velocity"
  | currentAcceleration => "current acceleration"
  | targetPosition => "target position"
  | targetVelocity => "target velocity"
  | targetAcceleration => "target acceleration"
  | limits => "limits"
  | minimumDuration => "minimum duration"

def LimitsError.message : LimitsError Float → String
  | missingVelocity joint => "No velocity limit defined for joint " ++ toString joint
  | notPositive joint quantity value =>
    quantity.name ++ " limit of joint " ++ toString joint ++ " must be positive and finite, got "
      ++ text value
  | invalidScale quantity value =>
    quantity.name ++ " scaling factor must be in (0, 1], got " ++ text value
  | lengthMismatch velocity acceleration jerk =>
    "Limit vectors have mismatched lengths (" ++ toString velocity ++ ", "
      ++ toString acceleration ++ ", " ++ toString jerk ++ ")"

def WaypointError.message : WaypointError Float → String
  | outOfRange index count =>
    "Waypoint index " ++ toString index ++ " out of range for trajectory with "
      ++ toString count ++ " waypoints"
  | jointCount expected found =>
    "Expected " ++ toString expected ++ " joint values, found " ++ toString found
  | timeNotIncreasing index duration =>
    "Waypoint " ++ toString index ++ " has non-increasing timestamp (duration from previous "
      ++ text duration ++ ")"
  | notFinite index => "Waypoint " ++ toString index ++ " contains non-finite values"

def SolverError.message : SolverError Float → String
  | jointCount field expected found =>
    "Expected " ++ toString expected ++ " joints in " ++ field.name ++ ", found " ++ toString found
  | invalidTimeStep timeStep => "Time step must be positive and finite, got " ++ text timeStep
  | notFinite field joint => "Non-finite " ++ field.name ++ " on joint " ++ toString joint
  | invalidLimit joint quantity value =>
    "Invalid " ++ quantity.name ++ " limit " ++ text value ++ " on joint " ++ toString joint
  | targetOutsideLimits joint quantity value limit =>
    "Target " ++ quantity.name ++ " " ++ text value ++ " on joint " ++ toString joint
      ++ " exceeds its limit " ++ text limit
  | noFeasibleProfile joint => "No feasible profile for joint " ++ toString joint

/-- The name of a parameter and what is asked of it. -/
def Parameter.rule : Parameter → String × String
  | filterCoefficient => ("filter coefficient", "must be at least 1")
  | seamTimeStep => ("seam time step", "must be positive")
  | limitsJointCount => ("limits joint count", "must match the trajectory's joint count")
  | seamSchedule => ("seam coefficient schedule", "produced no coefficients")
  | boundsCount => ("joint bounds count", "must match the solver's joint count")
  | resetState => ("reset state", "must be finite")
  | solverJointCount => ("solver joint count", "must match the trajectory's joint count")
  | extensionAttempts =>
    ("max_duration_extension_attempts", "at least one attempt is required")
  | sampleTimeStep => ("sample time step", "must be positive")
  | durationFactor => ("max duration factor", "must be at least 1")

def Status.name : Status → String
  | finished => "Finished"
  | working => "Working"
  | unsynchronized => "ApproximateSynchronization"

def SmoothingError.message : SmoothingError Float → String
  | limits e => "Limit error: " ++ e.message
  | waypoints e => "Trajectory error: " ++ e.message
  | solver e => "Solver error: " ++ e.message
  | missingGroup => "Trajectory has no joint group association"
  | tooFewWaypoints found => "Trajectory needs at least two waypoints, found " ++ toString found
  | invalid parameter value =>
    "Invalid " ++ parameter.rule.1 ++ " (" ++ text value ++ "): " ++ parameter.rule.2
  | infeasible attempts status =>
    let status :=
      match status with
      | none => "None"
      | some s => "Some(" ++ s.name ++ ")"
    "No feasible trajectory after " ++ toString attempts ++ " attempt(s); last status " ++ status
  | cancelled => "Smoothing cancelled"
  | segmentNotReached waypoint steps =>
    "Segment ending at waypoint " ++ toString waypoint ++ " not reached within "
      ++ toString steps ++ " samples"

/-- The key of a number in documents. -/
def Tunable.key : Tunable → String
  | streamingJerk => "limits.streaming_default_jerk"
  | unboundedAcceleration => "limits.unbounded_acceleration"
  | batchVelocity => "limits.batch_default_velocity"
  | batchAcceleration => "limits.batch_default_acceleration"
  | batchJerk => "limits.batch_default_jerk"
  | period => "streaming.update_period"
  | identicalDistance => "batch.identical_position_epsilon"
  | speedFloor => "batch.minimum_velocity_magnitude"
  | sampleTimeStep => "segmentwise.sample_time_step"
  | seamTimeStep => "seam.time_step"
  | velocityScale => "batch.velocity_scale"
  | accelerationScale => "batch.acceleration_scale"
  | deratingFactor => "batch.velocity_derating_factor"
  | extensionFactor => "batch.duration_extension_factor"
  | growth => "seam.coefficient_growth"
  | durationFactor => "segmentwise.max_duration_factor"
  | coefficient => "seam.coefficient"

def Demand.text : Demand → String
  | positive => "must be > 0"
  | fraction => "must be in (0, 1]"
  | properFraction => "must be in (0, 1)"
  | aboveOne => "must be > 1"
  | atLeastOne => "must be >= 1"

/-- What is wrong with settings. -/
def SettingsError.detail : SettingsError Float → String
  | unreadable => "not a readable file"
  | malformed => "not a settings document"
  | unknownStrategy name => "Unknown strategy '" ++ name ++ "'"
  | unmet demand tunable value => tunable.key ++ " " ++ demand.text ++ ", got " ++ text value
  | noAttempts => "batch.max_duration_extension_attempts must be at least 1"
  | coefficientRange largest start =>
    "seam.max_coefficient (" ++ text largest ++ ") must not be below seam.coefficient ("
      ++ text start ++ ")"
  | overrideBound joint quantity value =>
    "Joint '" ++ joint ++ "' max_" ++ quantity.name ++ " must be > 0, got " ++ text value

def SettingsError.message (e : SettingsError Float) : String :=
  "Invalid configuration: " ++ e.detail

def ArchiveError.message : ArchiveError → String
  | inaccessible => "Not accessible"
  | malformed => "Not a trajectory document"
  | unwritable => "Not writable"
  | waypoints e => "Invalid trajectory: " ++ e.message

end JerkLimit
