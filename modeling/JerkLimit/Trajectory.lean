import JerkLimit.Limits
import JerkLimit.State

/-!
# Trajectory — timed waypoints for a group of joints

Waypoints are stored as they are given; `checkShape` and `checkTiming` say whether they fit the
joints and whether time passes between them. Durations count from the waypoint before, so the one of
the first waypoint means nothing and takes no part in sums or scaling.
-/

namespace JerkLimit

open Scalar

inductive JointKind where
  | prismatic
  | revolute
  /-- Revolute without bounds: the angle wraps around. -/
  | continuous
  deriving DecidableEq, Repr

namespace JointKind

/-- The name in documents. -/
def name : JointKind → String
  | prismatic => "prismatic"
  | revolute => "revolute"
  | continuous => "continuous"

def ofName? (name : String) : Option JointKind :=
  [prismatic, revolute, continuous].find? (·.name == name)

end JointKind

structure Joint (K : Type) where
  name : String
  kind : JointKind := .revolute
  bounds : Bounds K := {}
  deriving DecidableEq, Repr

structure Waypoint (K : Type) where
  state : State K
  /-- Seconds since the waypoint before. -/
  duration : K
  deriving DecidableEq, Repr

structure Trajectory (K : Type) where
  /-- The group of joints that the trajectory was planned for. -/
  group : Option String
  joints : List (Joint K)
  waypoints : List (Waypoint K)
  deriving DecidableEq, Repr

variable {K : Type} [Scalar K]

/-- Replaces the position of one joint. -/
def Waypoint.setJoint (w : Waypoint K) (joint : Nat) (position : K) : Waypoint K :=
  { w with state := { w.state with position := w.state.position.set joint position } }

namespace Trajectory

/-- Same group and joints, no waypoints. -/
def emptied (t : Trajectory K) : Trajectory K := { t with waypoints := [] }

def jointCount (t : Trajectory K) : Nat := t.joints.length

def waypointCount (t : Trajectory K) : Nat := t.waypoints.length

def bounds (t : Trajectory K) : List (Bounds K) := t.joints.map Joint.bounds

def firstState (t : Trajectory K) : Option (State K) := t.waypoints.head?.map Waypoint.state

def lastState (t : Trajectory K) : Option (State K) := t.waypoints.getLast?.map Waypoint.state

/-! ## Access by index -/

def waypoint (t : Trajectory K) (i : Nat) : Except (WaypointError K) (Waypoint K) :=
  match t.waypoints[i]? with
  | some w => .ok w
  | none => .error (.outOfRange i t.waypointCount)

def modifyWaypoint (t : Trajectory K) (i : Nat) (f : Waypoint K → Waypoint K) :
    Except (WaypointError K) (Trajectory K) := do
  let _ ← t.waypoint i
  return { t with waypoints := t.waypoints.modify i f }

/-- Replaces the state of a waypoint and keeps its timing. -/
def setState (t : Trajectory K) (i : Nat) (s : State K) :
    Except (WaypointError K) (Trajectory K) := do
  s.checkJointCount t.jointCount
  t.modifyWaypoint i fun w => { w with state := s }

/-- Replaces the positions of a waypoint, of whatever length. -/
def setPosition (t : Trajectory K) (i : Nat) (position : List K) :
    Except (WaypointError K) (Trajectory K) :=
  t.modifyWaypoint i fun w => { w with state := { w.state with position } }

def setDuration (t : Trajectory K) (i : Nat) (duration : K) :
    Except (WaypointError K) (Trajectory K) :=
  t.modifyWaypoint i fun w => { w with duration }

def push (t : Trajectory K) (s : State K) (duration : K) :
    Except (WaypointError K) (Trajectory K) := do
  s.checkJointCount t.jointCount
  return { t with waypoints := t.waypoints ++ [⟨s, duration⟩] }

/-! ## Durations -/

/-- Multiplies all durations but the first. -/
@[specialize] def scaleDurations (factor : K) : List (Waypoint K) → List (Waypoint K)
  | [] => []
  | first :: rest => first :: rest.map fun w => { w with duration := w.duration * factor }

/-- The time from the first waypoint to the last. -/
@[specialize] def totalDuration (t : Trajectory K) : K :=
  sum (t.waypoints.tail.map Waypoint.duration)

/-- The mean time between waypoints, 0 where there are none to measure between. -/
@[specialize] def averageDuration (t : Trajectory K) : K :=
  if t.waypointCount < 2 then 0.0
  else t.totalDuration / ofNat (t.waypointCount - 1)

/-! ## Shape and timing -/

@[specialize] def checkShapeFrom (jointCount : Nat) :
    Nat → List (Waypoint K) → Except (WaypointError K) Unit
  | _, [] => .ok ()
  | i, w :: ws => do
    w.state.checkJointCount jointCount
    ensure w.state.isFinite (.notFinite i)
    checkShapeFrom jointCount (i + 1) ws

/-- Every state has one finite entry per joint. -/
@[specialize] def checkShape (t : Trajectory K) : Except (WaypointError K) Unit :=
  checkShapeFrom t.jointCount 0 t.waypoints

@[specialize] def checkTimingFrom : Nat → List (Waypoint K) → Except (WaypointError K) Unit
  | _, [] => .ok ()
  | i, w :: ws => do
    ensure (isPositive w.duration) (.timeNotIncreasing i w.duration)
    checkTimingFrom (i + 1) ws

/-- Every waypoint after the first comes later in time. -/
@[specialize] def checkTiming (t : Trajectory K) : Except (WaypointError K) Unit :=
  checkTimingFrom 1 t.waypoints.tail

/-- Zeros for velocities and accelerations that were left out. -/
@[specialize] def fillMissing (t : Trajectory K) : Trajectory K :=
  { t with waypoints := t.waypoints.map fun w => { w with state := w.state.fillMissing } }

/-- Fills in what was left out and checks the shape of what results. -/
@[specialize] def normalize (t : Trajectory K) : Trajectory K × Except (WaypointError K) Unit :=
  (t.fillMissing, t.fillMissing.checkShape)

end Trajectory

end JerkLimit
