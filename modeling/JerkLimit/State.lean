import JerkLimit.Quintic

/-!
# State — all joints at one instant

A `State` is three lists, index-aligned with the joints. Nothing forces them to one length: the
operations that need it check it with `State.checkJointCount`.
-/

namespace JerkLimit

open Scalar

/-- Position, velocity and acceleration of every joint. -/
structure State (K : Type) where
  position : List K
  velocity : List K
  acceleration : List K
  deriving DecidableEq, Repr

/-- What can be wrong with the waypoints of a trajectory. -/
inductive WaypointError (K : Type) where
  | outOfRange (index count : Nat)
  | jointCount (expected found : Nat)
  | timeNotIncreasing (index : Nat) (duration : K)
  | notFinite (index : Nat)
  deriving DecidableEq, Repr

variable {K : Type} [Scalar K]

namespace State

/-- Every joint resting at the given position. -/
@[specialize] def atRest (position : List K) : State K :=
  ⟨position, position.map fun _ => 0.0, position.map fun _ => 0.0⟩

@[specialize] def zeros (jointCount : Nat) : State K := atRest (List.replicate jointCount 0.0)

def jointCount (s : State K) : Nat := s.position.length

/-- The three lists must have the expected length; the first that has not is reported. -/
def checkJointCount (s : State K) (expected : Nat) : Except (WaypointError K) Unit := do
  ensure (s.position.length == expected) (.jointCount expected s.position.length)
  ensure (s.velocity.length == expected) (.jointCount expected s.velocity.length)
  ensure (s.acceleration.length == expected) (.jointCount expected s.acceleration.length)

/-- A state from its lists, which must be of one length. -/
def ofLists (position velocity acceleration : List K) : Except (WaypointError K) (State K) := do
  let s : State K := ⟨position, velocity, acceleration⟩
  s.checkJointCount position.length
  return s

@[specialize] def isFinite (s : State K) : Bool :=
  s.position.all Scalar.isFinite && s.velocity.all Scalar.isFinite
    && s.acceleration.all Scalar.isFinite

/-- The Euclidean length of a vector. -/
@[specialize] def norm (xs : List K) : K := sqrt (sum (xs.map fun x => x * x))

/-- The Euclidean distance of two position vectors. -/
@[specialize] def distance (s t : State K) : K :=
  sqrt (sum (List.zipWith (fun a b => (a - b) * (a - b)) s.position t.position))

/-- Zeros for velocities and accelerations that were left out. -/
@[specialize] def fillMissing (s : State K) : State K :=
  let zeros := s.position.map fun _ => (0.0 : K)
  { s with
    velocity := if s.velocity.isEmpty then zeros else s.velocity
    acceleration := if s.acceleration.isEmpty then zeros else s.acceleration }

/-- The joints one by one. -/
def joints (s : State K) : List (JointState K) :=
  List.zipWith (fun p (v, a) => ⟨p, v, a⟩) s.position (s.velocity.zip s.acceleration)

/-- A state from its joints. -/
def ofJoints (js : List (JointState K)) : State K :=
  ⟨js.map JointState.position, js.map JointState.velocity, js.map JointState.acceleration⟩

end State

end JerkLimit
