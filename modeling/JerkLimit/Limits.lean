import JerkLimit.Quintic

/-!
# Limits — what the joints are allowed

A joint model reports `Bounds`, any of which may be missing. `Limits.forStreaming` and
`Limits.forBatch` turn the bounds of all joints into `Limits`, three lists with one positive entry
per joint, taking `Fallbacks` for what is missing.
-/

namespace JerkLimit

open Scalar

/-- A quantity that can be limited. -/
inductive Quantity where
  | velocity
  | acceleration
  | jerk
  deriving DecidableEq, Repr

/-- What a joint model says about one joint; `none` is undefined. -/
structure Bounds (K : Type) where
  velocity : Option K := none
  acceleration : Option K := none
  jerk : Option K := none
  deriving DecidableEq, Repr

/-- Stand-ins for undefined bounds. -/
structure Fallbacks (K : Type) where
  streamingJerk : K
  unboundedAcceleration : K
  batchVelocity : K
  batchAcceleration : K
  /-- Batch smoothing uses this jerk even where a joint has a bound of its own. -/
  batchJerk : K
  deriving Repr

/-- Symmetric limits, index-aligned with the joints. -/
structure Limits (K : Type) where
  velocity : List K
  acceleration : List K
  jerk : List K
  deriving DecidableEq, Repr

inductive LimitsError (K : Type) where
  | missingVelocity (joint : Nat)
  | notPositive (joint : Nat) (quantity : Quantity) (value : K)
  | invalidScale (quantity : Quantity) (value : K)
  | lengthMismatch (velocity acceleration jerk : Nat)
  deriving Repr

variable {K : Type} [Scalar K]

instance : Inhabited (Fallbacks K) where
  default :=
    { streamingJerk := 300.0
      unboundedAcceleration := 1.0e9
      batchVelocity := 5.0
      batchAcceleration := 10.0
      batchJerk := 20.0 }

namespace Limits

def jointCount (limits : Limits K) : Nat := limits.velocity.length

/-- The limits of one joint. -/
@[specialize] def joint (limits : Limits K) (i : Nat) : Except Fault (JointLimits K) := do
  return ⟨← entry limits.velocity i, ← entry limits.acceleration i, ← entry limits.jerk i⟩

@[specialize] def checkPositive (joint : Nat) (quantity : Quantity) (value : K) :
    Except (LimitsError K) Unit :=
  ensure (isPositive value) (.notPositive joint quantity value)

/-- Checks the joints in order, counting from `joint`. -/
@[specialize] def checkFrom : Nat → List K → List K → List K → Except (LimitsError K) Unit
  | joint, v :: vs, a :: as, j :: js => do
    checkPositive joint .velocity v
    checkPositive joint .acceleration a
    checkPositive joint .jerk j
    checkFrom (joint + 1) vs as js
  | _, _, _, _ => .ok ()

/-- Limits from three lists, which have to be of one length and positive. -/
@[specialize] def ofLists (velocity acceleration jerk : List K) :
    Except (LimitsError K) (Limits K) := do
  ensure (velocity.length == acceleration.length && velocity.length == jerk.length)
    (.lengthMismatch velocity.length acceleration.length jerk.length)
  checkFrom 0 velocity acceleration jerk
  return ⟨velocity, acceleration, jerk⟩

/-- The same limits on every joint. -/
@[specialize] def uniform (jointCount : Nat) (velocity acceleration jerk : K) :
    Except (LimitsError K) (Limits K) :=
  ofLists (List.replicate jointCount velocity) (List.replicate jointCount acceleration)
    (List.replicate jointCount jerk)

/-- The velocity bounds of all joints, which must be defined. -/
def velocities : Nat → List (Bounds K) → Except (LimitsError K) (List K)
  | _, [] => .ok []
  | joint, b :: bs =>
    match b.velocity with
    | none => .error (.missingVelocity joint)
    | some v => do return v :: (← velocities (joint + 1) bs)

/-- Limits for command streams. A velocity bound is mandatory. -/
@[specialize] def forStreaming (bounds : List (Bounds K)) (fallbacks : Fallbacks K) :
    Except (LimitsError K) (Limits K) := do
  let velocity ← velocities 0 bounds
  ofLists velocity
    (bounds.map fun b => b.acceleration.getD fallbacks.unboundedAcceleration)
    (bounds.map fun b => b.jerk.getD fallbacks.streamingJerk)

@[specialize] def checkScale (quantity : Quantity) (value : K) : Except (LimitsError K) Unit :=
  ensure (0.0 < value && value ≤ 1.0) (.invalidScale quantity value)

/-- Scaled limits for planned trajectories. -/
@[specialize] def forBatch (bounds : List (Bounds K)) (velocityScale accelerationScale : K)
    (fallbacks : Fallbacks K) : Except (LimitsError K) (Limits K) := do
  checkScale .velocity velocityScale
  checkScale .acceleration accelerationScale
  ofLists
    (bounds.map fun b => velocityScale * b.velocity.getD fallbacks.batchVelocity)
    (bounds.map fun b => accelerationScale * b.acceleration.getD fallbacks.batchAcceleration)
    (bounds.map fun _ => fallbacks.batchJerk)

/-- The largest displacement of a joint in `dt`: full speed, on top of it full acceleration, on top
of it full jerk. -/
@[specialize] def maxDisplacement (limits : Limits K) (i : Nat) (dt : K) : Except Fault K := do
  let l ← limits.joint i
  return l.velocity * dt + 0.5 * l.acceleration * dt * dt + l.jerk * dt * dt * dt / 6.0

end Limits

end JerkLimit
