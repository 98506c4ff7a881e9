import JerkLimit.Poly

/-!
# Quintic — the profile of one joint between two states

`Quintic.between start goal duration` is the polynomial of degree five that has the position,
velocity and acceleration of `start` at time 0 and those of `goal` at time `duration`. Its `peaks`
are the largest velocity, acceleration and jerk on the way, and `within` compares them with limits.
-/

namespace JerkLimit

open Scalar

/-- Position, velocity and acceleration of one joint. -/
structure JointState (K : Type) where
  position : K
  velocity : K
  acceleration : K
  deriving Repr

/-- The largest velocity, acceleration and jerk that are allowed to one joint. -/
structure JointLimits (K : Type) where
  velocity : K
  acceleration : K
  jerk : K
  deriving Repr

/-- The largest magnitudes on a whole profile. -/
structure Peaks (K : Type) where
  velocity : K
  acceleration : K
  jerk : K
  deriving Repr

structure Quintic (K : Type) where
  coeffs : List K
  duration : K
  deriving Repr

variable {K : Type} [Scalar K]

/-- The relative slack when a peak is compared with a limit. -/
@[inline] def limitTolerance : K := 1e-9

/-- The absolute slack when a peak is compared with a limit: the spacing of doubles at 1. -/
@[inline] def limitSlack : K := 1.0 / 4503599627370496.0

@[specialize] def withinLimit (value limit : K) : Bool :=
  value ≤ limit * (1.0 + limitTolerance) + limitSlack

namespace Quintic

/-- A duration of zero or less collapses the profile onto its end. -/
@[specialize] def between (start goal : JointState K) (duration : K) : Quintic K :=
  if duration ≤ 0.0 then
    ⟨[goal.position, goal.velocity, 0.5 * goal.acceleration, 0.0, 0.0, 0.0], 0.0⟩
  else
    let t := duration
    let t2 := t * t
    let t3 := t2 * t
    let h := goal.position - start.position
    let v0 := start.velocity
    let v1 := goal.velocity
    let a0 := start.acceleration
    let a1 := goal.acceleration
    let c3 := (20.0 * h - (8.0 * v1 + 12.0 * v0) * t - (3.0 * a0 - a1) * t2) / (2.0 * t3)
    let c4 := (-30.0 * h + (14.0 * v1 + 16.0 * v0) * t + (3.0 * a0 - 2.0 * a1) * t2)
      / (2.0 * t3 * t)
    let c5 := (12.0 * h - 6.0 * (v1 + v0) * t + (a1 - a0) * t2) / (2.0 * t3 * t2)
    ⟨[start.position, v0, 0.5 * a0, c3, c4, c5], duration⟩

/-- The state at a time on or off the profile. -/
@[specialize] def stateAt (q : Quintic K) (t : K) : JointState K :=
  let velocity := Poly.derivative q.coeffs
  let acceleration := Poly.derivative velocity
  ⟨Poly.eval q.coeffs t, Poly.eval velocity t, Poly.eval acceleration t⟩

/-- The state at the time of the profile nearest to `t`. A duration that is not a number leaves no
time to choose. -/
@[specialize] def sample (q : Quintic K) (t : K) : Except Fault (JointState K) :=
  if 0.0 ≤ q.duration then .ok (q.stateAt (clamp t 0.0 q.duration)) else .error .emptyRange

@[specialize] def peaks (q : Quintic K) : Peaks K :=
  let velocity := Poly.derivative q.coeffs
  let acceleration := Poly.derivative velocity
  let jerk := Poly.derivative acceleration
  ⟨Poly.peak velocity q.duration, Poly.peak acceleration q.duration, Poly.peak jerk q.duration⟩

/-- Whether the profile stays within limits. -/
@[specialize] def within (q : Quintic K) (limits : JointLimits K) : Bool :=
  let peaks := q.peaks
  withinLimit peaks.velocity limits.velocity
    && withinLimit peaks.acceleration limits.acceleration
    && withinLimit peaks.jerk limits.jerk

end Quintic

end JerkLimit
