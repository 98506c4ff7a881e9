import JerkLimit.Filter
import JerkLimit.Settings

/-!
# Seam — low-pass smoothing across independent segments

`Seam.applyAt` filters the positions of every joint on its own, keeps the first waypoint, and counts
the steps that are larger than the limits allow in one sample period. In adaptive mode a joint is
filtered again, always from its raw positions, with the coefficients of a growing schedule until no
step is too large. Joints are written back one after the other: an error at a joint leaves those
before it filtered.
-/

namespace JerkLimit

open Scalar

variable {K : Type} [Scalar K]

/-- The filtered positions of one joint. -/
structure FilteredJoint (K : Type) where
  positions : List K
  /-- How many steps are above the bound. -/
  failures : Nat
  coefficient : K
  deriving Repr

structure SeamReport (K : Type) where
  failures : List Nat
  coefficients : List K
  deriving Repr

/-- How many steps between neighbours are above a bound. -/
@[specialize] def countJumps (bound : K) : List K → Nat
  | a :: b :: xs => countJumps bound (b :: xs) + if bound < abs (b - a) then 1 else 0
  | _ => 0

/-- Filters one joint, from a filter that has always been at the first position. -/
@[specialize] def filterJoint (raw : List K) (bound coefficient : K) :
    Except (SmoothingError K) (FilteredJoint K) := do
  let f ← LowPass.create coefficient
  let positions :=
    match raw with
    | [] => []
    | first :: rest => first :: (f.reset first).outputs rest
  return ⟨positions, countJumps bound positions, coefficient⟩

/-! ## The schedule of coefficients -/

/-- Geometric growth below `cap`, for at most `n` coefficients. -/
@[specialize] def climb (growth cap : K) : Nat → K → List K
  | 0, _ => []
  | n + 1, c => if c < cap then c :: climb growth cap n (c * growth) else []

/-- A bound on the number of coefficients below `cap`: `n` factors of `growth` make at least
`1 + n * (growth - 1)`. It is doubled because rounding may halve the effect of a factor that is
close to 1. -/
@[specialize] def climbSteps (start growth cap : K) : Nat :=
  2 * natCeil ((cap / start - 1.0) / (growth - 1.0)) + 4

/-- The coefficients to try: geometric growth, then the cap. -/
@[specialize] def coefficientSchedule (start growth cap : K) : List K :=
  let below := if 1.0 < growth then climb growth cap (climbSteps start growth cap) start else []
  match below.getLast? with
  | some last => if last < cap then below ++ [max cap start] else below
  | none => [max cap start]

/-- Filters with one coefficient after the other until there is no failure. -/
@[specialize] def filterUntilClean (raw : List K) (bound : K) :
    List K → Except (SmoothingError K) (Option (FilteredJoint K))
  | [] => .ok none
  | [c] => return some (← filterJoint raw bound c)
  | c :: cs => do
    let f ← filterJoint raw bound c
    if f.failures = 0 then return some f else filterUntilClean raw bound cs

/-- A seam filter, whose coefficient and time step have been checked. -/
structure Seam (K : Type) where
  settings : SeamSettings K
  deriving Repr

instance : Inhabited (Seam K) := ⟨⟨default⟩⟩

namespace Seam

@[specialize] def create (settings : SeamSettings K) : Except (SmoothingError K) (Seam K) := do
  let _ ← LowPass.create settings.coefficient
  ensure (isPositive settings.timeStep) (.invalid .seamTimeStep settings.timeStep)
  return ⟨settings⟩

@[specialize] def filterAdaptive (s : Seam K) (raw : List K) (bound : K) :
    Except (SmoothingError K) (FilteredJoint K) := do
  let schedule :=
    coefficientSchedule s.settings.coefficient s.settings.growth s.settings.maxCoefficient
  match ← filterUntilClean raw bound schedule with
  | some f => return f
  | none => throw (.invalid .seamSchedule s.settings.coefficient)

@[specialize] def filter (s : Seam K) (raw : List K) (bound : K) :
    Except (SmoothingError K) (FilteredJoint K) :=
  match s.settings.mode with
  | .detectOnly => filterJoint raw bound s.settings.coefficient
  | .adaptive => s.filterAdaptive raw bound

/-- One joint of all waypoints, filtered. -/
@[specialize] def filterColumn (s : Seam K) (limits : Limits K) (timeStep : K) (joint : Nat)
    (waypoints : List (Waypoint K)) : Except (Stop (SmoothingError K)) (FilteredJoint K) := do
  let raw ← (waypoints.mapM fun w => entry w.state.position joint).mapError .fault
  let bound ← (limits.maxDisplacement joint timeStep).mapError .fault
  (s.filter raw bound).mapError .error

/-- Replaces one joint of all waypoints but the first. -/
def writeColumn (joint : Nat) (positions : List K) : List (Waypoint K) → List (Waypoint K)
  | [] => []
  | first :: rest => first :: List.zipWith (fun w p => w.setJoint joint p) rest positions.tail

/-- Filters `n` joints, counting from `joint`. -/
@[specialize] def filterJoints (s : Seam K) (limits : Limits K) (timeStep : K) :
    Nat → Nat → List (Waypoint K) →
      List (Waypoint K) × Except (Stop (SmoothingError K)) (List (FilteredJoint K))
  | 0, _, ws => (ws, .ok [])
  | n + 1, joint, ws =>
    match s.filterColumn limits timeStep joint ws with
    | .error e => (ws, .error e)
    | .ok f =>
      let ws := writeColumn joint f.positions ws
      let (ws, rest) := filterJoints s limits timeStep n (joint + 1) ws
      (ws, rest.map (f :: ·))

/-- Filters every joint, for samples `timeStep` seconds apart. -/
@[specialize] def applyAt (s : Seam K) (limits : Limits K) (timeStep : K) (t : Trajectory K) :
    Trajectory K × Except (Stop (SmoothingError K)) (SeamReport K) :=
  let n := t.jointCount
  if limits.jointCount ≠ n then
    (t, .error (.error (.invalid .limitsJointCount (ofNat limits.jointCount))))
  else if t.waypoints.isEmpty then
    (t, .ok ⟨List.replicate n 0, List.replicate n s.settings.coefficient⟩)
  else
    let (waypoints, joints) := s.filterJoints limits timeStep n 0 t.waypoints
    ({ t with waypoints }, joints.map fun fs =>
      ⟨fs.map FilteredJoint.failures, fs.map FilteredJoint.coefficient⟩)

/-- Filters every joint, for samples spaced as the settings say. -/
@[specialize] def apply (s : Seam K) (limits : Limits K) (t : Trajectory K) :
    Trajectory K × Except (Stop (SmoothingError K)) (SeamReport K) :=
  s.applyAt limits s.settings.timeStep t

end Seam

end JerkLimit
