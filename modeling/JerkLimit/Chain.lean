import JerkLimit.Correction
import JerkLimit.Planner
import JerkLimit.Smoothing
import JerkLimit.Trajectory.Unwind

/-!
# Chain — a whole trajectory, segment by segment

An attempt multiplies all durations by a scale and corrects the segments in order, each from the
corrected end of the one before. It succeeds if its last segment is finished; if not, all durations
grow and the next attempt starts over from the unwound input. The caller is polled before every
attempt and every segment, and may cancel.
-/

namespace JerkLimit

open Scalar

variable {σ K : Type} [Scalar K]

/-- A solver's state and how many polls there have been. -/
structure Polled (σ : Type) where
  inner : σ
  polls : Nat

namespace Polled

/-- Polls the caller. -/
@[inline] def check (keepGoing : KeepGoing) : Run (Polled σ) (SmoothingError K) Unit :=
  ExceptT.mk fun s =>
    let (answer, polls) := (poll keepGoing).run s.polls
    (answer, { s with polls })

/-- A run on the inner state, its errors captured. -/
@[inline] def inside {ε ε' α : Type} (x : Run σ ε α) : Run (Polled σ) ε' (Except ε α) :=
  Run.capture (ExceptT.mk fun s =>
    let (a, inner) := x.run s.inner
    (a, { s with inner }))

end Polled

/-- An attempt: its waypoints, and how its segments went. -/
structure Pass (K : Type) where
  waypoints : List (Waypoint K)
  /-- The status of the last segment; none if a segment was rejected. -/
  status : Option Status
  derated : Nat
  collapsed : Nat
  deriving Repr

namespace Chain

/-- Corrects the waypoints after one that was left in state `current` with `status`. A rejected
segment ends the pass. -/
@[specialize] def correctAfter (solver : Solver σ K) (limits : Limits K)
    (settings : ChainSettings K) (keepGoing : KeepGoing) (jointCount : Nat)
    (status : Option Status) (current : State K) :
    List (Waypoint K) → Run (Polled σ) (SmoothingError K) (Pass K)
  | [] => return ⟨[], status, 0, 0⟩
  | w :: ws => do
    Polled.check keepGoing
    let corrected ← Polled.inside <|
      Correction.segment solver limits settings current w.state w.duration
    match corrected with
    | .error _ => return ⟨w :: ws, none, 0, 0⟩
    | .ok c =>
      ExceptT.mk <| pure <|
        (c.state.checkJointCount jointCount).mapError fun e => .error (.waypoints e)
      let rest ← correctAfter solver limits settings keepGoing jointCount (some c.status) c.state ws
      return {
        waypoints := { w with state := c.state } :: rest.waypoints
        status := rest.status
        derated := rest.derated + if 0 < c.deratings then 1 else 0
        collapsed := rest.collapsed + if c.collapsed then 1 else 0 }

/-- Corrects all waypoints after the first. -/
@[specialize] def pass (solver : Solver σ K) (limits : Limits K) (settings : ChainSettings K)
    (keepGoing : KeepGoing) (jointCount : Nat) :
    List (Waypoint K) → Run (Polled σ) (SmoothingError K) (Pass K)
  | [] => throw (.error (.tooFewWaypoints 0))
  | w :: ws => do
    let p ← correctAfter solver limits settings keepGoing jointCount none w.state ws
    return { p with waypoints := w :: p.waypoints }

/-- The scale of the durations in an attempt. The exponent is a signed 32-bit word. -/
@[specialize] def attemptScale (settings : ChainSettings K) (attempt : Nat) : K :=
  pow settings.extensionFactor (Int.bmod attempt 0x100000000)

/-- One attempt, with the scale of its durations. -/
@[specialize] def attempt (solver : Solver σ K) (limits : Limits K) (settings : ChainSettings K)
    (keepGoing : KeepGoing) (seed : Trajectory K) (i : Nat) :
    Run (Polled σ) (SmoothingError K) (K × Pass K) := do
  Polled.check keepGoing
  let scale := attemptScale settings i
  let p ← pass solver limits settings keepGoing seed.jointCount
    (Trajectory.scaleDurations scale seed.waypoints)
  return (scale, p)

def Pass.succeeded (p : Pass K) : Bool := p.status = some .finished

/-- Attempts until one succeeds. -/
@[specialize] def attempts (solver : Solver σ K) (limits : Limits K) (settings : ChainSettings K)
    (keepGoing : KeepGoing) (seed : Trajectory K) :
    Run (Polled σ) (SmoothingError K) (Option (Attempts (K × Pass K))) :=
  retry settings.maxAttempts (attempt solver limits settings keepGoing seed)
    fun (_, p) => pure (Pass.succeeded p)

/-- What must hold before anything is changed, and the limits of the joints. -/
@[specialize] def checkInput (fallbacks : Fallbacks K) (solverJoints : Nat)
    (velocityScale accelerationScale : K) (t : Trajectory K) :
    Except (SmoothingError K) (Limits K) := do
  t.checkPlanned
  ensure (solverJoints == t.jointCount) (.invalid .solverJointCount (ofNat solverJoints))
  t.batchLimits fallbacks velocityScale accelerationScale

/-- The trajectory and the outcome after the attempts on `seed`. -/
def conclude (seed : Trajectory K) :
    Except (Stop (SmoothingError K)) (Option (Attempts (K × Pass K))) → Trajectory K × Outcome K
  | .error e => (seed, .error e)
  | .ok none => (seed, .error (.error (.invalid .extensionAttempts 0.0)))
  | .ok (some a) =>
    let (scale, p) := a.value
    let t := { seed with waypoints := p.waypoints }
    if a.accepted then
      (t, .ok {
        attempts := a.count
        durationScale := scale
        finalStatus := p.status
        seamFailures := []
        waypointCount := t.waypointCount
        deratedSegments := p.derated
        collapsedSegments := p.collapsed })
    else (t, .error (.error (.infeasible a.count p.status)))

/-- Smooths a trajectory with any solver. What is left after an error: the input, if it did not pass
the checks; the unwound input, if there was no complete attempt; the last attempt otherwise. -/
@[specialize] def smoothWith (solver : Solver σ K) (settings : ChainSettings K)
    (fallbacks : Fallbacks K) (keepGoing : KeepGoing) (velocityScale accelerationScale : K)
    (t : Trajectory K) : StateM (Polled σ) (Trajectory K × Outcome K) := do
  let solverJoints := solver.jointCount (← get).inner
  match checkInput fallbacks solverJoints velocityScale accelerationScale t with
  | .error e => return (t, .error (.error e))
  | .ok limits =>
    match t.unwind with
    | (seed, .error f) => return (seed, .error (.fault f))
    | (seed, .ok ()) =>
      return conclude seed (← (attempts solver limits settings keepGoing seed).run)

/-- The time step of the built-in solver before its first segment. -/
@[specialize] def firstTimeStep (t : Trajectory K) : K :=
  let d := t.averageDuration
  if isPositive d then d else 1.0

/-- Smooths a trajectory with the built-in solver; the last part of the answer is the number of
polls. -/
@[specialize] def smooth (settings : ChainSettings K) (fallbacks : Fallbacks K)
    (keepGoing : KeepGoing) (velocityScale accelerationScale : K) (t : Trajectory K) :
    Trajectory K × Outcome K × Nat :=
  match Planner.create t.jointCount (firstTimeStep t) with
  | .error e => (t, .error (.error (.solver e)), 0)
  | .ok planner =>
    let ((t, outcome), s) :=
      (smoothWith Planner.solver settings fallbacks keepGoing velocityScale accelerationScale t).run
        ⟨planner, 0⟩
    (t, outcome, s.polls)

end Chain

end JerkLimit
