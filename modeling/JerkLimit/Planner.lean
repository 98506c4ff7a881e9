import JerkLimit.Planner.Duration

/-!
# Planner — the built-in solver

The planner fits one quintic per joint and looks for the shortest common duration that keeps every
limit. A requested duration that is feasible as it stands needs no search.
-/

namespace JerkLimit

open Scalar

structure Planner (K : Type) where
  jointCount : Nat
  timeStep : K
  deriving Repr

variable {K : Type} [Scalar K]

namespace Planner

/-- The relative slack when a motion is to fit into one time step. -/
@[inline] def finishSlack : K := 1e-9

@[specialize] def checkTimeStep (timeStep : K) : Except (SolverError K) Unit :=
  ensure (isPositive timeStep) (.invalidTimeStep timeStep)

@[specialize] def create (jointCount : Nat) (timeStep : K) :
    Except (SolverError K) (Planner K) := do
  checkTimeStep timeStep
  return ⟨jointCount, timeStep⟩

@[specialize] def setTimeStep (p : Planner K) (timeStep : K) :
    Except (SolverError K) (Planner K) := do
  checkTimeStep timeStep
  return { p with timeStep }

/-- Every joint one time step along the profile of its own duration. -/
@[specialize] def advance (timeStep : K) (tasks : List (Task K)) (durations : List K) :
    Except Fault (State K) := do
  let joints ← (tasks.zip durations).mapM fun (t, d) => t.advance timeStep d
  return State.ofJoints joints

/-- Every joint one time step along the profile of a common duration. -/
@[specialize] def advanceAll (timeStep : K) (tasks : List (Task K)) (duration : K) :
    Except Fault (State K) :=
  advance timeStep tasks (tasks.map fun _ => duration)

/-- The answer after a search for the duration. -/
@[specialize] def search (p : Planner K) (r : Request K) (tasks : List (Task K)) :
    Except (Stop (SolverError K)) (Reply K) := do
  let durations ← (minimalDurations 0 tasks).mapError .error
  match commonDuration tasks durations r.minimumDuration with
  | none =>
    let state ← (advance p.timeStep tasks durations).mapError .fault
    return ⟨.unsynchronized, state, slowest durations⟩
  | some duration =>
    if duration ≤ p.timeStep * (1.0 + finishSlack) then
      return ⟨.finished, r.target, duration⟩
    else
      let state ← (advanceAll p.timeStep tasks duration).mapError .fault
      return ⟨.working, state, duration⟩

/-- The requested duration, if it is above the time step and feasible for all joints. -/
@[specialize] def requested (p : Planner K) (r : Request K) (tasks : List (Task K)) : Option K :=
  r.minimumDuration.filter fun d => p.timeStep < d && allFeasible tasks d

@[specialize] def update (p : Planner K) (r : Request K) :
    Except (Stop (SolverError K)) (Reply K) := do
  let tasks ← r.tasks p.jointCount
  match p.requested r tasks with
  | some duration =>
    let state ← (advanceAll p.timeStep tasks duration).mapError .fault
    return ⟨.working, state, duration⟩
  | none => p.search r tasks

/-- The planner as a solver, whose state is the planner itself. -/
@[specialize] def solver : Solver (Planner K) K where
  jointCount := jointCount
  timeStep := timeStep
  setTimeStep timeStep := do
    let p ← get
    set (← Run.ofError id (p.setTimeStep timeStep))
  update r := do
    let p ← get
    ExceptT.mk (pure (p.update r))

end Planner

end JerkLimit
