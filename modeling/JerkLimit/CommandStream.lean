import JerkLimit.Planner
import JerkLimit.Smoothing

/-!
# CommandStream — smoothing one command per control cycle

A `CommandStream` is a solver with limits. Between cycles the caller keeps a `Memory`: a cycle
starts from the last output if the cycle before succeeded, and from where that one started
otherwise. A cycle never fails; if the solver does, the command goes through as it is.
-/

namespace JerkLimit

open Scalar

variable {σ K : Type} [Scalar K]

/-- What is carried from one cycle to the next. -/
structure Memory (K : Type) where
  /-- The start of the next cycle if there is no valid seed. -/
  current : State K
  /-- The output of the last successful cycle. -/
  lastOutput : State K
  /-- Whether the next cycle starts from the last output. -/
  validSeed : Bool
  deriving Repr

def Memory.ofState (s : State K) : Memory K := ⟨s, s, false⟩

/-- How a cycle went. -/
inductive Cycle (K : Type) where
  /-- The command was replaced by the solver's state. -/
  | smoothed (status : Status)
  /-- The solver failed and the command went through. -/
  | held (e : SolverError K)
  deriving Repr

structure StreamStep (K : Type) where
  memory : Memory K
  /-- What is sent on in this cycle. -/
  command : State K
  cycle : Cycle K
  deriving Repr

structure CommandStream (σ K : Type) where
  solver : Solver σ K
  limits : Limits K

namespace CommandStream

/-- A stream for a solver in state `start`, and the memory to begin with: all joints at zero. -/
@[specialize] def create (solver : Solver σ K) (start : σ) (bounds : List (Bounds K))
    (fallbacks : Fallbacks K) : Except (SmoothingError K) (CommandStream σ K × Memory K) := do
  ensure (bounds.length == solver.jointCount start) (.invalid .boundsCount (ofNat bounds.length))
  let limits ← (Limits.forStreaming bounds fallbacks).mapError .limits
  return (⟨solver, limits⟩, .ofState (State.zeros (solver.jointCount start)))

/-- A stream for the built-in solver, with the state of the solver. -/
@[specialize] def createPlanner (bounds : List (Bounds K)) (jointCount : Nat) (timeStep : K)
    (fallbacks : Fallbacks K) :
    Except (SmoothingError K) (Planner K × CommandStream (Planner K) K × Memory K) := do
  let planner ← (Planner.create jointCount timeStep).mapError .solver
  return (planner, ← create Planner.solver planner bounds fallbacks)

/-- One control cycle toward the positions of `command`. -/
@[specialize] def step (s : CommandStream σ K) (memory : Memory K) (command : State K) :
    Run σ Empty (StreamStep K) := do
  let memory := if memory.validSeed then { memory with current := memory.lastOutput } else memory
  let target := State.atRest command.position
  match ← (s.solver.update { current := memory.current, target, limits := s.limits }).capture with
  | .ok reply =>
    let memory := { memory with lastOutput := reply.state, validSeed := true }
    return ⟨memory, reply.state, .smoothed reply.status⟩
  | .error e => return ⟨{ memory with validSeed := false }, command, .held e⟩

/-- Starts anew from a state that is known from elsewhere. -/
@[specialize] def reset (s : CommandStream σ K) (solver : σ) (current : State K) :
    Except (SmoothingError K) (Memory K) := do
  (current.checkJointCount (s.solver.jointCount solver)).mapError .waypoints
  ensure current.isFinite (.invalid .resetState (0.0 / 0.0))
  return .ofState current

end CommandStream

end JerkLimit
