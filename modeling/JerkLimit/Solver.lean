import JerkLimit.Limits
import JerkLimit.State

/-!
# Solver — one time step toward a target

A solver is asked for the state one time step ahead of `Request.current` on the way to
`Request.target`. It may keep a state of its own, so `Solver σ K` is a record of operations on `σ`;
`Run` is the monad they live in. An operation that stops early leaves the state it had reached.
-/

namespace JerkLimit

/-- How close a solver came to the target. -/
inductive Status where
  /-- The target is reached within the time step. -/
  | finished
  /-- The target is still ahead. -/
  | working
  /-- No common duration was found, so the joints arrive at different times. -/
  | unsynchronized
  deriving DecidableEq, Repr

/-- The parts of a request that are checked. -/
inductive RequestField where
  | currentPosition
  | currentVelocity
  | currentAcceleration
  | targetPosition
  | targetVelocity
  | targetAcceleration
  | limits
  | minimumDuration
  deriving DecidableEq, Repr

inductive SolverError (K : Type) where
  | jointCount (field : RequestField) (expected found : Nat)
  | invalidTimeStep (timeStep : K)
  | notFinite (field : RequestField) (joint : Nat)
  | invalidLimit (joint : Nat) (quantity : Quantity) (value : K)
  | targetOutsideLimits (joint : Nat) (quantity : Quantity) (value limit : K)
  | noFeasibleProfile (joint : Nat)
  deriving Repr

structure Request (K : Type) where
  current : State K
  target : State K
  limits : Limits K
  /-- A lower bound on the time to the target, if the motion is to be stretched. -/
  minimumDuration : Option K := none
  deriving Repr

structure Reply (K : Type) where
  status : Status
  /-- The state one time step after the current one. -/
  state : State K
  /-- How long the whole motion takes. -/
  duration : K
  deriving Repr

/-- Computations on a state `σ` that may stop early. The state outlives a stop. -/
abbrev Run (σ ε : Type) : Type → Type := ExceptT (Stop ε) (StateM σ)

namespace Run

variable {σ ε ε' α : Type}

/-- What may fault, as a step of a run. -/
@[inline] def ofFault (x : Except Fault α) : Run σ ε α :=
  ExceptT.mk (pure (x.mapError .fault))

/-- What may err, as a step of a run. -/
@[inline] def ofError (f : ε → ε') (x : Except ε α) : Run σ ε' α :=
  ExceptT.mk (pure (x.mapError (.error ∘ f)))

/-- Turns an error of `x` into a value. A fault stays a fault. -/
@[inline] def capture (x : Run σ ε α) : Run σ ε' (Except ε α) :=
  ExceptT.mk do
    match ← x.run with
    | .ok a => pure (.ok (.ok a))
    | .error (.error e) => pure (.ok (.error e))
    | .error (.fault f) => pure (.error (.fault f))

end Run

/-- A way to advance the joints, with a state `σ`. -/
structure Solver (σ K : Type) where
  jointCount : σ → Nat
  timeStep : σ → K
  setTimeStep : K → Run σ (SolverError K) Unit
  update : Request K → Run σ (SolverError K) (Reply K)

end JerkLimit
