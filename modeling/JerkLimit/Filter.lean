import JerkLimit.Smoothing

/-!
# Filter — a first-order low-pass filter

With coefficient `c`, the output is `(x + x' - (1 - c) * y') / (1 + c)` for the input `x`, the input
before it `x'` and the output before it `y'`. Larger coefficients smooth harder; 1 averages two
samples.
-/

namespace JerkLimit

open Scalar

structure LowPass (K : Type) where
  coefficient : K
  scale : K
  feedback : K
  lastInput : K
  lastOutput : K
  deriving Repr

namespace LowPass

variable {K : Type} [Scalar K]

/-- A filter with everything before it at zero. The coefficient has to be finite and at least 1. -/
@[specialize] def create (coefficient : K) : Except (SmoothingError K) (LowPass K) := do
  ensure (isFinite coefficient && 1.0 ≤ coefficient) (.invalid .filterCoefficient coefficient)
  return {
    coefficient
    scale := 1.0 / (1.0 + coefficient)
    feedback := 1.0 - coefficient
    lastInput := 0.0
    lastOutput := 0.0 }

/-- As if the signal had been at `value` for ever. -/
def reset (f : LowPass K) (value : K) : LowPass K :=
  { f with lastInput := value, lastOutput := value }

/-- The filter after one more input; its `lastOutput` is the answer. -/
@[specialize] def step (f : LowPass K) (input : K) : LowPass K :=
  { f with
    lastInput := input
    lastOutput := f.scale * (input + f.lastInput - f.feedback * f.lastOutput) }

/-- The outputs for a list of inputs. -/
@[specialize] def outputs (f : LowPass K) : List K → List K
  | [] => []
  | x :: xs =>
    let f := f.step x
    f.lastOutput :: outputs f xs

end LowPass

end JerkLimit
