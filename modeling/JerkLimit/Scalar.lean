/-!
# Scalar — the numbers that motion is computed with

Every algorithm of the library is written once, over a `Scalar`: the operations that a planner asks
of its numbers, with nothing assumed about them. `Float` is the instance that runs; a field with
exact arithmetic can be another. The definitions below this class use its operations only, in the
order in which they are written, so what a program computes is fixed to the last bit.
-/

namespace JerkLimit

/-- The arithmetic of times, positions and their derivatives. -/
class Scalar (K : Type) extends
    Add K, Sub K, Mul K, Div K, Neg K, LT K, LE K, BEq K, OfScientific K where
  decidableLT : DecidableLT K
  decidableLE : DecidableLE K
  abs : K → K
  sqrt : K → K
  /-- The natural logarithm. -/
  log : K → K
  ofNat : Nat → K
  /-- The least whole number that is not below; 0 for what is negative. -/
  natCeil : K → Nat
  isFinite : K → Bool

attribute [reducible, instance] Scalar.decidableLT Scalar.decidableLE

-- A type that has arithmetic of its own, such as `ℝ`, goes on using that.
attribute [instance (low)] Scalar.toAdd Scalar.toSub Scalar.toMul Scalar.toDiv Scalar.toNeg
  Scalar.toLT Scalar.toLE Scalar.toBEq Scalar.toOfScientific

/-- Double precision. A whole number above the range of 64-bit words is rounded down to it, and what
is not a number counts as 0. -/
instance : Scalar Float where
  decidableLT := inferInstance
  decidableLE := inferInstance
  abs := Float.abs
  sqrt := Float.sqrt
  log := Float.log
  ofNat := Float.ofNat
  natCeil x := x.ceil.toUInt64.toNat
  isFinite := Float.isFinite

namespace Scalar

variable {K : Type} [Scalar K]

/-- The larger of two values. A value that differs from itself gives way to the other one. -/
@[specialize] def max (a b : K) : K :=
  if a < b then b else if a == a then a else b

/-- The largest of `xs`, and at least `a`. -/
@[specialize] def maxFrom (a : K) (xs : List K) : K := xs.foldl max a

/-- The sum in list order. It starts at negative zero, the neutral element of signed addition. -/
@[specialize] def sum (xs : List K) : K := xs.foldl (· + ·) (-0.0)

/-- Both above zero or both below it. -/
@[specialize] def sameSign (a b : K) : Bool := (0.0 < a && 0.0 < b) || (a < 0.0 && b < 0.0)

@[specialize] def isPositive (x : K) : Bool := isFinite x && 0.0 < x

/-- The nearest value in `[lo, hi]`. -/
@[specialize] def clamp (x lo hi : K) : K := if x < lo then lo else if hi < x then hi else x

/-- `r * x ^ n` by repeated squaring. -/
@[specialize] def powFrom (r x : K) (n : Nat) : K :=
  let r' := if n % 2 = 1 then r * x else r
  if n / 2 = 0 then r' else powFrom r' (x * x) (n / 2)
termination_by n
decreasing_by omega

/-- An integer power; a negative exponent is the reciprocal of the opposite one. -/
@[specialize] def pow (x : K) (n : Int) : K :=
  let r := powFrom 1.0 x n.natAbs
  if n < 0 then 1.0 / r else r

/-- Half a turn, in radians. -/
@[inline] def pi : K := 3.141592653589793

end Scalar

/-- A case outside the domain of an operation: nothing sensible can be answered. -/
inductive Fault where
  /-- A list has no entry for a joint. -/
  | missingEntry
  /-- A value was to be forced into a range that is empty. -/
  | emptyRange
  deriving DecidableEq, Repr

/-- Why an operation ended without its result: a `Fault`, or an error of its own kind. -/
inductive Stop (ε : Type) where
  | fault (f : Fault)
  | error (e : ε)
  deriving Repr

namespace Stop

def map {ε ε' : Type} (f : ε → ε') : Stop ε → Stop ε'
  | fault x => fault x
  | error e => error (f e)

end Stop

/-- Raises `e` unless `ok` holds. -/
@[inline] def ensure {ε : Type} (ok : Bool) (e : ε) : Except ε Unit :=
  if ok then .ok () else .error e

/-- An entry that a joint must have. -/
@[inline] def entry {α : Type} (xs : List α) (i : Nat) : Except Fault α :=
  match xs[i]? with
  | some x => .ok x
  | none => .error .missingEntry

end JerkLimit
