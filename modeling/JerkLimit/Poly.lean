import JerkLimit.Scalar

/-!
# Poly — polynomials on an interval

A polynomial is the list of its coefficients, lowest order first. `Poly.roots` isolates the real
roots inside an open interval: the roots of the derivative cut the interval into monotone pieces, a
piece holds at most one root, and a sign change on a piece is bisected. `Poly.peak` is the largest
magnitude on an interval, taken over the ends and the critical points.
-/

namespace JerkLimit.Poly

variable {K : Type} [Scalar K]

open Scalar

/-- Horner evaluation. -/
@[specialize] def eval : List K → K → K
  | [], _ => 0.0
  | c :: cs, t => eval cs t * t + c

/-- Multiplies the coefficients by their powers, which count from `k`. -/
@[specialize] def timesPower : Nat → List K → List K
  | _, [] => []
  | k, c :: cs => ofNat k * c :: timesPower (k + 1) cs

@[specialize] def derivative : List K → List K
  | [] => []
  | _ :: cs => timesPower 1 cs

theorem length_timesPower (k : Nat) (cs : List K) : (timesPower k cs).length = cs.length := by
  induction cs generalizing k with
  | nil => rfl
  | cons c cs ih => simp [timesPower, ih]

theorem length_derivative (cs : List K) : (derivative cs).length = cs.length - 1 := by
  cases cs with
  | nil => rfl
  | cons c cs => simp [derivative, length_timesPower]

/-- How often an interval with a sign change is halved. -/
def halvings : Nat := 60

/-- Halves `[a, b]` up to `n` times, keeping the half with the sign change; `fa` is the value at
`a`. The answer is the middle of what remains, or an exact zero if one is met. -/
@[specialize] def bisect (cs : List K) : Nat → K → K → K → K
  | 0, _, a, b => 0.5 * (a + b)
  | n + 1, fa, a, b =>
    let mid := 0.5 * (a + b)
    let fm := eval cs mid
    if fm == 0.0 then 0.5 * (mid + mid)
    else if sameSign fm fa then bisect cs n fm mid b
    else bisect cs n fa a mid

/-- The root on a monotone piece `(a, b]`, leaving out the end `hi` of the whole interval. A root at
`a` belongs to the piece before. -/
@[specialize] def rootOnPiece (cs : List K) (hi a b : K) : Option K :=
  let fa := eval cs a
  let fb := eval cs b
  if fb == 0.0 then
    if b < hi then some b else none
  else if fa == 0.0 || sameSign fa fb then none
  else some (bisect cs halvings fa a b)

/-- The roots on the pieces between consecutive breaks. -/
@[specialize] def rootsOnPieces (cs : List K) (hi : K) : K → List K → List K
  | _, [] => []
  | a, b :: breaks =>
    match rootOnPiece cs hi a b with
    | some r => r :: rootsOnPieces cs hi b breaks
    | none => rootsOnPieces cs hi b breaks

/-- The real roots inside the open interval `(lo, hi)`. -/
@[specialize] def roots (cs : List K) (lo hi : K) : List K :=
  match cs with
  | [] => []
  | [_] => []
  | [c₀, c₁] =>
    if c₁ == 0.0 then []
    else
      let root := -c₀ / c₁
      if lo < root && root < hi then [root] else []
  | c₀ :: c₁ :: c₂ :: rest =>
    let cs := c₀ :: c₁ :: c₂ :: rest
    rootsOnPieces cs hi lo (roots (derivative cs) lo hi ++ [hi])
termination_by cs.length
decreasing_by simp [length_derivative]

/-- The largest magnitude on `[0, finish]`. -/
@[specialize] def peak (cs : List K) (finish : K) : K :=
  let ends := max (abs (eval cs 0.0)) (abs (eval cs finish))
  maxFrom ends ((roots (derivative cs) 0.0 finish).map fun r => abs (eval cs r))

end JerkLimit.Poly
