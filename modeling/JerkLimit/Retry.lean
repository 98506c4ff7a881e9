import JerkLimit.Scalar

/-!
# Retry — bounded attempts

`retry max attempt accept` runs `attempt 0`, `attempt 1`, … until `accept` approves a value or `max`
attempts are spent, and keeps the last value either way. It works in any monad, so attempts and
checks may have effects; in one with errors, `tryRetry` is the same loop and an error ends it at
once. `deratingBound` says how many steps a geometric descent takes.
-/

namespace JerkLimit

/-- What bounded attempts led to. -/
structure Attempts (α : Type) where
  /-- What the last attempt produced. -/
  value : α
  /-- Whether the last value was approved. -/
  accepted : Bool
  /-- How many attempts were made. -/
  count : Nat
  deriving Repr

variable {m : Type → Type} [Monad m] {α : Type}

/-- At most `n` attempts, numbered from `i`, after attempts that led to `last`. -/
@[specialize] def retryFrom (attempt : Nat → m α) (accept : α → m Bool) :
    Nat → Nat → Option (Attempts α) → m (Option (Attempts α))
  | 0, _, last => pure last
  | n + 1, i, _ => do
    let value ← attempt i
    let accepted ← accept value
    let last := some ⟨value, accepted, i + 1⟩
    if accepted then pure last else retryFrom attempt accept n (i + 1) last

/-- At most `max` attempts; `none` only if none is allowed. -/
@[specialize] def retry (max : Nat) (attempt : Nat → m α) (accept : α → m Bool) :
    m (Option (Attempts α)) :=
  retryFrom attempt accept max 0 none

/-- At most `max` attempts, the first error ending them. -/
@[specialize] def tryRetry {ε : Type} (max : Nat) (attempt : Nat → m (Except ε α))
    (accept : α → m Bool) : m (Except ε (Option (Attempts α))) :=
  (retry max (fun i => ExceptT.mk (attempt i)) (fun a => ExceptT.lift (accept a))).run

open Scalar in
/-- How many multiplications by `factor` bring `start` down to `floor`; 0 where there is no need or
no way to get there. -/
@[specialize] def deratingBound {K : Type} [Scalar K] (start floor factor : K) : Nat :=
  if start ≤ floor || !(0.0 < factor && factor < 1.0) || floor ≤ 0.0 then 0
  else natCeil (log (floor / start) / log factor)

end JerkLimit
