/-!
# Json/Number — the value of a JSON number

A numeral is split by the grammar and then read as `significand * 10 ^ exponent`. The significand is
a 64-bit word: further digits before the point count as powers of ten and further digits after it
are dropped. It is rounded to a double and scaled by one product or quotient with a power of ten, so
a numeral of many digits may miss the nearest double by a little.
-/

namespace JerkLimit.Json

/-- The parts of a numeral; digits are values below 10. -/
structure Numeral where
  negative : Bool
  whole : List Nat
  fraction : List Nat
  exponentNegative : Bool
  exponent : List Nat
  deriving Repr

def digit? (b : UInt8) : Option Nat :=
  if 48 ≤ b && b ≤ 57 then some (b.toNat - 48) else none

/-- The digits at the start, and the rest. -/
def spanDigits : List UInt8 → List Nat × List UInt8
  | [] => ([], [])
  | b :: bs =>
    match digit? b with
    | none => ([], b :: bs)
    | some d =>
      let (ds, rest) := spanDigits bs
      (d :: ds, rest)

namespace Numeral

/-- The digits after a point, at least one, or none at all without a point. -/
def fraction? : List UInt8 → Option (List Nat × List UInt8)
  | 46 :: bs =>
    match spanDigits bs with
    | ([], _) => none
    | (ds, rest) => some (ds, rest)
  | bs => some ([], bs)

/-- The sign and the digits of an exponent. -/
def exponent? : List UInt8 → Option (Bool × List Nat)
  | [] => some (false, [])
  | e :: bs =>
    if e = 101 || e = 69 then
      let (negative, bs) :=
        match bs with
        | 43 :: bs => (false, bs)
        | 45 :: bs => (true, bs)
        | bs => (false, bs)
      match spanDigits bs with
      | (d :: ds, []) => some (negative, d :: ds)
      | _ => none
    else none

/-- The parts of a numeral. A leading zero stands alone before the point. -/
def ofBytes? (bytes : List UInt8) : Option Numeral := do
  let (negative, bytes) :=
    match bytes with
    | 45 :: bytes => (true, bytes)
    | bytes => (false, bytes)
  let (whole, bytes) := spanDigits bytes
  match whole with
  | [] => none
  | 0 :: _ :: _ => none
  | _ =>
    let (fraction, bytes) ← fraction? bytes
    let (exponentNegative, exponent) ← exponent? bytes
    return { negative, whole, fraction, exponentNegative, exponent }

/-- The largest 64-bit word. -/
def maxSignificand : Nat := 0xFFFFFFFFFFFFFFFF

/-- Reads digits into a significand until one more would not fit; the answer is the significand and
how many digits it took. -/
def accumulate (significand : Nat) : List Nat → Nat × Nat
  | [] => (significand, 0)
  | d :: ds =>
    let next := significand * 10 + d
    if maxSignificand < next then (significand, 0)
    else
      let (s, n) := accumulate next ds
      (s, n + 1)

/-- The significand and its power of ten, before the written exponent. -/
def significand (n : Numeral) : Nat × Int :=
  let (s, taken) := accumulate 0 n.whole
  let (s, decimals) := accumulate s n.fraction
  (s, (n.whole.length - taken : Nat) - (decimals : Int))

def natOfDigits (ds : List Nat) : Nat := ds.foldl (fun n d => n * 10 + d) 0

def powerOfTen (n : Nat) : Float := Float.ofScientific 1 false n

/-- `x` divided by `10 ^ n`, in quotients by powers that are doubles. -/
def scaleDown (x : Float) (n : Nat) : Float :=
  if n ≤ 308 then x / powerOfTen n
  else if x == 0 then x
  else scaleDown (x / powerOfTen 308) (n - 308)
termination_by n
decreasing_by omega

/-- `x * 10 ^ n`, unless it is out of range. -/
def scaleUp (x : Float) (n : Nat) : Option Float :=
  if n ≤ 308 then
    let y := x * powerOfTen n
    if y.isInf then none else some y
  else if x == 0 then some x
  else none

/-- The largest exponent that is looked at. -/
def maxExponent : Nat := 0x7FFFFFFF

/-- The magnitude of a numeral, unless it is out of range. -/
def magnitude (n : Numeral) : Option Float :=
  let (s, shift) := n.significand
  let e := natOfDigits n.exponent
  if maxExponent < e then
    if s ≠ 0 && !n.exponentNegative then none else some 0
  else
    let exponent := if n.exponentNegative then shift - e else shift + e
    let x := Float.ofNat s
    if exponent < 0 then some (scaleDown x exponent.natAbs) else scaleUp x exponent.natAbs

def value (n : Numeral) : Option Float :=
  n.magnitude.map fun x => if n.negative then -x else x

end Numeral

end JerkLimit.Json
