/-!
# Decimal — doubles as decimal text

A finite double is `m * 2 ^ q` up to sign, and the reals that round to it form an interval whose
ends belong to it exactly if `m` is even. `Decimal.shortest` walks through the decimal grids from
coarse to fine and takes the first point of a grid inside the interval, so the text has as few
digits as can be read back. A `Decimal.Style` says how the digits are laid out.
-/

namespace JerkLimit

/-- The number `digits * 10 ^ exponent`. -/
structure Decimal where
  digits : Nat
  exponent : Int
  deriving DecidableEq, Repr

namespace Decimal

/-- What happens to a value halfway between two points of a grid. -/
inductive Tie where
  | up
  | even
  deriving DecidableEq, Repr

/-- A finite magnitude `m * 2 ^ q`; `narrow` says that the doubles below it lie twice as dense. -/
structure Binary where
  m : Nat
  q : Int
  narrow : Bool
  deriving DecidableEq, Repr

/-- The leading bit of a normal double, which is not stored: `2 ^ 52`. -/
def implicitBit : Nat := 0x10000000000000

/-- The magnitude of a finite double. -/
def Binary.ofFloat (x : Float) : Binary :=
  let bits := x.toBits.toNat
  let fraction : Nat := bits % implicitBit
  let exponent : Nat := bits / implicitBit % 2048
  if exponent = 0 then ⟨fraction, -1074, false⟩
  else ⟨implicitBit + fraction, (exponent : Int) - 1075, fraction = 0 && 1 < exponent⟩

/-- `n * 10 ^ k * 2 ^ q` as a fraction, for the numerator `n` of a grid of spacing `10 ^ -k`. -/
def scaled (n : Nat) (q k : Int) : Nat × Nat :=
  (n * Nat.pow 2 q.toNat * Nat.pow 10 k.toNat, Nat.pow 2 (-q).toNat * Nat.pow 10 (-k).toNat)

/-- The point of the grid of spacing `10 ^ k` that stands for `b`, if the grid has one. -/
def onGrid (tie : Tie) (b : Binary) (k : Int) : Option Nat :=
  let (v, one) := scaled (4 * b.m) (b.q - 2) (-k)
  let (below, _) := scaled (if b.narrow then 1 else 2) (b.q - 2) (-k)
  let (above, _) := scaled 2 (b.q - 2) (-k)
  let closed := b.m % 2 = 0
  let floor := v / one
  let rest := v % one
  let lower := rest < below || closed && rest = below
  let upper := one - rest < above || closed && one - rest = above
  match lower, upper with
  | false, false => none
  | true, false => some floor
  | false, true => some (floor + 1)
  | true, true =>
    if 2 * rest < one then some floor
    else if one < 2 * rest then some (floor + 1)
    else if tie = .even && floor % 2 = 0 then some floor
    else some (floor + 1)

/-- Tries `n` grids, from the spacing `10 ^ k` on to finer ones. -/
def search (tie : Tie) (b : Binary) : Nat → Int → Decimal
  | 0, _ => ⟨0, 0⟩
  | n + 1, k =>
    match onGrid tie b k with
    | some digits => ⟨digits, k⟩
    | none => search tie b n (k - 1)

/-- A grid too coarse for the magnitude; `0.30103` is `log10 2` up to the slack of the last step. -/
def coarsest (b : Binary) : Int := (((b.m.log2 : Int) + 1 + b.q) * 30103) / 100000 + 1

/-- The decimal with the fewest digits that rounds to `b`, and of those the nearest. -/
def shortest (tie : Tie) (b : Binary) : Decimal := search tie b 22 (coarsest b)

/-! ## Layout -/

/-- How digits become text. -/
structure Style where
  tie : Tie
  /-- Written after a whole number. -/
  whole : String
  /-- Whether digits `0.d₁d₂… * 10 ^ p` are written with the point in place. -/
  positional : Int → Bool

def zeros (n : Nat) : String := String.ofList (List.replicate n '0')

/-- The digits with the point after `p` of them. -/
def Style.place (style : Style) (digits : List Char) (p : Int) : String :=
  if p ≤ 0 then "0." ++ zeros (-p).toNat ++ String.ofList digits
  else if (digits.length : Int) ≤ p then
    String.ofList digits ++ zeros (p.toNat - digits.length) ++ style.whole
  else String.ofList (digits.take p.toNat) ++ "." ++ String.ofList (digits.drop p.toNat)

/-- The digits with the point after the first, and the power of ten with its sign. -/
def scientific (digits : List Char) (p : Int) : String :=
  let fraction := String.ofList (digits.drop 1)
  let mantissa := String.ofList (digits.take 1) ++ if fraction.isEmpty then "" else "." ++ fraction
  let exponent := p - 1
  mantissa ++ "e" ++ (if exponent < 0 then "-" else "+") ++ toString exponent.natAbs

/-- The text of a magnitude. -/
def Style.magnitude (style : Style) (b : Binary) : String :=
  if b.m = 0 then "0" ++ style.whole
  else
    let d := shortest style.tie b
    let digits := (toString d.digits).toList
    let p := digits.length + d.exponent
    if style.positional p then style.place digits p else scientific digits p

/-- The text of a finite double. -/
def Style.finite (style : Style) (x : Float) : String :=
  (if x.toBits.toNat < 0x8000000000000000 then "" else "-") ++ style.magnitude (.ofFloat x)

/-- Never an exponent, and whole numbers without a point. -/
def plain : Style := { tie := .up, whole := "", positional := fun _ => true }

/-- The text of any double in messages and tables. -/
def text (x : Float) : String :=
  if x.isNaN then "NaN"
  else if x.isInf then (if 0.0 < x then "inf" else "-inf")
  else plain.finite x

end Decimal

end JerkLimit
