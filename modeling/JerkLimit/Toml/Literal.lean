/-!
# Toml/Literal — values without quotes

Truth values, whole numbers in four bases, floating-point numbers, dates and times. A number too
large to be read is refused only where it is looked at. Of dates and times only the form matters
here.
-/

namespace JerkLimit.Toml

inductive Literal where
  | bool (b : Bool)
  | integer (n : Int)
  /-- A floating-point number, unless it is out of range. -/
  | float (x : Option Float)
  /-- A date, a time or both. -/
  | moment
  deriving Repr

namespace Literal

/-- The value of a digit in a base. -/
def digit? (base : Nat) (c : Char) : Option Nat :=
  let value :=
    if '0' ≤ c && c ≤ '9' then some (c.toNat - 48)
    else if 'a' ≤ c && c ≤ 'f' then some (c.toNat - 87)
    else if 'A' ≤ c && c ≤ 'F' then some (c.toNat - 55)
    else none
  value.filter (· < base)

/-- Digits, at least one, with single underscores between them. -/
def digits? (base : Nat) : List Char → Option (List Nat)
  | [] => none
  | [c] => (digit? base c).map ([·])
  | c :: '_' :: cs => do return (← digit? base c) :: (← digits? base cs)
  | c :: cs => do return (← digit? base c) :: (← digits? base cs)

def natOfDigits (base : Nat) (ds : List Nat) : Nat := ds.foldl (fun n d => n * base + d) 0

/-- Decimal digits without a leading zero before others. -/
def whole? (cs : List Char) : Option (List Nat) := do
  match ← digits? 10 cs with
  | 0 :: _ :: _ => none
  | ds => some ds

/-- A sign, and what follows it. -/
def sign : List Char → Bool × List Char
  | '-' :: cs => (true, cs)
  | '+' :: cs => (false, cs)
  | cs => (false, cs)

def integer? (cs : List Char) : Option Int :=
  match cs with
  | '0' :: 'x' :: cs => do return natOfDigits 16 (← digits? 16 cs)
  | '0' :: 'o' :: cs => do return natOfDigits 8 (← digits? 8 cs)
  | '0' :: 'b' :: cs => do return natOfDigits 2 (← digits? 2 cs)
  | _ => do
    let (negative, cs) := sign cs
    let n : Int := natOfDigits 10 (← whole? cs)
    return if negative then -n else n

/-- Whether a whole number fits a word of 64 bits, with or without a sign. -/
def isWord (n : Int) : Bool := -0x8000000000000000 ≤ n && n < 0x10000000000000000

/-- Whether a whole number fits a word of 128 bits, with or without a sign. -/
def isLongWord (n : Int) : Bool :=
  -0x80000000000000000000000000000000 ≤ n && n < 0x100000000000000000000000000000000

/-- Whether there is any way to read a value. -/
def readable : Literal → Bool
  | integer n => isLongWord n
  | float x => x.isSome
  | bool _ | moment => true

/-- `digits * 10 ^ exponent`, rounded to the nearest double, if that is finite. -/
def nearest? (digits : List Nat) (exponent : Int) : Option Float :=
  let significant := digits.dropWhile (· = 0)
  let magnitude := significant.length + exponent
  if significant.isEmpty || magnitude < -400 then some 0.0
  else if 400 < magnitude then none
  else
    let x := Float.ofScientific (natOfDigits 10 digits) (exponent < 0) exponent.natAbs
    if x.isInf then none else some x

/-- The digits of the exponent of a float, with their sign. -/
def exponent? (cs : List Char) : Option Int := do
  let (negative, cs) := sign cs
  let n : Int := natOfDigits 10 (← digits? 10 cs)
  return if negative then -n else n

/-- A magnitude: digits, then a fraction or an exponent or both. It may be out of range. -/
def magnitude? (cs : List Char) : Option (Option Float) := do
  let isExponent (c : Char) := c = 'e' || c = 'E'
  let mantissa := cs.takeWhile (!isExponent ·)
  let tail := cs.dropWhile (!isExponent ·)
  let exponent ← match tail with
    | [] => some 0
    | _ :: cs => exponent? cs
  let whole ← whole? (mantissa.takeWhile (· ≠ '.'))
  match mantissa.dropWhile (· ≠ '.') with
  | [] => if tail.isEmpty then none else some (nearest? whole exponent)
  | _ :: cs =>
    let fraction ← digits? 10 cs
    return nearest? (whole ++ fraction) (exponent - fraction.length)

/-- A floating-point number, which may be out of range. -/
def float? (cs : List Char) : Option (Option Float) := do
  let (negative, cs) := sign cs
  let x ←
    if cs = ['i', 'n', 'f'] then some (some (1.0 / 0.0))
    else if cs = ['n', 'a', 'n'] then some (some (0.0 / 0.0))
    else magnitude? cs
  return x.map fun x => if negative then -x else x

/-! ## Dates and times -/

/-- A number of exactly `n` decimal digits, and the rest. -/
def fixed? (n : Nat) (cs : List Char) : Option (Nat × List Char) :=
  if n ≤ cs.length && (cs.take n).all Char.isDigit then
    some (natOfDigits 10 ((cs.take n).map fun c => c.toNat - 48), cs.drop n)
  else none

def isLeap (year : Nat) : Bool := year % 4 = 0 && (year % 100 ≠ 0 || year % 400 = 0)

def monthDays (year month : Nat) : Nat :=
  if month = 2 then (if isLeap year then 29 else 28)
  else if month = 4 || month = 6 || month = 9 || month = 11 then 30
  else 31

/-- What follows a date at the start. -/
def afterDate? (cs : List Char) : Option (List Char) := do
  match ← fixed? 4 cs with
  | (year, '-' :: cs) =>
    match ← fixed? 2 cs with
    | (month, '-' :: cs) =>
      let (day, cs) ← fixed? 2 cs
      if 1 ≤ month && month ≤ 12 && 1 ≤ day && day ≤ monthDays year month then some cs else none
    | _ => none
  | _ => none

/-- What follows a fraction of a second, if there is one. -/
def afterFraction? : List Char → Option (List Char)
  | '.' :: c :: cs => if c.isDigit then some (cs.dropWhile Char.isDigit) else none
  | '.' :: [] => none
  | cs => some cs

/-- What follows a time at the start. Seconds may be left out. -/
def afterTime? (cs : List Char) : Option (List Char) := do
  match ← fixed? 2 cs with
  | (hour, ':' :: cs) =>
    let (minute, cs) ← fixed? 2 cs
    if 23 < hour || 59 < minute then none
    else
      match cs with
      | ':' :: cs =>
        let (second, cs) ← fixed? 2 cs
        if 60 < second then none else afterFraction? cs
      | cs => some cs
  | _ => none

/-- Nothing, or the offset of a time zone. -/
def isOffset : List Char → Bool
  | [] => true
  | ['Z'] | ['z'] => true
  | c :: cs =>
    (c = '+' || c = '-') &&
      match fixed? 2 cs with
      | some (hour, ':' :: cs) =>
        match fixed? 2 cs with
        | some (minute, []) => hour ≤ 23 && minute ≤ 59
        | _ => false
      | _ => false

def isMoment (cs : List Char) : Bool :=
  match afterDate? cs with
  | some [] => true
  | some (c :: cs) =>
    (c = 'T' || c = 't' || c = ' ') && (afterTime? cs).any isOffset
  | none => afterTime? cs = some []

end Literal

/-- The value of a text without quotes. -/
def literal? (cs : List Char) : Option Literal :=
  if cs = ['t', 'r', 'u', 'e'] then some (.bool true)
  else if cs = ['f', 'a', 'l', 's', 'e'] then some (.bool false)
  else
    match Literal.integer? cs with
    | some n => some (.integer n)
    | none =>
      match Literal.float? cs with
      | some x => some (.float x)
      | none => if Literal.isMoment cs then some .moment else none

end JerkLimit.Toml
