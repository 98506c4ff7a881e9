import JerkLimit.Decimal
import JerkLimit.Json.Text
import JerkLimit.Json.Value

/-!
# Json/Printer — documents as indented text

Two blanks per level, one entry per line, no line break at the end. What is not a finite number is
`null`.
-/

namespace JerkLimit.Json

/-- The fewest digits that read back. The point stands in place from `0.00001` to below `10 ^ 16`,
whole numbers have one decimal, and exponents are signed. -/
def numberStyle : Decimal.Style :=
  { tie := .even, whole := ".0", positional := fun p => -5 < p && p ≤ 16 }

def printNumber (x : Float) : String :=
  if x.isFinite then numberStyle.finite x else "null"

/-- A line break and the indentation of a level. -/
def newline (level : Nat) : String := String.ofList ('\n' :: List.replicate (2 * level) ' ')

/-- Entries between brackets, one per line; without entries the brackets stand together. -/
def enclose (opening closing : String) (level : Nat) (entries : List String) : String :=
  match entries with
  | [] => opening ++ closing
  | _ =>
    opening ++ newline (level + 1) ++ ("," ++ newline (level + 1)).intercalate entries
      ++ newline level ++ closing

namespace Value

mutual

/-- The text of a value that starts on a line of the given level. -/
def print (level : Nat) : Value → String
  | null => "null"
  | bool b => if b then "true" else "false"
  | number none => "null"
  | number (some x) => printNumber x
  | string none => "null"
  | string (some s) => quote s
  | array xs => enclose "[" "]" level (printAll (level + 1) xs)
  | object fields => enclose "\x7b" "\x7d" level (printFields (level + 1) fields)

def printAll (level : Nat) : List Value → List String
  | [] => []
  | x :: xs => print level x :: printAll level xs

def printFields (level : Nat) : List (Option String × Value) → List String
  | [] => []
  | (name, x) :: fields =>
    (quote (name.getD "") ++ ": " ++ print level x) :: printFields level fields

end

end Value

end JerkLimit.Json
