/-!
# Json/Value — JSON documents as trees

A document may hold numbers beyond the range of doubles and strings that are no Unicode text. They
are kept as `none`, because whoever skips a value does not mind; whoever reads it refuses it.
-/

namespace JerkLimit.Json

inductive Value where
  | null
  | bool (b : Bool)
  /-- A number, unless it is out of range. -/
  | number (x : Option Float)
  /-- A string, unless it is not text. -/
  | string (s : Option String)
  | array (xs : List Value)
  /-- Fields in the order in which they are written; a name may come twice. -/
  | object (fields : List (Option String × Value))
  deriving Inhabited

namespace Value

mutual

/-- Whether every number and string can be read, and nothing is nested deeper than `depth`. -/
def readable (depth : Nat) : Value → Bool
  | null => true
  | bool _ => true
  | number x => x.isSome
  | string s => s.isSome
  | array xs =>
    match depth with
    | 0 => false
    | depth + 1 => readableAll depth xs
  | object fields =>
    match depth with
    | 0 => false
    | depth + 1 => readableFields depth fields

def readableAll (depth : Nat) : List Value → Bool
  | [] => true
  | x :: xs => readable depth x && readableAll depth xs

def readableFields (depth : Nat) : List (Option String × Value) → Bool
  | [] => true
  | (name, x) :: fields => name.isSome && readable depth x && readableFields depth fields

end

/-- The value of each of the known fields, if every field has a readable name and no known one comes
twice. -/
def lookup (known : List String) (fields : List (Option String × Value)) :
    Option (List (Option Value)) :=
  if fields.all (·.1.isSome) then
    known.mapM fun name =>
      match fields.filter (·.1 == some name) with
      | [] => some none
      | [(_, x)] => some (some x)
      | _ => none
  else none

/-- The known fields of a record, which is an object or the list of its first fields. -/
def record (known : List String) : Value → Option (List (Option Value))
  | object fields => lookup known fields
  | array xs =>
    if xs.length ≤ known.length then
      some (xs.map some ++ List.replicate (known.length - xs.length) none)
    else none
  | _ => none

/-- A number in the range of doubles. -/
def float? : Value → Option Float
  | number x => x.filter Float.isFinite
  | _ => none

def string? : Value → Option String
  | string s => s
  | _ => none

/-- A list whose entries all have the given form. -/
def list? {α : Type} (f : Value → Option α) : Value → Option (List α)
  | array xs => xs.mapM f
  | _ => none

/-- `null`, or a value of the given form. -/
def nullable? {α : Type} (f : Value → Option α) : Value → Option (Option α)
  | null => some none
  | x => (f x).map some

/-- One of several names, as a string or as an object with this only name for `null`. -/
def choice? {α : Type} (f : String → Option α) : Value → Option α
  | string s => s.bind f
  | object [(name, null)] => name.bind f
  | _ => none

/-- A field that may be left out. -/
def field {α : Type} (f : Value → Option α) (default : α) : Option Value → Option α
  | none => some default
  | some x => f x

end Value

end JerkLimit.Json
