import JerkLimit.Json.Token
import JerkLimit.Json.Value

/-!
# Json/Reader — from tokens to a document

A stack machine: the open arrays and objects are on a stack, and every token moves the machine or is
refused. Nothing but blanks may follow the one value of a document.
-/

namespace JerkLimit.Json

/-- An array or object that is not closed yet, its parts in reverse. -/
inductive Frame where
  | array (done : List Value)
  | object (done : List (Option String × Value)) (field : Option String)

/-- What comes next. -/
inductive Machine where
  | value (stack : List Frame)
  /-- Just after an array was opened. -/
  | valueOrClose (stack : List Frame)
  /-- Just after an object was opened. -/
  | nameOrClose (stack : List Frame)
  | name (done : List (Option String × Value)) (stack : List Frame)
  | colon (done : List (Option String × Value)) (field : Option String) (stack : List Frame)
  /-- After a value inside `frame`. -/
  | commaOrClose (frame : Frame) (stack : List Frame)
  | finished (v : Value)

namespace Machine

/-- Hands a complete value to what it is in. -/
def deliver (v : Value) : List Frame → Machine
  | [] => finished v
  | .array done :: stack => commaOrClose (.array (v :: done)) stack
  | .object done field :: stack => commaOrClose (.object ((field, v) :: done) none) stack

/-- A token where a value has to be. -/
def start (stack : List Frame) : Token → Option Machine
  | .openArray => some (valueOrClose stack)
  | .openObject => some (nameOrClose stack)
  | .null => some (deliver .null stack)
  | .bool b => some (deliver (.bool b) stack)
  | .number x => some (deliver (.number x) stack)
  | .string s => some (deliver (.string s) stack)
  | _ => none

def step : Machine → Token → Option Machine
  | value stack, t => start stack t
  | valueOrClose stack, .closeArray => some (deliver (.array []) stack)
  | valueOrClose stack, t => start (.array [] :: stack) t
  | nameOrClose stack, .closeObject => some (deliver (.object []) stack)
  | nameOrClose stack, .string s => some (colon [] s stack)
  | name done stack, .string s => some (colon done s stack)
  | colon done s stack, .colon => some (value (.object done s :: stack))
  | commaOrClose (.array done) stack, .comma => some (value (.array done :: stack))
  | commaOrClose (.array done) stack, .closeArray => some (deliver (.array done.reverse) stack)
  | commaOrClose (.object done _) stack, .comma => some (name done stack)
  | commaOrClose (.object done _) stack, .closeObject => some (deliver (.object done.reverse) stack)
  | _, _ => none

end Machine

/-- The document that a text is. -/
def read? (bytes : List UInt8) : Option Value := do
  match ← (← tokens? bytes).foldlM Machine.step (.value []) with
  | .finished v => some v
  | _ => none

end JerkLimit.Json
