import JerkLimit.Toml.Table
import JerkLimit.Toml.Token

/-!
# Toml/Reader — from tokens to a document

A machine with a stack of open arrays and inline tables reads one token at a time. A text without
quotes is put together from atoms and dots that touch, a date and a time also across one space.
Every finished line adds a key to the current section or begins a new one. Lines may end anywhere
in an array or an inline table, but not within a key.
-/

namespace JerkLimit.Toml

/-- What a value is part of; earlier parts are in reverse. -/
inductive Frame where
  | line (path : List String)
  | array (done : List Node)
  | inline (done : List (List String × Node)) (path : List String)

/-- What a key is for. -/
inductive Owner where
  | header (repeated : Bool)
  | line
  | inline (done : List (List String × Node)) (stack : List Frame)

/-- What comes next. -/
inductive Mode where
  | line
  /-- After the first bracket of a header. -/
  | header
  /-- A part of a key; the parts before it are in reverse. -/
  | part (owner : Owner) (path : List String)
  | afterPart (owner : Owner) (path : List String)
  /-- After the key of an inline table and the end of a line. -/
  | equals (path : List String) (done : List (List String × Node)) (stack : List Frame)
  /-- After the first of two brackets that close a repeated header. -/
  | closing (path : List String)
  | value (stack : List Frame)
  /-- In an array, after its bracket or a comma. -/
  | valueOrClose (done : List Node) (stack : List Frame)
  /-- In an inline table, after its brace or a comma. -/
  | keyOrClose (done : List (List String × Node)) (stack : List Frame)
  /-- In a text without quotes, in reverse; `dot` says that it must go on. -/
  | unquoted (chars : List Char) (dot : Bool) (stack : List Frame)
  /-- After a date and a space, where a time may follow. -/
  | gap (chars : List Char) (stack : List Frame)
  /-- After a value in an array or an inline table. -/
  | commaOrClose (frame : Frame) (stack : List Frame)
  | lineEnd

/-- A reader: what comes next, the sections in reverse. -/
structure Machine where
  mode : Mode
  root : List (List String × Node)
  sections : List Section

/-- How deep values may be nested, and how many parts a key may have. -/
def maxDepth : Nat := 80

/-- A key without quotes: ASCII letters and digits, underscores and hyphens. -/
def bareKey? (cs : List Char) : Option String :=
  if cs.all fun c => c.isAlphanum || c = '_' || c = '-' then some (String.ofList cs) else none

def Token.key? : Token → Option String
  | .atom cs => bareKey? cs
  | .text false s => some s
  | _ => none

namespace Machine

/-- Adds a key to the current section. -/
def addValue (m : Machine) (path : List String) (x : Node) : Machine :=
  match m.sections with
  | [] => { m with mode := .lineEnd, root := (path, x) :: m.root }
  | s :: rest =>
    { m with mode := .lineEnd, sections := { s with values := (path, x) :: s.values } :: rest }

/-- Begins a section; the parts of its path are in reverse. -/
def addSection (m : Machine) (path : List String) (repeated : Bool) : Machine :=
  { m with mode := .lineEnd, sections := ⟨path.reverse, repeated, []⟩ :: m.sections }

/-- Hands a complete value to what it is part of. -/
def deliver (m : Machine) (x : Node) : List Frame → Option Machine
  | .line path :: _ => some (m.addValue path x)
  | .array done :: stack => some { m with mode := .commaOrClose (.array (x :: done)) stack }
  | .inline done path :: stack =>
    some { m with mode := .commaOrClose (.inline ((path, x) :: done) []) stack }
  | [] => none

def closeInline (m : Machine) (done : List (List String × Node)) (stack : List Frame) :
    Option Machine := do
  m.deliver (.table .inline (← Entries.insertAll .inline [] done.reverse)) stack

/-- A token where a value has to be. -/
def startValue (m : Machine) (stack : List Frame) : Token → Option Machine
  | .blank _ => some { m with mode := .value stack }
  | .newline =>
    match stack with
    | .inline _ _ :: _ => some { m with mode := .value stack }
    | _ => none
  | .atom cs => some { m with mode := .unquoted cs.reverse false stack }
  | .text _ s => m.deliver (.text s) stack
  | .openBracket =>
    if stack.length ≤ maxDepth then some { m with mode := .valueOrClose [] stack } else none
  | .openBrace =>
    if stack.length ≤ maxDepth then some { m with mode := .keyOrClose [] stack } else none
  | _ => none

/-- A part of a key. -/
def addPart (m : Machine) (owner : Owner) (path : List String) (t : Token) : Option Machine := do
  let part ← t.key?
  if path.length < maxDepth then return { m with mode := .afterPart owner (part :: path) } else none

/-- The value of a key in an inline table begins. -/
def startInline (m : Machine) (path : List String) (done : List (List String × Node))
    (stack : List Frame) : Machine :=
  { m with mode := .value (.inline done path.reverse :: stack) }

/-- A token after a part of a key. -/
def afterPart (m : Machine) (owner : Owner) (path : List String) : Token → Option Machine
  | .blank _ => some { m with mode := .afterPart owner path }
  | .dot => some { m with mode := .part owner path }
  | .equals =>
    match owner with
    | .header _ => none
    | .line => some { m with mode := .value [.line path.reverse] }
    | .inline done stack => some (m.startInline path done stack)
  | .newline =>
    match owner with
    | .inline done stack => some { m with mode := .equals path done stack }
    | _ => none
  | .closeBracket =>
    match owner with
    | .header false => some (m.addSection path false)
    | .header true => some { m with mode := .closing path }
    | _ => none
  | _ => none

/-- A token after a value in an array or an inline table. -/
def afterValue (m : Machine) (frame : Frame) (stack : List Frame) : Token → Option Machine
  | .blank _ | .newline => some { m with mode := .commaOrClose frame stack }
  | .comma =>
    match frame with
    | .array done => some { m with mode := .valueOrClose done stack }
    | .inline done _ => some { m with mode := .keyOrClose done stack }
    | .line _ => none
  | .closeBracket =>
    match frame with
    | .array done => m.deliver (.array done.reverse) stack
    | _ => none
  | .closeBrace =>
    match frame with
    | .inline done _ => m.closeInline done stack
    | _ => none
  | _ => none

/-- A token in any mode but within a text without quotes. -/
def stepOutside (m : Machine) (t : Token) : Option Machine :=
  match m.mode with
  | .line =>
    match t with
    | .newline | .blank _ => some m
    | .openBracket => some { m with mode := .header }
    | _ => m.addPart .line [] t
  | .header =>
    match t with
    | .openBracket => some { m with mode := .part (.header true) [] }
    | .blank _ => some { m with mode := .part (.header false) [] }
    | _ => m.addPart (.header false) [] t
  | .part owner path =>
    match t with
    | .blank _ => some m
    | _ => m.addPart owner path t
  | .afterPart owner path => m.afterPart owner path t
  | .equals path done stack =>
    match t with
    | .newline | .blank _ => some m
    | .equals => some (m.startInline path done stack)
    | _ => none
  | .closing path => if t = .closeBracket then some (m.addSection path true) else none
  | .value stack => m.startValue stack t
  | .valueOrClose done stack =>
    match t with
    | .newline | .blank _ => some m
    | .closeBracket => m.deliver (.array done.reverse) stack
    | _ => m.startValue (.array done :: stack) t
  | .keyOrClose done stack =>
    match t with
    | .newline | .blank _ => some m
    | .closeBrace => m.closeInline done stack
    | _ => m.addPart (.inline done stack) [] t
  | .commaOrClose frame stack => m.afterValue frame stack t
  | .lineEnd =>
    match t with
    | .blank _ => some m
    | .newline => some { m with mode := .line }
    | _ => none
  | .unquoted .. | .gap .. => none

/-- The value of a text without quotes that has come to its end. -/
def endUnquoted (m : Machine) (chars : List Char) (stack : List Frame) : Option Machine := do
  m.deliver (.literal (← literal? chars.reverse)) stack

/-- Whether a text so far, in reverse, is a date that a time may follow. -/
def isDate (chars : List Char) : Bool := Literal.afterDate? chars.reverse = some []

def startsWithDigit : List Char → Bool
  | c :: _ => c.isDigit
  | [] => false

def step (m : Machine) (t : Token) : Option Machine :=
  match m.mode with
  | .unquoted chars dot stack =>
    match dot, t with
    | false, .dot => some { m with mode := .unquoted ('.' :: chars) true stack }
    | true, .atom cs => some { m with mode := .unquoted (cs.reverse ++ chars) false stack }
    | false, .blank single =>
      if single && isDate chars then some { m with mode := .gap chars stack }
      else do (← m.endUnquoted chars stack).stepOutside t
    | _, _ => do (← m.endUnquoted chars stack).stepOutside t
  | .gap chars stack =>
    match t with
    | .atom cs =>
      if startsWithDigit cs then
        some { m with mode := .unquoted (cs.reverse ++ ' ' :: chars) false stack }
      else none
    | _ => do (← m.endUnquoted chars stack).stepOutside t
  | _ => m.stepOutside t

end Machine

/-- The document that a text is. -/
def read? (text : String) : Option Entries := do
  let m ← (← tokens? text).foldlM Machine.step ⟨.line, [], []⟩
  let m ← m.step .newline
  match m.mode with
  | .line =>
    let root ← Entries.insertAll .header [] m.root.reverse
    m.sections.reverse.foldlM
      (fun es s => Section.addTo { s with values := s.values.reverse } es) root
  | _ => none

end JerkLimit.Toml
