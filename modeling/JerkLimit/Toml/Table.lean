import JerkLimit.Toml.Literal

/-!
# Toml/Table — documents as trees of tables

A table remembers how it came about, because that decides what may be added to it. `insert` adds the
value of a key and `openTable` a table of its own; both refuse what is there already, and both walk
through `descend`, which makes the tables that a path needs.
-/

namespace JerkLimit.Toml

/-- How a table came about. -/
inductive Origin where
  /-- By a header of its own; the whole document counts as such. -/
  | header
  /-- On the way to the table of a header. -/
  | implied
  /-- On the way to the value of a dotted key. -/
  | dotted
  /-- Between braces. -/
  | inline
  deriving DecidableEq, Repr

/-- Whether only a longer path has brought a table about. -/
def Origin.isImplicit : Origin → Bool
  | implied | dotted => true
  | header | inline => false

inductive Node where
  | text (s : String)
  | literal (l : Literal)
  | array (xs : List Node)
  | table (origin : Origin) (entries : List (String × Node))
  /-- The tables of repeated headers, in order. -/
  | tables (xs : List Node)
  deriving Inhabited

abbrev Entries : Type := List (String × Node)

namespace Entries

/-- Replaces the value of a key in its place, or adds it at the end. -/
def put (key : String) (x : Node) : Entries → Entries
  | [] => [(key, x)]
  | (k, y) :: es => if k = key then (k, x) :: es else (k, y) :: put key x es

/-- Changes the table at the end of a path, making the tables on the way; of repeated tables the
last one is meant. A dotted key must not reach into a table that has a header. -/
def descend (dotted : Bool) (change : Origin → Entries → Option Entries) :
    List String → Origin → Entries → Option Entries
  | [], origin, es => change origin es
  | key :: path, _, es =>
    match es.lookup key with
    | none => do
      let origin : Origin := if dotted then .dotted else .implied
      return put key (.table origin (← descend dotted change path origin [])) es
    | some (.table .inline _) => none
    | some (.table origin sub) =>
      if dotted && !origin.isImplicit then none
      else do return put key (.table origin (← descend dotted change path origin sub)) es
    | some (.tables xs) =>
      match xs.getLast? with
      | some (.table origin sub) => do
        let last := Node.table origin (← descend dotted change path origin sub)
        return put key (.tables (xs.dropLast ++ [last])) es
      | _ => none
    | some _ => none

/-- Adds a value that is not there yet. -/
def add (key : String) (x : Node) (es : Entries) : Option Entries :=
  if (es.lookup key).isSome then none else some (es ++ [(key, x)])

/-- Adds the value of a key to a table. The path before a dotted key must end in a table that came
about in this way. -/
def insert (origin : Origin) (es : Entries) (path : List String) (key : String) (x : Node) :
    Option Entries :=
  descend true (fun o es => if (o = .dotted) = !path.isEmpty then add key x es else none)
    path origin es

/-- Makes the table of a header. A table that is only implied becomes this table. -/
def openTable (path : List String) (key : String) (fill : Entries → Option Entries)
    (es : Entries) : Option Entries :=
  descend false (fun _ es =>
    match es.lookup key with
    | none => do return put key (.table .header (← fill [])) es
    | some (.table .implied sub) => do return put key (.table .header (← fill sub)) es
    | some _ => none) path .header es

/-- Adds a table to the repeated tables of a header. -/
def appendTable (path : List String) (key : String) (fill : Entries → Option Entries)
    (es : Entries) : Option Entries :=
  descend false (fun _ es =>
    match es.lookup key with
    | none => do return put key (.tables [.table .header (← fill [])]) es
    | some (.tables xs) => do return put key (.tables (xs ++ [.table .header (← fill [])])) es
    | some _ => none) path .header es

/-- A table from keys with their values. -/
def insertAll (origin : Origin) (es : Entries) (values : List (List String × Node)) :
    Option Entries :=
  values.foldlM (fun es (keys, x) =>
    match keys.getLast? with
    | none => none
    | some key => insert origin es keys.dropLast key x) es

end Entries

/-- The headers of a document with the keys below each. -/
structure Section where
  path : List String
  /-- Whether the header may be repeated. -/
  repeated : Bool
  values : List (List String × Node)

/-- Adds a section to a document. -/
def Section.addTo (s : Section) (es : Entries) : Option Entries :=
  match s.path.getLast? with
  | none => none
  | some key =>
    let fill (es : Entries) := es.insertAll .header s.values
    if s.repeated then es.appendTable s.path.dropLast key fill
    else es.openTable s.path.dropLast key fill

/-! ## Reading tables -/

namespace Node

mutual

/-- Whether there is a way to read a value and all values in it. -/
def readable : Node → Bool
  | text _ => true
  | literal l => l.readable
  | array xs | tables xs => readableAll xs
  | table _ es => readableFields es

def readableAll : List Node → Bool
  | [] => true
  | x :: xs => x.readable && readableAll xs

def readableFields : List (String × Node) → Bool
  | [] => true
  | (_, x) :: es => x.readable && readableFields es

end

/-- A list, of values or of repeated tables. -/
def list? : Node → Option (List Node)
  | array xs => some xs
  | tables xs => some xs
  | _ => none

/-- The known fields of a record, which is a table or the list of its first fields. A date or a time
is a record too, without any of them. The other fields of a table must be readable, but what stands
in a list after the last field counts for nothing. -/
def record (known : List String) : Node → Option (List (Option Node))
  | table _ es =>
    if readableFields (es.filter fun e => !known.contains e.1) then
      some (known.map fun key => es.lookup key)
    else none
  | literal .moment => some (known.map fun _ => none)
  | x => x.list?.map fun xs =>
    (xs.take known.length).map some ++ List.replicate (known.length - xs.length) none

def string? : Node → Option String
  | text s => some s
  | _ => none

/-- A number, whole or not. A whole number must fit a word. -/
def float? : Node → Option Float
  | literal (.float x) => x
  | literal (.integer n) => if Literal.isWord n then some (Float.ofInt n) else none
  | _ => none

/-- A whole number that fits a word and is not negative. -/
def natural? : Node → Option Nat
  | literal (.integer n) => if 0 ≤ n && Literal.isWord n then some n.toNat else none
  | _ => none

/-- One of several names, as a string or as the only key of a table, with nothing as its value. -/
def choice? {α : Type} (f : String → Option α) : Node → Option α
  | text s => f s
  | table _ [(key, x)] =>
    match x with
    | array [] => f key
    | table _ [] => f key
    | _ => none
  | _ => none

/-- A field that may be left out. -/
def field {α : Type} (f : Node → Option α) (default : α) : Option Node → Option α
  | none => some default
  | some x => f x

/-- A number that may be left out. -/
def numberField (default : Float) (x : Option Node) : Option Float := field float? default x

/-- A field for which nothing stands if it is left out. -/
def optionalField {α : Type} (f : Node → Option α) (x : Option Node) : Option (Option α) :=
  field (fun x => (f x).map some) none x

end Node

end JerkLimit.Toml
