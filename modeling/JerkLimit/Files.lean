/-!
# Files — reading and writing by path

`FileSystem` is what the library asks of the world: four operations on paths. `Files` is a world of
its own, a map from locations to contents, in which `StateM Files` is a file system. A path is
walked name by name, so `a/../b` needs a directory `a`.
-/

namespace JerkLimit

/-- Access to files by path. -/
class FileSystem (m : Type → Type) where
  /-- The content of a file, if there is such a file. -/
  read : String → m (Option ByteArray)
  /-- Makes an empty file, also in place of an old one; answers whether that could be done. -/
  create : String → m Bool
  /-- Adds text to the end of a file. -/
  append : String → String → m Unit
  /-- Makes a directory and those on the way to it; answers whether it is there afterwards. -/
  makeDirectories : String → m Bool

/-! ## Paths -/

/-- The parts between slashes. -/
def splitPath : List Char → List (List Char)
  | [] => [[]]
  | '/' :: cs => [] :: splitPath cs
  | c :: cs =>
    match splitPath cs with
    | [] => [[c]]
    | part :: parts => (c :: part) :: parts

/-- The names along a path. -/
def pathNames (path : String) : List String := (splitPath path.toList).map String.ofList

/-- Whether a path ends in `.`, with or without slashes after it. -/
def endsInDot (names : List String) : Bool :=
  (names.reverse.dropWhile (· = "")).head? = some "."

/-- The names before the last one that leads somewhere. -/
def namesBefore (names : List String) : List String :=
  (names.reverse.dropWhile fun name => name = "" || name = ".").tail.reverse

/-- Whether a path is short enough to be used. -/
def isUsable (path : String) : Bool := path.utf8ByteSize < 4096

def isAbsolute (path : String) : Bool := path.toList.head? = some '/'

/-- The path of a file in a directory. An absolute path stands for itself. -/
def joinPath (directory file : String) : String :=
  if isAbsolute file || directory.isEmpty then file
  else if directory.toList.getLast? = some '/' then directory ++ file
  else directory ++ "/" ++ file

/-- A name that a file can have: not too long, and none that means a place already. -/
def isFileName (name : String) : Bool :=
  name ≠ "" && name ≠ "." && name ≠ ".." && name.utf8ByteSize ≤ 255 && !name.toList.contains '\x00'

/-! ## A world of files -/

/-- The names that lead from the root to a place, the last one first. -/
abbrev Location : Type := List String

inductive FileEntry where
  | directory
  | file (content : ByteArray)

structure Files where
  entries : List (Location × FileEntry) := []
  /-- The directory that relative paths start from. -/
  current : Location := []

namespace Files

/-- What is at a location. The root is always there. -/
def entry (f : Files) : Location → Option FileEntry
  | [] => some .directory
  | place => f.entries.lookup place

def put (f : Files) (place : Location) (e : FileEntry) : Files :=
  { f with entries := (place, e) :: f.entries.filter (·.1 ≠ place) }

/-- Where a walk along a path starts. -/
def start (f : Files) (path : String) : Location := if isAbsolute path then [] else f.current

/-- Walks through directories. -/
def walk (f : Files) : Location → List String → Option Location
  | here, [] => some here
  | here, name :: names =>
    if name = "" || name = "." then walk f here names
    else if name = ".." then walk f here.tail names
    else
      match f.entry (name :: here) with
      | some .directory => walk f (name :: here) names
      | _ => none

/-- The location of the file that a path names, whether it is there or not. -/
def locate (f : Files) (path : String) : Option Location :=
  match (pathNames path).reverse with
  | name :: names =>
    if isFileName name && isUsable path then
      (f.walk (f.start path) names.reverse).map (name :: ·)
    else none
  | [] => none

def read (f : Files) (path : String) : Option ByteArray := do
  match f.entry (← f.locate path) with
  | some (.file content) => some content
  | _ => none

def create (f : Files) (path : String) : Bool × Files :=
  match f.locate path with
  | none => (false, f)
  | some place =>
    match f.entry place with
    | some .directory => (false, f)
    | _ => (true, f.put place (.file .empty))

def append (f : Files) (path text : String) : Files :=
  match f.locate path with
  | none => f
  | some place =>
    match f.entry place with
    | some (.file content) => f.put place (.file (content ++ text.toUTF8))
    | _ => f

/-- Walks through directories and makes the missing ones. -/
def makeAlong : Location → List String → Files → Bool × Files
  | _, [], f => (true, f)
  | here, name :: names, f =>
    if name = "" || name = "." then makeAlong here names f
    else if name = ".." then makeAlong here.tail names f
    else
      match f.entry (name :: here) with
      | some .directory => makeAlong (name :: here) names f
      | some (.file _) => (false, f)
      | none =>
        if isFileName name then makeAlong (name :: here) names (f.put (name :: here) .directory)
        else (false, f)

/-- Makes a directory and those on the way to it. A path that ends in `.` asks for a directory that
is there, so only those before its last step are made. -/
def makeDirectories (f : Files) (path : String) : Bool × Files :=
  let names := pathNames path
  if !isUsable path then (false, f)
  else if endsInDot names then
    let (made, f) := makeAlong (f.start path) (namesBefore names) f
    (made && (f.walk (f.start path) names).isSome, f)
  else makeAlong (f.start path) names f

/-- The files in a directory, with their names. -/
def list (f : Files) (directory : Location) : List (String × ByteArray) :=
  f.entries.filterMap fun
    | (name :: place, .file content) => if place = directory then some (name, content) else none
    | _ => none

end Files

instance : FileSystem (StateM Files) where
  read path := fun f => (f.read path, f)
  create path := fun f => f.create path
  append path text := fun f => ((), f.append path text)
  makeDirectories path := fun f => f.makeDirectories path

end JerkLimit
