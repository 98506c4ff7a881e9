import JerkLimit.Files
import JerkLimit.Json.Printer
import JerkLimit.Json.Reader
import JerkLimit.Settings.Document
import JerkLimit.Trajectory.Document
import JerkLimit.Trajectory.Table

/-!
# Archive — trajectories and settings in files

`Trajectory.load` and `Trajectory.save` keep a trajectory as a JSON document,
`Trajectory.exportTables` writes one table per joint, and `Settings.load` reads settings.
-/

namespace JerkLimit

/-- Why a file operation failed. -/
inductive ArchiveError where
  /-- A file or a directory cannot be had. -/
  | inaccessible
  /-- The text is not a document of the expected form. -/
  | malformed
  /-- The file of a table cannot be made. -/
  | unwritable
  | waypoints (e : WaypointError Float)
  deriving DecidableEq, Repr

/-- The trajectory that a document describes. What it leaves out is filled in, and its shape is
checked. -/
def Trajectory.accept (x : Json.Value) : Except ArchiveError (Trajectory Float) :=
  match ofDocument? x with
  | none => .error .malformed
  | some t =>
    match t.normalize with
    | (t, .ok ()) => .ok t
    | (_, .error e) => .error (.waypoints e)

/-- The trajectory in the text of a document. -/
def Trajectory.decode (bytes : ByteArray) : Except ArchiveError (Trajectory Float) :=
  match Json.read? bytes.toList with
  | none => .error .malformed
  | some x => accept x

def Trajectory.encode (t : Trajectory Float) : String := t.toDocument.print 0

variable {m : Type → Type} [Monad m] [FileSystem m]

namespace Trajectory

def load (path : String) : m (Except ArchiveError (Trajectory Float)) := do
  match ← FileSystem.read path with
  | none => return .error .inaccessible
  | some bytes => return decode bytes

/-- Writes a file, in place of an old one. -/
def save (path : String) (t : Trajectory Float) : m (Except ArchiveError Unit) := do
  if ← FileSystem.create path then
    FileSystem.append path t.encode
    return .ok ()
  else return .error .inaccessible

/-- Writes the table of a joint. The file is made before the rows are known. -/
def exportTable (path : String) (t : Trajectory Float) (joint : Nat) :
    m (Except (Stop ArchiveError) Unit) := do
  if ← FileSystem.create path then
    match t.rows joint with
    | .error f => return .error (.fault f)
    | .ok rows =>
      FileSystem.append path (tableText rows)
      return .ok ()
  else return .error (.error .unwritable)

/-- The path of the table of a joint. -/
def tablePath (directory title : String) (j : Joint Float) : String :=
  joinPath directory (title ++ j.name ++ ".csv")

/-- Writes the tables of joints, counting from `joint`; the answer is their paths. -/
def exportFrom (directory title : String) (t : Trajectory Float) :
    Nat → List (Joint Float) → m (Except (Stop ArchiveError) (List String))
  | _, [] => return .ok []
  | joint, j :: js => do
    match ← t.exportTable (tablePath directory title j) joint with
    | .error e => return .error e
    | .ok () =>
      match ← exportFrom directory title t (joint + 1) js with
      | .error e => return .error e
      | .ok paths => return .ok (tablePath directory title j :: paths)

/-- Writes the tables of all joints into a directory, which is made if need be. The name of a file
is a title and the name of the joint. -/
def exportTables (directory title : String) (t : Trajectory Float) :
    m (Except (Stop ArchiveError) (List String)) := do
  if ← FileSystem.makeDirectories directory then t.exportFrom directory title 0 t.joints
  else return .error (.error .inaccessible)

end Trajectory

/-- Reads settings, which must be text. -/
def Settings.load (path : String) : m (Except (SettingsError Float) (Settings Float)) := do
  match (← FileSystem.read path).bind String.fromUTF8? with
  | none => return .error .unreadable
  | some text => return parse text

end JerkLimit
