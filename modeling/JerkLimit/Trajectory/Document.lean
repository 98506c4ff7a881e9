import JerkLimit.Json.Value
import JerkLimit.Trajectory

/-!
# Trajectory/Document — trajectories as JSON documents

`Trajectory.toDocument` writes every field; `Trajectory.ofDocument?` also reads documents that leave
out what has a default. The group of a trajectory and the bounds of a joint may be `null`.
-/

namespace JerkLimit

open Json (Value)

/-! ## Writing -/

namespace Json.Value

/-- A finite number; what is not finite becomes `null`. -/
def ofFloat (x : Float) : Value := if x.isFinite then number (some x) else null

def ofText (s : String) : Value := string (some s)

def ofFloats (xs : List Float) : Value := array (xs.map ofFloat)

def ofOption {α : Type} (f : α → Value) : Option α → Value
  | none => null
  | some x => f x

/-- An object with fields of the given names. -/
def fields (xs : List (String × Value)) : Value := object (xs.map fun (name, x) => (some name, x))

end Json.Value

def Bounds.toDocument (b : Bounds Float) : Value :=
  .fields
    [("max_velocity", .ofOption .ofFloat b.velocity),
      ("max_acceleration", .ofOption .ofFloat b.acceleration),
      ("max_jerk", .ofOption .ofFloat b.jerk)]

def Joint.toDocument (j : Joint Float) : Value :=
  .fields
    [("name", .ofText j.name), ("kind", .ofText j.kind.name), ("bounds", j.bounds.toDocument)]

def Waypoint.toDocument (w : Waypoint Float) : Value :=
  .fields
    [("position", .ofFloats w.state.position), ("velocity", .ofFloats w.state.velocity),
      ("acceleration", .ofFloats w.state.acceleration),
      ("duration_from_previous", .ofFloat w.duration)]

def Trajectory.toDocument (t : Trajectory Float) : Value :=
  .fields
    [("group", .ofOption .ofText t.group), ("joints", .array (t.joints.map Joint.toDocument)),
      ("waypoints", .array (t.waypoints.map Waypoint.toDocument))]

/-! ## Reading -/

def Bounds.ofDocument? (x : Value) : Option (Bounds Float) := do
  match ← x.record ["max_velocity", "max_acceleration", "max_jerk"] with
  | [velocity, acceleration, jerk] =>
    return {
      velocity := ← Value.field (Value.nullable? Value.float?) none velocity
      acceleration := ← Value.field (Value.nullable? Value.float?) none acceleration
      jerk := ← Value.field (Value.nullable? Value.float?) none jerk }
  | _ => none

def Joint.ofDocument? (x : Value) : Option (Joint Float) := do
  match ← x.record ["name", "kind", "bounds"] with
  | [name, kind, bounds] =>
    return {
      name := ← (← name).string?
      kind := ← Value.field (Value.choice? JointKind.ofName?) .revolute kind
      bounds := ← Value.field Bounds.ofDocument? {} bounds }
  | _ => none

/-- How deep the fields of a waypoint may be nested, including those that nobody knows. -/
def Waypoint.maxDepth : Nat := 124

/-- A waypoint is an object, never a list. Its fields have to be readable, known or not. -/
def Waypoint.ofDocument? (x : Value) : Option (Waypoint Float) := do
  let .object fields := x | none
  let isReadable := fields.all fun (name, y) =>
    name == some "duration_from_previous" || y.readable maxDepth
  if !isReadable then none
  else
    match ← Value.lookup ["position", "velocity", "acceleration", "duration_from_previous"]
        fields with
    | [position, velocity, acceleration, duration] =>
      return {
        state := {
          position := ← (← position).list? Value.float?
          velocity := ← Value.field (Value.list? Value.float?) [] velocity
          acceleration := ← Value.field (Value.list? Value.float?) [] acceleration }
        duration := ← Value.field Value.float? 0.0 duration }
    | _ => none

def Trajectory.ofDocument? (x : Value) : Option (Trajectory Float) := do
  match ← x.record ["group", "joints", "waypoints"] with
  | [group, joints, waypoints] =>
    return {
      group := ← Value.field (Value.nullable? Value.string?) none group
      joints := ← (← joints).list? Joint.ofDocument?
      waypoints := ← Value.field (Value.list? Waypoint.ofDocument?) [] waypoints }
  | _ => none

end JerkLimit
