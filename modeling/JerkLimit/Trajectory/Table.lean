import JerkLimit.Decimal
import JerkLimit.Trajectory

/-!
# Trajectory/Table — the motion of one joint as a table

One row per waypoint, with the time since the first one. As text a table has a line of titles, then
a line per row with commas between the numbers.
-/

namespace JerkLimit

/-- One joint at one time. -/
structure Row (K : Type) where
  time : K
  position : K
  velocity : K
  acceleration : K
  deriving Repr

variable {K : Type} [Scalar K]

/-- The times of waypoints that follow on the time `now`. -/
@[specialize] def timesAfter (now : K) : List (Waypoint K) → List K
  | [] => []
  | w :: ws => (now + w.duration) :: timesAfter (now + w.duration) ws

namespace Trajectory

/-- The times of all waypoints, from 0 on. -/
@[specialize] def times (t : Trajectory K) : List K :=
  match t.waypoints with
  | [] => []
  | _ :: rest => 0.0 :: timesAfter 0.0 rest

/-- The rows of a joint, for which every waypoint must have values. -/
@[specialize] def rows (t : Trajectory K) (joint : Nat) : Except Fault (List (Row K)) :=
  (t.times.zip t.waypoints).mapM fun (time, w) => do
    return {
      time
      position := ← entry w.state.position joint
      velocity := ← entry w.state.velocity joint
      acceleration := ← entry w.state.acceleration joint }

end Trajectory

/-- Values with commas between them, as a line. -/
def tableLine (values : List String) : String := ",".intercalate values ++ "\n"

def Row.line (r : Row Float) : String :=
  tableLine ([r.time, r.position, r.velocity, r.acceleration].map Decimal.text)

/-- The text of a table. -/
def tableText (rows : List (Row Float)) : String :=
  tableLine ["time", "position", "velocity", "acceleration"] ++ String.join (rows.map Row.line)

end JerkLimit
