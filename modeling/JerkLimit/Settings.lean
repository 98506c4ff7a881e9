import JerkLimit.Limits
import JerkLimit.Trajectory

/-!
# Settings — every tunable of the smoothing strategies

`Settings` has one section per strategy, one for the limits that joints leave undefined and one list
of overrides for single joints. The default of each section is what applies when nothing is said.
-/

namespace JerkLimit

/-- Which way a trajectory is smoothed. -/
inductive StrategyKind where
  /-- Every waypoint is one control cycle of the command stream. -/
  | streaming
  /-- Segments are corrected one after the other, with longer durations on failure. -/
  | chained
  /-- Segments are sampled densely and independently, then their seams are filtered. -/
  | segmentwise
  deriving DecidableEq, Repr

namespace StrategyKind

/-- The name in documents. -/
def name : StrategyKind → String
  | streaming => "streaming"
  | chained => "segment_chained"
  | segmentwise => "segmentwise"

def ofName? (name : String) : Option StrategyKind :=
  [streaming, chained, segmentwise].find? (·.name == name)

end StrategyKind

inductive SeamMode where
  /-- Counts violations of the bound and leaves it at that. -/
  | detectOnly
  /-- Raises the coefficient until there are no violations. -/
  | adaptive
  deriving DecidableEq, Repr

namespace SeamMode

/-- The name in documents. -/
def name : SeamMode → String
  | detectOnly => "detect_only"
  | adaptive => "adaptive"

def ofName? (name : String) : Option SeamMode :=
  [detectOnly, adaptive].find? (·.name == name)

end SeamMode

structure StreamSettings (K : Type) where
  /-- The time of a control cycle. -/
  period : K
  deriving Repr

structure ChainSettings (K : Type) where
  velocityScale : K
  accelerationScale : K
  /-- Waypoints that are closer than this count as identical. -/
  identicalDistance : K
  /-- The factor of one de-rating step. -/
  deratingFactor : K
  /-- De-rating ends when the target speed is down to this. -/
  speedFloor : K
  /-- The factor on all durations from one attempt to the next. -/
  extensionFactor : K
  maxAttempts : Nat
  deriving Repr

structure DenseSettings (K : Type) where
  timeStep : K
  /-- A segment may take at most this multiple of its requested duration. -/
  durationFactor : K
  deriving Repr

structure SeamSettings (K : Type) where
  coefficient : K
  /-- The time between samples in the bound on their distance. -/
  timeStep : K
  mode : SeamMode
  /-- The factor from one coefficient to the next. -/
  growth : K
  maxCoefficient : K
  deriving Repr

/-- What is set for the joint of a name. -/
structure JointOverride (K : Type) where
  name : String
  kind : Option JointKind := none
  bounds : Bounds K := {}
  deriving Repr

structure Settings (K : Type) where
  /-- The group of trajectories that come without one. -/
  group : Option String
  strategy : StrategyKind
  limits : Fallbacks K
  streaming : StreamSettings K
  chained : ChainSettings K
  segmentwise : DenseSettings K
  seam : SeamSettings K
  joints : List (JointOverride K)
  deriving Repr

variable {K : Type} [Scalar K]

instance : Inhabited (StreamSettings K) where
  default := { period := 0.01 }

instance : Inhabited (ChainSettings K) where
  default :=
    { velocityScale := 1.0
      accelerationScale := 1.0
      identicalDistance := 1e-3
      deratingFactor := 0.9
      speedFloor := 0.01
      extensionFactor := 1.1
      maxAttempts := 5 }

instance : Inhabited (DenseSettings K) where
  default := { timeStep := 0.001, durationFactor := 100.0 }

instance : Inhabited (SeamSettings K) where
  default :=
    { coefficient := 20.0
      timeStep := 0.001
      mode := .detectOnly
      growth := 1.5
      maxCoefficient := 200.0 }

instance : Inhabited (Settings K) where
  default :=
    { group := none
      strategy := .chained
      limits := default
      streaming := default
      chained := default
      segmentwise := default
      seam := default
      joints := [] }

/-! ## Overrides -/

/-- What is set takes the place of what was there. -/
def Bounds.override (old new : Bounds K) : Bounds K :=
  { velocity := new.velocity <|> old.velocity
    acceleration := new.acceleration <|> old.acceleration
    jerk := new.jerk <|> old.jerk }

def JointOverride.applyTo (o : JointOverride K) (j : Joint K) : Joint K :=
  { j with kind := o.kind.getD j.kind, bounds := j.bounds.override o.bounds }

/-- Applies an override to the first joint of its name, if there is one. -/
def JointOverride.applyToFirst (o : JointOverride K) : List (Joint K) → List (Joint K)
  | [] => []
  | j :: js => if j.name = o.name then o.applyTo j :: js else j :: o.applyToFirst js

/-- Gives a trajectory the group it lacks and applies the overrides in order. -/
def Settings.applyTo (s : Settings K) (t : Trajectory K) : Trajectory K :=
  { t with
    group := t.group <|> s.group
    joints := s.joints.foldl (fun js o => o.applyToFirst js) t.joints }

end JerkLimit
