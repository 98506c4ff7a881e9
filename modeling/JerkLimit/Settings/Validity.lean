import JerkLimit.Settings

/-!
# Settings/Validity — which settings make sense

Every `Tunable` has one `Demand` on its value. `Settings.check` goes through them in a fixed order,
with the relations between settings in between and the bounds of the overrides at the end, and
reports what fails first.
-/

namespace JerkLimit

open Scalar

/-- What is asked of a number. -/
inductive Demand where
  | positive
  /-- Above 0 and at most 1. -/
  | fraction
  /-- Above 0 and below 1. -/
  | properFraction
  | aboveOne
  | atLeastOne
  deriving DecidableEq, Repr

/-- The numbers among the settings. -/
inductive Tunable where
  | streamingJerk
  | unboundedAcceleration
  | batchVelocity
  | batchAcceleration
  | batchJerk
  | period
  | identicalDistance
  | speedFloor
  | sampleTimeStep
  | seamTimeStep
  | velocityScale
  | accelerationScale
  | deratingFactor
  | extensionFactor
  | growth
  | durationFactor
  | coefficient
  deriving DecidableEq, Repr

/-- Why settings are not accepted. -/
inductive SettingsError (K : Type) where
  /-- There is no such file, or it is not text. -/
  | unreadable
  /-- The text is not a document of the expected form. -/
  | malformed
  | unknownStrategy (name : String)
  | unmet (demand : Demand) (tunable : Tunable) (value : K)
  | noAttempts
  /-- The largest coefficient is below the one to start from. -/
  | coefficientRange (largest start : K)
  | overrideBound (joint : String) (quantity : Quantity) (value : K)
  deriving Repr

variable {K : Type} [Scalar K]

@[specialize] def Demand.holds (x : K) : Demand → Bool
  | positive => isPositive x
  | fraction => 0.0 < x && x ≤ 1.0
  | properFraction => 0.0 < x && x < 1.0
  | aboveOne => isFinite x && 1.0 < x
  | atLeastOne => 1.0 ≤ x

def Tunable.value (s : Settings K) : Tunable → K
  | streamingJerk => s.limits.streamingJerk
  | unboundedAcceleration => s.limits.unboundedAcceleration
  | batchVelocity => s.limits.batchVelocity
  | batchAcceleration => s.limits.batchAcceleration
  | batchJerk => s.limits.batchJerk
  | period => s.streaming.period
  | identicalDistance => s.chained.identicalDistance
  | speedFloor => s.chained.speedFloor
  | sampleTimeStep => s.segmentwise.timeStep
  | seamTimeStep => s.seam.timeStep
  | velocityScale => s.chained.velocityScale
  | accelerationScale => s.chained.accelerationScale
  | deratingFactor => s.chained.deratingFactor
  | extensionFactor => s.chained.extensionFactor
  | growth => s.seam.growth
  | durationFactor => s.segmentwise.durationFactor
  | coefficient => s.seam.coefficient

def Tunable.demand : Tunable → Demand
  | streamingJerk | unboundedAcceleration | batchVelocity | batchAcceleration | batchJerk
  | period | identicalDistance | speedFloor | sampleTimeStep | seamTimeStep => .positive
  | velocityScale | accelerationScale => .fraction
  | deratingFactor => .properFraction
  | extensionFactor | growth => .aboveOne
  | durationFactor | coefficient => .atLeastOne

namespace Settings

@[specialize] def checkTunable (s : Settings K) (t : Tunable) : Except (SettingsError K) Unit :=
  ensure (t.demand.holds (t.value s)) (.unmet t.demand t (t.value s))

/-- The tunables that are checked before everything else, in order. -/
def leadingTunables : List Tunable :=
  [.streamingJerk, .unboundedAcceleration, .batchVelocity, .batchAcceleration, .batchJerk, .period,
    .identicalDistance, .speedFloor, .sampleTimeStep, .seamTimeStep, .velocityScale,
    .accelerationScale, .deratingFactor, .extensionFactor, .growth, .durationFactor]

@[specialize] def checkBound (joint : String) (quantity : Quantity) :
    Option K → Except (SettingsError K) Unit
  | none => .ok ()
  | some x => ensure (isPositive x) (.overrideBound joint quantity x)

@[specialize] def checkOverride (o : JointOverride K) : Except (SettingsError K) Unit := do
  checkBound o.name .velocity o.bounds.velocity
  checkBound o.name .acceleration o.bounds.acceleration
  checkBound o.name .jerk o.bounds.jerk

@[specialize] def check (s : Settings K) : Except (SettingsError K) Unit := do
  leadingTunables.forM s.checkTunable
  ensure (s.chained.maxAttempts ≠ 0) .noAttempts
  s.checkTunable .coefficient
  ensure (s.seam.coefficient ≤ s.seam.maxCoefficient)
    (.coefficientRange s.seam.maxCoefficient s.seam.coefficient)
  s.joints.forM checkOverride

end Settings

/-! ## Strategies by name -/

/-- A name in lower case with underscores for hyphens. -/
def plainName (name : String) : String :=
  String.ofList (name.toList.map fun c => if c = '-' then '_' else c.toLower)

/-- The strategy that a person asks for, however it is spelled. -/
def StrategyKind.select (name : String) : Except (SettingsError K) StrategyKind :=
  let name := plainName name
  if name = "streaming" then .ok .streaming
  else if name = "segment_chained" || name = "batch" then .ok .chained
  else if name = "segmentwise" then .ok .segmentwise
  else .error (.unknownStrategy name)

end JerkLimit
