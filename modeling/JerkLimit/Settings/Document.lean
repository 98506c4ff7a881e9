import JerkLimit.Settings.Validity
import JerkLimit.Toml.Reader

/-!
# Settings/Document — settings as a TOML document

Every section is a record whose fields are all optional but the name of an override; what is left
out has its default. `Settings.parse` reads a text and checks what it says.
-/

namespace JerkLimit

open Toml (Node)

def Bounds.ofNode? (x : Node) : Option (Bounds Float) := do
  match ← x.record ["max_velocity", "max_acceleration", "max_jerk"] with
  | [velocity, acceleration, jerk] =>
    return {
      velocity := ← Node.optionalField Node.float? velocity
      acceleration := ← Node.optionalField Node.float? acceleration
      jerk := ← Node.optionalField Node.float? jerk }
  | _ => none

def Fallbacks.ofNode? (x : Node) : Option (Fallbacks Float) := do
  let d : Fallbacks Float := default
  match ← x.record ["streaming_default_jerk", "unbounded_acceleration", "batch_default_velocity",
      "batch_default_acceleration", "batch_default_jerk"] with
  | [streamingJerk, unboundedAcceleration, velocity, acceleration, jerk] =>
    return {
      streamingJerk := ← Node.numberField d.streamingJerk streamingJerk
      unboundedAcceleration := ← Node.numberField d.unboundedAcceleration unboundedAcceleration
      batchVelocity := ← Node.numberField d.batchVelocity velocity
      batchAcceleration := ← Node.numberField d.batchAcceleration acceleration
      batchJerk := ← Node.numberField d.batchJerk jerk }
  | _ => none

def StreamSettings.ofNode? (x : Node) : Option (StreamSettings Float) := do
  let d : StreamSettings Float := default
  match ← x.record ["update_period"] with
  | [period] => return { period := ← Node.numberField d.period period }
  | _ => none

def ChainSettings.ofNode? (x : Node) : Option (ChainSettings Float) := do
  let d : ChainSettings Float := default
  match ← x.record ["velocity_scale", "acceleration_scale", "identical_position_epsilon",
      "velocity_derating_factor", "minimum_velocity_magnitude", "duration_extension_factor",
      "max_duration_extension_attempts"] with
  | [velocity, acceleration, identical, derating, floor, extension, attempts] =>
    return {
      velocityScale := ← Node.numberField d.velocityScale velocity
      accelerationScale := ← Node.numberField d.accelerationScale acceleration
      identicalDistance := ← Node.numberField d.identicalDistance identical
      deratingFactor := ← Node.numberField d.deratingFactor derating
      speedFloor := ← Node.numberField d.speedFloor floor
      extensionFactor := ← Node.numberField d.extensionFactor extension
      maxAttempts := ← Node.field Node.natural? d.maxAttempts attempts }
  | _ => none

def DenseSettings.ofNode? (x : Node) : Option (DenseSettings Float) := do
  let d : DenseSettings Float := default
  match ← x.record ["sample_time_step", "max_duration_factor"] with
  | [timeStep, durationFactor] =>
    return {
      timeStep := ← Node.numberField d.timeStep timeStep
      durationFactor := ← Node.numberField d.durationFactor durationFactor }
  | _ => none

def SeamSettings.ofNode? (x : Node) : Option (SeamSettings Float) := do
  let d : SeamSettings Float := default
  match ← x.record ["coefficient", "time_step", "mode", "coefficient_growth",
      "max_coefficient"] with
  | [coefficient, timeStep, mode, growth, maxCoefficient] =>
    return {
      coefficient := ← Node.numberField d.coefficient coefficient
      timeStep := ← Node.numberField d.timeStep timeStep
      mode := ← Node.field (Node.choice? SeamMode.ofName?) d.mode mode
      growth := ← Node.numberField d.growth growth
      maxCoefficient := ← Node.numberField d.maxCoefficient maxCoefficient }
  | _ => none

def JointOverride.ofNode? (x : Node) : Option (JointOverride Float) := do
  match ← x.record ["name", "kind", "bounds"] with
  | [name, kind, bounds] =>
    return {
      name := ← (← name).string?
      kind := ← Node.optionalField (Node.choice? JointKind.ofName?) kind
      bounds := ← Node.field Bounds.ofNode? {} bounds }
  | _ => none

namespace Settings

def ofNode? (x : Node) : Option (Settings Float) := do
  match ← x.record ["group", "strategy", "limits", "streaming", "batch", "segmentwise", "seam",
      "joints"] with
  | [group, strategy, limits, streaming, batch, segmentwise, seam, joints] =>
    return {
      group := ← Node.optionalField Node.string? group
      strategy := ← Node.field (Node.choice? StrategyKind.ofName?) .chained strategy
      limits := ← Node.field Fallbacks.ofNode? default limits
      streaming := ← Node.field StreamSettings.ofNode? default streaming
      chained := ← Node.field ChainSettings.ofNode? default batch
      segmentwise := ← Node.field DenseSettings.ofNode? default segmentwise
      seam := ← Node.field SeamSettings.ofNode? default seam
      joints := ← Node.field (fun x => do (← x.list?).mapM JointOverride.ofNode?) [] joints }
  | _ => none

/-- The settings that a text says, if they make sense. -/
def parse (text : String) : Except (SettingsError Float) (Settings Float) :=
  match (Toml.read? text).bind fun es => ofNode? (.table .header es) with
  | none => .error .malformed
  | some s => do
    s.check
    return s

end Settings

end JerkLimit
