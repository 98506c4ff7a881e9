import JerkLimit.Archive
import JerkLimit.Strategy

/-!
# CommandLine — smoothing one file

`CommandLine.parse` reads arguments from left to right; asking for help counts as soon as it is
reached. `CommandLine.run` loads the settings and the trajectory, smooths it, and writes what came
of it even if smoothing failed.
-/

namespace JerkLimit.CommandLine

/-- An option with a value. -/
inductive Slot where
  | config
  | input
  | output
  | strategy
  | tables
  deriving DecidableEq, Repr

/-- What a command line asks for. -/
structure Options where
  /-- The file of settings, if the defaults are not to be used. -/
  config : Option String
  input : String
  output : String
  strategy : Option StrategyKind
  /-- The directory for tables, if they are asked for. -/
  tables : Option String
  verbose : Bool
  deriving Repr

/-- A command line without anything to do. -/
inductive Ending where
  | help
  | misuse
  deriving DecidableEq, Repr

/-- What has been read of a command line. -/
structure Draft where
  config : Option String := none
  input : Option String := none
  output : Option String := none
  strategy : Option StrategyKind := none
  tables : Option String := none
  verbose : Bool := false
  /-- The option whose value comes next. -/
  pending : Option Slot := none
  /-- Whether no more options may follow. -/
  closed : Bool := false

/-! ## Reading arguments -/

def Slot.ofName? (name : String) : Option Slot :=
  if name = "config" then some config
  else if name = "input" then some input
  else if name = "output" then some output
  else if name = "strategy" then some strategy
  else if name = "csv-dir" then some tables
  else none

def Slot.ofLetter? (c : Char) : Option Slot :=
  if c = 'c' then some config
  else if c = 'i' then some input
  else if c = 'o' then some output
  else none

namespace Draft

/-- A path, given for the first time. -/
def path (old : Option String) (value : String) : Except Ending (Option String) :=
  if old.isSome || value.isEmpty then .error .misuse else .ok (some value)

/-- Gives an option its value. No option may be given twice. -/
def set (d : Draft) (value : String) : Slot → Except Ending Draft
  | .config => do return { d with config := ← path d.config value }
  | .input => do return { d with input := ← path d.input value }
  | .output => do return { d with output := ← path d.output value }
  | .tables => do return { d with tables := ← path d.tables value }
  | .strategy =>
    match d.strategy, StrategyKind.select (K := Float) value with
    | none, .ok kind => .ok { d with strategy := some kind }
    | _, _ => .error .misuse

def setVerbose (d : Draft) : Except Ending Draft :=
  if d.verbose then .error .misuse else .ok { d with verbose := true }

/-- An option by its full name, with what follows the equals sign. -/
def long (d : Draft) (name : String) (value : Option String) : Except Ending Draft :=
  match Slot.ofName? name, value with
  | some slot, some value => d.set value slot
  | some slot, none => .ok { d with pending := some slot }
  | none, some _ => .error .misuse
  | none, none =>
    if name = "help" then .error .help
    else if name = "verbose" then d.setVerbose
    else .error .misuse

/-- The value that stands in one argument with its option. -/
def attached : List Char → String
  | '=' :: cs => String.ofList cs
  | cs => String.ofList cs

/-- Options by their letters; what follows the letter of an option with a value is its value. -/
def short (d : Draft) : List Char → Except Ending Draft
  | [] => .ok d
  | c :: cs =>
    match Slot.ofLetter? c with
    | some slot =>
      if cs.isEmpty then .ok { d with pending := some slot } else d.set (attached cs) slot
    | none =>
      if c = 'h' then .error .help
      else if c = 'v' then do (← d.setVerbose).short cs
      else .error .misuse

/-- Reads one argument. -/
def read (d : Draft) (arg : String) : Except Ending Draft :=
  if d.closed then .error .misuse
  else
    match d.pending, arg.toList with
    | none, '-' :: '-' :: [] => .ok { d with closed := true }
    | none, '-' :: '-' :: cs =>
      d.long (String.ofList (cs.takeWhile (· ≠ '=')))
        (if cs.contains '=' then some (attached (cs.dropWhile (· ≠ '='))) else none)
    | none, '-' :: c :: cs => d.short (c :: cs)
    | none, _ => .error .misuse
    | some _, '-' :: _ :: _ => .error .misuse
    | some slot, _ => { d with pending := none }.set arg slot

/-- What is asked for at the end of the arguments. -/
def finish (d : Draft) : Except Ending Options :=
  match d.pending, d.input, d.output with
  | none, some input, some output =>
    .ok {
      config := d.config
      input
      output
      strategy := d.strategy
      tables := d.tables
      verbose := d.verbose }
  | _, _, _ => .error .misuse

end Draft

def parse (args : List String) : Except Ending Options := do
  (← args.foldlM Draft.read {}).finish

/-! ## Running -/

/-- How the command ends. -/
inductive Exit where
  | success
  | failure
  | misuse
  /-- The strategy met a case outside its domain. -/
  | aborted
  deriving DecidableEq, Repr

def Exit.code : Exit → Nat
  | success => 0
  | failure => 1
  | misuse => 2
  | aborted => 134

variable {m : Type → Type} [Monad m] [FileSystem m]

/-- The settings of the file, or the defaults, with the strategy of the command line if there is
one. -/
def settings (o : Options) : m (Except (SettingsError Float) (Settings Float)) := do
  let loaded ←
    match o.config with
    | none => pure (.ok default)
    | some path => Settings.load path
  return loaded.map fun s => { s with strategy := o.strategy.getD s.strategy }

/-- Writes the trajectory that smoothing has left, and its tables if they are asked for. -/
def write (o : Options) (t : Trajectory Float) : m (Except (Stop ArchiveError) Unit) := do
  match ← t.save o.output with
  | .error e => return .error (.error e)
  | .ok () =>
    match o.tables with
    | none => return .ok ()
    | some directory => return (← t.exportTables directory "smoothed_").map fun _ => ()

def exitOf {ε α : Type} : Except (Stop ε) α → Exit
  | .ok _ => .success
  | .error (.error _) => .failure
  | .error (.fault _) => .aborted

/-- Smooths a trajectory as the settings say. Without a strategy nothing is written. -/
def smooth (o : Options) (s : Settings Float) (t : Trajectory Float) : m Exit := do
  match Strategy.ofSettings s with
  | .error _ => return .failure
  | .ok strategy =>
    match strategy.smooth (s.applyTo t) with
    | (_, .error (.fault _)) => return .aborted
    | (t, outcome) =>
      match exitOf (← write o t) with
      | .success => return exitOf outcome
      | exit => return exit

def run (o : Options) : m Exit := do
  match ← settings o with
  | .error _ => return .failure
  | .ok s =>
    match ← Trajectory.load o.input with
    | .error _ => return .failure
    | .ok t => smooth o s t

/-- The command with the given arguments. -/
def execute (args : List String) : m Exit :=
  match parse args with
  | .error .help => pure .success
  | .error .misuse => pure .misuse
  | .ok o => run o

end JerkLimit.CommandLine
