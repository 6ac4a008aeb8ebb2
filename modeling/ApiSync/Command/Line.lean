import ApiSync.Config.Schema
import ApiSync.Number.Decimal
/-!
Command lines: a command and options in any order.
-/

namespace ApiSync
namespace Command

inductive Name where
  | check
  | fix
  | list
  | validateConfig
  | help
deriving DecidableEq, Repr

def Name.text : Name → String
  | .check => "check"
  | .fix => "fix"
  | .list => "list"
  | .validateConfig => "validate-config"
  | .help => "help"

def Name.all : List Name := [.check, .fix, .list, .validateConfig, .help]

/-- Options that are followed by a value. -/
inductive ValueOption where
  | config
  | profile
  | documentFile
  | handlersRoot
  | modelsRoot
  | projectRoot
  | markerStart
  | markerEnd
  | ignoreFile
  | coverageReport
  | coverageFormat
  | failOnCoverageBelow
  | colour
deriving DecidableEq, Repr

/-- The ways to write an option. -/
def valueOptions : List (String × ValueOption) :=
  [("-c", .config), ("--config", .config), ("--env", .profile),
    ("--swagger-file", .documentFile), ("--handlers-root", .handlersRoot),
    ("--models-root", .modelsRoot), ("--project-root", .projectRoot),
    ("--openapi-start", .markerStart), ("--openapi-end", .markerEnd),
    ("--ignore-file", .ignoreFile), ("--coverage-report", .coverageReport),
    ("--coverage-format", .coverageFormat), ("--fail-on-coverage-below", .failOnCoverageBelow),
    ("--color", .colour)]

/-- Options that stand alone. -/
inductive FlagOption where
  | help
  | strict
  | showOrphans
  | showIgnored
  | noModelComponents
  | validate
  | failOnValidationErrors
deriving DecidableEq, Repr

def flagOptions : List (String × FlagOption) :=
  [("-h", .help), ("--help", .help), ("--strict", .strict), ("--show-orphans", .showOrphans),
    ("--show-ignored", .showIgnored), ("--no-model-components", .noModelComponents),
    ("--validate", .validate), ("--fail-on-validation-errors", .failOnValidationErrors)]

/-- A command line taken apart: its options in order, and the command if one is given. -/
structure Raw where
  command : Option Name
  values : List (ValueOption × String)
  flags : List FlagOption
deriving DecidableEq, Repr

def Raw.start : Raw := ⟨none, [], []⟩

def Raw.addFlag (r : Raw) (flag : FlagOption) : Raw :=
  if flag = .help then { r with command := some .help } else { r with flags := r.flags ++ [flag] }

/-- The value after an option; it cannot look like a long option. -/
def optionValue (option : String) (rest : List String) :
    Except UsageError (String × List String) :=
  match rest with
  | v :: vs => if Text.hasPrefix v "--" then throw (.missingValue option) else pure (v, vs)
  | [] => throw (.missingValue option)

/-- The command that a word names; there can be one only. -/
def addCommand (r : Raw) (word : String) : Except UsageError Raw :=
  if Text.hasPrefix word "-" then throw (.unknownOption word)
  else if r.command.isSome then throw (.unexpectedArgument word)
  else match Name.all.find? (·.text = word) with
    | some name => pure { r with command := some name }
    | none => throw (.unknownCommand word)

/-- Takes the arguments apart; the fuel bounds their number. -/
def splitFrom : Nat → Raw → List String → Except UsageError Raw
  | 0, r, _ => pure r
  | _ + 1, r, [] => pure r
  | fuel + 1, r, word :: rest =>
    match Fields.get? valueOptions word, Fields.get? flagOptions word with
    | some option, _ => do
      let (value, rest) ← optionValue word rest
      splitFrom fuel { r with values := r.values ++ [(option, value)] } rest
    | none, some flag => splitFrom fuel (r.addFlag flag) rest
    | none, none => do splitFrom fuel (← addCommand r word) rest

def split (arguments : List String) : Except UsageError Raw :=
  splitFrom arguments.length Raw.start arguments

/-- The last value given for an option. -/
def Raw.value? (r : Raw) (option : ValueOption) : Option String :=
  (r.values.reverse.find? (·.1 = option)).map (·.2)

/-- All values given for an option. -/
def Raw.allValues (r : Raw) (option : ValueOption) : List String :=
  (r.values.filter (·.1 = option)).map (·.2)

/-- A command line as it is understood. -/
structure Line where
  command : Name
  config : Option String
  profile : Option String
  overrides : Settings
deriving DecidableEq, Repr

/-- The value of an option that has one of a few names. -/
def named (option : Option String) (read : String → Option α) (error : String → UsageError) :
    Except UsageError (Setting α) :=
  match option with
  | none => pure .unset
  | some text =>
    match read text with
    | some v => pure (.given v)
    | none => throw (error text)

/-- A threshold from zero to a hundred. -/
def threshold? (text : String) : Option Number :=
  let n := Number.ofText text
  if !n.isFinite || n.lt Number.zero || (Number.ofNat 100).lt n then none else some n

def flagSetting (r : Raw) (flag : FlagOption) (value : Bool) : Setting Bool :=
  if r.flags.contains flag then .given value else .unset

def modeOf : Option Name → Setting Mode
  | some .check => .given .check
  | some .fix => .given .fix
  | _ => .unset

/-- Reads the values of the options; without a command the one to check is meant. -/
def Raw.line (r : Raw) : Except UsageError Line := do
  let format ← named (r.value? .coverageFormat) Config.formatNamed? .badFormat
  let colour ← named (r.value? .colour) Config.colourNamed? .badColor
  let threshold ← named (r.value? .failOnCoverageBelow) threshold? .badThreshold
  let ignored := r.allValues .ignoreFile
  return {
    command := r.command.getD .check
    config := r.value? .config
    profile := r.value? .profile
    overrides :=
      { documentFile := .ofOption (r.value? .documentFile)
        handlersRoot := .ofOption (r.value? .handlersRoot)
        modelsRoot := .ofOption (r.value? .modelsRoot)
        projectRoot := .ofOption (r.value? .projectRoot)
        mode := modeOf r.command
        markerStart := .ofOption (r.value? .markerStart)
        markerEnd := .ofOption (r.value? .markerEnd)
        ignoreFiles := if ignored = [] then .unset else .given ignored
        strict := flagSetting r .strict true
        showOrphans := flagSetting r .showOrphans true
        showIgnored := flagSetting r .showIgnored true
        modelComponents := flagSetting r .noModelComponents false
        validate := flagSetting r .validate true
        failOnValidationErrors := flagSetting r .failOnValidationErrors true
        failOnCoverageBelow := threshold
        colour := colour
        coverageReport := .ofOption (r.value? .coverageReport)
        coverageFormat := format } }

def parse (arguments : List String) : Except UsageError Line := do (← split arguments).line

end Command
end ApiSync
