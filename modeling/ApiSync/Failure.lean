import ApiSync.Text
import ApiSync.Markers
/-!
What can stop a scan or a run, by cause, and the text that reports each cause.
-/

namespace ApiSync

/-- Stands for the words of a complaint about malformed YAML. -/
def yamlComplaint : String := "<yaml error>"

inductive BlockProblem where
  | malformed
  | notMapping
deriving DecidableEq, Repr

/-- A documentation block that is no mapping. -/
structure BlockFailure where
  problem : BlockProblem
  markers : Markers
  raw : String
deriving DecidableEq, Repr

/-- A block documents methods that the routing decorator does not declare. -/
structure Mismatch where
  handler : String
  file : String
  line : Nat
  undeclared : List String
  declared : List String
deriving DecidableEq, Repr

/-- The kinds of values that a configuration can hold, as reports name them. -/
inductive ValueKind where
  | string
  | number
  | nan
  | boolean
  | array
  | object
  | null
deriving DecidableEq, Repr

/-- What is wrong with one entry of a configuration file. -/
inductive SchemaProblem where
  | required
  | wrongType (expected : String) (received : ValueKind)
  | notOption (options : List String) (received : String)
  | unknownKeys (keys : List String)
  | tooShort
  | tooSmall
  | tooLarge
deriving DecidableEq, Repr

structure SchemaIssue where
  path : List String
  problem : SchemaProblem
deriving DecidableEq, Repr

inductive ConfigFailure where
  | missing (path : String)
  | unreadable (path : String)
  | invalid (path : String) (issues : List SchemaIssue)
  | noFile (environment : String)
  | noEnvironment (environment path : String)
deriving DecidableEq, Repr

inductive DocumentProblem where
  | missing
  | malformed
  | notMapping
deriving DecidableEq, Repr

structure DocumentFailure where
  problem : DocumentProblem
  path : String
deriving DecidableEq, Repr

/-- What is wrong with a command line. -/
inductive UsageError where
  | missingValue (option : String)
  | unknownOption (option : String)
  | unexpectedArgument (argument : String)
  | unknownCommand (command : String)
  | badFormat (value : String)
  | badColor (value : String)
  | badThreshold (value : String)
deriving DecidableEq, Repr

inductive Failure where
  | block (f : BlockFailure)
  | mismatch (m : Mismatch)
  | config (f : ConfigFailure)
  | document (f : DocumentFailure)
  | usage (e : UsageError)
  | pythonSyntax
  | codePointTooLarge
  | badGlob
  | unreadable
  | unwritable
  | noText
  | notMapping
deriving DecidableEq, Repr

/-! ## Texts -/

/-- Each line with content moved in by four spaces. -/
def indentBlock (raw : String) : String :=
  "\n".intercalate ((Text.splitText '\n' raw).map fun line =>
    if Text.trimText line = "" then line else "    " ++ line)

def BlockProblem.message : BlockProblem → String
  | .malformed => yamlComplaint
  | .notMapping => "OpenAPI block must be a mapping"

def BlockFailure.message (f : BlockFailure) : String :=
  s!"Failed parsing {f.markers.opening} {f.markers.closing} block: " ++
    s!"{f.problem.message}\nBlock contents:\n{indentBlock f.raw}"

/-- Names in ascending order, each in single quotes, between brackets. -/
def methodList (methods : List String) : String :=
  "[" ++ ", ".intercalate ((Text.sortNames methods).map fun m => "'" ++ m ++ "'") ++ "]"

def Mismatch.message (m : Mismatch) : String :=
  s!"OpenAPI docstring method(s) {methodList m.undeclared} not declared in decorator for " ++
    s!"{m.handler} at {m.file}:{m.line}. Decorator methods: {methodList m.declared}"

def ValueKind.name : ValueKind → String
  | .string => "string"
  | .number => "number"
  | .nan => "nan"
  | .boolean => "boolean"
  | .array => "array"
  | .object => "object"
  | .null => "null"

def quotedAll (between : String) (names : List String) : String :=
  between.intercalate (names.map fun n => "'" ++ n ++ "'")

def SchemaProblem.message : SchemaProblem → String
  | .required => "Required"
  | .wrongType expected received => s!"Expected {expected}, received {received.name}"
  | .notOption options received =>
    "Invalid enum value. Expected " ++ quotedAll " | " options ++ s!", received '{received}'"
  | .unknownKeys keys => "Unrecognized key(s) in object: " ++ quotedAll ", " keys
  | .tooShort => "String must contain at least 1 character(s)"
  | .tooSmall => "Number must be greater than or equal to 0"
  | .tooLarge => "Number must be less than or equal to 100"

def SchemaIssue.message (i : SchemaIssue) : String :=
  let place := if i.path = [] then "(root)" else ".".intercalate i.path
  place ++ ": " ++ i.problem.message

def ConfigFailure.message : ConfigFailure → String
  | .missing path => s!"Config file not found: \"{path}\""
  | .unreadable path => s!"Failed to read config file \"{path}\": {yamlComplaint}"
  | .invalid path issues =>
    s!"Invalid config file \"{path}\": " ++ "; ".intercalate (issues.map SchemaIssue.message)
  | .noFile environment =>
    s!"Environment \"{environment}\" requested but no configuration file was found"
  | .noEnvironment environment path =>
    s!"Environment \"{environment}\" not found in config file \"{path}\""

def ConfigFailure.path? : ConfigFailure → Option String
  | .missing path => some path
  | .unreadable path => some path
  | .invalid path _ => some path
  | .noFile _ => none
  | .noEnvironment _ path => some path

def ConfigFailure.issues : ConfigFailure → List SchemaIssue
  | .invalid _ issues => issues
  | _ => []

def DocumentFailure.message (f : DocumentFailure) : String :=
  match f.problem with
  | .missing => s!"Swagger file {f.path} not found."
  | .malformed => s!"Failed to parse swagger file {f.path}: {yamlComplaint}"
  | .notMapping => s!"Swagger file {f.path} must contain a YAML mapping."

def UsageError.message : UsageError → String
  | .missingValue option => s!"Option {option} requires a value."
  | .unknownOption option => s!"Unknown option: \"{option}\". Use --help for usage."
  | .unexpectedArgument argument => s!"Unexpected argument: \"{argument}\"."
  | .unknownCommand command => s!"Unknown command: \"{command}\". Use --help for usage."
  | .badFormat value => s!"Invalid --coverage-format \"{value}\". Use json or text."
  | .badColor value => s!"Invalid --color \"{value}\". Use auto, always or never."
  | .badThreshold value => s!"Invalid --fail-on-coverage-below \"{value}\". Use 0-1 or 0-100."

/-- The report of a failure that a run turns into an error message; the others are
faults of the run itself. -/
def Failure.message? : Failure → Option String
  | .block f => some f.message
  | .mismatch m => some m.message
  | .config f => some f.message
  | .document f => some f.message
  | .usage e => some e.message
  | _ => none

end ApiSync
