import ApiSync.Config
import ApiSync.Failure
/-!
What a configuration file may hold, and the settings it stands for.
-/

namespace ApiSync
namespace Config

/-- The shapes of the values in a configuration file. -/
inductive Shape where
  | text
  | option (names : List String)
  | flag
  | percentage
  | texts
  | record (fields : List (String × Shape))
  | table (entry : Shape)
deriving Inhabited

def kindOf : Value → ValueKind
  | .null => .null
  | .bool _ => .boolean
  | .num n => if n.isNan then .nan else .number
  | .str _ => .string
  | .list _ => .array
  | .map _ => .object

def wrongType (path : List String) (expected : String) (v : Value) : SchemaIssue :=
  ⟨path, .wrongType expected (kindOf v)⟩

def textIssues (path : List String) : Value → List SchemaIssue
  | .str s => if s = "" then [⟨path, .tooShort⟩] else []
  | v => [wrongType path "string" v]

def optionIssues (names : List String) (path : List String) : Value → List SchemaIssue
  | .str s => if names.contains s then [] else [⟨path, .notOption names s⟩]
  | v => [wrongType path (quotedAll " | " names) v]

def percentageIssues (path : List String) (v : Value) : List SchemaIssue :=
  match v with
  | .num n =>
    if n.isNan then [wrongType path "number" v]
    else (if n.lt Number.zero then [⟨path, .tooSmall⟩] else [])
      ++ (if (Number.ofNat 100).lt n then [⟨path, .tooLarge⟩] else [])
  | _ => [wrongType path "number" v]

/-- Issues with the items of a list of texts, which are counted from `index` on. -/
def itemIssues (path : List String) (index : Nat) : List Value → List SchemaIssue
  | [] => []
  | .str _ :: vs => itemIssues path (index + 1) vs
  | v :: vs =>
    wrongType (path ++ [toString index]) "string" v :: itemIssues path (index + 1) vs

mutual

/-- What is wrong with a value of the given shape: first its entries in the order of the
shape, then the keys that the shape does not have. -/
def Shape.issues (path : List String) : Shape → Value → List SchemaIssue
  | .text, v => textIssues path v
  | .option names, v => optionIssues names path v
  | .flag, v =>
    match v with
    | .bool _ => []
    | _ => [wrongType path "boolean" v]
  | .percentage, v => percentageIssues path v
  | .texts, v =>
    match v with
    | .list vs => itemIssues path 0 vs
    | _ => [wrongType path "array" v]
  | .record fields, v =>
    match v with
    | .map entries =>
      let unknown := (Fields.keys entries).filter fun k => !Fields.has fields k
      fieldIssues path entries fields
        ++ (if unknown = [] then [] else [⟨path, .unknownKeys unknown⟩])
    | _ => [wrongType path "object" v]
  | .table entry, v =>
    match v with
    | .map entries => entries.flatMap fun e => entry.issues (path ++ [e.1]) e.2
    | _ => [wrongType path "object" v]

def fieldIssues (path : List String) (entries : Fields) : List (String × Shape) → List SchemaIssue
  | [] => []
  | (key, shape) :: rest =>
    (match Fields.get? entries key with
      | some v => shape.issues (path ++ [key]) v
      | none => []) ++ fieldIssues path entries rest

end

def sections : List (String × Shape) :=
  [("swaggerFile", .text), ("handlersRoot", .text), ("modelsRoot", .text),
    ("projectRoot", .text), ("mode", .option ["check", "fix"]),
    ("markers", .record [("start", .text), ("end", .text)]),
    ("ignore", .record [("files", .texts)]),
    ("options", .record [("strict", .flag), ("showOrphans", .flag), ("showIgnored", .flag),
      ("modelComponents", .flag), ("validate", .flag), ("failOnValidationErrors", .flag),
      ("failOnCoverageBelow", .percentage), ("color", .option ["auto", "always", "never"])]),
    ("output", .record [("coverageReport", .text), ("coverageFormat", .option ["json", "text"])])]

def profileShape : Shape := .record sections

def fileShape : Shape := .record (sections ++ [("environments", .table profileShape)])

/-! ## Settings of a file -/

/-- Reads a setting; null resets it. -/
def settingOf (read : Value → Option α) (fields : Fields) (key : String) : Setting α :=
  match Fields.get? fields key with
  | none => .unset
  | some .null => .reset
  | some v => Setting.ofOption (read v)

def asBool? : Value → Option Bool
  | .bool b => some b
  | _ => none

def asNumber? : Value → Option Number
  | .num n => some n
  | _ => none

def asStrings? (v : Value) : Option (List String) := v.asList?.map (·.filterMap Value.asStr?)

def modeNamed? (name : String) : Option Mode := [Mode.check, .fix].find? (·.name = name)

def colourNamed? (name : String) : Option Console.ColourMode :=
  [Console.ColourMode.auto, .always, .never].find? (·.name = name)

def formatNamed? (name : String) : Option Coverage.Format :=
  [Coverage.Format.json, .text].find? (·.name = name)

/-- The settings that a mapping of sections holds. -/
def settingsOf (fields : Fields) : Settings :=
  let markers := Value.fieldsAt fields "markers"
  let options := Value.fieldsAt fields "options"
  let output := Value.fieldsAt fields "output"
  { documentFile := settingOf Value.asStr? fields "swaggerFile"
    handlersRoot := settingOf Value.asStr? fields "handlersRoot"
    modelsRoot := settingOf Value.asStr? fields "modelsRoot"
    projectRoot := settingOf Value.asStr? fields "projectRoot"
    mode := settingOf (·.asStr?.bind modeNamed?) fields "mode"
    markerStart := settingOf Value.asStr? markers "start"
    markerEnd := settingOf Value.asStr? markers "end"
    ignoreFiles := settingOf asStrings? (Value.fieldsAt fields "ignore") "files"
    strict := settingOf asBool? options "strict"
    showOrphans := settingOf asBool? options "showOrphans"
    showIgnored := settingOf asBool? options "showIgnored"
    modelComponents := settingOf asBool? options "modelComponents"
    validate := settingOf asBool? options "validate"
    failOnValidationErrors := settingOf asBool? options "failOnValidationErrors"
    failOnCoverageBelow := settingOf asNumber? options "failOnCoverageBelow"
    colour := settingOf (·.asStr?.bind colourNamed?) options "color"
    coverageReport := settingOf Value.asStr? output "coverageReport"
    coverageFormat := settingOf (·.asStr?.bind formatNamed?) output "coverageFormat" }

end Config
end ApiSync
