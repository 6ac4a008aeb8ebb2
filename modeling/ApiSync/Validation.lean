import ApiSync.Failure
import ApiSync.Number.Decimal
import ApiSync.Schema
/-!
Checks on the metadata of an operation: references, status codes, parameters, responses
and security schemes.
-/

namespace ApiSync
namespace Validation

open Text

inductive Severity where
  | error
  | warning
  | info
deriving DecidableEq, Repr

def Severity.name : Severity → String
  | .error => "ERROR"
  | .warning => "WARNING"
  | .info => "INFO"

structure Issue where
  severity : Severity
  message : String
  endpoint : String
  field : Option String
deriving DecidableEq, Repr

def Issue.text (i : Issue) : String :=
  let field := match i.field with
    | none | some "" => ""
    | some f => s!" in field '{f}'"
  s!"[{i.severity.name}] {i.endpoint}{field}: {i.message}"

/-- An issue with the message and the field it is about. -/
structure Finding where
  severity : Severity
  message : String
  field : String
deriving DecidableEq, Repr

def Finding.issue (endpoint : String) (f : Finding) : Issue :=
  ⟨f.severity, f.message, endpoint, some f.field⟩

/-- The registered status codes. -/
def standardCodes : List Nat :=
  List.range' 100 4 ++ List.range' 200 9 ++ [226] ++ List.range' 300 9 ++ List.range' 400 19
    ++ List.range' 421 6 ++ [428, 429, 431, 451] ++ List.range' 500 9 ++ [510, 511]

def mapOf (v : Option Value) : Fields := (v.bind Value.asMap?).getD []

def listOf (v : Option Value) : List Value := (v.bind Value.asList?).getD []

/-- Members with their positions. -/
def numbered (vs : List α) : List (Nat × α) := (List.range vs.length).zip vs

/-! ## References -/

/-- The component that a schema refers to as a whole. -/
def referenced? (schema : Option Value) : Option String :=
  (schema.bind (·.field? "$ref")).bind fun v =>
    v.asStr?.bind fun ref =>
      if hasPrefix ref Schema.refStart then (splitText '/' ref).getLast? else none

/-- The component that a schema refers to, if the document does not have it. -/
def dangling? (available : List String) (schema : Option Value) : Option String :=
  (referenced? schema).filter (!available.contains ·)

/-- Dangling references among media types; `place` is the field that holds them. -/
def mediaFindings (available : List String) (place : String) (content : Fields) : List Finding :=
  content.filterMap fun (type, media) =>
    if media.isMap then
      (dangling? available (media.field? "schema")).map fun name =>
        ⟨.error, s!"Unknown schema reference: {name}", s!"{place}.content.{type}.schema"⟩
    else none

/-- A parameter in messages: its name, which has a text, or its position where it has none. -/
def parameterName (parameter : Fields) (index : Nat) : String :=
  match Fields.get? parameter "name" with
  | some v => v.display
  | none => s!"parameter[{index}]"

def parameterReference? (available : List String) : Nat × Value → Option Finding
  | (index, .map p) =>
    (dangling? available (Fields.get? p "schema")).map fun name =>
      ⟨.error, s!"Unknown schema reference in parameter '{parameterName p index}': {name}",
        s!"parameters[{index}].schema"⟩
  | _ => none

/-- References in responses, the request body and parameters to missing components, where the
messages about them can be written. -/
def references (metadata : Fields) (available : List String) : List Finding :=
  (mapOf (Fields.get? metadata "responses")).flatMap (fun (status, response) =>
      mediaFindings available s!"responses.{status}" (mapOf (response.field? "content")))
    ++ mediaFindings available "requestBody"
      (mapOf ((Fields.get? metadata "requestBody").bind (·.field? "content")))
    ++ (numbered (listOf (Fields.get? metadata "parameters"))).filterMap
      (parameterReference? available)

/-- Whether a parameter with a dangling reference has a name that its message can show. -/
def isReferable (available : List String) (parameter : Value) : Bool :=
  parameter.asMap?.all fun p =>
    (dangling? available (Fields.get? p "schema")).isNone
      || (Fields.get? p "name").all Value.hasText

/-- The check of references, as long as its messages can be written. -/
def checkedReferences (metadata : Fields) (available : List String) :
    Except Failure (List Finding) :=
  if (listOf (Fields.get? metadata "parameters")).all (isReferable available) then
    pure (references metadata available)
  else throw .noText

/-! ## Status codes -/

/-- The code that a key spells: a sign and digits with blanks around them. -/
def code? (key : String) : Option Number :=
  let (negative, digits) := Number.splitSign (trim key.toList)
  if digits ≠ [] && digits.all Char.isDigit then
    some (Number.ofRatio negative (Number.decimalValue digits) 1)
  else none

def isStandard (code : Number) : Bool :=
  standardCodes.any fun n => code.toInt? = some (n : Int)

def statusFinding? (key : String) : Option Finding :=
  match code? key with
  | some code =>
    if isStandard code then none
    else some ⟨.warning, s!"Non-standard HTTP status code: {code.text}", s!"responses.{key}"⟩
  | none =>
    if key = "default" || key = "xx" then none
    else some ⟨.warning, s!"Invalid status code format: {key}", s!"responses.{key}"⟩

def statusCodes (metadata : Fields) : List Finding :=
  (Fields.keys (mapOf (Fields.get? metadata "responses"))).filterMap statusFinding?

/-! ## Parameters -/

/-- The name of the type of a value in messages. -/
def typeName : Value → String
  | .null => "NoneType"
  | .list _ => "list"
  | .str _ => "str"
  | .bool _ => "bool"
  | .num n => if n.toInt?.isSome then "int" else "float"
  | .map _ => "object"

def parameterPlaces : List String := ["path", "query", "header", "cookie"]

/-- What is wrong with the place of a parameter. -/
def placeFindings (p : Fields) (name field : String) : List Finding :=
  match Fields.get? p "in" with
  | none => [⟨.error, s!"Parameter '{name}' missing required field 'in'", s!"{field}.in"⟩]
  | some place =>
    (if place.asStr?.any parameterPlaces.contains then []
      else [⟨.error, s!"Parameter '{name}' has invalid 'in' value: {place.display}. " ++
        "Must be one of path, query, header, cookie", s!"{field}.in"⟩])
    ++ (if place.asStr? = some "path" && !(Fields.get? p "required").any Value.truthy then
        [⟨.error, s!"Path parameter '{name}' must have required=true", s!"{field}.required"⟩]
      else [])

def parameterFindings : Nat × Value → List Finding
  | (index, .map p) =>
    let field := s!"parameters[{index}]"
    let name := parameterName p index
    (if Fields.has p "name" then []
      else [⟨.error, "Parameter missing required field 'name'", field⟩])
    ++ placeFindings p name field
    ++ (if Fields.has p "schema" || Fields.has p "content" then []
      else [⟨.error, s!"Parameter '{name}' must have either 'schema' or 'content'", field⟩])
  | (index, v) =>
    [⟨.error, s!"Parameter must be an object, got {typeName v}", s!"parameters[{index}]"⟩]

/-- Whether the messages about a parameter can be written: they show its name, and its place where
that is none of the four. -/
def isShowable (parameter : Value) : Bool :=
  parameter.asMap?.all fun p =>
    (Fields.get? p "name").all Value.hasText && (Fields.get? p "in").all Value.hasText

/-- What is wrong with the parameters, as long as the messages about them can be written. -/
def parameters (metadata : Fields) : Except Failure (List Finding) :=
  let listed := listOf (Fields.get? metadata "parameters")
  if listed.all isShowable then pure ((numbered listed).flatMap parameterFindings)
  else throw .noText

/-! ## Responses and security -/

def responseFinding? : String × Value → Option Finding
  | (status, .map response) =>
    if Fields.has response "description" then none
    else some ⟨.error, s!"Response {status} missing required 'description' field",
      s!"responses.{status}.description"⟩
  | (status, _) =>
    some ⟨.error, s!"Response for status {status} must be an object", s!"responses.{status}"⟩

def responses (metadata : Fields) : List Finding :=
  match mapOf (Fields.get? metadata "responses") with
  | [] => [⟨.warning, "No responses defined for endpoint", "responses"⟩]
  | all => all.filterMap responseFinding?

def schemeFindings (available : List String) : Nat × Value → List Finding
  | (index, requirement) =>
    (Fields.keys (requirement.asMap?.getD [])).filterMap fun scheme =>
      if available.contains scheme then none
      else some ⟨.error, s!"Unknown security scheme: {scheme}", s!"security[{index}].{scheme}"⟩

def securitySchemes (metadata : Fields) (available : List String) : List Finding :=
  (numbered (listOf (Fields.get? metadata "security"))).flatMap (schemeFindings available)

/-- What the document offers; a check is left out where that is not known. -/
structure Context where
  schemas : Option (List String)
  schemes : Option (List String)

def findings (metadata : Fields) (context : Context) : Except Failure (List Finding) := do
  let onReferences ← (context.schemas.map (checkedReferences metadata)).getD (pure [])
  let onParameters ← parameters metadata
  return onReferences ++ statusCodes metadata ++ onParameters ++ responses metadata
    ++ (context.schemes.map (securitySchemes metadata)).getD []

/-- All issues with the metadata of an operation. -/
def check (metadata : Fields) (endpoint : String) (context : Context) :
    Except Failure (List Issue) := do
  return (← findings metadata context).map (Finding.issue endpoint)

/-! ## Reports -/

def rule : String := String.ofList (List.replicate 60 '=')

def noIssues : String := "✅ No validation errors found."

/-- Issues of one severity below a title. -/
def group (title : String) (issues : List Issue) : List String :=
  if issues = [] then []
  else s!"{title} ({issues.length})" :: rule :: issues.map (fun i => "  " ++ i.text) ++ [""]

def ofSeverity (issues : List Issue) (s : Severity) : List Issue :=
  issues.filter (·.severity = s)

/-- The report on issues, errors first. -/
def report (issues : List Issue) (showInfo : Bool) : String :=
  if issues = [] then noIssues
  else
    let errors := ofSeverity issues .error
    let warnings := ofSeverity issues .warning
    let lines := group "❌ ERRORS" errors ++ group "⚠️  WARNINGS" warnings
      ++ (if showInfo then group "ℹ️  INFO" (ofSeverity issues .info) else [])
    "\n".intercalate
      (lines ++ [s!"Summary: {errors.length} error(s), {warnings.length} warning(s)"])

end Validation
end ApiSync
