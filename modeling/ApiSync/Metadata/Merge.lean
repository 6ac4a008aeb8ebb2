import ApiSync.Metadata.Example
import ApiSync.Metadata.Rendered
/-!
The metadata of an operation from its documentation block and its decorators.

Decorators win; the block fills in what they leave out.  A conflict is a field that both
set to different values.
-/

namespace ApiSync
namespace Metadata

open Text

/-- Whether a value says anything: null, `false`, zero, and empty text and collections do
not. -/
def isSet : Option Value → Bool
  | none | some .null | some (.bool false) => false
  | some (.num n) => !n.isZero
  | some (.str s) => s ≠ ""
  | some (.list vs) => vs ≠ []
  | some (.map fields) => fields ≠ []
  | some (.bool true) => true

/-! ## Conflicts -/

def scalarFields : List String := ["summary", "description", "operationId", "deprecated"]

def setFields : List String := ["tags", "security"]

/-- The distinct rendered members in order; a value that is no list is one member. -/
def memberSet (v : Option Value) : List String :=
  let members := match v with
    | some (.list vs) => vs
    | other => [other.getD .null]
  sortNames (distinct (members.map Value.rendered))

def bracketed (members : List String) : String := "[" ++ ", ".intercalate members ++ "]"

def conflictText (operation field block decorator : String) : String :=
  s!"Conflict in {operation} field \"{field}\": " ++
    s!"YAML={block} vs Decorator={decorator} (using decorator)"

def scalarConflict? (operation : String) (block decorators : Fields) (field : String) :
    Option String :=
  match Fields.get? block field, Fields.get? decorators field with
  | some a, some b =>
    if a.isNull || b.isNull || a.same b then none
    else some (conflictText operation field a.rendered b.rendered)
  | _, _ => none

def setConflict? (operation : String) (block decorators : Fields) (field : String) :
    Option String :=
  let a := Fields.get? block field
  let b := Fields.get? decorators field
  if isSet a && isSet b && memberSet a ≠ memberSet b then
    some (conflictText operation field (bracketed (memberSet a)) (bracketed (memberSet b)))
  else none

def responseConflict? (operation : String) (block decorators : Fields) (status : String) :
    Option String :=
  if Fields.answers decorators status
      && !Value.sameOption (Fields.get? block status) (Fields.get? decorators status) then
    some (s!"Conflict in {operation} response {status}: " ++
      "Both YAML and decorator define this status code (merging, decorator takes precedence)")
  else none

/-- The name of an operation in reports. -/
def operationName (path method : String) : String := upperCased method ++ " " ++ path

/-- What both sides define differently. -/
def conflicts (block decorators : Fields) (path method : String) : List String :=
  let operation := operationName path method
  let responses := match Fields.get? block "responses", Fields.get? decorators "responses" with
    | some (.map a), some (.map b) =>
      (Fields.keys a).filterMap (responseConflict? operation a b)
    | _, _ => []
  scalarFields.filterMap (scalarConflict? operation block decorators)
    ++ setFields.filterMap (setConflict? operation block decorators) ++ responses

/-! ## Merging -/

/-- Fields that decorators replace as a whole. -/
def replacedFields : List String :=
  ["summary", "description", "operationId", "deprecated", "externalDocs", "tags", "security"]

/-- Copies a field if the other side has it. -/
def copyField (decorators merged : Fields) (field : String) : Fields :=
  match Fields.get? decorators field with
  | some v => Fields.set merged field v
  | none => merged

def mergeParameters (merged decorators : Fields) : Fields :=
  let below := Fields.get? merged "parameters"
  let above := Fields.get? decorators "parameters"
  if isSet below || isSet above then
    Fields.set merged "parameters" (.list (mergeLists below above (some "name")))
  else merged

def mergeRequestBody (method : String) (merged decorators : Fields) : Fields :=
  match Fields.get? decorators "requestBody" with
  | some (.map body) =>
    if body ≠ [] && appliesTo method body then
      Fields.set merged "requestBody" (.map (withoutMethods body))
    else merged
  | _ => merged

def mergeAllResponses (method : String) (merged decorators : Fields) : Fields :=
  let below := Fields.get? merged "responses"
  let above := Fields.get? decorators "responses"
  if isSet below || isSet above then
    Fields.set merged "responses" (.map (mergeResponses below above method))
  else merged

/-- The metadata that results, and the conflicts met on the way. -/
structure Merged where
  fields : Fields
  conflicts : List String

/-- The metadata of both sides, where the texts that examples need can be written. -/
def merge (block : Fields) (decorators : Option Fields) (path method : String) : Merged :=
  match decorators with
  | none | some [] => ⟨block, []⟩
  | some d =>
    let merged := replacedFields.foldl (copyField d) block
    let merged := mergeParameters merged d
    let merged := mergeRequestBody method merged d
    let merged := mergeAllResponses method merged d
    let merged := withExamples merged (itemsOf (Fields.get? d "x-examples")) method
    ⟨copyField d merged "x-response-headers", conflicts block d path method⟩

/-- Whether the texts that the examples of decorators need can be written. -/
def isResolvable (decorators : Option Fields) (method : String) : Bool :=
  decorators.all fun d => (itemsOf (Fields.get? d "x-examples")).all (isPlaceable method)

/-- The metadata of both sides, as long as the examples can be placed. -/
def resolve (block : Fields) (decorators : Option Fields) (path method : String) :
    Except Failure Merged :=
  if isResolvable decorators method then pure (merge block decorators path method)
  else throw .noText

end Metadata
end ApiSync
