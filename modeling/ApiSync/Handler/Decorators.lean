import ApiSync.Python.Literal
import ApiSync.Schema
/-!
Documentation decorators on handlers: calls `openapi.name(...)` on a plain `openapi`.

Tags, security schemes and responses add up; of the texts the last one counts.
-/

namespace ApiSync
namespace Handler

open Python

/-- What one decorator says about responses. -/
structure Response where
  codes : List Constant
  description : Option Constant
  contentType : Option String
  content : Option Fields

/-- What the decorators of a handler say together. -/
structure Decorators where
  tags : List String
  security : List String
  responses : List Response
  summary : Option String
  description : Option String
  operationId : Option String
  deprecated : Bool
  ignored : Bool

def Decorators.empty : Decorators := ⟨[], [], [], .none, .none, .none, false, false⟩

/-! ## Reading -/

/-- The name of a documentation decorator. -/
def decoratorName? (call : Call) : Option String :=
  match call.function.form with
  | .attribute receiver name =>
    match receiver.form with
    | .name id => if id = "openapi" then some name else none
    | _ => none
  | _ => none

/-- The strings among the arguments. -/
def stringArguments (call : Call) : Except Failure (List String) := do
  return (← call.args.mapM Expr.constantString?).filterMap id

/-- The first argument, if it is a string. -/
def firstString? (call : Call) : Except Failure (Option String) :=
  match call.args with
  | [] => pure none
  | first :: _ => first.constantString?

/-- The status codes that an argument gives: the constants of a list, or one constant. -/
def codesOf (e : Expr) : Except Failure (List Constant) := do
  match e.form with
  | .list elements => return (← elements.mapM Expr.constant?).filterMap id
  | _ => return (← e.constant?).toList

def schemaContent (contentType : Option String) (model : String) : Fields :=
  [(contentType.getD "application/json", .map [("schema", .map (Schema.refFields model))])]

/-- A keyword argument with its value as a constant. -/
structure Keyword where
  name : String
  value : Expr
  constant : Option Constant

def Keyword.read (keyword : String × Expr) : Except Failure Keyword := do
  return ⟨keyword.1, keyword.2, ← keyword.2.constant?⟩

def Keyword.contentType? (k : Keyword) : Option String :=
  if k.name = "contentType" then k.constant.bind Constant.asString? else none

def Keyword.description? (k : Keyword) : Option Constant :=
  if k.name = "description" then k.constant else none

/-- The model in a keyword `schema`, which must be a plain name. -/
def Keyword.schema? (k : Keyword) : Option String :=
  if k.name = "schema" then
    match k.value.form with
    | .name id => some id
    | _ => none
  else none

def last? (read : Keyword → Option α) (keywords : List Keyword) : Option α :=
  (keywords.filterMap read).getLast?

def Response.ofCall (call : Call) : Except Failure Response := do
  let codes ← match call.args with
    | [] => pure []
    | status :: _ => codesOf status
  let keywords ← call.keywords.mapM Keyword.read
  let contentType := last? Keyword.contentType? keywords
  return ⟨codes, last? Keyword.description? keywords, contentType,
    (last? Keyword.schema? keywords).map (schemaContent contentType)⟩

def Decorators.add (d : Decorators) (e : Expr) : Except Failure Decorators := do
  match e.call? with
  | none => return d
  | some call =>
    match decoratorName? call with
    | some "tags" => return { d with tags := d.tags ++ (← stringArguments call) }
    | some "security" => return { d with security := d.security ++ (← stringArguments call) }
    | some "response" => return { d with responses := d.responses ++ [← Response.ofCall call] }
    | some "summary" => return { d with summary := ← firstString? call }
    | some "description" => return { d with description := ← firstString? call }
    | some "operationId" => return { d with operationId := ← firstString? call }
    | some "deprecated" => return { d with deprecated := true }
    | some "ignore" => return { d with ignored := true }
    | _ => return d

def Decorators.read (decorators : List Expr) : Except Failure Decorators :=
  decorators.foldlM Decorators.add Decorators.empty

/-! ## Metadata -/

/-- The description of a response; nothing and `None` stand for the general one. -/
def Response.describe (r : Response) : Value :=
  match r.description with
  | none | some .none => .str "Response"
  | some c => c.toValue

def Response.fields (r : Response) : Fields :=
  ("description", r.describe) :: (r.content.map fun c => ("content", Value.map c)).toList

/-- The responses by status code, of which the last one counts. -/
def responseFields (responses : List Response) : Fields :=
  responses.foldl (fun acc r =>
    r.codes.foldl (fun acc code => Fields.assign acc code.toValue.display (.map r.fields)) acc) []

/-- An entry for a text that is not empty. -/
def textEntry (key : String) (text : Option String) : Fields :=
  match text with
  | none | some "" => []
  | some s => [(key, .str s)]

def listEntry (key : String) (items : List Value) : Fields :=
  if items.isEmpty then [] else [(key, .list items)]

/-- The metadata that the decorators stand for; what says nothing is left out. -/
def Decorators.fields (d : Decorators) : Fields :=
  listEntry "tags" (d.tags.map .str)
    ++ listEntry "security" (d.security.map fun name => .map [(name, .list [])])
    ++ (if d.responses.isEmpty then [] else [("responses", .map (responseFields d.responses))])
    ++ textEntry "summary" d.summary
    ++ textEntry "description" d.description
    ++ textEntry "operationId" d.operationId
    ++ (if d.deprecated then [("deprecated", .bool true)] else [])

end Handler
end ApiSync
