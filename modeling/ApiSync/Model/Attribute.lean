import ApiSync.Alias.Declaration
import ApiSync.Files
import ApiSync.Python.Module
/-!
Extensions of component schemas: the decorator `attribute("name", value)` and functions of
the project that stand for it.

Such a function is defined in one of two helper modules and returns a call of `attribute`.
-/

namespace ApiSync
namespace Model

open Python

/-- The name and the value of an extension as far as a call gives them. -/
structure Attribute where
  name : Option String
  value : Option Constant
deriving DecidableEq, Repr

/-- The value of an expression, `None` if it is no constant. -/
def constantOrNone (e : Expr) : Except Failure Constant := do return (← e.constant?).getD .none

def Attribute.addKeyword (a : Attribute) (keyword : String × Expr) : Except Failure Attribute := do
  let value ← keyword.2.constant?
  match keyword.1, value with
  | "name", some (.string s) => return { a with name := some s }
  | "value", v => return { a with value := some (v.getD .none) }
  | _, _ => return a

def Attribute.ofCall (call : Call) : Except Failure Attribute := do
  let name ← match call.args with
    | [] => pure none
    | first :: _ => first.constantString?
  let value ← match call.args with
    | _ :: second :: _ => some <$> constantOrNone second
    | _ => pure none
  call.keywords.foldlM Attribute.addKeyword ⟨name, value⟩

/-- Adds the extension to others.  One without a value is `true`, one without a name is
none. -/
def Attribute.addTo (a : Attribute) (extensions : Fields) : Fields :=
  match a.name with
  | none | some "" => extensions
  | some name =>
    Fields.set extensions (Alias.extensionKey name)
      ((a.value.map Constant.toValue).getD (.bool true))

/-! ## Functions that stand for attributes -/

/-- Attributes by the name of the function that stands for them. -/
abbrev AttributeTable := List (String × Attribute)

def helperFiles : List String := ["openapi/openapi.py", "openapi/core.py"]

def returned? : Statement → Option (Option Expr)
  | .returned value => some value
  | _ => none

/-- The value of the first return statement of a body. -/
def firstReturn? (body : List Statement) : Option Expr := (body.findSome? returned?).bind id

/-- Reads a function of a helper module. -/
def addFunction (table : AttributeTable) (d : Definition) : Except Failure AttributeTable := do
  match (firstReturn? d.body).bind Expr.call? with
  | none => return table
  | some call =>
    if call.function.lastName? = some "attribute" then
      return Fields.set table d.name (← Attribute.ofCall call)
    else return table

/-- The attributes of one helper file; missing and malformed files have none. -/
def helperAttributes (files : Files) (file : String) : Except Failure AttributeTable :=
  match files.at? file with
  | none => pure []
  | some (.dir _) => throw .unreadable
  | some (.file source) =>
    match parse source with
    | none => pure []
    | some module => (functions module).foldlM addFunction []

/-- The attributes of the first file that has some. -/
def firstAttributes (files : Files) : List String → Except Failure AttributeTable
  | [] => pure []
  | file :: rest => do
    let table ← helperAttributes files file
    if table.isEmpty then firstAttributes files rest else return table

/-- The attributes that the helper modules below a root define. -/
def attributes (files : Files) (root : String) : Except Failure AttributeTable :=
  firstAttributes files (helperFiles.map (Path.join root))

end Model
end ApiSync
