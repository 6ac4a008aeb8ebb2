import ApiSync.Alias.Table
import ApiSync.Model.Bases
/-!
The attributes of a model class: what its `__init__` assigns to `self`.

The type of an attribute is that of its last annotated assignment.  An attribute that is only
assigned has the type of the literal of its first assignment.
-/

namespace ApiSync
namespace Model

open Python

/-- Annotation texts by attribute, in the order of the first assignments. -/
abbrev AnnotationTable := List (String × String)

/-- The attribute of `self` that an expression names, unless it starts with `_`. -/
def ownAttribute? (e : Expr) : Option String :=
  match e.form with
  | .attribute receiver name =>
    if plainName? receiver = some "self" && !Text.hasPrefix name "_" then some name else none
  | _ => none

/-- The annotation that stands for the type of a literal. -/
def literalType (value : Option Expr) : String :=
  match value.map Expr.form with
  | some (.truth _) => "bool"
  | some .integer => "int"
  | some .float => "float"
  | _ => "str"

def annotationText (aliases : Alias.Table) (type : Expr) : String :=
  let text := Alias.expand aliases type.line
  if text = "" then "str" else text

/-- Gives an attribute a type unless it has one. -/
def addLiteral (type : String) (table : AnnotationTable) (attr : String) : AnnotationTable :=
  if Fields.has table attr then table else Fields.set table attr type

/-- Reads an assignment in `__init__`. -/
def addAssignment (aliases : Alias.Table) (table : AnnotationTable) (s : Statement) :
    AnnotationTable :=
  match s with
  | .expression (e :: _) =>
    match e.form with
    | .assignment target (some type) _ =>
      match ownAttribute? target with
      | some attr => Fields.set table attr (annotationText aliases type)
      | none => table
    | .assignment _ none _ =>
      let (targets, value) := chain e
      (targets.filterMap ownAttribute?).foldl (addLiteral (literalType value)) table
    | _ => table
  | _ => table

/-- The annotations of the attributes that the first `__init__` of a class assigns. -/
def initAnnotations (aliases : Alias.Table) (body : List Statement) : AnnotationTable :=
  match (functions body).find? (·.name = "__init__") with
  | none => []
  | some init => init.body.foldl (addAssignment aliases) []

end Model
end ApiSync
