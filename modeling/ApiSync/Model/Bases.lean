import ApiSync.Python.Normal
/-!
Type variables and base classes.

A base class counts as a model if its plain name is capitalised, is no type variable of the
file and no well-known base.
-/

namespace ApiSync
namespace Model

open Python

/-- Bases that are never models. -/
def plainBases : List String :=
  ["object", "ABC", "ABCMeta", "type", "Protocol", "Dict", "List", "Tuple", "Set", "Mapping",
    "Sequence", "Iterable"]

/-- The targets of chained assignments and the value at their end. -/
def chain : Expr → List Expr × Option Expr
  | .mk _ (.assignment target _ (some value)) =>
    let (targets, last) := chain value
    (target :: targets, last)
  | .mk _ (.assignment target _ none) => ([target], none)
  | e => ([], some e)

def plainName? (e : Expr) : Option String :=
  match e.form with
  | .name id => some id
  | _ => none

/-- The names that a statement binds to type variables. -/
def statementTypeVars : Statement → List String
  | .expression [e] =>
    let (targets, value) := chain e
    if ((value.bind Expr.call?).bind (·.function.lastName?)) = some "TypeVar" then
      targets.filterMap plainName?
    else []
  | _ => []

/-- The type variables of a module, in order of first appearance. -/
def typeVars (module : Module) : List String := Text.distinct (module.flatMap statementTypeVars)

/-- What stands in front of the first `[`. -/
def withoutSubscript (name : List Char) : List Char :=
  if name.contains '[' then Text.trim (name.takeWhile (· ≠ '[')) else name

/-- What stands behind the last point. -/
def withoutModule (name : List Char) : List Char :=
  ((Text.splitAt '.' name).getLast?).getD []

/-- The model that an expression among the bases of a class names. -/
def baseModel? (typeVars : List String) (e : Expr) : Option String :=
  let line := e.line
  if line = "Generic" || Text.hasSub line "Generic[" then none
  else
    let name := withoutModule (withoutSubscript line.toList)
    let model := String.ofList name
    if typeVars.contains model || plainBases.contains model then none
    else if name.head?.any Text.isUpperAscii then some model
    else none

/-- The models among the bases of a class, in order. -/
def bases (typeVars : List String) (d : Definition) : List String :=
  (d.bases.filterMap positional?).filterMap (baseModel? typeVars)

end Model
end ApiSync
