import ApiSync.Python.Literal
import ApiSync.Text.Case
/-!
Routing decorators: the path and the methods that a handler serves.
-/

namespace ApiSync
namespace Handler

open Python

/-- The three routing decorators.  Paths of patterns are not part of the interface. -/
inductive RouteKind where
  | variable
  | fixed
  | pattern
deriving DecidableEq, Repr

def RouteKind.name : RouteKind → String
  | .variable => "uri_variable_mapping"
  | .fixed => "uri_mapping"
  | .pattern => "uri_pattern_mapping"

def routeKinds : List RouteKind := [.variable, .fixed, .pattern]

/-- A routing decorator.  A path that cannot be told without running the code is missing;
the methods are in lower case. -/
structure Route where
  kind : RouteKind
  path : Option String
  methods : List String
deriving DecidableEq, Repr

/-- The methods that a keyword argument names: a string, or the strings of a list or a
tuple if there are any. -/
def methodsIn? (value : Expr) : Except Failure (Option (List String)) :=
  match value.form with
  | .list elements | .tuple elements => do
    let names := (← elements.mapM Expr.string?).filterMap id
    return if names.isEmpty then none else some (names.map Text.lowerCased)
  | _ => do return (← value.string?).map fun name => [Text.lowerCased name]

/-- Takes in a keyword argument; the last one that names methods counts. -/
def addMethods (methods : List String) (keyword : String × Expr) :
    Except Failure (List String) := do
  if keyword.1 = "method" then return (← methodsIn? keyword.2).getD methods
  else return methods

def routeKind? (call : Call) : Option RouteKind :=
  match call.function.form with
  | .name id => routeKinds.find? (·.name = id)
  | _ => none

/-- The route of a decorator: a call of a routing decorator with a path. -/
def Route.ofDecorator? (e : Expr) : Except Failure (Option Route) := do
  match e.call? with
  | none => return none
  | some call =>
    match routeKind? call, call.args with
    | some kind, first :: _ =>
      let path ← first.path?
      return some ⟨kind, path, ← call.keywords.foldlM addMethods ["get"]⟩
    | _, _ => return none

end Handler
end ApiSync
