import ApiSync.Alias.Table
import ApiSync.Python.Literal
/-!
Declarations of type aliases in a module.

A plain declaration is an annotated assignment `Name: TypeAlias = type`.  A component
declaration passes the type to a factory, `type_alias("Name", ...)(type)`, either as the value
of such an assignment or afterwards with the name of a plain one.
-/

namespace ApiSync
namespace Alias

open Python

/-- A type alias that is a component of its own.  `file` is the defining file. -/
structure Record where
  name : String
  component : String
  typeText : String
  file : String
  description : Option String
  default : Option Constant
  anyOf : Bool
  extensions : Fields
deriving Inhabited

/-- What a factory call says about a component. -/
structure Options where
  component : Option String
  description : Option String
  default : Option Constant
  managed : Bool
  anyOf : Bool
  attributes : Fields

def Options.empty : Options := ⟨.none, .none, .none, false, false, []⟩

/-- Keys of extensions start with `x-`. -/
def extensionKey (name : String) : String :=
  if Text.hasPrefix name "x-" then name else "x-" ++ name

def managedExtension : String := "x-openapi-managed"

def Options.setKeyword (o : Options) (name : String) (value : Option Constant) : Options :=
  match name, value with
  | "name", some (.string s) => { o with component := some s }
  | "description", some (.string s) => { o with description := some s }
  | "default", some v => { o with default := some v }
  | "managed", some (.truth b) => { o with managed := b }
  | "anyof", some (.truth b) => { o with anyOf := b }
  | _, _ => o

def Options.addKeyword (o : Options) (keyword : String × Expr) : Except Failure Options := do
  let o := o.setKeyword keyword.1 (← keyword.2.constant?)
  if keyword.1 = "attributes" then
    return { o with attributes := (← keyword.2.constantDict?).getD o.attributes }
  else return o

/-- The options of a factory call; the first argument may name the component. -/
def Options.ofCall (call : Call) : Except Failure Options := do
  let component ← match call.args with
    | [] => pure none
    | first :: _ => first.constantString?
  call.keywords.foldlM Options.addKeyword { Options.empty with component := component }

def Options.extensions (o : Options) : Fields :=
  let start : Fields := if o.managed then [(managedExtension, .bool true)] else []
  o.attributes.foldl (fun acc e => Fields.set acc (extensionKey e.1) e.2) start

def Options.record (o : Options) (name typeText file : String) : Record where
  name := name
  component := match o.component with
    | some c => if c = "" then name else c
    | none => name
  typeText := typeText
  file := file
  description := o.description
  default := o.default
  anyOf := o.anyOf
  extensions := o.extensions

/-- A factory applied to its argument. -/
structure Factory where
  argument : Option Expr
  options : Options

/-- The factory call in an expression, if it is one. -/
def factory? (e : Expr) : Except Failure (Option Factory) :=
  match e.call? with
  | none => pure none
  | some outer =>
    match outer.function.call? with
    | none => pure none
    | some inner =>
      if inner.function.lastName? = some "type_alias" then
        return some ⟨outer.args.head?, ← Options.ofCall inner⟩
      else pure none

/-- The declarations of a module so far.  A failure ends the reading and leaves what has
been read. -/
structure Declarations where
  table : Table
  records : List Record
  failure : Option Failure

namespace Declarations

def empty : Declarations := ⟨[], [], none⟩

/-- Takes a step unless a failure came before. -/
def andThen (d : Declarations) (step : Declarations → Except Failure Declarations) :
    Declarations :=
  if d.failure.isSome then d
  else match step d with
    | .ok d => d
    | .error f => { d with failure := some f }

def define (d : Declarations) (name text : String) : Declarations :=
  if text = "" then d else { d with table := Fields.assign d.table name text }

/-- The name and value of an assignment with the annotation `TypeAlias`. -/
def plain? : Statement → Option (String × Option Expr)
  | .expression [e] =>
    match e.form with
    | .assignment target (some annotation) value =>
      match target.form with
      | .name id => if annotation.lastName? = some "TypeAlias" then some (id, value) else none
      | _ => none
    | _ => none
  | _ => none

def lineOf (e : Option Expr) : String := (e.map Expr.line).getD ""

/-- Reads an annotated assignment. -/
def addPlain (file : String) (s : Statement) (d : Declarations) : Except Failure Declarations :=
  match plain? s with
  | none => pure d
  | some (name, value) => do
    let factory ← match value with
      | none => pure none
      | some e => factory? e
    match factory with
    | none => return d.define name (lineOf value)
    | some f =>
      let text := lineOf f.argument
      return { d.define name text with records := d.records ++ [f.options.record name text file] }

/-- The alias that a factory is applied to: a name, or a name in `cast(Any, name)`. -/
def referenced? (e : Expr) : Option String :=
  match e.form with
  | .name id => some id
  | _ =>
    match e.call? with
    | none => none
    | some call =>
      if call.function.lastName? = some "cast" then
        match (call.args.drop 1).head?.map Expr.form with
        | some (.name id) => some id
        | _ => none
      else none

/-- Reads a factory that is applied to an alias declared before. -/
def addApplied (file : String) (s : Statement) (d : Declarations) : Except Failure Declarations :=
  match s with
  | .expression [e] => do
    match ← factory? e with
    | none => return d
    | some f =>
      match f.argument.bind referenced? with
      | none => return d
      | some name =>
        match Fields.get? d.table name with
        | none => return d
        | some text =>
          return { d with records := d.records ++ [f.options.record name text file] }
  | _ => pure d

/-- The declarations of a module itself, imports aside. -/
def ofModule (file : String) (module : Module) : Declarations :=
  let plain := module.foldl (fun d s => d.andThen (addPlain file s)) empty
  module.foldl (fun d s => d.andThen (addApplied file s)) plain

end Declarations
end Alias
end ApiSync
