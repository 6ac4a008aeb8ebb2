import ApiSync.Model.Attribute
/-!
Decorators of model classes: the component that a class is, extensions of its schema, and
metadata of its properties.

Metadata of a property under the name of the parent of all mappings become entries of that parent,
which every other mapping answers with from then on.  They are kept apart here.
-/

namespace ApiSync
namespace Model

open Python

/-- What the decorators of a class say together, with what they write to the parent that all
mappings share. -/
structure Decorators where
  component : Option String
  description : String
  extensions : Fields
  properties : List (String × Fields)
  shared : Fields
deriving Inhabited

def Decorators.empty : Decorators := ⟨none, "", [], [], []⟩

/-! ## Components -/

def Decorators.addComponentKeyword (d : Decorators) (keyword : String × Expr) :
    Except Failure Decorators := do
  match keyword.1, ← keyword.2.constantString? with
  | "name", some s => return { d with component := some s }
  | "description", some s => return { d with description := s }
  | _, _ => return d

/-- Reads `component`, alone or with arguments; unless they name it, the component has the
name that it has already or else the one of the class. -/
def Decorators.addComponent (d : Decorators) (className : String) (call : Option Call) :
    Except Failure Decorators := do
  match call with
  | none => return { d with component := some className }
  | some call =>
    let first ← match call.args with
      | [] => pure none
      | first :: _ => first.constantString?
    let d ← call.keywords.foldlM Decorators.addComponentKeyword
      { d with component := first.or d.component }
    return { d with component := some (d.component.getD className) }

/-! ## Properties -/

/-- A decorator `property` as it is read: the property, one key with its value, and further
entries. -/
structure Property where
  name : Option Constant
  key : Option Constant
  value : Option Constant
  entries : Fields

/-- A hint is a type, or a string that holds one. -/
def hintText (e : Expr) : Except Failure String := do return (← e.constantString?).getD e.line

def Property.addKeyword (p : Property) (keyword : String × Expr) : Except Failure Property := do
  let (name, value) := keyword
  match name with
  | "property" => return { p with name := ← value.constant? }
  | "name" => return { p with key := ← value.constant? }
  | "value" => return { p with value := some (← constantOrNone value) }
  | "hint" =>
    let hint ← hintText value
    if hint = "" then return p
    else return { p with entries := Fields.set p.entries "hint" (.str hint) }
  | _ =>
    match ← value.constant? with
    | none | some .none => return p
    | some c => return { p with entries := Fields.assign p.entries name c.toValue }

/-- The first argument names the property; a second and a third one together are a key and
its value. -/
def Property.ofCall (call : Call) : Except Failure Property := do
  let name ← match call.args with
    | [] => pure none
    | first :: _ => first.constant?
  let start : Property ← match call.args with
    | _ :: second :: third :: _ =>
      pure ⟨name, ← second.constant?, some (← constantOrNone third), []⟩
    | _ => pure ⟨name, none, none, []⟩
  call.keywords.foldlM Property.addKeyword start

/-- The entries of the property on top of others. -/
def Property.addTo (p : Property) (entries : Fields) : Fields :=
  let entries := match p.key with
    | some (.string key) => Fields.assign entries key (p.value.getD .none).toValue
    | _ => entries
  Fields.setAll entries p.entries

/-- Adds the metadata of a property to those that are known of it. -/
def Decorators.describe (d : Decorators) (name : String) (p : Property) : Decorators :=
  if name = Ambient.parentName then { d with shared := p.addTo d.shared }
  else
    let entries := (Fields.get? d.properties name).getD []
    { d with properties := Fields.set d.properties name (p.addTo entries) }

def Decorators.addProperty (d : Decorators) (call : Call) : Except Failure Decorators := do
  let p ← Property.ofCall call
  match p.name with
  | some (.string name) => return d.describe name p
  | _ => return d

/-! ## All decorators -/

def Decorators.addExtension (d : Decorators) (a : Attribute) : Decorators :=
  { d with extensions := a.addTo d.extensions }

/-- Reads one decorator of a class. -/
def Decorators.add (table : AttributeTable) (className : String) (d : Decorators) (e : Expr) :
    Except Failure Decorators := do
  let call := e.call?
  match (call.elim e (·.function)).lastName?, call with
  | some "component", call => d.addComponent className call
  | some "property", some call => d.addProperty call
  | some "property", none => return d
  | some "attribute", some call => return d.addExtension (← Attribute.ofCall call)
  | some "attribute", none => return d
  | some name, _ => return (Fields.get? table name).elim d d.addExtension
  | none, _ => return d

def Decorators.read (table : AttributeTable) (d : Definition) : Except Failure Decorators :=
  d.decorators.foldlM (Decorators.add table d.name) Decorators.empty

end Model
end ApiSync
