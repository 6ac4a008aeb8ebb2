import ApiSync.Model.Blocks
import ApiSync.Model.Decorators
import ApiSync.Model.InitAttributes
/-!
The component schemas of model classes.
-/

namespace ApiSync
namespace Model

open Python

/-- A model class with everything that its schema depends on. -/
structure Class where
  definition : Definition
  decorators : Decorators
  blocks : Blocks
  aliases : Alias.Table
  typeVars : List String

/-- The attributes of a class with their schemas so far, and which of them are required. -/
structure Properties where
  schemas : Fields
  required : List String

def hintOf (metadata : Option Fields) : Option (List Char) :=
  ((metadata.bind (Fields.get? · "hint")).bind Value.asStr?).map String.toList

namespace Class

/-- The schema of an attribute: inferred from its annotation, with the metadata of the
blocks and of the decorators over it. -/
def propertySchema (c : Class) (attr : String) (text : List Char) : Fields :=
  let metadata := Fields.get? c.decorators.properties attr
  let inferred := Schema.ofAttribute text ⟨c.typeVars, hintOf metadata⟩
  let described := Schema.withBlock inferred.toFields (Fields.get? c.blocks.properties attr)
  Schema.withDecorator described metadata

def addProperty (c : Class) (p : Properties) (attr : String × String) : Properties :=
  let text := (Alias.expand c.aliases attr.2).toList
  { schemas := Fields.set p.schemas attr.1 (.map (c.propertySchema attr.1 text))
    required := if Schema.admitsNone text then p.required else p.required ++ [attr.1] }

def properties (c : Class) : Properties :=
  let p := (initAnnotations c.aliases c.definition.body).foldl c.addProperty ⟨[], []⟩
  { p with required := Text.sortNames p.required }

def requiredEntry (p : Properties) : Fields :=
  if p.required = [] then [] else [("required", .ofStrings p.required)]

def descriptionEntry (c : Class) : Fields :=
  if c.decorators.description = "" then [] else [("description", .str c.decorators.description)]

/-- What a class with model bases adds to them. -/
def ownPart (p : Properties) : List Value :=
  let properties : Fields := if p.schemas = [] then [] else [("properties", .map p.schemas)]
  match properties ++ requiredEntry p with
  | [] => []
  | fields => [.map fields]

/-- The schema that follows from the attributes and the bases. -/
def inferredSchema (c : Class) : Fields :=
  let p := c.properties
  let start : Fields := match bases c.typeVars c.definition with
    | [] => ("type", .str "object") :: ("properties", .map p.schemas) :: requiredEntry p
    | models =>
      [("allOf", .list (models.map (fun m => .map (Schema.refFields m)) ++ ownPart p))]
  Fields.setAll (start ++ c.descriptionEntry) c.decorators.extensions

/-- A schema written out in a block, with a description if it has none. -/
def replacedSchema (c : Class) (schema : Fields) : Fields :=
  let description := if Fields.has schema "description" then [] else c.descriptionEntry
  Fields.setAll (Fields.setAll schema description) c.decorators.extensions

/-- The component schema of a class. -/
def schema (c : Class) : Fields :=
  match c.blocks.replacement with
  | some schema => c.replacedSchema schema
  | none => c.inferredSchema

end Class
end Model
end ApiSync
