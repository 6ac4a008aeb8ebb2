import ApiSync.Ambient
import ApiSync.Schema
/-!
Metadata laid over the schema of an attribute.

A documentation block may replace the description and the enumeration and otherwise
fills gaps; a decorator only fills gaps, and a null counts as one.
-/

namespace ApiSync
namespace Schema

/-- Adds the entries whose key finds nothing yet. -/
def fillAbsent (schema metadata : Fields) : Fields :=
  metadata.foldl (fun s e => if Fields.answers s e.1 then s else Fields.set s e.1 e.2) schema

def withBlock (schema : Fields) (metadata : Option Fields) : Fields :=
  match metadata with
  | none => schema
  | some m =>
    let s := match Fields.get? m "description" with
      | some (.str d) => Fields.set schema "description" (.str d)
      | _ => schema
    let s := match Fields.get? m "enum" with
      | some (.list items) => Fields.set s "enum" (.list items)
      | _ => s
    fillAbsent s m

/-- Whether a decorator may still set the key. -/
def isOpen (schema : Fields) (key : String) : Bool :=
  match Fields.get? schema key with
  | some v => v.isNull
  | none => !Ambient.isAmbient key

/-- The `hint` of a decorator steers inference and is not written. -/
def withDecorator (schema : Fields) (metadata : Option Fields) : Fields :=
  match metadata with
  | none => schema
  | some m =>
    m.foldl (fun s e => if e.1 ≠ "hint" && isOpen s e.1 then Fields.set s e.1 e.2 else s) schema

/-- The metadata of single properties in a block: the mappings under `properties`. -/
def propertyBlocks (block : Fields) : List (String × Fields) :=
  (Value.fieldsAt block "properties").foldl (fun acc e =>
    match e.2 with
    | .map m => Fields.assign acc e.1 m
    | _ => acc) []

end Schema
end ApiSync
