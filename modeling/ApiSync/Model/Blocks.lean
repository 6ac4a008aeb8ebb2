import ApiSync.Ambient
import ApiSync.Block
import ApiSync.Schema.Layers
/-!
Documentation blocks of model classes.

A block that has a type and no properties replaces the whole schema.  The other blocks
describe properties; what an earlier block says about a property counts more.  Malformed
blocks are passed over.
-/

namespace ApiSync
namespace Model

/-- What the blocks of a class say together. -/
structure Blocks where
  replacement : Option Fields
  properties : List (String × Fields)
deriving Inhabited

def Blocks.empty : Blocks := ⟨none, []⟩

def isReplacement (block : Fields) : Bool :=
  Fields.has block "type" && !Fields.has block "properties"

/-- Adds the entries of a property to those of earlier blocks. -/
def Blocks.addProperty (b : Blocks) (property : String × Fields) : Blocks :=
  let (name, entries) := property
  let entries := match Fields.get? b.properties name with
    | none => entries
    | some earlier => Schema.fillAbsent earlier entries
  { b with properties := Fields.assign b.properties name entries }

/-- Adds the next block, unless an earlier one replaces the schema. -/
def Blocks.add (b : Blocks) (block : Fields) : Blocks :=
  if b.replacement.isSome then b
  else if isReplacement block then { b with replacement := some block }
  else (Schema.propertyBlocks block).foldl Blocks.addProperty b

/-- The blocks of a docstring that are well formed. -/
def wellFormedBlocks (markers : Markers) (doc : String) : List Fields :=
  (findBlocks markers doc).filterMap fun raw => (parseBlock markers raw).toOption

def Blocks.read (markers : Markers) (doc : String) : Blocks :=
  (wellFormedBlocks markers doc).foldl Blocks.add Blocks.empty

end Model
end ApiSync
