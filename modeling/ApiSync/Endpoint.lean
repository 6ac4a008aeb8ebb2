import ApiSync.Metadata.Merge
import ApiSync.Path
/-!
Operations that handlers implement, and what the document should say about them.
-/

namespace ApiSync

/-- One operation of a handler.  The method is in lower case, and `line` is the one of the
definition, counted from one. -/
structure Endpoint where
  path : String
  method : String
  file : String
  function : String
  line : Nat
  block : Fields
  decorators : Option Fields
deriving Inhabited

/-- An operation that is kept out of the document. -/
structure IgnoredEndpoint where
  path : String
  method : String
  file : String
  function : String
deriving DecidableEq, Repr, Inhabited

namespace Endpoint

/-- The metadata of the block and the decorators together, where they can be resolved. -/
def metadata (e : Endpoint) : Metadata.Merged :=
  Metadata.merge e.block e.decorators e.path e.method

/-- Whether the texts that the examples among the metadata need can be written. -/
def isResolvable (e : Endpoint) : Bool := Metadata.isResolvable e.decorators e.method

def resolve (e : Endpoint) : Except Failure Metadata.Merged :=
  Metadata.resolve e.block e.decorators e.path e.method

/-- The fields of an operation that the document holds. -/
def operationFields : List String :=
  ["summary", "description", "tags", "parameters", "requestBody", "responses", "security"]

def pickField (metadata acc : Fields) (key : String) : Fields :=
  match Fields.get? metadata key with
  | some v => Fields.set acc key v
  | none => acc

def defaultResponses : Value :=
  .map [("200", .map [("description", .str "OK")])]

/-- The operation that metadata describes.  Responses are never missing, and a tag of its
own is a list of one. -/
def operationOf (metadata : Fields) : Fields :=
  let picked := operationFields.foldl (pickField metadata) []
  let picked := if Fields.has picked "responses" then picked
    else Fields.set picked "responses" defaultResponses
  match Fields.get? picked "tags" with
  | some (.str tag) => Fields.set picked "tags" (.list [.str tag])
  | _ => picked

/-- The operation that the document should hold for the endpoint. -/
def operation (e : Endpoint) : Fields := operationOf e.metadata.fields

/-- Where the endpoint comes from. -/
def origin (e : Endpoint) : String := s!"{Path.baseName e.file}:{e.function}"

def describe (e : Endpoint) : String := s!"{Text.upperCased e.method} {e.path} ({e.origin})"

end Endpoint
end ApiSync
