import ApiSync.Ambient
import ApiSync.Document.Components
import ApiSync.Endpoint
import ApiSync.Text.Case
/-!
Entries of a document that no code stands behind.
-/

namespace ApiSync

/-- The methods that count as operations. -/
def httpMethods : List String := ["get", "post", "put", "delete", "patch", "options", "head"]

def isHttpMethod (method : String) : Bool := httpMethods.contains method

namespace Document

def hasPair (endpoints : List Endpoint) (path method : String) : Bool :=
  endpoints.any fun e => e.path = path && e.method = method

/-- The operations of a path that no endpoint implements. -/
def pathOrphans (endpoints : List Endpoint) (path : String) (entry : Value) : List String :=
  match entry with
  | .map methods =>
    (Fields.keys methods).filterMap fun method =>
      let lower := Text.lowerCased method
      if !isHttpMethod lower || hasPair endpoints path lower then none
      else some s!"Path present only in swagger (no handler): {Text.upperCased method} {path}"
  | _ => []

/-- The component schemas that no model generates. -/
def componentOrphans (document : Fields) (components : Fields) : List String :=
  (Fields.keys (schemas document)).filterMap fun name =>
    if Fields.answers components name then none
    else some s!"Component present only in swagger (no model class): {name}"

/-- All orphans; components are looked at only where the generated ones are known. -/
def orphans (document : Fields) (endpoints : List Endpoint) (components : Option Fields) :
    List String :=
  (Value.fieldsAt document "paths").flatMap (fun e => pathOrphans endpoints e.1 e.2)
    ++ (components.map (componentOrphans document)).getD []

end Document
end ApiSync
