/-!
What a scan or a run has to report besides its result.
-/

namespace ApiSync

inductive ComponentChange where
  | added
  | drift
  | removed
deriving DecidableEq, Repr

inductive Event where
  | fileSkipped (file reason : String)
  | routeSkipped (file handler : String) (line : Nat) (decorator reason : String)
  | methodMismatch (message file handler : String)
  | metadataConflict (message : String)
  | operationChanged (path method note : String) (diff : List String)
  | componentChanged (name : String) (change : ComponentChange) (diff : List String)
deriving DecidableEq, Repr

def ComponentChange.name : ComponentChange → String
  | .added => "added"
  | .drift => "drift"
  | .removed => "removed"

end ApiSync
