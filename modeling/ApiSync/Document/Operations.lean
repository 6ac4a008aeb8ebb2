import ApiSync.Diff.Unified
import ApiSync.Document.Lookup
import ApiSync.Endpoint
import ApiSync.Event
/-!
Bringing the operations of a document in line with the endpoints.

Every endpoint has its operation written under its path and method, unless an equal one
is there.  Each change comes with a note and a diff.  Metadata that cannot be resolved end the merge.
-/

namespace ApiSync
namespace Document

structure OperationDiff where
  path : String
  method : String
  lines : List String
deriving DecidableEq, Repr

/-- The state of a merge: the paths, what has changed so far, and what there is to report.
A failure stops the merge and leaves what has been done. -/
structure OperationMerge where
  paths : Fields
  notes : List String
  diffs : List OperationDiff
  events : List Event
  failure : Option Failure

namespace OperationMerge

def start (document : Fields) : OperationMerge :=
  ⟨Value.fieldsAt document "paths", [], [], [], none⟩

def report (m : OperationMerge) (events : List Event) : OperationMerge :=
  { m with events := m.events ++ events }

/-- Records a changed operation. -/
def change (m : OperationMerge) (e : Endpoint) (entry : Fields) (operation : Fields)
    (lines : List String) : OperationMerge :=
  let note := s!"Updated {Text.upperCased e.method} {e.path} from {e.origin}"
  { m with
    paths := Fields.assign m.paths e.path (.map (Fields.assign entry e.method (.map operation)))
    notes := m.notes ++ [note]
    diffs := m.diffs ++ [⟨e.path, e.method, lines⟩]
    events := m.events ++ [.operationChanged e.path e.method note lines] }

/-- Writes the operation of an endpoint under its path and method.  What a look-up of the path
finds but for the entries of the document stays out of the document. -/
def add (m : OperationMerge) (e : Endpoint) : OperationMerge :=
  if m.failure.isSome then m
  else
    let entry := Value.fieldsAt m.paths e.path
    let m := { m with paths := Fields.assign m.paths e.path (.map entry) }
    match e.resolve with
    | .error f => { m with failure := some f }
    | .ok metadata =>
      let operation := Endpoint.operationOf metadata.fields
      let m := m.report (metadata.conflicts.map .metadataConflict)
      let existing := Found.inFields entry e.method
      if existing.holds (.map operation) then m
      else match existing.written with
        | .error f => { m with failure := some f }
        | .ok before =>
          m.change e entry operation
            (Diff.values before (some (.map operation)) s!"{e.path}#{e.method}")

/-- The document with the paths of the merge. -/
def document (m : OperationMerge) (start : Fields) : Fields :=
  Fields.set start "paths" (.map m.paths)

def changed (m : OperationMerge) : Bool := m.diffs ≠ []

end OperationMerge

/-- The merge of all endpoints in order. -/
def mergeOperations (document : Fields) (endpoints : List Endpoint) : OperationMerge :=
  endpoints.foldl OperationMerge.add (OperationMerge.start document)

end Document
end ApiSync
