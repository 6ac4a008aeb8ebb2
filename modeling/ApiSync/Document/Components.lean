import ApiSync.Diff.Unified
import ApiSync.Document.Lookup
import ApiSync.Event
/-!
Bringing the component schemas of a document in line with the models.

Generated schemas are written unless equal ones are there, and excluded names are removed.
-/

namespace ApiSync
namespace Document

/-- The component schemas of a document; empty where there are none. -/
def schemas (document : Fields) : Fields :=
  Value.fieldsAt (Value.fieldsAt document "components") "schemas"

/-- The state of a synchronisation.  A failure stops it and leaves what has been done. -/
structure ComponentSync where
  schemas : Fields
  updated : List String
  removed : List String
  events : List Event
  failure : Option Failure

namespace ComponentSync

def nameOfDiff (name : String) : String := s!"components.schemas.{name}"

/-- Writes one schema.  A change that does not show in its lines is not reported. -/
def write (s : ComponentSync) (component : String × Value) : ComponentSync :=
  if s.failure.isSome then s
  else
    let (name, schema) := component
    let existing := Found.inFields s.schemas name
    if existing.holds schema then s
    else match existing.written with
      | .error f => { s with failure := some f }
      | .ok before =>
        let old := Yaml.lines before
        let new := Yaml.lines (some schema)
        let change := if existing.isNothing then .added else .drift
        let events := if old = new then []
          else [.componentChanged name change (Diff.unified old new (nameOfDiff name))]
        { s with
          schemas := Fields.assign s.schemas name schema
          updated := s.updated ++ [name]
          events := s.events ++ events }

/-- Removes an excluded schema if there is one.  The events are those that an observer is shown, so
what is removed is always written out. -/
def remove (s : ComponentSync) (name : String) : ComponentSync :=
  if s.failure.isSome || !Fields.answers s.schemas name then s
  else match (Found.inFields s.schemas name).written with
    | .error f => { s with failure := some f }
    | .ok before =>
      { s with
        schemas := Fields.erase s.schemas name
        removed := s.removed ++ [name]
        events := s.events ++
          [.componentChanged name .removed (Diff.values before none (nameOfDiff name))] }

/-- The document with the schemas of the synchronisation. -/
def document (s : ComponentSync) (start : Fields) : Fields :=
  let components := Value.fieldsAt start "components"
  Fields.set start "components" (.map (Fields.set components "schemas" (.map s.schemas)))

def changed (s : ComponentSync) : Bool := s.updated ≠ [] || s.removed ≠ []

end ComponentSync

/-- A document after the synchronisation of its components, and what was done. -/
structure ComponentResult where
  document : Fields
  sync : ComponentSync

/-- Writes the components in order and removes the excluded names in ascending order; with
neither of them nothing happens. -/
def syncComponents (document components : Fields) (excluded : List String) : ComponentResult :=
  let start : ComponentSync := ⟨schemas document, [], [], [], none⟩
  if components = [] && excluded = [] then ⟨document, start⟩
  else
    let written := components.foldl ComponentSync.write start
    let sync := (Text.sortNames excluded).foldl ComponentSync.remove written
    ⟨sync.document document, sync⟩

end Document
end ApiSync
