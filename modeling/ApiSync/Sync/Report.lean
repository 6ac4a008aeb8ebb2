import ApiSync.Config
import ApiSync.Coverage.Report
import ApiSync.Document.Operations
import ApiSync.Handler.Scan
import ApiSync.Model.Scan
import ApiSync.Validation
/-!
What a run finds: the code and the document side by side, and the document after the
merge.
-/

namespace ApiSync
namespace Sync

/-- What is read from the files.  Models are missing where a run leaves them out. -/
structure Inputs where
  handlers : Handler.Scan
  models : Option Model.Scan
  document : Fields

/-- What bringing the document in line with the code comes to. -/
structure Merge where
  components : Document.ComponentResult
  operations : Document.OperationMerge

namespace Merge

/-- The document after the merge. -/
def document (m : Merge) : Fields := m.operations.document m.components.document

/-- What stopped the merge, if anything did. -/
def failure? (m : Merge) : Option Failure := m.components.sync.failure.or m.operations.failure

/-- What the merge reports; after a failure nothing follows. -/
def events (m : Merge) : List Event :=
  m.components.sync.events
    ++ (if m.components.sync.failure.isSome then [] else m.operations.events)

end Merge

/-- The document in line with the code, and everything there is to say about it. -/
structure Report extends Merge where
  inputs : Inputs
  validation : List Validation.Issue
  orphans : List String
  coverage : Coverage.Result

namespace Inputs

def generated (i : Inputs) : Option Fields := i.models.map (·.components)

def excluded (i : Inputs) : List String := (i.models.map (·.excluded)).getD []

/-- The component schemas brought in line; without models the document stays as it is. -/
def syncComponents (i : Inputs) : Document.ComponentResult :=
  Document.syncComponents i.document (i.generated.getD []) i.excluded

/-- Where the references and the security schemes of operations may lead. -/
def validationContext (document : Fields) : Validation.Context :=
  let schemes := Value.fieldsAt (Value.fieldsAt document "components") "securitySchemes"
  ⟨some (Fields.keys (Document.schemas document)), some (Fields.keys schemes)⟩

/-- The issues with the metadata of an endpoint, if it has some. -/
def endpointIssues (context : Validation.Context) (e : Endpoint) :
    Except Failure (List Validation.Issue) := do
  let metadata := (← e.resolve).fields
  if metadata = [] then return []
  else Validation.check metadata s!"{Text.upperCased e.method} {e.path}" context

def validate (i : Inputs) (document : Fields) : Except Failure (List Validation.Issue) :=
  List.flatten <$> i.handlers.endpoints.mapM (endpointIssues (validationContext document))

def merge (i : Inputs) : Merge :=
  let components := i.syncComponents
  ⟨components, Document.mergeOperations components.document i.handlers.endpoints⟩

/-- The report on the inputs after the merge; the first failure counts.  Coverage looks at the
document as it was. -/
def report (i : Inputs) (m : Merge) (validated : Bool) : Except Failure Report := do
  match m.failure? with
  | some f => throw f
  | none =>
    let validation ← if validated then i.validate m.document else pure []
    let coverage ←
      Coverage.measure i.handlers.endpoints i.handlers.ignored i.document i.generated
    return { toMerge := m
             inputs := i
             validation := validation
             orphans := Document.orphans m.document i.handlers.endpoints i.generated
             coverage := coverage }

end Inputs

namespace Report

/-- Whether the code and the document differ. -/
def hasDrift (r : Report) : Bool := r.operations.changed || r.components.sync.changed

def validationErrors (r : Report) : Nat := (Validation.ofSeverity r.validation .error).length

/-- How far a rate may fall short of a threshold unnoticed. -/
def tolerance : Number := Number.ofDecimal false 1 (-12)

/-- Whether less is documented than a threshold asks for. -/
def missesThreshold (r : Report) (threshold : Option Number) : Bool :=
  threshold.any fun t =>
    (r.coverage.summary.documentationRate.add tolerance).lt (coverageRate t)

def coverageFailed (r : Report) (config : Config) : Bool :=
  r.missesThreshold config.options.failOnCoverageBelow

/-- Whether a run fails: on errors in the metadata where these are fatal, and in a check also
on differences or on too little documentation. -/
def fails (r : Report) (config : Config) : Bool :=
  (config.options.failOnValidationErrors && 0 < r.validationErrors)
    || (config.mode = .check && (r.hasDrift || r.coverageFailed config))

def exitCode (r : Report) (config : Config) : Nat := if r.fails config then 1 else 0

end Report
end Sync
end ApiSync
