import ApiSync.Document.Orphans
/-!
How much of an interface is documented from code.

The endpoints and components are compared with the document as it was loaded.
-/

namespace ApiSync
namespace Coverage

/-- What is known about one endpoint. -/
structure Record where
  path : String
  method : String
  file : String
  function : String
  hasBlock : Bool
  hasDecorators : Bool
  inDocument : Bool
  matchesDocument : Bool
  tags : List String
deriving DecidableEq, Repr

def Record.documented (r : Record) : Bool := r.hasBlock || r.hasDecorators

structure MethodCount where
  total : Nat
  documented : Nat
  inDocument : Nat
deriving DecidableEq, Repr

structure OperationRef where
  path : String
  method : String
deriving DecidableEq, Repr

structure Summary where
  handlersTotal : Nat
  ignoredTotal : Nat
  withBlock : Nat
  withDecorators : Nat
  documented : Nat
  undocumented : Nat
  handlersInDocument : Nat
  definitionMatches : Nat
  documentOperations : Nat
  documentOnly : Nat
  componentsTotal : Nat
  componentsGenerated : Nat
  orphanedComponents : Nat
  documentationRate : Number
  documentRate : Number
  definitionMatchRate : Number
  componentAutomationRate : Number
  methods : List (String × MethodCount)
  tags : List (String × Nat)

structure Result where
  summary : Summary
  records : List Record
  documentOnly : List OperationRef
  orphanedComponents : List String

/-! ## Records -/

/-- What the document holds under a path and a method. -/
def existing (document : Fields) (path method : String) : Found :=
  match Fields.get? (Value.fieldsAt document "paths") path with
  | some (.map entry) => Found.inFields entry method
  | _ => .nothing

/-- The names of the tags in metadata; a single text is a tag of its own. -/
def tagsOf (metadata : Fields) : List String :=
  match Fields.get? metadata "tags" with
  | some (.str tag) => [tag]
  | some (.list tags) => tags.map Value.display
  | _ => []

def recordOf (document : Fields) (e : Endpoint) : Record :=
  let metadata := e.metadata.fields
  let found := existing document e.path e.method
  { path := e.path
    method := e.method
    file := e.file
    function := e.function
    hasBlock := e.block ≠ []
    hasDecorators := e.decorators.any (· ≠ [])
    inDocument := !found.isNothing
    matchesDocument := found.holds (.map (Endpoint.operationOf metadata))
    tags := tagsOf metadata }

/-- The operations of a path. -/
def pathOperations (path : String) (entry : Value) : List OperationRef :=
  match entry with
  | .map methods =>
    methods.filterMap fun (method, operation) =>
      let lower := Text.lowerCased method
      if isHttpMethod lower && operation.isMap then some ⟨path, lower⟩ else none
  | _ => []

/-- All operations of a document. -/
def operations (document : Fields) : List OperationRef :=
  (Value.fieldsAt document "paths").flatMap fun e => pathOperations e.1 e.2

/-! ## Counting -/

def bump (count : MethodCount) (r : Record) : MethodCount :=
  ⟨count.total + 1, count.documented + r.documented.toNat,
    count.inDocument + r.inDocument.toNat⟩

def addMethod (methods : List (String × MethodCount)) (r : Record) : List (String × MethodCount) :=
  let key := Text.upperCased r.method
  Fields.set methods key (bump ((Fields.get? methods key).getD ⟨0, 0, 0⟩) r)

def addTag (tags : List (String × Nat)) (tag : String) : List (String × Nat) :=
  Fields.assign tags tag ((Fields.get? tags tag).getD 0 + 1)

/-- What has been counted among the endpoints so far. -/
structure Tally where
  withBlock : Nat
  withDecorators : Nat
  documented : Nat
  inDocument : Nat
  definitionMatches : Nat
  methods : List (String × MethodCount)
  tags : List (String × Nat)

namespace Tally

def empty : Tally := ⟨0, 0, 0, 0, 0, [], []⟩

def add (t : Tally) (r : Record) : Tally :=
  { withBlock := t.withBlock + r.hasBlock.toNat
    withDecorators := t.withDecorators + r.hasDecorators.toNat
    documented := t.documented + r.documented.toNat
    inDocument := t.inDocument + r.inDocument.toNat
    definitionMatches := t.definitionMatches + (r.matchesDocument && r.documented).toNat
    methods := addMethod t.methods r
    tags := r.tags.foldl addTag t.tags }

def ofRecords (records : List Record) : Tally := records.foldl add empty

end Tally

/-- A share of a total; of nothing, the share is `empty`. -/
def rate (count total : Nat) (empty : Nat) : Number :=
  if total = 0 then Number.ofNat empty else Number.ofRatio false count total

def isOrphan (components : Option Fields) (name : String) : Bool :=
  !components.any (Fields.answers · name)

/-- Coverage of a document by endpoints that can be counted and generated components. -/
def compute (endpoints : List Endpoint) (ignored : List IgnoredEndpoint) (document : Fields)
    (components : Option Fields) : Result :=
  let records := endpoints.map (recordOf document)
  let all := operations document
  let only := all.filter fun op => !Document.hasPair endpoints op.path op.method
  let names := Fields.keys (Document.schemas document)
  let orphans := names.filter (isOrphan components)
  let total := endpoints.length
  let tally := Tally.ofRecords records
  { summary :=
      { handlersTotal := total
        ignoredTotal := ignored.length
        withBlock := tally.withBlock
        withDecorators := tally.withDecorators
        documented := tally.documented
        undocumented := total - tally.documented
        handlersInDocument := tally.inDocument
        definitionMatches := tally.definitionMatches
        documentOperations := all.length
        documentOnly := only.length
        componentsTotal := names.length
        componentsGenerated := (components.map List.length).getD 0
        orphanedComponents := orphans.length
        documentationRate := rate tally.documented total 0
        documentRate := rate tally.inDocument total 0
        definitionMatchRate := rate tally.definitionMatches tally.documented 0
        componentAutomationRate := rate (names.length - orphans.length) names.length 1
        methods := tally.methods
        tags := tally.tags }
    records := records
    documentOnly := only
    orphanedComponents := orphans }

/-- Whether the tags of an endpoint have names to be counted under. -/
def namesTags (e : Endpoint) : Bool :=
  match Fields.get? e.metadata.fields "tags" with
  | some (.list tags) => tags.all Value.hasText
  | _ => true

/-- Whether an endpoint can be counted: its metadata can be resolved, and its tags have names. -/
def isCountable (e : Endpoint) : Bool := e.isResolvable && namesTags e

/-- Coverage, as long as every endpoint can be counted. -/
def measure (endpoints : List Endpoint) (ignored : List IgnoredEndpoint) (document : Fields)
    (components : Option Fields) : Except Failure Result :=
  if endpoints.all isCountable then pure (compute endpoints ignored document components)
  else throw .noText

theorem measure_eq_ok_iff {endpoints : List Endpoint} {ignored : List IgnoredEndpoint}
    {document : Fields} {components : Option Fields} {r : Result} :
    measure endpoints ignored document components = .ok r ↔
      (∀ e ∈ endpoints, isCountable e = true) ∧
        compute endpoints ignored document components = r := by
  rw [← List.all_eq_true, measure]
  by_cases h : endpoints.all isCountable = true
  · rw [if_pos h, and_iff_right h]
    exact ⟨Except.ok.inj, congrArg Except.ok⟩
  · rw [if_neg h]
    exact ⟨fun herror => (nomatch herror), fun hall => absurd hall.1 h⟩

end Coverage
end ApiSync
