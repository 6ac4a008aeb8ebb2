import ApiSync.Coverage
import ApiSync.Json
/-!
Coverage results as summary lines, as plain text and as JSON.
-/

namespace ApiSync
namespace Coverage

open Text

/-- A rate as a percentage with a fixed number of places. -/
def percent (rate : Number) (places : Nat) : String :=
  (rate.mul (Number.ofNat 100)).fixed places ++ "%"

def suggestions (s : Summary) : List String :=
  (if 0 < s.undocumented then
    ["Add an OpenAPI docstring block or @openapi decorators to undocumented handlers."] else [])
  ++ (if 0 < s.documentOnly then
    ["Remove or implement swagger-only paths, or mark the related handlers ignored if intentional."]
    else [])

def Summary.lines (s : Summary) : List String :=
  let counts :=
    ["OpenAPI Documentation Coverage Summary:",
      s!"  Handlers considered:        {s.handlersTotal}",
      s!"  Ignored handlers:           {s.ignoredTotal}",
      s!"  With documentation:         {s.documented} ({percent s.documentationRate 1})",
      s!"  With docstring blocks:      {s.withBlock}",
      s!"  With @openapi decorators:   {s.withDecorators}",
      s!"  In swagger (handlers):      {s.handlersInDocument} ({percent s.documentRate 1})",
      s!"  Definition matches:         {s.definitionMatches} / {s.documented} " ++
        s!"({percent s.definitionMatchRate 1})",
      s!"  Swagger only operations:    {s.documentOnly}",
      s!"  Model components generated: {s.componentsGenerated}",
      s!"  Schemas not generated:      {s.orphanedComponents}"]
  match suggestions s with
  | [] => counts
  | hints => counts ++ "  Suggestions:" :: hints.map ("    - " ++ ·)

/-- How often a tag occurs, as it is shown.  The count of a name that every mapping answers
to is written behind the text of what is found there. -/
def tagCount (tag : String) (count : Nat) : Value :=
  match Ambient.text? tag with
  | some text => .str (text ++ String.ofList (List.replicate count '1'))
  | none => .ofNat count

/-! ## Plain text -/

def padTo (width : Nat) (s : String) : String :=
  s ++ String.ofList (List.replicate (width - unitLength s.toList) ' ')

def methodLine (methods : List (String × MethodCount)) (method : String) : String :=
  let c := (Fields.get? methods method).getD ⟨0, 0, 0⟩
  s!"  {padTo 7 method} total={c.total} documented={c.documented} inSwagger={c.inDocument}"

def tagLine (tags : List (String × Nat)) (tag : String) : String :=
  let count := tagCount tag ((Fields.get? tags tag).getD 0)
  s!"  {tag}: {count.display}"

def Record.flags (r : Record) : String :=
  "|".intercalate
    ((if r.hasBlock then ["BLOCK"] else [])
      ++ (if r.hasDecorators then ["DECORATORS"] else [])
      ++ [if r.inDocument then "SWAGGER" else "MISSING_SWAGGER"]
      ++ (if r.matchesDocument then ["MATCH"] else []))

def Record.line (r : Record) : String := s!"  {upperCased r.method} {r.path} :: {r.flags}"

/-- A part of the report with an empty line behind it, unless it has no lines. -/
def part (title : String) (lines : List String) : List String :=
  if lines = [] then [] else title :: lines ++ [""]

def Result.text (r : Result) : String :=
  let methods := r.summary.methods
  let tags := sortNames (Fields.keys r.summary.tags)
  let lines := r.summary.lines ++ [""]
    ++ part "Methods:" ((sortNames (Fields.keys methods)).map (methodLine methods))
    ++ part s!"Tags (unique: {tags.length}):" (tags.map (tagLine r.summary.tags))
    ++ part "Endpoints:" (r.records.map Record.line)
    ++ part "Swagger-only operations:"
      (r.documentOnly.map fun op => s!"  {upperCased op.method} {op.path}")
    ++ part "Components without a model class:" (r.orphanedComponents.map ("  " ++ ·))
  String.ofList (trimEnd ("\n".intercalate lines).toList ++ ['\n'])

/-! ## Values -/

def MethodCount.toValue (c : MethodCount) : Value :=
  .map [("total", .ofNat c.total), ("documented", .ofNat c.documented),
    ("inSwagger", .ofNat c.inDocument)]

def Summary.toValue (s : Summary) : Value :=
  .map [("handlersTotal", .ofNat s.handlersTotal), ("ignoredTotal", .ofNat s.ignoredTotal),
    ("withBlock", .ofNat s.withBlock), ("withDecorators", .ofNat s.withDecorators),
    ("documented", .ofNat s.documented), ("undocumented", .ofNat s.undocumented),
    ("handlersInSwagger", .ofNat s.handlersInDocument),
    ("definitionMatches", .ofNat s.definitionMatches),
    ("swaggerOperationsTotal", .ofNat s.documentOperations),
    ("swaggerOnlyOperations", .ofNat s.documentOnly),
    ("componentsTotal", .ofNat s.componentsTotal),
    ("componentsGenerated", .ofNat s.componentsGenerated),
    ("orphanedComponents", .ofNat s.orphanedComponents),
    ("documentationRate", .num s.documentationRate), ("swaggerRate", .num s.documentRate),
    ("definitionMatchRate", .num s.definitionMatchRate),
    ("componentAutomationRate", .num s.componentAutomationRate),
    ("methods", .map (s.methods.map fun e => (e.1, e.2.toValue))),
    ("tags", .map (s.tags.map fun e => (e.1, tagCount e.1 e.2)))]

def Record.toValue (r : Record) : Value :=
  .map [("path", .str r.path), ("method", .str r.method), ("file", .str r.file),
    ("function", .str r.function), ("hasBlock", .bool r.hasBlock),
    ("hasDecorators", .bool r.hasDecorators), ("inSwagger", .bool r.inDocument),
    ("definitionMatches", .bool r.matchesDocument)]

def OperationRef.toValue (op : OperationRef) : Value :=
  .map [("path", .str op.path), ("method", .str op.method)]

/-- The parts of a result, in the order in which reports hold them. -/
def Result.fields (r : Result) : Fields :=
  [("summary", r.summary.toValue), ("endpoints", .list (r.records.map Record.toValue)),
    ("swaggerOnly", .list (r.documentOnly.map OperationRef.toValue)),
    ("orphanedComponents", .ofStrings r.orphanedComponents)]

def reportFormat : String := "swagger-sync-coverage-v1"

/-- The report for other programs, with the time at which it is made. -/
def Result.json (r : Result) (generatedAt : Number) : String :=
  Json.document (.map (("format", .str reportFormat) :: ("generatedAt", .num generatedAt) :: r.fields))

/-- The two forms of a report. -/
inductive Format where
  | json
  | text
deriving DecidableEq, Repr

def Format.name : Format → String
  | .json => "json"
  | .text => "text"

def Result.render (r : Result) (generatedAt : Number) : Format → String
  | .json => r.json generatedAt
  | .text => r.text

end Coverage
end ApiSync
