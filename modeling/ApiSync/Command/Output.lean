import ApiSync.Sync.Report
/-!
What the command line prints: messages for the two streams, in order.
-/

namespace ApiSync
namespace Command

/-- A message for standard output or for standard error. -/
inductive Message where
  | out (text : String)
  | err (text : String)
deriving DecidableEq, Repr

/-- Which streams are coloured. -/
structure Colours where
  out : Bool
  err : Bool
deriving DecidableEq, Repr

/-- What the text of messages depends on besides a report. -/
structure View where
  directory : String
  config : Config
  colours : Colours

def lines (texts : List String) : List Message := texts.map .out

def ignoredLine (directory : String) (e : IgnoredEndpoint) : String :=
  let file := Path.relative directory e.file
  s!" - {Text.upperCased e.method} {e.path} ({file}:{e.function})"

def ignoredLines (directory : String) (ignored : List IgnoredEndpoint) : List String :=
  "Ignored endpoints (@openapi.ignore() or @openapi: ignore):"
    :: ignored.map (ignoredLine directory)

/-! ## Endpoints -/

def endpointLine (directory : String) (e : Endpoint) : String :=
  let block := if e.block = [] then "no" else "yes"
  let file := Path.relative directory e.file
  s!" - {Text.upperCased e.method} {e.path} ({file}:{e.function}) block={block}"

def listMessages (directory : String) (s : Handler.Scan) : List Message :=
  lines ("Collected endpoints:" :: s.endpoints.map (endpointLine directory)
    ++ (if s.ignored = [] then [] else ignoredLines directory s.ignored))

/-! ## Configurations -/

def configMessages (file : Option String) (c : Config) : List Message :=
  let found := match file with
    | some path => s!"✅ Config valid: {path}"
    | none => "✅ No config file found; using defaults."
  lines [found, s!"   Swagger file:  {c.documentFile}", s!"   Handlers root: {c.handlersRoot}",
    s!"   Models root:   {c.modelsRoot}", s!"   Mode:          {c.mode.name}"]

/-! ## Runs -/

def validationMessages (v : View) (r : Sync.Report) : List Message :=
  let options := v.config.options
  let errors := r.validationErrors
  if !options.validate then []
  else if r.validation = [] then [.out Validation.noIssues]
  else .out ("\n" ++ Validation.report r.validation false)
    :: (if options.failOnValidationErrors && 0 < errors then
      [.err s!"Validation failed with {errors} error(s). Fix errors and re-run."] else [])

def noteLines (r : Sync.Report) : List String := r.operations.notes.map (" - " ++ ·)

/-- What a run that may write says about the document. -/
def fixMessages (r : Sync.Report) : List Message :=
  if !r.hasDrift then [.out "No endpoint or component schema changes needed."]
  else
    let first := if r.operations.changed && r.components.sync.changed then
        "Swagger updated (endpoint operations + component schemas)."
      else if r.operations.changed then "Swagger updated (endpoint operations)."
      else "Swagger updated (component schemas only, no endpoint operation changes)."
    lines (first :: noteLines r)

def diffLines (v : View) (d : Document.OperationDiff) : List String :=
  s!"{Text.upperCased d.method} {d.path}" :: Console.paintDiff v.colours.out d.lines

def alert (v : View) (text : String) : Message := .err (Console.paintIf v.colours.err .red text)

def driftMessages (v : View) (r : Sync.Report) : List Message :=
  alert v "Drift detected between handlers and swagger. Run: swagger-sync fix"
    :: lines (noteLines r
      ++ r.components.sync.updated.map (" - Component schema out of date: " ++ ·)
      ++ r.components.sync.removed.map (" - Excluded component still present: " ++ ·)
      ++ (if r.operations.diffs = [] then []
        else "\nProposed changes:" :: r.operations.diffs.flatMap (diffLines v)))

def thresholdMessages (v : View) (r : Sync.Report) : List Message :=
  match v.config.options.failOnCoverageBelow with
  | none => []
  | some threshold =>
    if r.coverageFailed v.config then
      let actual := Coverage.percent r.coverage.summary.documentationRate 2
      let wanted := Coverage.percent (coverageRate threshold) 2
      [alert v s!"Coverage threshold not met: {actual} < {wanted}"]
    else []

/-- What a run that only checks says about the document. -/
def checkMessages (v : View) (r : Sync.Report) : List Message :=
  let first := if r.hasDrift then driftMessages v r
    else if r.coverageFailed v.config then [alert v "Documentation coverage threshold not met."]
    else [.out "Swagger paths are in sync with handlers."]
  first ++ thresholdMessages v r

def orphanMessages (v : View) (r : Sync.Report) : List Message :=
  if r.orphans = [] then []
  else if v.config.options.showOrphans then
    lines ("\nOrphans:" :: r.orphans.map (" - " ++ ·))
  else [.out "\n(Info) Potential swagger-only paths and components (use --show-orphans for list)"]

def ignoredMessages (v : View) (r : Sync.Report) : List Message :=
  let ignored := r.inputs.handlers.ignored
  if v.config.options.showIgnored && !ignored.isEmpty then
    lines ("" :: ignoredLines v.directory ignored)
  else []

def coverageMessages (r : Sync.Report) (path : Option String) : List Message :=
  lines ("" :: r.coverage.summary.lines)
    ++ (path.map fun p => Message.out s!"\n📄 Coverage report: {p}").toList

/-- Everything that is printed about a run; `path` is the one of the coverage report. -/
def reportMessages (v : View) (r : Sync.Report) (path : Option String) : List Message :=
  validationMessages v r
    ++ (match v.config.mode with
      | .fix => fixMessages r
      | .check => checkMessages v r)
    ++ orphanMessages v r ++ ignoredMessages v r ++ coverageMessages r path

def eventMessages (coloured : Bool) (events : List Event) : List Message :=
  events.flatMap fun e => (Console.render coloured e).map .err

end Command
end ApiSync
