import ApiSync.Document.Load
import ApiSync.Sync.Report
/-!
A whole run on a tree of files: reading, merging, and writing what has changed.
-/

namespace ApiSync
namespace Sync

/-- Where and when a run takes place, and where the parser of the host shows the fault of a
malformed source.  The time counts seconds. -/
structure Workspace where
  files : Files
  directory : String
  now : Number
  faultAt : String → Handler.Position

/-- A finished run: the reports on the way, the files afterwards, and what it came to. -/
structure Outcome (α : Type) where
  events : List Event
  files : Files
  result : Except Failure α

/-- A report with what has been written because of it. -/
structure Written where
  report : Report
  wroteDocument : Bool
  coverageReport : Option String

namespace Workspace

def place (s : Workspace) (path : String) : String := Path.resolve s.directory path

def handlerSettings (s : Workspace) (config : Config) : Handler.Settings :=
  ⟨config.markers, config.options.strict, config.ignoreFiles, s.faultAt⟩

def scanHandlers (s : Workspace) (config : Config) : Handler.Scan :=
  Handler.scan (s.handlerSettings config) s.files (s.place config.handlersRoot)

def scanModels (s : Workspace) (config : Config) : Except Failure Model.Scan :=
  let registry := Alias.Registry.empty (s.place (config.projectRoot.getD "."))
  ((Model.scan s.files config.markers (s.place config.modelsRoot)).run.run registry).1

/-- Reads what a run works on; the first failure counts. -/
def gather (s : Workspace) (config : Config) (handlers : Handler.Scan) :
    Except Failure Inputs := do
  match handlers.failure with
  | some f => throw f
  | none =>
    let document ← Document.load s.files (s.place config.documentFile)
    let models ← if config.options.modelComponents then some <$> s.scanModels config
      else pure none
    return ⟨handlers, models, document⟩

/-- Whether a run writes the document. -/
def writesDocument (config : Config) (r : Report) : Bool := config.mode = .fix && r.hasDrift

def writeDocument (s : Workspace) (config : Config) (r : Report) : Files :=
  if writesDocument config r then
    s.files.write (s.place config.documentFile) (Yaml.dump (.map r.document))
  else s.files

/-- The path of the coverage report, if one is wanted. -/
def coveragePath? (s : Workspace) (config : Config) : Option String :=
  match config.coverageReport with
  | none | some "" => none
  | some path => some (s.place path)

/-- Writes what is to be written after a merge without failure. -/
def finish (s : Workspace) (config : Config) (r : Report) (events : List Event) :
    Outcome Written :=
  let files := s.writeDocument config r
  let written : Written := ⟨r, writesDocument config r, s.coveragePath? config⟩
  match s.coveragePath? config with
  | none => ⟨events, files, .ok written⟩
  | some path =>
    if files.canWrite path then
      ⟨events, files.write path (r.coverage.render s.now config.coverageFormat), .ok written⟩
    else ⟨events, files, .error .unwritable⟩

/-- A whole run. -/
def run (s : Workspace) (config : Config) : Outcome Written :=
  let handlers := s.scanHandlers config
  match s.gather config handlers with
  | .error f => ⟨handlers.events, s.files, .error f⟩
  | .ok inputs =>
    let merge := inputs.merge
    let events := handlers.events ++ merge.events
    match inputs.report merge config.options.validate with
    | .error f => ⟨events, s.files, .error f⟩
    | .ok r => s.finish config r events

/-- The endpoints of a tree, without anything else. -/
def list (s : Workspace) (config : Config) : Outcome Handler.Scan :=
  let handlers := s.scanHandlers config
  ⟨handlers.events, s.files, match handlers.failure with
    | some f => .error f
    | none => .ok handlers⟩

end Workspace
end Sync
end ApiSync
