import ApiSync.Console
import ApiSync.Coverage.Report
import ApiSync.Markers
/-!
Configurations.

A configuration file, one of its profiles and a command line all hold settings, each of
which may be left out.  Settings laid over a configuration replace what they give; laid
over the default configuration they make a full one.
-/

namespace ApiSync

/-- What to do about differences: report them, or write them. -/
inductive Mode where
  | check
  | fix
deriving DecidableEq, Repr

def Mode.name : Mode → String
  | .check => "check"
  | .fix => "fix"

/-- A setting is left out, reset to what lies below it all, or given. -/
inductive Setting (α : Type) where
  | unset
  | reset
  | given (value : α)
deriving DecidableEq, Repr, Inhabited

namespace Setting

def ofOption : Option α → Setting α
  | none => .unset
  | some v => .given v

def value? : Setting α → Option α
  | .given v => some v
  | _ => none

/-- The setting on top, unless it is left out. -/
def onto (top below : Setting α) : Setting α :=
  match top with
  | .unset => below
  | s => s

end Setting

structure Options where
  strict : Bool
  showOrphans : Bool
  showIgnored : Bool
  modelComponents : Bool
  validate : Bool
  failOnValidationErrors : Bool
  failOnCoverageBelow : Option Number
  colour : Console.ColourMode
deriving DecidableEq, Repr

/-- Everything that a run depends on besides the files. -/
structure Config where
  documentFile : String
  handlersRoot : String
  modelsRoot : String
  projectRoot : Option String
  mode : Mode
  markers : Markers
  ignoreFiles : List String
  options : Options
  coverageReport : Option String
  coverageFormat : Coverage.Format
deriving DecidableEq, Repr

def Config.default : Config where
  documentFile := ".swagger.v1.yaml"
  handlersRoot := "bot/lib/http/handlers"
  modelsRoot := "bot/lib/models"
  projectRoot := none
  mode := .check
  markers := Markers.default
  ignoreFiles := []
  options :=
    { strict := false
      showOrphans := false
      showIgnored := false
      modelComponents := true
      validate := false
      failOnValidationErrors := false
      failOnCoverageBelow := none
      colour := .auto }
  coverageReport := none
  coverageFormat := .json

/-- A partial configuration. -/
structure Settings where
  documentFile : Setting String
  handlersRoot : Setting String
  modelsRoot : Setting String
  projectRoot : Setting String
  mode : Setting Mode
  markerStart : Setting String
  markerEnd : Setting String
  ignoreFiles : Setting (List String)
  strict : Setting Bool
  showOrphans : Setting Bool
  showIgnored : Setting Bool
  modelComponents : Setting Bool
  validate : Setting Bool
  failOnValidationErrors : Setting Bool
  failOnCoverageBelow : Setting Number
  colour : Setting Console.ColourMode
  coverageReport : Setting String
  coverageFormat : Setting Coverage.Format
deriving DecidableEq, Repr

namespace Settings

def none : Settings :=
  ⟨.unset, .unset, .unset, .unset, .unset, .unset, .unset, .unset, .unset, .unset, .unset,
    .unset, .unset, .unset, .unset, .unset, .unset, .unset⟩

/-- Each setting of `top`, or else the one of `below`. -/
def onto (top below : Settings) : Settings where
  documentFile := top.documentFile.onto below.documentFile
  handlersRoot := top.handlersRoot.onto below.handlersRoot
  modelsRoot := top.modelsRoot.onto below.modelsRoot
  projectRoot := top.projectRoot.onto below.projectRoot
  mode := top.mode.onto below.mode
  markerStart := top.markerStart.onto below.markerStart
  markerEnd := top.markerEnd.onto below.markerEnd
  ignoreFiles := top.ignoreFiles.onto below.ignoreFiles
  strict := top.strict.onto below.strict
  showOrphans := top.showOrphans.onto below.showOrphans
  showIgnored := top.showIgnored.onto below.showIgnored
  modelComponents := top.modelComponents.onto below.modelComponents
  validate := top.validate.onto below.validate
  failOnValidationErrors := top.failOnValidationErrors.onto below.failOnValidationErrors
  failOnCoverageBelow := top.failOnCoverageBelow.onto below.failOnCoverageBelow
  colour := top.colour.onto below.colour
  coverageReport := top.coverageReport.onto below.coverageReport
  coverageFormat := top.coverageFormat.onto below.coverageFormat

/-- The configuration with what the settings give put in. -/
def applyTo (s : Settings) (c : Config) : Config where
  documentFile := s.documentFile.value?.getD c.documentFile
  handlersRoot := s.handlersRoot.value?.getD c.handlersRoot
  modelsRoot := s.modelsRoot.value?.getD c.modelsRoot
  projectRoot := s.projectRoot.value?.or c.projectRoot
  mode := s.mode.value?.getD c.mode
  markers :=
    { opening := s.markerStart.value?.getD c.markers.opening
      closing := s.markerEnd.value?.getD c.markers.closing }
  ignoreFiles := s.ignoreFiles.value?.getD c.ignoreFiles
  options :=
    { strict := s.strict.value?.getD c.options.strict
      showOrphans := s.showOrphans.value?.getD c.options.showOrphans
      showIgnored := s.showIgnored.value?.getD c.options.showIgnored
      modelComponents := s.modelComponents.value?.getD c.options.modelComponents
      validate := s.validate.value?.getD c.options.validate
      failOnValidationErrors :=
        s.failOnValidationErrors.value?.getD c.options.failOnValidationErrors
      failOnCoverageBelow := s.failOnCoverageBelow.value?.or c.options.failOnCoverageBelow
      colour := s.colour.value?.getD c.options.colour }
  coverageReport := s.coverageReport.value?.or c.coverageReport
  coverageFormat := s.coverageFormat.value?.getD c.coverageFormat

/-- The full configuration that the settings stand for. -/
def config (s : Settings) : Config := s.applyTo Config.default

end Settings

/-- A coverage threshold as a rate; above one it is a percentage. -/
def coverageRate (threshold : Number) : Number :=
  if (Number.ofNat 1).lt threshold then threshold.div (Number.ofNat 100) else threshold

end ApiSync
