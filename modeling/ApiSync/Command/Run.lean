import ApiSync.Command.Help
import ApiSync.Command.Line
import ApiSync.Command.Output
import ApiSync.Config.Load
import ApiSync.Sync.Run
/-!
Running a command line on a tree of files.
-/

namespace ApiSync
namespace Command

/-- Which streams go to a terminal. -/
structure Terminal where
  out : Bool
  err : Bool
deriving DecidableEq, Repr

/-- What a command line leaves behind. -/
structure Result where
  exitCode : Nat
  messages : List Message
  files : Files

/-- The configuration that a command line asks for. -/
def configFor (s : Sync.Workspace) (line : Line) : Except Failure Config := do
  return line.overrides.applyTo (← Config.load s.files line.config s.directory line.profile)

def coloursOf (terminal : Terminal) (c : Config) : Colours :=
  ⟨c.options.colour.isOn terminal.out, c.options.colour.isOn terminal.err⟩

/-- The end of a command that fails.  Faults of the run itself have no message. -/
def failed (terminal : Terminal) (files : Files) (before : List Message) (f : Failure) : Result :=
  let message := f.message?.map fun m =>
    Message.err (Console.paintIf terminal.err .red ("ERROR: " ++ m))
  ⟨1, before ++ message.toList, files⟩

def runList (s : Sync.Workspace) (terminal : Terminal) (c : Config) : Result :=
  let outcome := s.list c
  let events := eventMessages (coloursOf terminal c).err outcome.events
  match outcome.result with
  | .error f => failed terminal outcome.files events f
  | .ok scan => ⟨0, events ++ listMessages s.directory scan, outcome.files⟩

def runConfig (s : Sync.Workspace) (line : Line) (c : Config) : Except Failure Result := do
  let file ← Config.findFile s.files line.config s.directory
  return ⟨0, configMessages file c, s.files⟩

def runSync (s : Sync.Workspace) (terminal : Terminal) (c : Config) : Result :=
  let colours := coloursOf terminal c
  let outcome := s.run c
  let events := eventMessages colours.err outcome.events
  match outcome.result with
  | .error f => failed terminal outcome.files events f
  | .ok w =>
    let messages := reportMessages ⟨s.directory, c, colours⟩ w.report w.coverageReport
    ⟨w.report.exitCode c, events ++ messages, outcome.files⟩

def runLine (s : Sync.Workspace) (terminal : Terminal) (line : Line) : Except Failure Result := do
  match line.command with
  | .help => return ⟨0, [.out helpText], s.files⟩
  | .list => return runList s terminal (← configFor s line)
  | .validateConfig => runConfig s line (← configFor s line)
  | .check | .fix => return runSync s terminal (← configFor s line)

/-- The paths that a command line needs: those of its configuration, or the one of the
configuration file where that cannot be read. -/
def places (s : Sync.Workspace) (arguments : List String) : List String :=
  match parse arguments with
  | .error _ => []
  | .ok line =>
    match configFor s line with
    | .error _ => (line.config.map s.place).toList
    | .ok c => [c.documentFile, c.handlersRoot, c.modelsRoot, c.projectRoot.getD "."].map s.place

/-- Runs a command line. -/
def run (s : Sync.Workspace) (terminal : Terminal) (arguments : List String) : Result :=
  let result := do
    let line ← (parse arguments).mapError Failure.usage
    runLine s terminal line
  match result with
  | .ok r => r
  | .error f => failed terminal s.files [] f

end Command
end ApiSync
