import ApiSync.Command.Run
import Std.Time.DateTime.Timestamp
/-!
The command line: reads the files, runs the command on them, and writes what has changed.

The tree below the working directory is read, and the places outside of it that the
configuration names.  Links are not followed, and files that are no text are left out.
-/

namespace ApiSync
namespace Command

/-- The node at a directory entry, with everything below it. -/
partial def readNode (entry : IO.FS.DirEntry) : IO (Option Node) := do
  match (← entry.path.symlinkMetadata).type with
  | .dir =>
    let entries ← (← entry.path.readDir).toList.filterMapM fun child => do
      return (← readNode child).map (child.fileName, ·)
    return some (.dir entries)
  | .file => return (String.fromUTF8? (← IO.FS.readBinFile entry.path)).map .file
  | _ => return none

/-- Adds what is at a path, unless it is known already. -/
def addPlace (files : Files) (path : String) : IO Files := do
  let entry : IO.FS.DirEntry := ⟨"/", path⟩
  if files.exists? path || !(← entry.path.pathExists) then return files
  else match ← readNode entry with
    | some node => return Node.put node (Path.names path) files
    | none => return files

/-- The parser here finds that a source is malformed, not where: the start stands for the place. -/
def faultAt (_source : String) : Handler.Position := ⟨0, 0⟩

def secondsNow : IO Number := do
  return Number.ofInt (← Std.Time.Timestamp.now).toSecondsSinceUnixEpoch.val

/-- The files of the working directory, and those that a configuration file outside of it or
the configuration itself points to. -/
def readWorkspace (arguments : List String) : IO Sync.Workspace := do
  let directory := Path.resolve "/" (← IO.currentDir).toString
  let start : Sync.Workspace := ⟨← addPlace Node.empty directory, directory, ← secondsNow, faultAt⟩
  let configured := { start with files := ← (places start arguments).foldlM addPlace start.files }
  return { configured with
    files := ← (places configured arguments).foldlM addPlace configured.files }

def writeChange (change : String × String) : IO Unit := do
  IO.FS.createDirAll (Path.parent change.1)
  IO.FS.writeFile change.1 change.2

def printMessage : Message → IO Unit
  | .out text => IO.println text
  | .err text => IO.eprintln text

end Command
end ApiSync

def main (arguments : List String) : IO UInt32 := do
  let workspace ← ApiSync.Command.readWorkspace arguments
  let out ← IO.getStdout
  let err ← IO.getStderr
  let result := ApiSync.Command.run workspace ⟨← out.isTty, ← err.isTty⟩ arguments
  (ApiSync.Files.changes workspace.files result.files).forM ApiSync.Command.writeChange
  result.messages.forM ApiSync.Command.printMessage
  return result.exitCode.toUInt32
