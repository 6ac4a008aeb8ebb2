import ApiSync.Files
import ApiSync.Python.Syntax
/-!
Where imported modules are.

A relative import climbs from the importing file.  An absolute one is looked for below the
project root, and then in each directory above the importing file.
-/

namespace ApiSync
namespace Alias

/-- A dotted name as a relative path. -/
def dottedPath (name : String) : String := "/".intercalate (Text.splitText '.' name)

def packageFile : String := "__init__.py"

/-- The directory some levels above a path. -/
def climb : Nat → String → String
  | 0, dir => dir
  | n + 1, dir => climb n (Path.parent dir)

/-- The module file of a relative import: the package at the place, or the file there. -/
def relativeModule? (files : Files) (name : String) (level : Nat) (importer : String) :
    Option String :=
  let dir := climb level importer
  let base := if name = "" then dir else Path.join dir (dottedPath name)
  let package := Path.join base packageFile
  let file := if Path.extension base = ".py" then base else base ++ ".py"
  if files.isDir base && files.isFile package then some package
  else if files.isFile file then some file
  else none

/-- The directories above a path, the nearest first, ending with the top. -/
def ancestors (path : String) : List String :=
  let ns := (Path.names path).dropLast
  (List.range (ns.length + 1)).map fun n => Path.ofNames (ns.take (ns.length - n))

/-- The module file of a name below a root. -/
def moduleIn? (files : Files) (path root : String) : Option String :=
  let file := Path.join root (path ++ ".py")
  let package := Path.join (Path.join root path) packageFile
  if files.isFile file then some file
  else if files.isFile package then some package
  else none

/-- The file of an imported module. -/
def modulePath? (files : Files) (projectRoot : String) (name : Option String) (level : Nat)
    (importer : String) : Option String :=
  let name := name.getD ""
  if level > 0 then relativeModule? files name level importer
  else if name = "" then none
  else (projectRoot :: ancestors importer).findSome? (moduleIn? files (dottedPath name))

/-- The absolute path of the file that an import reads. -/
def importedFile? (files : Files) (projectRoot importer : String) (i : Python.ImportFrom) :
    Option String :=
  (modulePath? files projectRoot i.module i.level importer).map (Path.resolve "/")

def importOf : Python.Statement → Option Python.ImportFrom
  | .importFrom i => some i
  | _ => none

/-- The imports of names from modules, in order. -/
def imports (module : Python.Module) : List Python.ImportFrom := module.filterMap importOf

end Alias
end ApiSync
