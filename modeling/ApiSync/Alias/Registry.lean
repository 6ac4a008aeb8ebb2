import ApiSync.Ambient
import ApiSync.Alias.Declaration
import ApiSync.Alias.Import
import ApiSync.Python.Module
/-!
The type aliases of a project, file by file.

The table of a file holds its own declarations and the names that it imports.  It is made
once; while it is being made the file counts as one without aliases, so that imports in a
circle come to an end.
-/

namespace ApiSync
namespace Alias

/-- The tables of the files that have been asked for, all aliases seen so far, and the
components among them by alias name. -/
structure Registry where
  projectRoot : String
  tables : List (String × Table)
  aliases : Table
  records : List (String × Record)
deriving Inhabited

/-- Steps that change a registry and may fail. -/
abbrev Loading := ExceptT Failure (StateM Registry)

namespace Registry

def empty (projectRoot : String) : Registry := ⟨projectRoot, [], [], []⟩

def setTable (r : Registry) (file : String) (table : Table) : Registry :=
  { r with tables := Fields.set r.tables file table }

def addAliases (r : Registry) (table : Table) : Registry :=
  { r with aliases := Fields.setAll r.aliases table }

/-- A later component takes the place of an earlier one of the same alias. -/
def addRecord (r : Registry) (record : Record) : Registry :=
  { r with records := Fields.set r.records record.name record }

def expand (r : Registry) (type : String) : String := Alias.expand r.aliases type

end Registry

/-- Adds a name that a module provides, unless something is found under it already. -/
def importName (remote : Table) (table : Table) (name : Python.ImportedName) : Table :=
  if Fields.answers table name.boundTo then table
  else match (Fields.get? remote name.name).or (Ambient.text? name.name) with
    | some text => if text = "" then table else Fields.assign table name.boundTo text
    | none => table

def importNames (remote table : Table) (names : List Python.ImportedName) : Table :=
  if remote = [] then table else names.foldl (importName remote) table

/-- Adds the names of one import to the table of a file. -/
def addImport (load : String → Loading Table) (files : Files) (file : String) (table : Table)
    (i : Python.ImportFrom) : Loading Table := do
  match importedFile? files (← get).projectRoot file i with
  | none => return table
  | some target => return importNames (← load target) table i.names

/-- Makes the table of a module and notes what it adds to the project. -/
def collect (load : String → Loading Table) (files : Files) (file : String)
    (module : Python.Module) : Loading Table := do
  let own := Declarations.ofModule file module
  modify fun r => own.records.foldl Registry.addRecord r
  match own.failure with
  | some f => throw f
  | none =>
    let table ← (imports module).foldlM (addImport load files file) own.table
    modify fun r => (r.addAliases table).setTable file table
    return table

/-- The table of a file.  Missing and malformed files have no aliases.  The fuel bounds the
depth of the imports; no file is read inside its own reading. -/
def loadFrom (files : Files) : Nat → String → Loading Table
  | 0, _ => pure []
  | fuel + 1, file => do
    match Fields.get? (← get).tables file with
    | some table => return table
    | none =>
      modify (·.setTable file [])
      match files.at? file with
      | none => return []
      | some (.dir _) => throw .unreadable
      | some (.file source) =>
        match Python.parse source with
        | none => return []
        | some module => collect (loadFrom files fuel) files file module

/-- More than the number of files, each of which is read once at most. -/
def loadFuel (files : Files) : Nat := files.walk.length + 2

/-- The table of the file at an absolute path. -/
def load (files : Files) (file : String) : Loading Table := loadFrom files (loadFuel files) file

/-- The table of a file whose module is at hand. -/
def register (files : Files) (file : String) (module : Python.Module) : Loading Table := do
  match Fields.get? (← get).tables file with
  | some table => return table
  | none =>
    modify (·.setTable file [])
    collect (load files) files file module

end Alias
end ApiSync
