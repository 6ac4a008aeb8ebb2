import ApiSync.Alias.Registry
import ApiSync.Model.Component
import ApiSync.Python.Docstring
/-!
The component schemas that the models of a source tree stand for.

Classes come in the order of the files, and of two components with one name the last one
counts.  Type aliases that are components follow, where no class has the name.
-/

namespace ApiSync
namespace Model

open Python
open Alias (Registry Loading Record)

/-- Generated components by name, and the names that are kept out. -/
structure Scan where
  components : Fields
  excluded : List String
deriving Inhabited

def Scan.empty : Scan := ⟨[], []⟩

def excludeExtension : String := "x-openapi-exclude"

def isExcluded (d : Decorators) : Bool :=
  ((Fields.get? d.extensions excludeExtension).map Value.truthy).getD false

/-- Adds a class to the scan, if it is a component. -/
def Scan.add (s : Scan) (c : Class) : Scan :=
  match c.decorators.component with
  | none | some "" => s
  | some name =>
    if isExcluded c.decorators then
      { s with excluded := if s.excluded.contains name then s.excluded else s.excluded ++ [name] }
    else { s with components := Fields.assign s.components name (.map c.schema) }

/-- The replacement that the blocks of a class answer with if they have none: what its decorators
wrote to the parent of all mappings as one.  A scalar holds no entry that a description could be
looked up among. -/
def Decorators.sharedReplacement (d : Decorators) : Except Failure (Option Fields) :=
  match (Fields.get? d.shared "override").filter Value.truthy with
  | none => pure none
  | some v =>
    if d.component.all (· = "") || isExcluded d || d.description = "" then pure (some v.entries)
    else throw .notMapping

def Decorators.complete (d : Decorators) (b : Blocks) : Except Failure Blocks :=
  match b.replacement with
  | some _ => pure b
  | none => do return { b with replacement := ← d.sharedReplacement }

def readClass (markers : Markers) (attributes : AttributeTable) (aliases : Alias.Table)
    (typeVars : List String) (d : Definition) : Except Failure Class := do
  let decorators ← Decorators.read attributes d
  let blocks ← decorators.complete (Blocks.read markers (← docstring d.body))
  return ⟨d, decorators, blocks, aliases, typeVars⟩

/-- Adds the classes of a module. -/
def Scan.addModule (s : Scan) (markers : Markers) (attributes : AttributeTable)
    (aliases : Alias.Table) (module : Module) : Except Failure Scan := do
  let vars := typeVars module
  (classes module).foldlM (fun s d => do
    return s.add (← readClass markers attributes aliases vars d)) s

/-- Adds a file.  Files with a name that starts with `_`, and malformed ones, are passed
over. -/
def Scan.addFile (files : Files) (markers : Markers) (attributes : AttributeTable) (s : Scan)
    (file : String) : Loading Scan := do
  if Text.hasPrefix (Path.baseName file) "_" then return s
  else match (files.read? file).bind parse with
    | none => return s
    | some module =>
      let aliases ← Alias.register files file module
      MonadExcept.ofExcept (s.addModule markers attributes aliases module)

/-! ## Type aliases -/

/-- Whether a file is below a root.  A way that starts with two points leads out of it. -/
def isWithin (root file : String) : Bool := !Text.hasPrefix (Path.relative root file) ".."

/-- The schema of a type alias that is a component. -/
def aliasSchema (registry : Registry) (record : Record) : Fields :=
  let expanded := (registry.expand record.typeText).toList
  let inferred := if record.anyOf then
      let u := Annotation.unwrapOptional expanded
      (Schema.union? .anyOf u.nullable u.inner).getD (Schema.ofTypeText expanded)
    else Schema.ofTypeText expanded
  let description := (record.description.map fun d => ("description", Value.str d)).toList
  let default := (record.default.map fun c => ("default", c.toValue)).toList
  Fields.setAll (Fields.setAll inferred.toFields (description ++ default)) record.extensions

/-- Adds a type alias of the tree, unless its name is taken. -/
def Scan.addAlias (registry : Registry) (root : String) (s : Scan) (record : Record) : Scan :=
  if !isWithin root record.file || Fields.answers s.components record.component then s
  else
    { s with
      components :=
        Fields.assign s.components record.component (.map (aliasSchema registry record)) }

/-- The scan of a source tree. -/
def scan (files : Files) (markers : Markers) (root : String) : Loading Scan := do
  match files.pythonFiles root with
  | [] => return Scan.empty
  | sources =>
    let table ← MonadExcept.ofExcept (attributes files root)
    let s ← sources.foldlM (Scan.addFile files markers table) Scan.empty
    let registry ← get
    return (registry.records.map (·.2)).foldl (Scan.addAlias registry root) s

end Model
end ApiSync
