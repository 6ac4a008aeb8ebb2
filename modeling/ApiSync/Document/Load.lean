import ApiSync.Failure
import ApiSync.Files
import ApiSync.Yaml.Load
/-!
Reading the document that describes an interface.
-/

namespace ApiSync
namespace Document

/-- The document in a file, which must be a mapping; an empty file is an empty document. -/
def load (files : Files) (path : String) : Except Failure Fields :=
  if !files.exists? path then throw (.document ⟨.missing, path⟩)
  else match (files.read? path).bind Yaml.load? with
    | none => throw (.document ⟨.malformed, path⟩)
    | some .null => pure []
    | some (.map fields) => pure fields
    | some _ => throw (.document ⟨.notMapping, path⟩)

end Document
end ApiSync
