import ApiSync.Ambient
import ApiSync.Failure
/-!
What a look-up by name finds in a mapping of a document, inherited names included.
-/

namespace ApiSync

inductive Found where
  | entry (v : Value)
  | parent
  | function
  | nothing

namespace Found

def inFields (fields : Fields) (key : String) : Found :=
  match Fields.get? fields key with
  | some v => .entry v
  | none =>
    if key = Ambient.parentName then .parent
    else if Ambient.isAmbient key then .function
    else .nothing

/-- Whether the value found is deeply equal to another one; only entries are. -/
def holds (v : Value) : Found → Bool
  | .entry w => w.same v
  | _ => false

def isNothing : Found → Bool
  | .nothing => true
  | _ => false

/-- The value found, as far as it can be written. -/
def written : Found → Except Failure (Option Value)
  | .entry v => pure (some v)
  | .parent => pure (some (.map []))
  | .function => throw .unwritable
  | .nothing => pure none

end Found
end ApiSync
