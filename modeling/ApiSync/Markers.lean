/-!
The marks around documentation blocks in docstrings.
-/

namespace ApiSync

structure Markers where
  opening : String
  closing : String
deriving DecidableEq, Repr

def Markers.default : Markers := ⟨">>>openapi", "<<<openapi"⟩

end ApiSync
