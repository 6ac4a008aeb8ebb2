import ApiSync.Python.Literal
/-!
Docstrings and their clean form: without the indentation of the definition and without
empty lines at either end.
-/

namespace ApiSync
namespace Python

open Text

/-- Splits at line feeds, carriage returns, and pairs of both. -/
def splitLines : List Char → List (List Char)
  | [] => [[]]
  | '\r' :: '\n' :: cs => [] :: splitLines cs
  | c :: cs =>
    if c = '\n' || c = '\r' then [] :: splitLines cs
    else match splitLines cs with
      | [] => [[c]]
      | line :: lines => (c :: line) :: lines

/-- Every tab becomes eight spaces. -/
def expandTabs (cs : List Char) : List Char :=
  cs.flatMap fun c => if c = '\t' then List.replicate 8 ' ' else [c]

/-- The blanks in front of a line with content. -/
def indentOf? (line : List Char) : Option Nat :=
  if line.all isBlank then none else some (line.takeWhile isBlank).length

/-- The smallest indentation of the lines with content. -/
def margin? (lines : List (List Char)) : Option Nat := (lines.filterMap indentOf?).min?

def dropEmptyEnds (lines : List (List Char)) : List (List Char) :=
  ((lines.dropWhile (· = [])).reverse.dropWhile (· = [])).reverse

/-- The first line without blanks in front, and the others without the margin that all
of them share. -/
def alignLines : List (List Char) → List (List Char)
  | [] => []
  | first :: rest => trimStart first :: rest.map (·.drop ((margin? rest).getD 0))

def cleanDocstring (doc : List Char) : List Char :=
  joinWith ['\n'] (dropEmptyEnds (alignLines (splitLines (expandTabs doc))))

/-- The literals of the expression that opens a body. -/
def docstringPieces? (body : List Statement) : Option (List String) :=
  match body with
  | .expression [e] :: _ =>
    match e.form with
    | .strings pieces => some pieces
    | _ => none
  | _ => none

/-- The clean docstring of a module or a definition body; empty where there is none. -/
def docstring (body : List Statement) : Except Failure String := do
  match docstringPieces? body with
  | none => pure ""
  | some pieces =>
    match ← decodePieces pieces with
    | none => pure ""
    | some doc => return String.ofList (cleanDocstring doc.toList)

end Python
end ApiSync
