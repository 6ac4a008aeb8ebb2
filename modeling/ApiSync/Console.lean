import ApiSync.Event
import ApiSync.Text
/-!
Events and diffs as lines on a terminal, in colour where that is wanted.
-/

namespace ApiSync
namespace Console

open Text

inductive Colour where
  | red
  | green
  | yellow
  | cyan
deriving DecidableEq, Repr

def escape : Char := '\x1b'

def Colour.code : Colour → List Char
  | .red => ['3', '1']
  | .green => ['3', '2']
  | .yellow => ['3', '3']
  | .cyan => ['3', '6']

def sequence (code : List Char) : List Char := escape :: '[' :: code ++ ['m']

/-- The sequence that ends every colour. -/
def closing : List Char := sequence ['3', '9']

/-- Writes `by_` for every occurrence of `mark`; the fuel bounds their number. -/
def replaceAll (mark by_ : List Char) : Nat → List Char → List Char
  | 0, cs => cs
  | fuel + 1, cs =>
    match cut? mark cs with
    | some (before, after) => before ++ by_ ++ replaceAll mark by_ fuel after
    | none => cs

/-- Splits after the first `n` units, or in front of the character that lies across. -/
def splitUnits : Nat → List Char → List Char × List Char
  | 0, cs => ([], cs)
  | _, [] => ([], [])
  | n + 1, c :: cs =>
    let (front, back) := splitUnits (n + 1 - (charUnits c).length) cs
    (c :: front, back)

/-- Text in a colour.  A closing sequence inside, unless it starts within the first units
of the text, is replaced by the colour. -/
def Colour.paint (colour : Colour) (s : String) : String :=
  let opening := sequence colour.code
  let (front, back) := splitUnits opening.length s.toList
  String.ofList (opening ++ front ++ replaceAll closing opening (back.length + 1) back ++ closing)

/-- Text in a colour if colours are on. -/
def paintIf (on : Bool) (colour : Colour) (s : String) : String :=
  if on then colour.paint s else s

def diffColour? (line : String) : Option Colour :=
  if ["+++ ", "--- ", "@@ "].any (hasPrefix line) then some .cyan
  else if hasPrefix line "+" then some .green
  else if hasPrefix line "-" then some .red
  else none

/-- Headers in cyan, additions in green, removals in red. -/
def paintDiff (on : Bool) (lines : List String) : List String :=
  lines.map fun line =>
    match diffColour? line with
    | some colour => paintIf on colour line
    | none => line

def warning (on : Bool) (message : String) : String := paintIf on .yellow ("WARNING: " ++ message)

def changeLabel (name : String) : ComponentChange → String
  | .added => s!"New model schema component '{name}' added."
  | .drift => s!"Model schema drift detected for component '{name}'."
  | .removed => s!"Excluded model schema component '{name}' removed."

/-- The lines of an event. -/
def render (on : Bool) : Event → List String
  | .fileSkipped file reason => [warning on s!"Skipping {file} due to {reason}"]
  | .routeSkipped file handler line decorator reason =>
    [warning on s!"Skipping @{decorator} on {handler} at {file}:{line}: {reason}"]
  | .methodMismatch message _ _ => [paintIf on .yellow message]
  | .metadataConflict message => [warning on message]
  | .operationChanged .. => []
  | .componentChanged name change diff =>
    warning on (changeLabel name change) :: paintDiff on diff

/-- When to use colours. -/
inductive ColourMode where
  | auto
  | always
  | never
deriving DecidableEq, Repr

def ColourMode.name : ColourMode → String
  | .auto => "auto"
  | .always => "always"
  | .never => "never"

/-- Whether output is coloured, given whether it goes to a terminal. -/
def ColourMode.isOn (mode : ColourMode) (terminal : Bool) : Bool :=
  match mode with
  | .always => true
  | .never => false
  | .auto => terminal

end Console
end ApiSync
