import ApiSync.Yaml.Quoting
/-!
Values written as YAML: one entry or item per line, two more spaces for every level, no
folding of long lines and no anchors.  Empty collections are written `{}` and `[]`.
-/

namespace ApiSync
namespace Yaml

open Text

def numberText (n : Number) : String :=
  match n with
  | .nan => ".nan"
  | .infinite s => if s then "-.inf" else ".inf"
  | .finite s m _ => if s && m = 0 then "-0" else n.text

/-- Whether a value is written on lines of its own. -/
def isNested : Value → Bool
  | .list items => items ≠ []
  | .map fields => fields ≠ []
  | _ => false

/-- Keys longer than this are marked with `?` and have their value on the next line. -/
def longestPlainKey : Nat := 1024

/-- An entry from its written key and value. -/
def writeEntry (indent : Nat) (key : List Char) (nested : Bool) (value : List Char) : List Char :=
  if unitLength key > longestPlainKey then
    '?' :: ' ' :: key ++ '\n' :: spaces indent ++ ':' :: ' ' :: value
  else if nested then key ++ ':' :: '\n' :: spaces (indent + 2) ++ value
  else key ++ ':' :: ' ' :: value

/-- Lines below each other at an indentation; the first one stands where the text starts. -/
def joinAt (indent : Nat) (lines : List (List Char)) : List Char :=
  joinWith ('\n' :: spaces indent) lines

mutual

/-- The text of a value whose further lines stand at the indentation. -/
def write (indent : Nat) : Value → List Char
  | .null => "null".toList
  | .bool b => (if b then "true" else "false").toList
  | .num n => (numberText n).toList
  | .str s => writeString ⟨indent, false⟩ s
  | .list [] => ['[', ']']
  | .list (v :: vs) => joinAt indent (writeItems (indent + 2) (v :: vs))
  | .map [] => ['{', '}']
  | .map (e :: es) => joinAt indent (writeEntries indent (e :: es))

def writeItems (indent : Nat) : List Value → List (List Char)
  | [] => []
  | v :: vs => ('-' :: ' ' :: write indent v) :: writeItems indent vs

def writeEntries (indent : Nat) : Fields → List (List Char)
  | [] => []
  | (k, v) :: es =>
    let key := writeString ⟨indent + 2, true⟩ k
    let value := write (indent + 2) v
    writeEntry indent key (isNested v) value :: writeEntries indent es

end

/-- The text of a document. -/
def dump (v : Value) : String := String.ofList (write 0 v ++ ['\n'])

/-- The lines of a document without the blanks at its end; lines of blanks are empty, and
an absent value has no lines. -/
def lines : Option Value → List String
  | none => []
  | some v =>
    let text := trimEnd (write 0 v)
    if text = [] then []
    else (splitAt '\n' text).map fun line => if line.all isBlank then "" else String.ofList line

end Yaml
end ApiSync
