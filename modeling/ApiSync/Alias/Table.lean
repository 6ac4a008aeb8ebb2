import ApiSync.Value
/-!
Names that stand for types, and annotations with such names written out.

A name is replaced where it stands as a whole word, by its type in parentheses.  Types may
hold further names, so an annotation is passed through a few times.
-/

namespace ApiSync
namespace Alias

open Text

/-- Types by name, as annotation texts. -/
abbrev Table := List (String × String)

/-- How often an annotation is passed through. -/
def expansionPasses : Nat := 5

def startsWithWord : List Char → Bool
  | [] => false
  | c :: _ => isWordChar c

/-- Whether the name stands here as a whole word; `afterWord` tells whether a word character
comes before.  A word begins or ends where the class of the characters changes. -/
def isHere (name : List Char) (afterWord : Bool) (cs : List Char) : Bool :=
  match dropPrefix? name cs with
  | none => false
  | some rest =>
    let inside := (name.getLast?.map isWordChar).getD afterWord
    afterWord != startsWithWord cs && inside != startsWithWord rest

/-- Writes `type` for every whole word `name`; `skip` characters belong to a word that is
already replaced. -/
def replaceFrom (name type : List Char) (afterWord : Bool) (skip : Nat) : List Char → List Char
  | [] => if skip = 0 && isHere name afterWord [] then type else []
  | c :: cs =>
    if skip > 0 then replaceFrom name type (isWordChar c) (skip - 1) cs
    else if isHere name afterWord (c :: cs) then
      match name with
      | [] => type ++ c :: replaceFrom name type (isWordChar c) 0 cs
      | _ :: more => type ++ replaceFrom name type (isWordChar c) more.length cs
    else c :: replaceFrom name type (isWordChar c) 0 cs

def replaceName (text : List Char) (entry : String × String) : List Char :=
  replaceFrom entry.1.toList ('(' :: entry.2.toList ++ [')']) false 0 text

/-- Passes through until nothing changes, or as often as is allowed. -/
def expandPasses (table : Table) : Nat → List Char → List Char
  | 0, text => text
  | n + 1, text =>
    let next := table.foldl replaceName text
    if next = text then text else expandPasses table n next

/-- An annotation with the names of the table written out; names without a type stay. -/
def expand (table : Table) (type : String) : String :=
  String.ofList (expandPasses (table.filter (·.2 ≠ "")) expansionPasses type.toList)

/-- Without aliases an annotation stays as it is. -/
theorem expand_empty_table (type : String) : expand [] type = type := by
  simp [expand, expansionPasses, expandPasses, String.ofList_toList]

end Alias
end ApiSync
