import ApiSync.Failure
import ApiSync.Text.Case
import ApiSync.Yaml.Load
/-!
Documentation blocks in docstrings.

A block starts at an opening mark and ends at the closing mark that follows first, both in
any letter case.  Blanks next to the marks do not belong to it.  Its text is a mapping in
YAML.
-/

namespace ApiSync
namespace Block

open Text

/-- The text after a mark, if it starts with the mark in any letter case. -/
def dropMark? : List Char → List Char → Option (List Char)
  | [], cs => some cs
  | _ :: _, [] => none
  | m :: ms, c :: cs => if sameLetter m c then dropMark? ms cs else none

/-- A block: its text and what follows its closing mark. -/
structure Found where
  body : List Char
  rest : List Char
deriving DecidableEq, Repr

/-- The text after the closing mark, if only blanks come before it.  As many blanks as
possible are passed over, for the mark itself may start with one. -/
def closeHere? (closing : List Char) : List Char → Option (List Char)
  | [] => dropMark? closing []
  | c :: cs =>
    (if isBlank c then closeHere? closing cs else none).or (dropMark? closing (c :: cs))

/-- The shortest body that is followed by the closing mark. -/
def body? (closing : List Char) : List Char → Option Found
  | [] => (closeHere? closing []).map fun rest => ⟨[], rest⟩
  | c :: cs =>
    match closeHere? closing (c :: cs) with
    | some rest => some ⟨[], rest⟩
    | none => (body? closing cs).map fun f => { f with body := c :: f.body }

/-- A body after as many blanks as possible. -/
def afterBlanks? (closing : List Char) : List Char → Option Found
  | [] => body? closing []
  | c :: cs =>
    (if isBlank c then afterBlanks? closing cs else none).or (body? closing (c :: cs))

/-- The block that starts here. -/
def here? (opening closing cs : List Char) : Option Found :=
  (dropMark? opening cs).bind (afterBlanks? closing)

/-- The first block of a text. -/
def first? (opening closing : List Char) : List Char → Option Found
  | [] => here? opening closing []
  | c :: cs => (here? opening closing (c :: cs)).or (first? opening closing cs)

/-- The bodies of the blocks of a text, each searched for behind the one before; the fuel
bounds their number.  After a block without any characters one character is passed over. -/
def allFrom (opening closing : List Char) : Nat → List Char → List (List Char)
  | 0, _ => []
  | fuel + 1, cs =>
    match cs, here? opening closing cs with
    | [], none => []
    | [], some f => [f.body]
    | _ :: rest, none => allFrom opening closing fuel rest
    | _ :: rest, some f =>
      f.body :: allFrom opening closing fuel (if f.rest.length = cs.length then rest else f.rest)

end Block

/-- The texts of all blocks in a docstring, in order. -/
def findBlocks (markers : Markers) (doc : String) : List String :=
  if doc = "" then []
  else
    let cs := doc.toList
    (Block.allFrom markers.opening.toList markers.closing.toList (cs.length + 1) cs).map
      String.ofList

/-- The mapping that a block holds; nothing at all is an empty mapping. -/
def parseBlock (markers : Markers) (raw : String) : Except Failure Fields :=
  match Yaml.load? raw with
  | none => throw (.block ⟨.malformed, markers, raw⟩)
  | some .null => pure []
  | some (.map fields) => pure fields
  | some _ => throw (.block ⟨.notMapping, markers, raw⟩)

/-- The first block of a docstring; empty where there is none. -/
def firstBlock (markers : Markers) (doc : String) : Except Failure Fields :=
  if doc = "" then pure []
  else match Block.first? markers.opening.toList markers.closing.toList doc.toList with
    | none => pure []
    | some f => parseBlock markers (String.ofList f.body)

end ApiSync
