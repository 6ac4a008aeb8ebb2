import ApiSync.Text.Escape
import ApiSync.Yaml.Quoting
/-!
The text of scalars that run over several lines.

A single line break is read as a space, and each empty line after it as a break.  Quoted
and plain scalars lose the blanks around their breaks; block scalars fold only between
lines that stand at their own indentation.
-/

namespace ApiSync
namespace Yaml

open Text

/-! ## Plain and quoted scalars -/

def trimBlanks (line : List Char) : List Char :=
  ((line.dropWhile isSpaceOrTab).reverse.dropWhile isSpaceOrTab).reverse

/-- What stands for the breaks between two lines with `empty` empty ones between. -/
def foldedBreak (empty : Nat) : List Char :=
  if empty = 0 then [' '] else List.replicate empty '\n'

/-- The lines after the first one, with `empty` empty lines passed over so far. -/
def foldRest (empty : Nat) : List (List Char) → List Char
  | [] => []
  | [last] => foldedBreak empty ++ last
  | [] :: more => foldRest (empty + 1) more
  | line :: more => foldedBreak empty ++ line ++ foldRest 0 more

def foldLines : List (List Char) → List Char
  | [] => []
  | first :: rest => first ++ foldRest 0 rest

/-- Removes the blanks around every break; those at the two ends of the text stay. -/
def trimAtBreaks : List (List Char) → List (List Char)
  | [] => []
  | [line] => [line]
  | first :: rest =>
    (first.reverse.dropWhile isSpaceOrTab).reverse ::
      rest.dropLast.map trimBlanks ++ [(rest.getLast?.getD []).dropWhile isSpaceOrTab]

def foldText (cs : List Char) : List Char := foldLines (trimAtBreaks (splitAt '\n' cs))

/-- Halves doubled quotes. -/
def halveQuotes : List Char → List Char
  | '\'' :: '\'' :: rest => '\'' :: halveQuotes rest
  | c :: rest => c :: halveQuotes rest
  | [] => []

/-- The value of the text between single quotes. -/
def singleQuotedValue (body : List Char) : List Char := halveQuotes (foldText body)

/-- The code point that a backslash and one more character stand for. -/
def escapedPoint? (c : Char) : Option Nat :=
  match c with
  | '0' => some 0
  | 'a' => some 0x07
  | 'b' => some 0x08
  | 'e' => some 0x1b
  | 'f' => some 0x0c
  | 'n' => some 0x0a
  | 'r' => some 0x0d
  | 't' => some 0x09
  | 'v' => some 0x0b
  | 'N' => some 0x85
  | '_' => some 0xa0
  | 'L' => some 0x2028
  | 'P' => some 0x2029
  | ' ' | '"' | '/' | '\\' | '\t' => some c.toNat
  | _ => none

def isFoldable (c : Char) : Bool := isSpaceOrTab c || c = '\n'

/-- The code points of the text between double quotes; `skip` characters belong to what
has been read.  There is no value if an escape is not known. -/
def doubleQuotedPoints? (skip : Nat) : List Char → Option (List Nat)
  | [] => some []
  | c :: cs =>
    if skip > 0 then doubleQuotedPoints? (skip - 1) cs
    else if c = '\\' then
      match cs with
      | [] => none
      | e :: rest =>
        if hexEscapeLength e ≠ 0 then
          (hexEscape? e rest).bind fun n =>
            if highestPoint < n then none
            else (doubleQuotedPoints? (1 + hexEscapeLength e) cs).map (n :: ·)
        else if e = '\n' then doubleQuotedPoints? (1 + (rest.takeWhile isSpaceOrTab).length) cs
        else (escapedPoint? e).bind fun n => (doubleQuotedPoints? 1 cs).map (n :: ·)
    else if c = '\n' then
      let run := cs.takeWhile isFoldable
      (doubleQuotedPoints? run.length cs).map (pointsOf (foldedBreak (run.count '\n')) ++ ·)
    else if isSpaceOrTab c && (cs.dropWhile isSpaceOrTab).head? = some '\n' then
      doubleQuotedPoints? (cs.takeWhile isSpaceOrTab).length cs
    else (doubleQuotedPoints? 0 cs).map (c.toNat :: ·)

def doubleQuotedValue? (body : List Char) : Option (List Char) :=
  (doubleQuotedPoints? 0 body).map textOfPoints

/-! ## Block scalars -/

/-- What becomes of the breaks at the end of a block scalar. -/
inductive Chomp where
  | clip
  | strip
  | keep
deriving DecidableEq, Repr

/-- The header of a block scalar: `|` or `>`, an indentation relative to the parent (zero
where none is given), and the chomping. -/
structure BlockHeader where
  folded : Bool
  indicator : Nat
  chomp : Chomp
deriving DecidableEq, Repr

/-- Reads the marks after `|` or `>`, each at most once and in any order. -/
def BlockHeader.read? (h : BlockHeader) : List Char → Option BlockHeader
  | [] => some h
  | c :: cs =>
    if h.chomp = .clip ∧ c = '-' then read? { h with chomp := .strip } cs
    else if h.chomp = .clip ∧ c = '+' then read? { h with chomp := .keep } cs
    else if h.indicator = 0 ∧ '1' ≤ c ∧ c ≤ '9' then
      read? { h with indicator := Number.digitValue c } cs
    else none

/-- A line of a block scalar: the spaces in front and the rest. -/
structure BlockLine where
  indent : Nat
  content : List Char
deriving DecidableEq, Repr

def BlockLine.ofText (line : List Char) : BlockLine :=
  ⟨(line.takeWhile (· = ' ')).length, line.dropWhile (· = ' ')⟩

def BlockLine.isEmpty (line : BlockLine) : Bool := line.content = []

/-- The line without the indentation of its block. -/
def BlockLine.text (trim : Nat) (line : BlockLine) : List Char :=
  spaces (line.indent - trim) ++ line.content

/-- The state of folding: what separates the next line, and whether the last one was
moved in further. -/
structure FoldState where
  separator : List Char
  moreIndented : Bool

/-- The lines of a folded block. -/
def foldBlock (trim : Nat) (s : FoldState) : List BlockLine → List Char
  | [] => []
  | line :: rest =>
    if trim < line.indent || line.content.head? = some '\t' then
      let sep := if s.separator = [' '] then ['\n']
        else if !s.moreIndented && s.separator = ['\n'] then ['\n', '\n'] else s.separator
      sep ++ line.text trim ++ foldBlock trim ⟨['\n'], true⟩ rest
    else if line.isEmpty then
      if s.separator = ['\n'] then '\n' :: foldBlock trim s rest
      else foldBlock trim ⟨['\n'], s.moreIndented⟩ rest
    else s.separator ++ line.content ++ foldBlock trim ⟨[' '], false⟩ rest

def dropEndWhile (p : α → Bool) (xs : List α) : List α := (xs.reverse.dropWhile p).reverse

/-- The end of a block scalar: its text so far and the lines that are left over. -/
def chompBlock (chomp : Chomp) (trim : Nat) (value : List Char) (left : List BlockLine) :
    List Char :=
  match chomp with
  | .strip => value
  | .clip => value ++ ['\n']
  | .keep =>
    let value := value ++ left.flatMap fun line => '\n' :: line.text trim
    if value.getLast? = some '\n' then value else value ++ ['\n']

/-- The value of the lines of a block scalar in a collection at the indentation `parent`.
There is none if a line is indented less than the block. -/
def blockValue? (h : BlockHeader) (parent : Nat) (lines : List BlockLine) : Option (List Char) :=
  let blank := lines.takeWhile BlockLine.isEmpty
  match lines.drop blank.length with
  | [] =>
    some (if h.chomp = .keep && lines ≠ [] then List.replicate (max 1 (lines.length - 1)) '\n'
      else [])
  | first :: more =>
    let base := parent + h.indicator
    let least := if h.indicator = 0 then (blank.map (·.indent)).foldl max base else base
    let trim := if h.indicator = 0 then first.indent else base
    let body := dropEndWhile (fun l => l.isEmpty && l.indent ≤ trim) (first :: more)
    let left := (first :: more).drop body.length
    if first.indent < least || body.any (fun l => !l.isEmpty && l.indent < trim) then none
    else
      let start := blank.flatMap fun line => line.text trim ++ ['\n']
      let text := if h.folded then foldBlock trim ⟨[], false⟩ body
        else joinWith ['\n'] (body.map (·.text trim))
      some (chompBlock h.chomp trim (start ++ text) left)

end Yaml
end ApiSync
