import ApiSync.Yaml.Scalar
/-!
How strings are written: plain where nothing else can be read, else in quotes, or as a
literal block if they hold line breaks.
-/

namespace ApiSync
namespace Yaml

open Text

/-- Where a scalar stands: the indentation of its lines, and whether it is a key that
shares its line with the value. -/
structure Place where
  indent : Nat
  isKey : Bool

def spaces (n : Nat) : List Char := List.replicate n ' '

def isSpaceOrTab (c : Char) : Bool := c = ' ' || c = '\t'

def isControl (c : Char) : Bool :=
  let n := c.toNat
  n ≤ 8 || (0x0b ≤ n && n ≤ 0x1f) || (0x7f ≤ n && n ≤ 0x9f)

/-- Lines that would end a document or read as a directive. -/
def hasDocumentMark (cs : List Char) : Bool :=
  (splitBreaks cs).any fun line =>
    startsWith ['%'] line || startsWith "---".toList line || startsWith "...".toList line
where
  /-- Lines between all kinds of line breaks. -/
  splitBreaks : List Char → List (List Char)
    | [] => [[]]
    | c :: cs =>
      if c = '\n' || c = '\r' || c.toNat = 0x2028 || c.toNat = 0x2029 then [] :: splitBreaks cs
      else match splitBreaks cs with
        | [] => [[c]]
        | line :: lines => (c :: line) :: lines

/-- Whether two neighbours make the text unfit for a plain scalar: a blank after a colon
or a line break, a blank before a line break, a `#` after a blank. -/
def hasBadPair : List Char → Bool
  | a :: b :: rest =>
    ((a = '\n' || a = ':') && isSpaceOrTab b) || (isSpaceOrTab a && b = '\n')
      || ((a = '\n' || isSpaceOrTab a) && b = '#') || hasBadPair (b :: rest)
  | _ => false

def plainStarts : List Char := "\n\t ,[]\x7b\x7d#&*!|>'\"%@`".toList

/-- Whether a text can stand as a plain scalar as far as its characters go. -/
def isPlainSafe (cs : List Char) : Bool :=
  let badStart := match cs with
    | [] => false
    | [c] => c = '?' || c = '-' || plainStarts.contains c
    | c :: d :: _ => plainStarts.contains c || ((c = '?' || c = '-') && isSpaceOrTab d)
  let badEnd := match cs.getLast? with
    | none => false
    | some c => c = '\n' || isSpaceOrTab c || c = ':' || c = '-'
  !badStart && !badEnd && !hasBadPair cs

/-! ## Double quotes -/

def hexDigits (width n : Nat) : List Char :=
  let ds := Nat.toDigits 16 n
  List.replicate (width - ds.length) '0' ++ ds

/-- The escaped form of one character inside double quotes. -/
def escapeChar (c : Char) : List Char :=
  match c with
  | '"' => ['\\', '"']
  | '\\' => ['\\', '\\']
  | '\n' => ['\\', 'n']
  | '\r' => ['\\', 'r']
  | '\t' => ['\\', 't']
  | '\x08' => ['\\', 'b']
  | '\x0c' => ['\\', 'f']
  | '\x00' => ['\\', '0']
  | '\x07' => ['\\', 'a']
  | '\x0b' => ['\\', 'v']
  | '\x1b' => ['\\', 'e']
  | _ => if c.toNat < 0x20 then '\\' :: 'x' :: hexDigits 2 c.toNat else [c]

/-- The length of a text in quotes when control characters are written with six
characters; from forty on, line breaks are written as such. -/
def escapedLength (cs : List Char) : Nat :=
  cs.foldl (fun length c =>
    length +
      if "\"\\\n\r\t\x08\x0c".toList.contains c then 2
      else if c.toNat < 0x20 then 6
      else (charUnits c).length) 2

/-- Writes text on one line; a space in front of a line break is escaped. -/
def escapeInline : List Char → List Char
  | [] => []
  | ' ' :: '\n' :: rest => '\\' :: ' ' :: '\\' :: 'n' :: escapeInline rest
  | c :: rest => escapeChar c ++ escapeInline rest

/-- Writes text over several lines: folding eats one of the breaks, a break at the very
end is escaped, and so are spaces around a break. -/
def escapeLines (indent : Nat) (inRun : Bool) : List Char → List Char
  | [] => []
  | ['\n'] => ['\\', 'n']
  | '\n' :: rest =>
    let lead := if inRun then ['\n'] else ['\n', '\n']
    match rest with
    | ['\n'] => lead ++ spaces indent ++ escapeLines indent false rest
    | '\n' :: _ => lead ++ escapeLines indent true rest
    | ' ' :: _ => lead ++ spaces indent ++ '\\' :: escapeLines indent false rest
    | _ => lead ++ spaces indent ++ escapeLines indent false rest
  | ' ' :: '\n' :: rest => '\\' :: ' ' :: escapeLines indent false ('\n' :: rest)
  | c :: rest => escapeChar c ++ escapeLines indent false rest

/-- The indentation of quoted and block text; at the top a text with document marks is
moved in. -/
def textIndent (place : Place) (cs : List Char) : Nat :=
  if place.indent = 0 && hasDocumentMark cs then 2 else place.indent

def doubleQuoted (place : Place) (cs : List Char) : List Char :=
  let body := if place.isKey || escapedLength cs < 40 then escapeInline cs
    else escapeLines (textIndent place cs) false cs
  '"' :: body ++ ['"']

/-! ## Single quotes -/

def hasBlankAtBreak : List Char → Bool
  | a :: b :: rest =>
    (isSpaceOrTab a && b = '\n') || (a = '\n' && isSpaceOrTab b) || hasBlankAtBreak (b :: rest)
  | _ => false

/-- Puts one more break and the indentation after every run of line breaks. -/
def doubleBreaks (indent : Nat) : List Char → List Char
  | [] => []
  | '\n' :: '\n' :: rest => '\n' :: doubleBreaks indent ('\n' :: rest)
  | '\n' :: rest => '\n' :: '\n' :: (spaces indent ++ doubleBreaks indent rest)
  | c :: rest => c :: doubleBreaks indent rest

def singleQuoted (place : Place) (cs : List Char) : List Char :=
  if (place.isKey && cs.contains '\n') || hasBlankAtBreak cs then doubleQuoted place cs
  else
    let doubled := cs.flatMap fun c => if c = '\'' then ['\'', '\''] else [c]
    '\'' :: doubleBreaks (textIndent place cs) doubled ++ ['\'']

/-- Double quotes, unless only they would have to be escaped. -/
def quoted (place : Place) (cs : List Char) : List Char :=
  if cs.contains '"' && !cs.contains '\'' then singleQuoted place cs else doubleQuoted place cs

/-! ## Literal blocks -/

def isBlockEnd (c : Char) : Bool := c = '\n' || isSpaceOrTab c

/-- Whether blanks stand after the last line break at the end. -/
def endsInBlankLine (cs : List Char) : Bool :=
  let tail := cs.reverse.takeWhile isSpaceOrTab
  tail ≠ [] && (cs.reverse.drop tail.length).head? = some '\n'

/-- Puts the indentation after every run of line breaks. -/
def indentBreaks (indent : Nat) : List Char → List Char
  | [] => []
  | '\n' :: '\n' :: rest => '\n' :: indentBreaks indent ('\n' :: rest)
  | '\n' :: rest => '\n' :: (spaces indent ++ indentBreaks indent rest)
  | c :: rest => c :: indentBreaks indent rest

/-- Like `indentBreaks`, except that breaks at the very end stay as they are. -/
def indentInnerBreaks (indent : Nat) (cs : List Char) : List Char :=
  let tail := cs.reverse.takeWhile (· = '\n')
  indentBreaks indent (cs.take (cs.length - tail.length)) ++ tail

/-- What a block does with the line breaks at its end. -/
def chomping (value tail : List Char) : List Char :=
  match tail.idxOf? '\n' with
  | none => ['-']
  | some i => if value = tail || i ≠ tail.length - 1 then ['+'] else []

/-- The leading part of spaces and breaks, up to the last break in it. -/
def leadingBreaks (cs : List Char) : List Char :=
  let lead := cs.takeWhile fun c => c = ' ' || c = '\n'
  (lead.reverse.dropWhile (· ≠ '\n')).reverse

def literalBlock (place : Place) (cs : List Char) : List Char :=
  if endsInBlankLine cs then quoted place cs
  else
    let indent := textIndent place cs
    let tail := (cs.reverse.takeWhile isBlockEnd).reverse
    let chomp := chomping cs tail
    let body := cs.take (cs.length - tail.length)
    let tail := if tail.getLast? = some '\n' then tail.dropLast else tail
    let lead := body.takeWhile fun c => c = ' ' || c = '\n'
    let indicator := if lead.contains ' ' then (if indent = 0 then ['1'] else ['2']) else []
    let start := leadingBreaks body
    let body := body.drop start.length
    '|' :: (indicator ++ chomp) ++ '\n' :: spaces indent ++ indentBreaks indent start
      ++ indentBreaks indent body ++ indentInnerBreaks indent tail

/-! ## Strings -/

/-- The written form of a string. -/
def writeString (place : Place) (s : String) : List Char :=
  let cs := s.toList
  let broken := cs.contains '\n'
  if cs.any isControl then doubleQuoted place cs
  else if place.isKey && broken then quoted place cs
  else if !isPlainSafe cs then
    if place.isKey || !broken then quoted place cs else literalBlock place cs
  else if broken then literalBlock place cs
  else if hasDocumentMark cs && place.indent = 0 then literalBlock ⟨2, place.isKey⟩ cs
  else if hasDocumentMark cs && place.isKey && place.indent = 2 then quoted place cs
  else if readsAsOther s then quoted place cs
  else cs

end Yaml
end ApiSync
