import ApiSync.Python.Syntax
/-!
Expressions on one line.

Comments go, runs of blanks and line breaks become one space at most, a comma is
followed by one space, a pipe stands between two, and brackets stick to what they
enclose.  String literals are copied as they are.
-/

namespace ApiSync
namespace Python

open Text

/-- How far a string literal goes on after its opening, the closing included.  Without
triple quotes it ends before a line break. -/
def literalRest (delimiter : List Char) : List Char → Nat
  | [] => 0
  | ['\\'] => 1
  | '\\' :: _ :: rest => literalRest delimiter rest + 2
  | c :: rest =>
    if startsWith delimiter (c :: rest) then delimiter.length
    else if delimiter.length = 1 && c = '\n' then 0
    else literalRest delimiter rest + 1

/-- The length of the string literal at the start of the text. -/
def literalLength (quote : Char) (cs : List Char) : Nat :=
  let delimiter := if startsWith [quote, quote, quote] cs then [quote, quote, quote] else [quote]
  delimiter.length + literalRest delimiter (cs.drop delimiter.length)

/-- What has been written, last character first, and whether a blank was passed over
since. -/
structure Line where
  written : List Char
  pending : Bool

def isOpeningBracket (c : Char) : Bool := c = '(' || c = '[' || c = '{'

def isClosingBracket (c : Char) : Bool := c = ')' || c = ']' || c = '}'

/-- Whether a space belongs between what is written and the next character. -/
def Line.needsSpace (line : Line) (next : Char) : Bool :=
  match line.written with
  | [] => false
  | last :: _ =>
    let attached := (next = '[' || next = '(' || next = '.')
      && (isWordChar last || last = ']' || last = ')')
    line.pending && last ≠ ' ' && last ≠ '.' && !isOpeningBracket last && !attached

/-- Writes a character after the space that is due. -/
def Line.put (line : Line) (c : Char) : Line :=
  ⟨c :: (if line.needsSpace c then ' ' :: line.written else line.written), false⟩

/-- What is written without blanks at its end. -/
def Line.trimmed (line : Line) : List Char := line.written.dropWhile isBlank

/-- Reads on with `copy` characters of a string literal still to be copied, or inside a
comment. -/
def normalizeFrom (line : Line) (copy : Nat) (comment : Bool) : List Char → Line
  | [] => line
  | c :: cs =>
    if copy > 0 then normalizeFrom ⟨c :: line.written, line.pending⟩ (copy - 1) false cs
    else if comment && c ≠ '\n' then normalizeFrom line 0 true cs
    else if c = '"' || c = '\'' then
      normalizeFrom (line.put c) (literalLength c (c :: cs) - 1) false cs
    else if c = '#' then normalizeFrom line 0 true cs
    else if isBlank c || (c = '\\' && cs.head? = some '\n') then
      normalizeFrom ⟨line.written, true⟩ 0 false cs
    else if c = ',' then normalizeFrom ⟨',' :: line.trimmed, true⟩ 0 false cs
    else if c = '|' then normalizeFrom ⟨' ' :: '|' :: ' ' :: line.trimmed, false⟩ 0 false cs
    else if isClosingBracket c then normalizeFrom ⟨c :: line.trimmed, false⟩ 0 false cs
    else normalizeFrom (line.put c) 0 false cs

def normalize (text : List Char) : List Char :=
  trim (normalizeFrom ⟨[], false⟩ 0 false text).written.reverse

/-- The one-line text of an expression. -/
def Expr.line (e : Expr) : String := String.ofList (normalize e.text.toList)

end Python
end ApiSync
