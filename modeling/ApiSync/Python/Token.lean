import ApiSync.Text
import ApiSync.Text.Identifier
/-!
Tokens of Python source.

The reader of tokens is a machine with a stack of modes: code with a number of open
brackets, the inside of a string, a replacement field of an f-string, and the format
of such a field.  Every step takes at least one character, so the number of
characters bounds the number of steps.

A line break outside brackets is a token that carries the indentation of the next
line that holds more than blanks and a comment.
-/

namespace ApiSync
namespace Python

open Text

inductive TokenKind where
  | word (text : String)
  | integer
  | float
  | op (text : String)
  | stringOpen
  | stringClose
  | fieldOpen
  | fieldClose
  | formatOpen
  | conversion
  | newline (indent : Nat)
  | bad
deriving DecidableEq, Repr

/-- A token with the range of characters it covers and the row it starts on. -/
structure Token where
  kind : TokenKind
  start : Nat
  stop : Nat
  row : Nat
deriving DecidableEq, Repr

/-- How a string literal was opened. -/
structure Delimiter where
  quote : Char
  triple : Bool
  raw : Bool
  bytes : Bool
  format : Bool
deriving DecidableEq, Repr

/-- `fresh` holds at the start of a string and after each escape or field: only there
may a line break stand in a string with single delimiters. -/
inductive Mode where
  | code (depth : Nat)
  | field (depth : Nat)
  | format
  | text (delimiter : Delimiter) (fresh : Bool)
deriving DecidableEq, Repr

/-- The characters still to be read, with the position and row of the first. -/
structure Cursor where
  pos : Nat
  row : Nat
  rest : List Char

namespace Cursor

/-- Moves over `n` characters. -/
def skip : Nat → Cursor → Cursor
  | 0, c => c
  | n + 1, c =>
    match c.rest with
    | [] => c
    | x :: xs => skip n ⟨c.pos + 1, if x = '\n' then c.row + 1 else c.row, xs⟩

def token (c : Cursor) (kind : TokenKind) (length : Nat) : Token :=
  ⟨kind, c.pos, c.pos + length, c.row⟩

end Cursor

/-- White space between tokens, other than the line feed. -/
def isGap (c : Char) : Bool :=
  c = ' ' || c = '\t' || c = '\r' || c = '\x0b' || c = '\x0c' || c.toNat = 0xfeff
    || c.toNat = 0x2060 || c.toNat = 0x200b

/-- The indentation of the next line with content, and how many characters stand in
front of that content.  A tab counts for eight, carriage returns and form feeds start
over, and the end of the text is not indented. -/
def indentation (indent taken : Nat) (comment : Bool) : List Char → Nat × Nat
  | [] => (0, taken)
  | c :: cs =>
    if c = '\n' then indentation 0 (taken + 1) false cs
    else if comment then indentation indent (taken + 1) true cs
    else if c = ' ' then indentation (indent + 1) (taken + 1) false cs
    else if c = '\t' then indentation (indent + 8) (taken + 1) false cs
    else if c = '\r' || c = '\x0c' then indentation 0 (taken + 1) false cs
    else if c = '#' then indentation indent (taken + 1) true cs
    else if c = '\\' then
      match cs with
      | '\n' :: rest => indentation indent (taken + 2) false rest
      | '\r' :: '\n' :: rest => indentation indent (taken + 3) false rest
      | _ => (indent, taken)
    else (indent, taken)

/-! ## Numbers -/

/-- The length of a run of digits with single underscores between and after them. -/
def digitRun (afterDigit : Bool) : List Char → Nat
  | [] => 0
  | c :: cs =>
    if c.isDigit then digitRun true cs + 1
    else if c = '_' && afterDigit then digitRun false cs + 1
    else 0

/-- The length of digits that an underscore may precede. -/
def radixRun (isDigit : Char → Bool) : List Char → Nat
  | [] => 0
  | '_' :: d :: cs => if isDigit d then radixRun isDigit cs + 2 else 0
  | c :: cs => if isDigit c then radixRun isDigit cs + 1 else 0

def isHexDigit (c : Char) : Bool :=
  c.isDigit || ('a' ≤ c && c ≤ 'f') || ('A' ≤ c && c ≤ 'F')

def isOctalDigit (c : Char) : Bool := '0' ≤ c && c ≤ '7'

def isBinaryDigit (c : Char) : Bool := c = '0' || c = '1'

/-- The length of an exponent, or zero where none is written. -/
def exponentRun : List Char → Nat
  | c :: cs =>
    if c = 'e' || c = 'E' then
      match cs with
      | s :: ds =>
        if s = '+' || s = '-' then
          if ds.head?.any Char.isDigit then digitRun false ds + 2 else 0
        else if s.isDigit then digitRun false cs + 1
        else 0
      | [] => 0
    else 0
  | [] => 0

/-- The length of the suffix of a long or imaginary number. -/
def suffixRun : List Char → Nat
  | c :: _ => if c = 'l' || c = 'L' || c = 'j' || c = 'J' then 1 else 0
  | [] => 0

def radixNumber? : List Char → Option Nat
  | '0' :: x :: rest =>
    let run (isDigit : Char → Bool) : Option Nat :=
      let n := radixRun isDigit rest
      if n = 0 then none
      else
        let tail := (rest.drop n).head?
        some (2 + n + if tail = some 'l' ∨ tail = some 'L' then 1 else 0)
    if x = 'x' || x = 'X' then run isHexDigit
    else if x = 'o' || x = 'O' then run isOctalDigit
    else if x = 'b' || x = 'B' then run isBinaryDigit
    else none
  | _ => none

/-- The number at the start of the text, with its length. -/
def number? (cs : List Char) : Option (TokenKind × Nat) :=
  match radixNumber? cs with
  | some n => some (.integer, n)
  | none =>
    let whole := digitRun false cs
    match cs.drop whole with
    | '.' :: rest =>
      let frac := if rest.head?.any Char.isDigit then digitRun false rest else 0
      if whole = 0 ∧ frac = 0 then none
      else
        let tail := rest.drop frac
        let e := exponentRun tail
        some (.float, whole + 1 + frac + e + suffixRun (tail.drop e))
    | rest =>
      if whole = 0 then none
      else
        let e := exponentRun rest
        let kind : TokenKind := if e = 0 then .integer else .float
        some (kind, whole + e + suffixRun (rest.drop e))

/-! ## Strings -/

def isPrefixLetter (c : Char) : Bool := "rRuUbBfF".toList.contains c

/-- The opening of a string literal: prefix letters and a quote or three. -/
def stringStart? (cs : List Char) : Option (Delimiter × Nat) :=
  let letters := cs.takeWhile isPrefixLetter
  let has (lower upper : Char) : Bool := letters.contains lower || letters.contains upper
  match cs.drop letters.length with
  | q :: rest =>
    if q = '"' || q = '\'' || q = '`' then
      let triple := q ≠ '`' && (rest.take 2 = [q, q])
      some (⟨q, triple, has 'r' 'R', has 'b' 'B', has 'f' 'F'⟩,
        letters.length + if triple then 3 else 1)
    else none
  | [] => none

/-- How many characters an escape takes, the backslash included. -/
def escapeLength (d : Delimiter) : List Char → Nat
  | '\r' :: '\n' :: _ => 3
  | c :: rest =>
    if "'\"abfrntv\\\n".toList.contains c then 2
    else if c = 'N' && d.format && rest.head? = some '{' then
      match (rest.drop 1).takeWhile (· ≠ '}') with
      | [] => 1
      | name => if name.length + 1 < rest.length then name.length + 4 else 1
    else 1
  | [] => 1

/-- How many characters a backslash takes in a raw string: an escaped quote or
backslash, then a line break. -/
def rawEscapeLength (d : Delimiter) (cs : List Char) : Nat :=
  let quoted := match cs with
    | c :: _ => if c = d.quote || c = '\\' then 1 else 0
    | [] => 0
  let broken := match cs.drop quoted with
    | '\r' :: '\n' :: _ => 2
    | '\r' :: _ => 1
    | '\n' :: _ => 1
    | _ => 0
  1 + quoted + broken

/-! ## Operators -/

def operators : List String :=
  ["**=", "//=", ">>=", "<<=", "**", "//", ">>", "<<", "<=", ">=", "==", "!=", "<>", "->", ":=",
    "+=", "-=", "*=", "/=", "%=", "&=", "|=", "^=", "@=", "+", "-", "*", "/", "%", "@", "&", "|",
    "^", "~", "<", ">", "=", ",", ":", ";", ".", "(", ")", "[", "]", "\x7b", "\x7d"]

/-- The longest operator at the start of the text. -/
def operator? (cs : List Char) : Option String :=
  operators.find? fun op => startsWith op.toList cs

/-! ## The machine -/

/-- What one step does: the tokens read, the modes after it, and the characters
taken. -/
structure Step where
  tokens : List Token
  modes : List Mode
  taken : Nat

def failStep (c : Cursor) : Step := ⟨[c.token .bad 1], [], 1⟩

/-- One step inside a string. -/
def stringStep (d : Delimiter) (fresh : Bool) (modes : List Mode) (c : Cursor) : Step :=
  let stay (isFresh : Bool) (n : Nat) : Step := ⟨[], .text d isFresh :: modes, n⟩
  match c.rest with
  | [] => failStep c
  | x :: xs =>
    if d.format && x = '{' then
      if xs.head? = some '{' then stay true 2
      else ⟨[c.token .fieldOpen 1], .field 0 :: .text d true :: modes, 1⟩
    else if d.format && x = '}' then
      if xs.head? = some '}' then stay true 2 else failStep c
    else if x = '\\' then
      if d.raw then stay fresh (rawEscapeLength d xs)
      else if d.bytes && xs.head?.any (fun n => n = 'N' || n = 'u' || n = 'U') then stay false 2
      else stay true (escapeLength d xs)
    else if x = d.quote then
      if !d.triple then ⟨[c.token .stringClose 1], modes, 1⟩
      else if xs.take 2 = [x, x] then ⟨[c.token .stringClose 3], modes, 3⟩
      else stay false 1
    else if x = '\n' && !d.triple && !fresh then failStep c
    else stay false 1

/-- One step between tokens or at the start of one. -/
def codeStep (inField : Bool) (depth : Nat) (modes : List Mode) (c : Cursor) : Step :=
  let mode (n : Nat) : Mode := if inField then .field n else .code n
  let stay (n : Nat) : Step := ⟨[], mode depth :: modes, n⟩
  let emit (kind : TokenKind) (n : Nat) : Step := ⟨[c.token kind n], mode depth :: modes, n⟩
  match c.rest with
  | [] => failStep c
  | x :: xs =>
    if x = '\n' then
      if inField || depth ≠ 0 then stay 1
      else
        let (indent, n) := indentation 0 0 false c.rest
        emit (.newline indent) n
    else if isGap x then stay 1
    else if x = '#' then stay (1 + (xs.takeWhile (· ≠ '\n')).length)
    else if x = '\\' then
      match xs with
      | '\n' :: _ => stay 2
      | '\r' :: '\n' :: _ => stay 3
      | _ => failStep c
    else match stringStart? c.rest with
      | some (d, n) => ⟨[c.token .stringOpen n], .text d true :: mode depth :: modes, n⟩
      | none =>
        if isIdentifierStart x then
          let w := c.rest.takeWhile isIdentifierChar
          emit (.word (String.ofList w)) w.length
        else match number? c.rest with
          | some (kind, n) => emit kind n
          | none =>
            if inField && depth = 0 && x = '}' then ⟨[c.token .fieldClose 1], modes, 1⟩
            else if inField && depth = 0 && x = ':' then
              ⟨[c.token .formatOpen 1], .format :: mode 0 :: modes, 1⟩
            else if inField && depth = 0 && x = '!' && xs.head?.any (fun l => 'a' ≤ l && l ≤ 'z') then
              emit .conversion 2
            else match operator? c.rest with
              | none => failStep c
              | some op =>
                let depth' := if op = "(" || op = "[" || op = "\x7b" then depth + 1
                  else if op = ")" || op = "]" || op = "\x7d" then depth - 1
                  else depth
                ⟨[c.token (.op op) op.length], mode depth' :: modes, op.length⟩

/-- One step inside the format of a field. -/
def formatStep (modes : List Mode) (c : Cursor) : Step :=
  match c.rest with
  | [] => failStep c
  | x :: _ =>
    if x = '{' then ⟨[c.token .fieldOpen 1], .field 0 :: .format :: modes, 1⟩
    else if x = '}' then ⟨[c.token .fieldClose 1], modes.drop 1, 1⟩
    else ⟨[], .format :: modes, 1⟩

def step (modes : List Mode) (c : Cursor) : Step :=
  match modes with
  | .code depth :: rest => codeStep false depth rest c
  | .field depth :: rest => codeStep true depth rest c
  | .format :: rest => formatStep rest c
  | .text d fresh :: rest => stringStep d fresh rest c
  | [] => failStep c

/-- Runs the machine; text that ends inside a string is a bad token. -/
def tokensFrom : Nat → List Mode → Cursor → List Token
  | 0, _, _ => []
  | fuel + 1, modes, c =>
    match c.rest with
    | [] =>
      match modes with
      | [.code _] => [c.token (.newline 0) 0]
      | _ => [c.token .bad 0]
    | _ :: _ =>
      let s := step modes c
      s.tokens ++ tokensFrom fuel s.modes (c.skip s.taken)

/-- Drops line breaks that end no line: those at the start and after another one. -/
def dropEmptyLines (afterBreak : Bool) : List Token → List Token
  | [] => []
  | t :: ts =>
    match t.kind with
    | .newline _ => if afterBreak then dropEmptyLines true ts else t :: dropEmptyLines true ts
    | _ => t :: dropEmptyLines false ts

/-- The tokens of a source text; every line with content ends in a line break. -/
def tokens (source : List Char) : List Token :=
  dropEmptyLines true (tokensFrom (source.length + 1) [.code 0] ⟨0, 0, source⟩)

end Python
end ApiSync
