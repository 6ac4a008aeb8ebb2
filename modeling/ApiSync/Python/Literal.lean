import ApiSync.Failure
import ApiSync.Ambient
import ApiSync.Python.Normal
import ApiSync.Python.Token
import ApiSync.Text.Escape
/-!
Values of literals: strings, numbers, truth values, `None`, and flat dictionaries.
-/

namespace ApiSync
namespace Python

open Text

/-! ## String literals -/

/-- A string literal: its letters in front and the text between its delimiters. -/
structure StringParts where
  letters : List Char
  body : List Char
deriving DecidableEq, Repr

/-- The text between two copies of the delimiter. -/
def between? (delimiter cs : List Char) : Option (List Char) :=
  (dropPrefix? delimiter cs).bind fun rest =>
    if endsWith delimiter rest then some (rest.take (rest.length - delimiter.length)) else none

def splitLiteral? (text : String) : Option StringParts :=
  let cs := text.toList
  let letters := cs.takeWhile isPrefixLetter
  let rest := cs.drop letters.length
  let delimiters : List (List Char) := ["'''".toList, "\"\"\"".toList, ['\''], ['"']]
  (delimiters.findSome? (between? · rest)).map fun body => ⟨lowerAscii letters, body⟩

def StringParts.has (p : StringParts) (letter : Char) : Bool := p.letters.contains letter

/-- The character that a backslash and one more character stand for; nothing at all for
a line break. -/
def simpleEscape? (c : Char) : Option (List Char) :=
  match c with
  | '\\' => some ['\\']
  | '\'' => some ['\'']
  | '"' => some ['"']
  | 'n' => some ['\n']
  | 't' => some ['\t']
  | 'r' => some ['\r']
  | 'a' => some ['\x07']
  | 'b' => some ['\x08']
  | 'f' => some ['\x0c']
  | 'v' => some ['\x0b']
  | '0' => some ['\x00']
  | '\n' => some []
  | _ => none

/-- Decodes the escapes of a body into code points; surrogates are kept apart.  `skip`
characters belong to an escape that is already decoded. -/
def decodeFrom (skip : Nat) : List Char → Except Failure (List Nat)
  | [] => pure []
  | c :: cs =>
    if skip > 0 then decodeFrom (skip - 1) cs
    else if c ≠ '\\' then return c.toNat :: (← decodeFrom 0 cs)
    else match cs with
      | [] => return ['\\'.toNat]
      | e :: rest =>
        match hexEscape? e rest with
        | some n =>
          if highestPoint < n then throw .codePointTooLarge
          else return n :: (← decodeFrom (1 + hexEscapeLength e) cs)
        | none =>
          match simpleEscape? e with
          | some out => return out.map Char.toNat ++ (← decodeFrom 1 cs)
          | none => return '\\'.toNat :: e.toNat :: (← decodeFrom 1 cs)

def decodeEscapes (body : List Char) : Except Failure (List Nat) := decodeFrom 0 body

/-- The code points of one plain literal; nothing for f-strings and bytes. -/
def decodePiece (text : String) : Except Failure (Option (List Nat)) :=
  match splitLiteral? text with
  | none => pure none
  | some p =>
    if p.has 'f' || p.has 'b' then pure none
    else if p.has 'r' then pure (some (pointsOf p.body))
    else some <$> decodeEscapes p.body

/-- Joins the decoded pieces as long as all of them have a value. -/
def joinPieces (decode : String → Except Failure (Option (List Nat))) :
    List String → Except Failure (Option (List Nat))
  | [] => pure (some [])
  | p :: ps => do
    match ← decode p with
    | none => pure none
    | some points => return (← joinPieces decode ps).map (points ++ ·)

def textOf (points : Option (List Nat)) : Option String :=
  points.map fun p => String.ofList (textOfPoints p)

/-- The value of adjacent plain literals. -/
def decodePieces (pieces : List String) : Except Failure (Option String) :=
  textOf <$> joinPieces decodePiece pieces

def Expr.string? (e : Expr) : Except Failure (Option String) :=
  match e.form with
  | .strings pieces => decodePieces pieces
  | _ => pure none

/-! ## Route paths -/

/-- Names that stand for a fixed text in route paths. -/
def placeholders : List (String × String) := [("API_VERSION", "v1")]

def placeholder? (name : List Char) : Option String :=
  let key := String.ofList (trim name)
  (Fields.get? placeholders key).or (Ambient.text? key)

/-- The parts of the body of an f-string. -/
inductive FormatPart where
  | text (cs : List Char)
  | field (name : List Char)
  | unclosed
deriving DecidableEq, Repr

/-- Puts a character in front of the text that the parts start with. -/
def FormatPart.consChar (c : Char) : List FormatPart → List FormatPart
  | .text cs :: rest => .text (c :: cs) :: rest
  | parts => .text [c] :: parts

/-- What the reader of a format body is in: text, the second of a doubled brace, or the
name of a field. -/
inductive FormatState where
  | text
  | doubled
  | field (reversed : List Char)

/-- Splits a body at its fields; doubled braces are text. -/
def formatPartsFrom (state : FormatState) : List Char → List FormatPart
  | [] =>
    match state with
    | .field _ => [.unclosed]
    | _ => []
  | c :: cs =>
    match state with
    | .doubled => formatPartsFrom .text cs
    | .field name =>
      if c = '}' then .field name.reverse :: formatPartsFrom .text cs
      else formatPartsFrom (.field (c :: name)) cs
    | .text =>
      if (c = '{' || c = '}') && cs.head? = some c then
        FormatPart.consChar c (formatPartsFrom .doubled cs)
      else if c = '{' then formatPartsFrom (.field []) cs
      else FormatPart.consChar c (formatPartsFrom .text cs)

def decodeText (raw : Bool) (cs : List Char) : Except Failure (List Nat) :=
  if raw then pure (pointsOf cs) else decodeEscapes cs

/-- The code points of the parts; nothing if a field is not a known placeholder.  The
text in front of a field is decoded once the field is known to be one. -/
def resolveParts (raw : Bool) (pending : List Char) :
    List FormatPart → Except Failure (Option (List Nat))
  | [] => some <$> decodeText raw pending
  | .text cs :: rest => resolveParts raw (pending ++ cs) rest
  | .unclosed :: _ => pure none
  | .field name :: rest =>
    match placeholder? name with
    | none => pure none
    | some value => do
      let before ← decodeText raw pending
      return (← resolveParts raw [] rest).map ((before ++ pointsOf value.toList) ++ ·)

/-- The code points of one literal of a path, which may be an f-string. -/
def pathPiece (text : String) : Except Failure (Option (List Nat)) :=
  match splitLiteral? text with
  | none => pure none
  | some p =>
    if p.has 'b' then pure none
    else if p.has 'f' then resolveParts (p.has 'r') [] (formatPartsFrom .text p.body)
    else some <$> decodeText (p.has 'r') p.body

def pathPieces (pieces : List String) : Except Failure (Option String) :=
  textOf <$> joinPieces pathPiece pieces

/-- The route path that an expression spells, if it can be told without running it. -/
def Expr.path? (e : Expr) : Except Failure (Option String) :=
  match e.form with
  | .strings pieces => pathPieces pieces
  | _ => pure none

/-! ## Numbers and constants -/

def withoutUnderscores (text : String) : List Char := text.toList.filter (· ≠ '_')

/-- The value of an integer literal; long and imaginary ones have none. -/
def integerValue? (text : String) : Option Number :=
  let cs := withoutUnderscores text
  if cs.getLast?.any (fun c => "jJlL".toList.contains c) then none
  else
    let (radix, digits) := match cs with
      | '0' :: x :: rest =>
        if x = 'x' || x = 'X' then (16, rest)
        else if x = 'o' || x = 'O' then (8, rest)
        else if x = 'b' || x = 'B' then (2, rest)
        else (10, cs)
      | _ => (10, cs)
    (Number.radixValue? radix digits).map Number.ofNat

/-- The value of a float literal; imaginary ones and those with a suffix have none. -/
def floatValue? (text : String) : Option Number :=
  (Number.splitNumeral (withoutUnderscores text)).value?

/-- Values that a literal can have. -/
inductive Constant where
  | string (s : String)
  | number (n : Number)
  | truth (b : Bool)
  | none
deriving DecidableEq, Repr

namespace Constant

def toValue : Constant → Value
  | .string s => .str s
  | .number n => .num n
  | .truth b => .bool b
  | .none => .null

def asString? : Constant → Option String
  | .string s => some s
  | _ => Option.none

end Constant

/-- The number that a literal spells. -/
def Expr.number? (e : Expr) : Option Number :=
  match e.form with
  | .integer => integerValue? e.text
  | .float => floatValue? e.text
  | _ => none

/-- The value of a literal, with a minus sign in front of a number allowed. -/
def Expr.constant? (e : Expr) : Except Failure (Option Constant) :=
  match e.form with
  | .strings pieces => (·.map .string) <$> decodePieces pieces
  | .integer | .float => pure (e.number?.map .number)
  | .truth b => pure (some (.truth b))
  | .none => pure (some .none)
  | .unary operator operand =>
    if operator = "-" then pure (operand.number?.map fun n => .number n.negate) else pure none
  | _ => pure none

/-- The string that a literal spells. -/
def Expr.constantString? (e : Expr) : Except Failure (Option String) := do
  return (← e.constant?).bind Constant.asString?

def Expr.isInteger (e : Expr) : Bool :=
  match e.form with
  | .integer => (integerValue? e.text).isSome
  | _ => false

def constantEntries (acc : Fields) : List DictEntry → Except Failure (Option Fields)
  | [] => pure (some acc)
  | .unpacked :: _ => pure none
  | .pair key value :: rest => do
    match ← key.constantString? with
    | none => pure none
    | some k =>
      match ← value.constant? with
      | none => pure none
      | some v => constantEntries (Fields.assign acc k v.toValue) rest

/-- A dictionary display with string keys and literal values only. -/
def Expr.constantDict? (e : Expr) : Except Failure (Option Fields) :=
  match e.form with
  | .dict entries => constantEntries [] entries
  | _ => pure none

end Python
end ApiSync
