import ApiSync.Value
/-!
Values as JSON text.  Numbers that JSON has no form for are null, and both zeros are `0`.
-/

namespace ApiSync
namespace Json

/-- The escaped form of a character inside a string. -/
def escapeChar (c : Char) : List Char :=
  match c with
  | '"' => ['\\', '"']
  | '\\' => ['\\', '\\']
  | '\n' => ['\\', 'n']
  | '\r' => ['\\', 'r']
  | '\t' => ['\\', 't']
  | '\x08' => ['\\', 'b']
  | '\x0c' => ['\\', 'f']
  | _ =>
    if c.toNat < 0x20 then
      let ds := Nat.toDigits 16 c.toNat
      '\\' :: 'u' :: List.replicate (4 - ds.length) '0' ++ ds
    else [c]

def quote (s : String) : List Char := '"' :: s.toList.flatMap escapeChar ++ ['"']

def number : Number → List Char
  | .finite s m e => (Number.finite s m e).text.toList
  | _ => "null".toList

def newline (indent : Nat) : List Char := '\n' :: List.replicate indent ' '

/-- Members one below the other between brackets. -/
def block (opening closing : Char) (indent : Nat) (members : List (List Char)) : List Char :=
  opening :: newline (indent + 2) ++ Text.joinWith (',' :: newline (indent + 2)) members
    ++ newline indent ++ [closing]

mutual

/-- The text of a value over several lines, two spaces for every level. -/
def pretty (indent : Nat) : Value → List Char
  | .null => "null".toList
  | .bool b => (if b then "true" else "false").toList
  | .num n => number n
  | .str s => quote s
  | .list [] => ['[', ']']
  | .list (v :: vs) => block '[' ']' indent (prettyItems (indent + 2) (v :: vs))
  | .map [] => ['{', '}']
  | .map (e :: es) => block '{' '}' indent (prettyEntries (indent + 2) (e :: es))

def prettyItems (indent : Nat) : List Value → List (List Char)
  | [] => []
  | v :: vs => pretty indent v :: prettyItems indent vs

def prettyEntries (indent : Nat) : Fields → List (List Char)
  | [] => []
  | (k, v) :: es => (quote k ++ ':' :: ' ' :: pretty indent v) :: prettyEntries indent es

end

/-- The text of a value as a document of its own. -/
def document (v : Value) : String := String.ofList (pretty 0 v ++ ['\n'])

end Json
end ApiSync
