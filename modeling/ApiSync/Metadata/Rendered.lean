import ApiSync.Value
/-!
Values as reports show them: `None`, `True` and `False`, strings in quotes, lists in
brackets and mappings in braces.
-/

namespace ApiSync
namespace Rendered

open Text

/-- A backslash and a line break inside quotes, and the quote itself if it is a single
one. -/
def escapeChar (quote c : Char) : List Char :=
  if c = '\\' then ['\\', '\\']
  else if c = '\n' then ['\\', 'n']
  else if c = quote && quote = '\'' then ['\\', '\'']
  else [c]

/-- Single quotes, unless only those would have to be escaped. -/
def quoteFor (cs : List Char) : Char :=
  if cs.contains '\'' && !cs.contains '"' then '"' else '\''

def string (cs : List Char) : List Char :=
  let quote := quoteFor cs
  quote :: cs.flatMap (escapeChar quote) ++ [quote]

mutual

def chars : Value → List Char
  | .null => "None".toList
  | .bool b => (if b then "True" else "False").toList
  | .num n => n.text.toList
  | .str s => string s.toList
  | .list vs => '[' :: joinWith [',', ' '] (items vs) ++ [']']
  | .map fields => '{' :: joinWith [',', ' '] (entries fields) ++ ['}']

def items : List Value → List (List Char)
  | [] => []
  | v :: vs => chars v :: items vs

def entries : Fields → List (List Char)
  | [] => []
  | (k, v) :: es => (string k.toList ++ ':' :: ' ' :: chars v) :: entries es

end

end Rendered

namespace Value

/-- The value as reports show it. -/
def rendered (v : Value) : String := String.ofList (Rendered.chars v)

/-- An absent value is shown like null. -/
def renderedOption (v : Option Value) : String := rendered (v.getD .null)

end Value
end ApiSync
