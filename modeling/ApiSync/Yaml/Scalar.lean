import ApiSync.Value
/-!
Plain scalars of YAML 1.2 under its core schema: which texts are null, truth values or
numbers.  Every other plain text is a string.
-/

namespace ApiSync
namespace Yaml

open Text

def nullWords : List String := ["", "~", "null", "Null", "NULL"]

def trueWords : List String := ["true", "True", "TRUE"]

def falseWords : List String := ["false", "False", "FALSE"]

def infinityWords : List String := [".inf", ".Inf", ".INF"]

def nanWords : List String := [".nan", ".NaN", ".NAN"]

def isNullWord (s : String) : Bool := nullWords.contains s

def bool? (s : String) : Option Bool :=
  if trueWords.contains s then some true
  else if falseWords.contains s then some false
  else none

/-- Whole numbers: decimal with an optional sign, octal after `0o`, hexadecimal after
`0x`. -/
def int? (s : String) : Option Number :=
  match s.toList with
  | '0' :: 'o' :: ds => if ds = [] then none else (Number.radixValue? 8 ds).map Number.ofNat
  | '0' :: 'x' :: ds => if ds = [] then none else (Number.radixValue? 16 ds).map Number.ofNat
  | cs =>
    let n := Number.splitNumeral cs
    if n.point || n.rest ≠ [] then none else n.value?

/-- Numbers with a point or an exponent, the infinities, and `.nan`. -/
def float? (s : String) : Option Number :=
  if nanWords.contains s then some .nan
  else
    let (negative, body) := Number.splitSign s.toList
    if infinityWords.contains (String.ofList body) then some (.infinite negative)
    else
      let n := Number.splitNumeral s.toList
      if n.point || n.rest ≠ [] then n.value? else none

/-- The value of a plain scalar. -/
def resolve (s : String) : Value :=
  if isNullWord s then .null
  else match bool? s with
    | some b => .bool b
    | none =>
      match (int? s).or (float? s) with
      | some n => .num n
      | none => .str s

/-- Whether the plain text would be read as something other than a string. -/
def readsAsOther (s : String) : Bool :=
  match resolve s with
  | .str _ => false
  | _ => true

end Yaml
end ApiSync
