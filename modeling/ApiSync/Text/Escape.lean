import ApiSync.Number.Decimal
import ApiSync.Text
/-!
Numeric escapes and the text that code points make, surrogates included.
-/

namespace ApiSync
namespace Text

/-- The number of hexadecimal digits after the letter of a numeric escape. -/
def hexEscapeLength (letter : Char) : Nat :=
  match letter with
  | 'x' => 2
  | 'u' => 4
  | 'U' => 8
  | _ => 0

/-- The value of a numeric escape with the given letter, if enough digits follow. -/
def hexEscape? (letter : Char) (rest : List Char) : Option Nat :=
  let n := hexEscapeLength letter
  let ds := rest.take n
  if n ≠ 0 ∧ ds.length = n then Number.radixValue? 16 ds else none

def highestPoint : Nat := 0x10ffff

def isHighSurrogate (n : Nat) : Bool := 0xd800 ≤ n && n < 0xdc00

def isLowSurrogate (n : Nat) : Bool := 0xdc00 ≤ n && n < 0xe000

/-- The character of a code point; a lone surrogate cannot be written and becomes the
replacement character. -/
def pointChar (n : Nat) : Char :=
  if isHighSurrogate n || isLowSurrogate n then '\ufffd' else Char.ofNat n

/-- The text of code points, in which a pair of surrogates is one character. -/
def textOfPoints : List Nat → List Char
  | [] => []
  | [n] => [pointChar n]
  | n :: m :: rest =>
    if isHighSurrogate n && isLowSurrogate m then
      Char.ofNat (0x10000 + (n - 0xd800) * 0x400 + (m - 0xdc00)) :: textOfPoints rest
    else pointChar n :: textOfPoints (m :: rest)

def pointsOf (cs : List Char) : List Nat := cs.map Char.toNat

end Text
end ApiSync
