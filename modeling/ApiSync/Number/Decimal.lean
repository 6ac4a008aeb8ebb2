import ApiSync.Number
import ApiSync.Text
/-!
Decimal text of numbers.  A number is written with the fewest digits that read
back as the same number, positionally between 1e-7 and 1e21 and with an exponent
elsewhere.
-/

namespace ApiSync
namespace Number

/-- A decimal numeral: the digits are a whole number, and the value is that
number times `10 ^ exponent`. -/
structure Decimal where
  digits : Nat
  exponent : Int
deriving DecidableEq, Repr

/-- `num / den * 10 ^ shift` as a fraction of whole numbers. -/
def decimalScaled (num den : Nat) (shift : Int) : Nat × Nat :=
  if shift < 0 then (num, den * Nat.pow 10 shift.natAbs) else (num * Nat.pow 10 shift.toNat, den)

/-- How many decimal digits a positive whole number has. -/
def digitCount (n : Nat) : Nat := (Nat.toDigits 10 n).length

/-- The power of ten of the leading digit of `num / den`. -/
def leadingPower (num den : Nat) : Int :=
  let guess : Int := (digitCount num : Int) - digitCount den
  let (n, d) := decimalScaled num den (-guess)
  if n < d then guess - 1 else guess

/-- The reals that round to a number, as four times the number in units of its
last bit: half a unit to each side, a quarter below a power of two. -/
structure Interval where
  low : Nat
  high : Nat
  closed : Bool

def roundingInterval (m : Nat) (e : Int) : Interval where
  low := if m = Nat.pow 2 52 ∧ minExponent < e then 4 * m - 1 else 4 * m - 2
  high := 4 * m + 2
  closed := m % 2 = 0

/-- Whether `p / q` in quarter units lies in the interval. -/
def Interval.contains (i : Interval) (p q : Nat) : Bool :=
  if i.closed then i.low * q ≤ p && p ≤ i.high * q else i.low * q < p && p < i.high * q

/-- The better of the two neighbours of the number on the grid of `count` digits,
if one of them reads back. -/
def onGrid? (m : Nat) (e : Int) (power : Int) (count : Nat) : Option Decimal :=
  let step : Int := power - count + 1
  let (a, b) := magnitude m e
  let (n, d) := decimalScaled a b (-step)
  let below := n / d
  let quarter (k : Nat) : Nat × Nat :=
    let (x, y) := decimalScaled k 1 step
    let (u, v) := scaled (4 * x) y (-e)
    (u, v)
  let fits (k : Nat) : Bool :=
    let (p, q) := quarter k
    (roundingInterval m e).contains p q
  match fits below && below != 0, fits (below + 1) with
  | true, true => some ⟨roundHalfEven n d, step⟩
  | true, false => some ⟨below, step⟩
  | false, true => some ⟨below + 1, step⟩
  | false, false => none

/-- Divides out trailing zeros; the fuel is the number of digits. -/
def trimZeros : Nat → Decimal → Decimal
  | 0, d => d
  | fuel + 1, d =>
    if d.digits ≠ 0 ∧ d.digits % 10 = 0 then trimZeros fuel ⟨d.digits / 10, d.exponent + 1⟩ else d

/-- The shortest numeral that reads back as `m * 2 ^ e`, for a positive `m`. -/
def shortest (m : Nat) (e : Int) : Decimal :=
  let (a, b) := magnitude m e
  let power := leadingPower a b
  let found := (List.range 17).findSome? fun k => onGrid? m e power (k + 1)
  trimZeros 20 (found.getD ⟨0, 0⟩)

/-- The layout of a numeral: where the point falls decides between positional and
exponent notation. -/
def layout (d : Decimal) : String :=
  let ds := Nat.toDigits 10 d.digits
  let k := ds.length
  let point : Int := d.exponent + k
  if (k : Int) ≤ point ∧ point ≤ 21 then
    String.ofList (ds ++ List.replicate (point.toNat - k) '0')
  else if 0 < point ∧ point ≤ 21 then
    String.ofList (ds.take point.toNat ++ '.' :: ds.drop point.toNat)
  else if -6 < point ∧ point ≤ 0 then
    String.ofList ('0' :: '.' :: (List.replicate point.natAbs '0' ++ ds))
  else
    let e := point - 1
    let mark := if e < 0 then ['e', '-'] else ['e', '+']
    let body := match ds with
      | [] => []
      | [c] => [c]
      | c :: r => c :: '.' :: r
    String.ofList (body ++ mark ++ Nat.toDigits 10 e.natAbs)

/-- The text of a number; both zeros are written `0`. -/
def text : Number → String
  | .nan => "NaN"
  | .infinite s => if s then "-Infinity" else "Infinity"
  | .finite _ 0 _ => "0"
  | .finite s m e => (if s then "-" else "") ++ layout (shortest m e)

/-- Text with a fixed number of places; a half goes away from zero, and numbers
of 1e21 and more are written as by `text`. -/
def fixed (places : Nat) (x : Number) : String :=
  match x with
  | .finite s m e =>
    let (a, b) := magnitude m e
    if Nat.pow 10 21 * b ≤ a then x.text
    else
      let n := (2 * a * Nat.pow 10 places + b) / (2 * b)
      let ds := Nat.toDigits 10 n
      let ds := List.replicate (places + 1 - ds.length) '0' ++ ds
      let whole := ds.take (ds.length - places)
      let frac := ds.drop (ds.length - places)
      let sign := if s && m != 0 then "-" else ""
      sign ++ String.ofList (if places = 0 then whole else whole ++ '.' :: frac)
  | _ => x.text

/-- The number nearest to `digits * 10 ^ exponent`; powers far outside the range
are settled without computing them. -/
def ofDecimal (negative : Bool) (digits : Nat) (exponent : Int) : Number :=
  if digits = 0 then ofRatio negative 0 1
  else
    let size : Int := exponent + digitCount digits
    if 400 < size then .infinite negative
    else if size < -400 then ofRatio negative 0 1
    else
      let (n, d) := decimalScaled digits 1 exponent
      ofRatio negative n d

/-! ## Reading numerals -/

def digitValue (c : Char) : Nat := c.toNat - '0'.toNat

def decimalValue (ds : List Char) : Nat := ds.foldl (fun n c => 10 * n + digitValue c) 0

/-- The value of a digit in a radix up to 36, letters in either case. -/
def radixDigit? (radix : Nat) (c : Char) : Option Nat :=
  let v := if c.isDigit then some (c.toNat - 48)
    else if 'a' ≤ c ∧ c ≤ 'z' then some (c.toNat - 87)
    else if 'A' ≤ c ∧ c ≤ 'Z' then some (c.toNat - 55)
    else none
  v.filter (· < radix)

def radixValue? (radix : Nat) (cs : List Char) : Option Nat :=
  cs.foldlM (fun n c => (radixDigit? radix c).map (radix * n + ·)) 0

/-- A numeral split into its sign, the digits before and after the point, and the
rest of the text from the exponent mark on. -/
structure Numeral where
  negative : Bool
  whole : List Char
  frac : List Char
  point : Bool
  rest : List Char

def splitSign : List Char → Bool × List Char
  | '-' :: r => (true, r)
  | '+' :: r => (false, r)
  | r => (false, r)

def splitNumeral (cs : List Char) : Numeral :=
  let (negative, body) := splitSign cs
  let whole := body.takeWhile Char.isDigit
  match body.dropWhile Char.isDigit with
  | '.' :: r => ⟨negative, whole, r.takeWhile Char.isDigit, true, r.dropWhile Char.isDigit⟩
  | r => ⟨negative, whole, [], false, r⟩

/-- The exponent written after the digits: nothing, or a mark, a sign and digits. -/
def exponentValue? : List Char → Option Int
  | [] => some 0
  | c :: r =>
    if c = 'e' ∨ c = 'E' then
      let (negative, ds) := splitSign r
      if ds ≠ [] ∧ ds.all Char.isDigit then
        let n := decimalValue ds
        some (if negative then -(n : Int) else n)
      else none
    else none

/-- The value of a decimal numeral with digits on at least one side of the point. -/
def Numeral.value? (n : Numeral) : Option Number :=
  if n.whole = [] ∧ n.frac = [] then none
  else (exponentValue? n.rest).map fun e =>
    ofDecimal n.negative (decimalValue (n.whole ++ n.frac)) (e - n.frac.length)

/-! ## Free text, such as the value of an option -/

/-- The value of digits in another radix after `0x`, `0o` or `0b`. -/
def prefixed? (cs : List Char) : Option Number :=
  match cs with
  | '0' :: mark :: digits =>
    let radix := if mark = 'x' || mark = 'X' then 16
      else if mark = 'o' || mark = 'O' then 8
      else if mark = 'b' || mark = 'B' then 2 else 0
    if radix = 0 || digits = [] then none else (radixValue? radix digits).map ofNat
  | _ => none

/-- `Infinity` with an optional sign. -/
def infinity? (cs : List Char) : Option Number :=
  let (negative, body) := splitSign cs
  if body = "Infinity".toList then some (.infinite negative) else none

/-- The number that a text spells, blanks around it left out.  Nothing at all is zero, and
any other text is `nan`. -/
def ofText (text : String) : Number :=
  let cs := Text.trim text.toList
  if cs = [] then zero
  else (((prefixed? cs).or (infinity? cs)).or (splitNumeral cs).value?).getD .nan

end Number
end ApiSync
