/-!
Binary64 numbers held exactly.  A finite number is a sign, a whole mantissa and
a power of two; `Number.ofRatio` is the one place where anything is rounded.
Two numbers are equal when they are the same number with the same sign of zero,
and there is a single `nan`.
-/

namespace ApiSync

inductive Number where
  | nan
  | infinite (negative : Bool)
  | finite (negative : Bool) (mantissa : Nat) (exponent : Int)
deriving DecidableEq, Repr

namespace Number

/-- The smallest exponent, that of the subnormal numbers and of zero. -/
def minExponent : Int := -1074

/-- The exponent of the largest finite numbers. -/
def maxExponent : Int := 971

def zero : Number := .finite false 0 minExponent

instance : Inhabited Number := ⟨zero⟩

/-- `num / den * 2 ^ shift` as a fraction of whole numbers. -/
def scaled (num den : Nat) (shift : Int) : Nat × Nat :=
  if shift < 0 then (num, den * Nat.pow 2 shift.natAbs) else (num * Nat.pow 2 shift.toNat, den)

/-- The whole number nearest to `num / den`; a half goes to the even neighbour. -/
def roundHalfEven (num den : Nat) : Nat :=
  let q := num / den
  let twice := 2 * (num % den)
  if twice < den then q
  else if den < twice then q + 1
  else q + q % 2

/-- The exponent at which `num / den` has a mantissa of exactly 53 bits, or the
smallest exponent where that one is too small. -/
def exponentFor (num den : Nat) : Int :=
  let guess : Int := (num.log2 : Int) - den.log2 - 52
  let (n, d) := scaled num den (-guess)
  let exact := if n < d * Nat.pow 2 52 then guess - 1 else guess
  max exact minExponent

/-- The number nearest to `num / den` with the given sign. -/
def ofRatio (negative : Bool) (num den : Nat) : Number :=
  if num = 0 ∨ den = 0 then .finite negative 0 minExponent
  else
    let e := exponentFor num den
    let (n, d) := scaled num den (-e)
    let m := roundHalfEven n d
    let (m, e) := if m = Nat.pow 2 53 then (Nat.pow 2 52, e + 1) else (m, e)
    if maxExponent < e then .infinite negative else .finite negative m e

def ofNat (n : Nat) : Number := ofRatio false n 1

def ofInt (n : Int) : Number := ofRatio (n < 0) n.natAbs 1

def isNegative : Number → Bool
  | .nan => false
  | .infinite s => s
  | .finite s _ _ => s

def isZero : Number → Bool
  | .finite _ 0 _ => true
  | _ => false

def isNan : Number → Bool
  | .nan => true
  | _ => false

def negate : Number → Number
  | .nan => .nan
  | .infinite s => .infinite (!s)
  | .finite s m e => .finite (!s) m e

/-- The magnitude of a finite number as a fraction. -/
def magnitude (m : Nat) (e : Int) : Nat × Nat := scaled m 1 e

/-- The product, rounded once. -/
def mul : Number → Number → Number
  | .finite s m e, .finite t n f =>
    let (a, b) := magnitude m e
    let (c, d) := magnitude n f
    ofRatio (s != t) (a * c) (b * d)
  | .nan, _ | _, .nan => .nan
  | a, b => if a.isZero || b.isZero then .nan else .infinite (a.isNegative != b.isNegative)

/-- The quotient, rounded once. -/
def div : Number → Number → Number
  | .finite s m e, .finite t n f =>
    let (a, b) := magnitude m e
    let (c, d) := magnitude n f
    if n = 0 then (if m = 0 then .nan else .infinite (s != t)) else ofRatio (s != t) (a * d) (b * c)
  | .nan, _ | _, .nan | .infinite _, .infinite _ => .nan
  | .infinite s, b => .infinite (s != b.isNegative)
  | a, .infinite t => .finite (a.isNegative != t) 0 minExponent

def isFinite : Number → Bool
  | .finite .. => true
  | _ => false

/-- A finite number as a signed numerator over a denominator. -/
def signedRatio (negative : Bool) (m : Nat) (e : Int) : Int × Nat :=
  let (a, b) := magnitude m e
  (if negative then -(a : Int) else a, b)

/-- Numeric order; `nan` is below and above nothing, and the two zeros are level. -/
def lt : Number → Number → Bool
  | .nan, _ | _, .nan => false
  | .infinite s, .infinite t => s && !t
  | .infinite s, .finite .. => s
  | .finite .., .infinite t => !t
  | .finite s m e, .finite t n f =>
    let (a, b) := signedRatio s m e
    let (c, d) := signedRatio t n f
    decide (a * d < c * b)

def le (a b : Number) : Bool := !a.isNan && !b.isNan && !lt b a

/-- The sum, rounded once. -/
def add : Number → Number → Number
  | .nan, _ | _, .nan => .nan
  | .infinite s, .infinite t => if s = t then .infinite s else .nan
  | .infinite s, .finite .. => .infinite s
  | .finite .., .infinite t => .infinite t
  | .finite s m e, .finite t n f =>
    let (a, b) := signedRatio s m e
    let (c, d) := signedRatio t n f
    let sum := a * d + c * b
    ofRatio (sum < 0 || (s && t)) sum.natAbs (b * d)

/-- The whole number that a finite number is, if it is one. -/
def toInt? : Number → Option Int
  | .finite s m e =>
    let (a, b) := magnitude m e
    if a % b = 0 then some (if s then -((a / b : Nat) : Int) else (a / b : Nat)) else none
  | _ => none

end Number

end ApiSync
