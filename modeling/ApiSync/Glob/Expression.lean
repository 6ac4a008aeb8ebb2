import ApiSync.Failure
import ApiSync.Text.Escape
import ApiSync.Text.Identifier
/-!
Regular expressions over 16-bit units.

An expression is read from a sequence of signs: sets of units, anchors, bars, counts, and the
brackets of groups.  It is only ever asked whether it matches somewhere, and nothing in it refers
back to a group.  So it does not matter whether a count is greedy, and a group with a name is a
group like any other once the names are known to differ.
-/

namespace ApiSync
namespace Glob

def unitOf (c : Char) : Nat := c.toNat

/-- Units in one of the ranges, or in none of them. -/
structure UnitSet where
  negated : Bool
  ranges : List (Nat × Nat)
deriving DecidableEq, Repr

def UnitSet.member (s : UnitSet) (u : Nat) : Bool :=
  s.negated != s.ranges.any fun (low, high) => low ≤ u && u ≤ high

def UnitSet.everything : UnitSet := ⟨true, []⟩

def UnitSet.only (u : Nat) : UnitSet := ⟨false, [(u, u)]⟩

/-- Everything but the line breaks. -/
def UnitSet.inLine : UnitSet := ⟨true, [(10, 10), (13, 13), (0x2028, 0x2029)]⟩

inductive GroupKind where
  | plain
  /-- What follows must match, or must not; it is not consumed. -/
  | ahead (negated : Bool)
  | behind (negated : Bool)
deriving DecidableEq, Repr

inductive Token where
  | set (s : UnitSet)
  | start
  | stop
  | bar
  /-- How often what stands before it is to match. -/
  | count (least : Nat) (most : Option Nat)
  | opening (kind : GroupKind) (name : Option String)
  | closing
deriving DecidableEq, Repr

/-! ## Lists of members -/

/-- The members listed in a bracket; `none` if a range runs backwards. -/
def ranges? : List Nat → Option (List (Nat × Nat))
  | [] => some []
  | [a] => some [(a, a)]
  | [a, b] => some [(a, a), (b, b)]
  | a :: dash :: b :: rest =>
    if dash = unitOf '-' then
      if a ≤ b then (ranges? rest).map ((a, b) :: ·) else none
    else (ranges? (dash :: b :: rest)).map ((a, a) :: ·)
termination_by units => units.length

def setOf (negated : Bool) (members : List Nat) : Except Failure UnitSet :=
  match ranges? members with
  | some ranges => pure ⟨negated, ranges⟩
  | none => throw .badGlob

/-- What stands behind a mark. -/
def behind? (mark : List Nat) (units : List Nat) : Option (List Nat) :=
  if mark.isPrefixOf units then some (units.drop mark.length) else none

/-- Whether a mark stands in front, and the rest without it. -/
def unmark (mark : Char) (units : List Nat) : Bool × List Nat :=
  match behind? [unitOf mark] units with
  | some rest => (true, rest)
  | none => (false, units)

/-! ## Counts -/

def isDigitUnit (u : Nat) : Bool := unitOf '0' ≤ u && u ≤ unitOf '9'

/-- Larger numbers in counts stand for this one. -/
def largestCount : Nat := 0x7fffffff

def countValue (digits : List Nat) : Nat :=
  min (digits.foldl (fun n digit => 10 * n + (digit - unitOf '0')) 0) largestCount

/-- A count in braces behind the opening one, and the rest. -/
def braces? (units : List Nat) : Option (Nat × Option Nat × List Nat) :=
  let (low, rest) := units.span isDigitUnit
  let (high, behindHigh) := ((behind? [unitOf ','] rest).getD []).span isDigitUnit
  if low = [] then none
  else match behind? [unitOf '}'] rest with
    | some rest => some (countValue low, some (countValue low), rest)
    | none => (behind? [unitOf '}'] behindHigh).map fun rest =>
      (countValue low, if high = [] then none else some (countValue high), rest)

def count? : List Nat → Option (Nat × Option Nat × List Nat)
  | [] => none
  | u :: rest =>
    if u = unitOf '*' then some (0, none, rest)
    else if u = unitOf '+' then some (1, none, rest)
    else if u = unitOf '?' then some (0, some 1, rest)
    else if u = unitOf '{' then braces? rest
    else none

/-! ## Groups -/

/-- Characters that may start the name of a group but no identifier of Python. -/
def groupStartRanges : Text.CharRanges := [
  (0x37a, 0x37a), (0x88f, 0x88f), (0xc5c, 0xc5c), (0xcdc, 0xcdc), (0xe33, 0xe33), (0xeb3, 0xeb3),
  (0x1c89, 0x1c8a), (0x309b, 0x309c), (0xa7cb, 0xa7cf), (0xa7d2, 0xa7d2), (0xa7d4, 0xa7d4),
  (0xa7da, 0xa7dc), (0xa7f1, 0xa7f1), (0xfc5e, 0xfc63), (0xfdfa, 0xfdfb), (0xfe70, 0xfe70),
  (0xfe72, 0xfe72), (0xfe74, 0xfe74), (0xfe76, 0xfe76), (0xfe78, 0xfe78), (0xfe7a, 0xfe7a),
  (0xfe7c, 0xfe7c), (0xfe7e, 0xfe7e), (0xff9e, 0xff9f), (0x105c0, 0x105f3), (0x10940, 0x10959),
  (0x10d4a, 0x10d65), (0x10d6f, 0x10d85), (0x10ec2, 0x10ec7), (0x11380, 0x11389),
  (0x1138b, 0x1138b), (0x1138e, 0x1138e), (0x11390, 0x113b5), (0x113b7, 0x113b7),
  (0x113d1, 0x113d1), (0x113d3, 0x113d3), (0x11bc0, 0x11be0), (0x11db0, 0x11ddb),
  (0x1342f, 0x1342f), (0x13460, 0x143fa), (0x16100, 0x1611d), (0x16d40, 0x16d6c),
  (0x16ea0, 0x16eb8), (0x16ebb, 0x16ed3), (0x16ff2, 0x16ff6), (0x187f8, 0x187ff),
  (0x18cff, 0x18cff), (0x18d09, 0x18d1e), (0x18d80, 0x18df2), (0x1e5d0, 0x1e5ed),
  (0x1e5f0, 0x1e5f0), (0x1e6c0, 0x1e6de), (0x1e6e0, 0x1e6e2), (0x1e6e4, 0x1e6e5),
  (0x1e6e7, 0x1e6ed), (0x1e6f0, 0x1e6f4), (0x1e6fe, 0x1e6ff), (0x2b739, 0x2b73f),
  (0x2cea2, 0x2cead), (0x323b0, 0x33479)]

/-- The same for the characters behind the first one. -/
def groupNameRanges : Text.CharRanges := [
  (0x897, 0x897), (0x1acf, 0x1add), (0x1ae0, 0x1aeb), (0x200c, 0x200d), (0x30fb, 0x30fb),
  (0xff65, 0xff65), (0x10d40, 0x10d49), (0x10d69, 0x10d6d), (0x10efa, 0x10efc),
  (0x113b8, 0x113c0), (0x113c2, 0x113c2), (0x113c5, 0x113c5), (0x113c7, 0x113ca),
  (0x113cc, 0x113d0), (0x113d2, 0x113d2), (0x113e1, 0x113e2), (0x116d0, 0x116e3),
  (0x11b60, 0x11b67), (0x11bf0, 0x11bf9), (0x11de0, 0x11de9), (0x11f5a, 0x11f5a),
  (0x1611e, 0x16139), (0x16d70, 0x16d79), (0x1ccf0, 0x1ccf9), (0x1e5ee, 0x1e5ef),
  (0x1e5f1, 0x1e5fa), (0x1e6e3, 0x1e6e3), (0x1e6e6, 0x1e6e6), (0x1e6ee, 0x1e6ef),
  (0x1e6f5, 0x1e6f5)]

def isGroupStart (c : Char) : Bool :=
  c = '$' || Text.isIdentifierStart c || groupStartRanges.member c.toNat

def isGroupChar (c : Char) : Bool :=
  isGroupStart c || Text.isIdentifierChar c || groupNameRanges.member c.toNat

def isGroupName : List Char → Bool
  | [] => false
  | c :: cs => isGroupStart c && cs.all isGroupChar

def groupMarks : List (String × GroupKind) :=
  [("?:", .plain), ("?=", .ahead false), ("?!", .ahead true), ("?<=", .behind false),
    ("?<!", .behind true)]

/-- A name up to the bracket that closes it, and the rest. -/
def groupName? (units : List Nat) : Option (List Char × List Nat) :=
  let name := Text.textOfPoints (units.takeWhile (· ≠ unitOf '>'))
  if isGroupName name then
    some (name, (units.dropWhile (· ≠ unitOf '>')).drop 1)
  else none

/-- A group behind the bracket that opens it, and the rest. -/
def group? (units : List Nat) : Option (Token × List Nat) :=
  let marked := groupMarks.findSome? fun (mark, kind) =>
    (behind? (mark.toList.map unitOf) units).map fun rest => (Token.opening kind none, rest)
  match marked, behind? [unitOf '?'] units with
  | some found, _ => some found
  | none, none => some (.opening .plain none, units)
  | none, some rest => do
    let (name, rest) ← groupName? (← behind? [unitOf '<'] rest)
    return (.opening .plain (some (String.ofList name)), rest)

/-! ## Text of expressions -/

/-- A unit that says nothing about the units around it. -/
def Token.ofUnit (u : Nat) : Token :=
  if u = unitOf '.' then .set .inLine
  else if u = unitOf '^' then .start
  else if u = unitOf '$' then .stop
  else if u = unitOf '|' then .bar
  else if u = unitOf ')' then .closing
  else .set (.only u)

/-- The tokens of a text in which a backslash stands for itself; the fuel bounds the units read. -/
def textTokens : Nat → List Nat → Except Failure (List Token)
  | 0, _ => pure []
  | _ + 1, [] => pure []
  | fuel + 1, u :: units =>
    match count? (u :: units) with
    | some (least, most, rest) =>
      if most.any (· < least) then throw .badGlob
      else return .count least most :: (← textTokens fuel (unmark '?' rest).2)
    | none =>
      if u = unitOf '(' then
        match group? units with
        | some (token, rest) => return token :: (← textTokens fuel rest)
        | none => throw .badGlob
      else if u = unitOf '[' then
        let (negated, members) := unmark '^' (units.takeWhile (· ≠ unitOf ']'))
        match units.dropWhile (· ≠ unitOf ']') with
        | _ :: rest => return .set (← setOf negated members) :: (← textTokens fuel rest)
        | [] => throw .badGlob
      else return .ofUnit u :: (← textTokens fuel units)

/-! ## Reading -/

inductive Expression where
  | empty
  | set (s : UnitSet)
  | start
  | stop
  | chain (first second : Expression)
  | choice (first second : Expression)
  | times (body : Expression) (least : Nat) (most : Option Nat)
  | look (back negated : Bool) (body : Expression)
deriving DecidableEq, Repr

def GroupKind.around (body : Expression) : GroupKind → Expression
  | .plain => body
  | .ahead negated => .look false negated body
  | .behind negated => .look true negated body

/-- Whether a count may follow the group. -/
def GroupKind.isCountable : GroupKind → Bool
  | .behind _ => false
  | _ => true

/-- What has been read of a group: the alternatives before the last bar and what stands behind it.
The last term is kept apart as long as a count may follow. -/
structure Row where
  before : Option Expression
  terms : Expression
  last : Option Expression
deriving DecidableEq, Repr

namespace Row

def empty : Row := ⟨none, .empty, none⟩

/-- What stands behind the last bar. -/
def behindBar (row : Row) : Expression :=
  match row.last with
  | some term => .chain row.terms term
  | none => row.terms

def whole (row : Row) : Expression :=
  match row.before with
  | some first => .choice first row.behindBar
  | none => row.behindBar

def add (row : Row) (term : Expression) (isCountable : Bool) : Row :=
  if isCountable then ⟨row.before, row.behindBar, some term⟩
  else ⟨row.before, .chain row.behindBar term, none⟩

end Row

/-- The group that is being read, and the groups around it from the inside to the outside. -/
structure Reading where
  row : Row
  outer : List (GroupKind × Row)
deriving DecidableEq, Repr

def Reading.step (reading : Reading) : Token → Except Failure Reading
  | .set s => pure ⟨reading.row.add (.set s) true, reading.outer⟩
  | .start => pure ⟨reading.row.add .start false, reading.outer⟩
  | .stop => pure ⟨reading.row.add .stop false, reading.outer⟩
  | .bar => pure ⟨⟨some reading.row.whole, .empty, none⟩, reading.outer⟩
  | .count least most =>
    match reading.row.last with
    | some term =>
      pure ⟨⟨reading.row.before, .chain reading.row.terms (.times term least most), none⟩,
        reading.outer⟩
    | none => throw .badGlob
  | .opening kind _ => pure ⟨.empty, (kind, reading.row) :: reading.outer⟩
  | .closing =>
    match reading.outer with
    | (kind, row) :: outer =>
      pure ⟨row.add (kind.around reading.row.whole) kind.isCountable, outer⟩
    | [] => throw .badGlob

def Token.name? : Token → Option String
  | .opening _ name => name
  | _ => none

/-- The expression that the tokens write.  No two groups share a name. -/
def Expression.ofTokens (tokens : List Token) : Except Failure Expression := do
  if ¬(tokens.filterMap Token.name?).Nodup then throw .badGlob
  let reading ← tokens.foldlM Reading.step ⟨.empty, []⟩
  if reading.outer = [] then return reading.row.whole else throw .badGlob

/-! ## Matching -/

/-- The unit next to a position, and the position behind it. -/
def beside? (text : List Nat) (back : Bool) (i : Nat) : Option (Nat × Nat) :=
  if back then
    match i with
    | 0 => none
    | j + 1 => text[j]?.map (·, j)
  else text[i]?.map (·, i + 1)

/-- A number of rounds. -/
def rounds (round : Nat → (Nat → Bool) → Bool) : Nat → Nat → (Nat → Bool) → Bool
  | 0, i, next => next i
  | n + 1, i, next => round i fun j => rounds round n j next

/-- At most a number of rounds, each of which moves. -/
def moves (round : Nat → (Nat → Bool) → Bool) : Nat → Nat → (Nat → Bool) → Bool
  | 0, i, next => next i
  | n + 1, i, next => next i || round i fun j => j != i && moves round n j next

namespace Expression

/-- Whether the expression matches from a position on, ahead or back, and what comes next holds of
the position that it ends at. -/
def run (text : List Nat) : Expression → Bool → Nat → (Nat → Bool) → Bool
  | .empty, _, i, next => next i
  | .set s, back, i, next => (beside? text back i).any fun (u, j) => s.member u && next j
  | .start, _, i, next => i == 0 && next i
  | .stop, _, i, next => i == text.length && next i
  | .chain first second, back, i, next =>
    if back then second.run text back i fun j => first.run text back j next
    else first.run text back i fun j => second.run text back j next
  | .choice first second, back, i, next =>
    first.run text back i next || second.run text back i next
  | .times body least most, back, i, next =>
    -- behind the least number, a round that does not move adds nothing
    rounds (body.run text back) least i fun j =>
      moves (body.run text back) (most.elim text.length (· - least)) j next
  | .look back negated body, _, i, next =>
    (body.run text back i fun _ => true) != negated && next i

/-- Whether the expression matches at some place. -/
def isFound (e : Expression) (text : List Nat) : Bool :=
  (List.range (text.length + 1)).any fun i => e.run text false i fun _ => true

end Expression
end Glob
end ApiSync
