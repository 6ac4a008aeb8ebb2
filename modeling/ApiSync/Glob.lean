import ApiSync.Glob.Expression
import ApiSync.Path
/-!
Shell patterns for file names.

A pattern is written as an expression that has to match the whole name.  A bracket that closes at
once is the empty set, or with `!` the set of everything, and what follows up to the next bracket is
text of the expression as it stands.
-/

namespace ApiSync
namespace Glob

/-- The tokens of a bracket with the given inside. -/
def bracketTokens (body : List Nat) : Except Failure (List Token) := do
  let (negated, members) := unmark '!' body
  match behind? [unitOf ']'] members with
  | some rest =>
    let text := rest ++ [unitOf ']']
    return .set ⟨negated, []⟩ :: (← textTokens text.length text)
  | none => return [.set (← setOf negated members)]

/-- The inside of a bracket and what follows it, after the opening one.  A closing
bracket right at the start, or after `!`, does not end it. -/
def bracket? (rest : List Nat) : Option (List Nat × List Nat) :=
  let close := unitOf ']'
  let bang := rest.takeWhile (· = unitOf '!') |>.take 1
  let after := rest.drop bang.length
  let first := after.takeWhile (· = close) |>.take 1
  let after := after.drop first.length
  let body := after.takeWhile (· ≠ close)
  if body.length < after.length then
    some (bang ++ first ++ body, after.drop (body.length + 1))
  else none

/-- The tokens of a pattern; the fuel bounds the units read. -/
def tokensFrom : Nat → List Nat → Except Failure (List Token)
  | 0, _ => pure []
  | _ + 1, [] => pure []
  | fuel + 1, c :: cs =>
    if c = unitOf '*' then
      return .set .everything :: .count 0 none :: (← tokensFrom fuel cs)
    else if c = unitOf '?' then return .set .everything :: (← tokensFrom fuel cs)
    else if c = unitOf '[' then
      match bracket? cs with
      | none => return .set (.only c) :: (← tokensFrom fuel cs)
      | some (body, rest) => return (← bracketTokens body) ++ (← tokensFrom fuel rest)
    else return .set (.only c) :: (← tokensFrom fuel cs)

/-- The tokens of a pattern between the two ends of the name. -/
def tokensOf (pattern : String) : Except Failure (List Token) := do
  let units := Text.units pattern.toList
  return .start :: ((← tokensFrom units.length units) ++ [.stop])

def parse (pattern : String) : Except Failure Expression := do
  Expression.ofTokens (← tokensOf pattern)

/-- Whether a name matches a pattern. -/
def isMatch (name pattern : String) : Except Failure Bool := do
  return (← parse pattern).isFound (Text.units name.toList)

/-- Whether one of the patterns matches the path or the bare name. -/
def anyMatch (path name : String) : List String → Except Failure Bool
  | [] => pure false
  | g :: gs => do
    if ← isMatch path g then return true
    else if ← isMatch name g then return true
    else anyMatch path name gs

/-- Whether a file below a root is excluded by a pattern, either by its path from the
root or by its name. -/
def isIgnored (file root : String) (globs : List String) : Except Failure Bool :=
  anyMatch (Path.relative root file) (Path.baseName file) globs

end Glob
end ApiSync
