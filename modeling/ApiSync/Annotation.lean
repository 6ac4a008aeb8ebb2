import ApiSync.Text.Letter
import ApiSync.Text
/-!
Type annotations as text: the names in them, the members of a union, the null
member, and the flattening of nested unions.

An annotation is read without a grammar.  Brackets are counted, never matched by
kind, and text that is not an annotation at all is carried along unchanged.
-/

namespace ApiSync
namespace Annotation

open Text

/-- Capitalised names of typing constructs; they never name a model. -/
def typingKeywords : List String :=
  ["Optional", "Union", "List", "Dict", "Any", "Type", "Callable", "Tuple", "Set", "Literal"]

/-- The maximal runs of word characters. -/
def words : List Char → List (List Char)
  | [] => []
  | c :: cs =>
    if isWordChar c then
      match cs, words cs with
      | d :: _, w :: ws => if isWordChar d then (c :: w) :: ws else [c] :: w :: ws
      | _, ws => [c] :: ws
    else words cs

def startsUpper (w : List Char) : Bool := w.head?.any isUpperAscii

/-- The capitalised words of the text, in order, without the excluded ones. -/
def modelNames (exclude : List String) (text : List Char) : List String :=
  ((words text).filter startsUpper).map String.ofList |>.filter (!exclude.contains ·)

/-- The first name that may be a model. -/
def modelName? (text : List Char) : Option String := (modelNames typingKeywords text).head?

/-! ## Enumerations of literals -/

def isEnumChar (c : Char) : Bool := isLetterOrNumber c || c = '_' || c = '.' || c = '-'

/-- The token without its quotes, if the same quote stands at both ends. -/
def stripQuotes (token : List Char) : List Char :=
  match token with
  | q :: rest =>
    if (q = '\'' || q = '"') && rest.getLast? = some q then rest.dropLast else token
  | [] => []

/-- The plain token that a piece between commas holds, if it holds one. -/
def enumToken? (piece : List Char) : Option String :=
  let token := stripQuotes (trim piece)
  if token ≠ [] ∧ token.all isEnumChar then some (String.ofList token) else none

/-- The tokens of the first `Literal[...]`: distinct and in ascending order. -/
def literalTokens (text : List Char) : List String :=
  match cut? "Literal[".toList text with
  | none => []
  | some (_, rest) =>
    match cut? [']'] rest with
    | none => []
    | some (inside, _) => sortNames (distinct ((splitAt ',' inside).filterMap enumToken?))

/-! ## Members of a union -/

/-- Splits at the commas outside brackets, given the bracket depth so far and the
member read so far. -/
def splitMembers (depth : Int) (current : List Char) : List Char → List (List Char)
  | [] => [current]
  | c :: cs =>
    let depth := if c = '[' then depth + 1 else if c = ']' then depth - 1 else depth
    if c = ',' ∧ depth = 0 then current :: splitMembers depth [] cs
    else splitMembers depth (current ++ [c]) cs

/-- The members between the commas outside brackets, trimmed, blank ones left out. -/
def members (inner : List Char) : List (List Char) :=
  (splitMembers 0 [] inner).map trim |>.filter (· ≠ [])

def commaJoin (ms : List (List Char)) : List Char := joinWith [',', ' '] ms

def unionOf (ms : List (List Char)) : List Char := "Union[".toList ++ commaJoin ms ++ [']']

/-- The text after an optional `typing.`. -/
def dropTyping (text : List Char) : List Char :=
  (dropPrefix? "typing.".toList text).getD text

def isLineBreak (c : Char) : Bool :=
  c = '\n' || c = '\r' || c.toNat = 0x2028 || c.toNat = 0x2029

/-- The text after `head`, blanks and an opening bracket. -/
def afterOpening? (head text : List Char) : Option (List Char) :=
  (dropPrefix? head text).bind fun rest =>
    match trimStart rest with
    | '[' :: inside => some inside
    | _ => none

/-- What stands between the opening bracket after `head` and a bracket that ends the
text.  It is not empty, and apart from blanks at its ends it lies on one line. -/
def wrapped? (head text : List Char) : Option (List Char) :=
  (afterOpening? head (dropTyping text)).bind fun rest =>
    if rest.getLast? = some ']' then
      let inside := rest.dropLast
      let core := trim inside
      if core = [] then (if inside.any (!isLineBreak ·) then some [] else none)
      else if core.any isLineBreak then none
      else some core
    else none

/-- An annotation without its null member. -/
structure Unwrapped where
  inner : List Char
  nullable : Bool
deriving DecidableEq, Repr

def noneName : List Char := "None".toList

/-- What is left of a list of members without `None`, put together by `join`. -/
def dropNone? (join : List (List Char) → List Char) (ms : List (List Char)) : Option Unwrapped :=
  if noneName ∈ ms then
    match ms.filter (· ≠ noneName) with
    | [] => none
    | [m] => some ⟨m, true⟩
    | rest => some ⟨join rest, true⟩
  else none

def pipePieces (text : List Char) : List (List Char) := (splitAt '|' text).map trim

/-- Removes the null member of `Optional[X]`, of `Union[X, None]` and of `X | None`, in
this order of preference. -/
def unwrapOptional (text : List Char) : Unwrapped :=
  if text = [] then ⟨[], false⟩
  else
    let anno := trim text
    match wrapped? "Optional".toList anno with
    | some inner => ⟨inner, true⟩
    | none =>
      match (wrapped? "Union".toList anno).bind (fun inner => dropNone? unionOf (members inner)) with
      | some u => u
      | none =>
        (dropNone? (joinWith " | ".toList) (pipePieces anno)).getD ⟨anno, false⟩

/-! ## Nested unions -/

def flattenPasses : Nat := 10

/-- Whether a `|` stands between two characters of the text. -/
def hasInnerPipe (inside : List Char) : Bool := (inside.drop 1).dropLast.contains '|'

def isParen (c : Char) : Bool := c = '(' || c = ')'

/-- If the text starts with a pipe group, the inside of the group and what follows:
a group is a pair of parentheses with no other between them and a `|` inside. -/
def pipeGroup? (text : List Char) : Option (List Char × List Char) :=
  match text with
  | '(' :: rest =>
    let inside := rest.takeWhile (!isParen ·)
    match rest.dropWhile (!isParen ·) with
    | ')' :: after => if hasInnerPipe inside then some (inside, after) else none
    | _ => none
  | _ => none

/-- Drops the parentheses of every pipe group, reading from left to right; the fuel
bounds the characters read. -/
def openGroupsFrom : Nat → List Char → List Char
  | 0, text => text
  | _ + 1, [] => []
  | fuel + 1, c :: cs =>
    match pipeGroup? (c :: cs) with
    | some (inside, after) => inside ++ openGroupsFrom fuel after
    | none => c :: openGroupsFrom fuel cs

def openGroups (text : List Char) : List Char := openGroupsFrom text.length text

def hasPipeGroup : List Char → Bool
  | [] => false
  | c :: cs => (pipeGroup? (c :: cs)).isSome || hasPipeGroup cs

/-- Opens groups as long as there are any, for a bounded number of passes. -/
def openGroupPasses : Nat → List Char → List Char
  | 0, text => text
  | fuel + 1, text => if hasPipeGroup text then openGroupPasses fuel (openGroups text) else text

/-- The inside of a member that is a union as a whole: everything between the first
bracket after `Union` and a bracket that ends the member. -/
def nestedUnion? (member : List Char) : Option (List Char) :=
  (afterOpening? "Union".toList (dropTyping member)).bind fun rest =>
    if rest.getLast? = some ']' ∧ rest.dropLast ≠ [] then some rest.dropLast else none

/-- The members with those of nested unions in their place; the fuel bounds the
depth, and each level is shorter than the one around it. -/
def flattenMembersFrom : Nat → List Char → List (List Char)
  | 0, content => members content
  | fuel + 1, content =>
    (members content).flatMap fun m =>
      match nestedUnion? m with
      | some inside => flattenMembersFrom fuel inside
      | none => [m]

def flattenMembers (content : List Char) : List (List Char) :=
  flattenMembersFrom content.length content

/-- The first union of a text: what stands before it, whether it is written with
`typing.`, and what follows its opening bracket. -/
structure UnionStart where
  before : List Char
  qualified : Bool
  rest : List Char
deriving DecidableEq, Repr

def unionStart? : List Char → Option UnionStart
  | [] => none
  | c :: cs =>
    match afterOpening? "Union".toList (dropTyping (c :: cs)) with
    | some rest => some ⟨[], startsWith "typing.".toList (c :: cs), rest⟩
    | none => (unionStart? cs).map fun u => { u with before := c :: u.before }

/-- Splits at the bracket that closes the ones open: the inside and what follows. -/
def closing? (depth : Nat) : List Char → Option (List Char × List Char)
  | [] => none
  | c :: cs =>
    if c = ']' ∧ depth = 0 then some ([], cs)
    else
      let depth := if c = '[' then depth + 1 else if c = ']' then depth - 1 else depth
      (closing? depth cs).map fun (inside, after) => (c :: inside, after)

/-- One flattening of the first union, if that union holds another one. -/
def flattenFirst? (text : List Char) : Option (List Char) :=
  (unionStart? text).bind fun u =>
    (closing? 0 u.rest).bind fun (inside, after) =>
      if contains "Union[".toList inside then
        let head := if u.qualified then "typing.".toList else []
        some (u.before ++ head ++ unionOf (flattenMembers inside) ++ after)
      else none

def flattenPassesFrom : Nat → List Char → List Char
  | 0, text => text
  | fuel + 1, text =>
    if contains "Union[".toList text then
      match flattenFirst? text with
      | some next => flattenPassesFrom fuel next
      | none => text
    else text

/-- Inlines pipe groups and unions nested in a union. -/
def flattenUnions (text : List Char) : List Char :=
  flattenPassesFrom flattenPasses (openGroupPasses flattenPasses text)

/-! ## Models of a union -/

/-- The model that a member names; `Optional[...]` around it is ignored. -/
def memberModel? (raw : List Char) : Option String :=
  let m := trim raw
  let m := match dropPrefix? "Optional[".toList m with
    | some rest => if rest.getLast? = some ']' then trim rest.dropLast else m
    | none => m
  (modelNames (typingKeywords ++ ["None"]) m).head?

def memberModels (ms : List (List Char)) : List String := ms.filterMap memberModel?

/-- The text between the opening bracket of a union and the next closing bracket. -/
def unionArguments? : List Char → Option (List Char)
  | [] => none
  | c :: cs =>
    match afterOpening? "Union".toList (c :: cs) with
    | some rest =>
      let inside := rest.takeWhile (· ≠ ']')
      if inside ≠ [] ∧ inside.length < rest.length then some inside else unionArguments? cs
    | none => unionArguments? cs

def containerMarks : List String := ["List[", "Dict[", "Tuple[", "Set["]

def dropParens (text : List Char) : List Char :=
  match text with
  | '(' :: rest => if rest.getLast? = some ')' then trim rest.dropLast else text
  | _ => text

/-- The models of the first union in the text, or else those of a pipe union that
holds no container. -/
def unionModels (text : List Char) : List String :=
  let anno := flattenUnions text
  let written := match unionArguments? anno with
    | some inside => memberModels (members inside)
    | none => []
  if written ≠ [] then written
  else if anno.contains '|' && !containerMarks.any (fun m => contains m.toList anno) then
    memberModels (splitAt '|' (dropParens (trim anno)))
  else []

end Annotation
end ApiSync
