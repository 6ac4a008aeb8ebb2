import ApiSync.Yaml.Node
/-!
Whole YAML texts: directives, the marks around the document, and its root node.

A text holds one document at most; an empty one is null.
-/

namespace ApiSync
namespace Yaml

open Text Read

/-- Line breaks are single, and a byte order mark at the start is dropped. -/
def cleanText (cs : List Char) : List Char :=
  let rec single : List Char → List Char
    | '\r' :: '\n' :: rest => '\n' :: single rest
    | c :: rest => c :: single rest
    | [] => []
  match single cs with
  | c :: rest => if c.toNat = 0xfeff then rest else c :: rest
  | [] => []

def startPosition (cs : List Char) : Position :=
  ⟨cs, 0, 0, false, [], [("!!", standardTags)]⟩

/-- The words of a line up to a comment. -/
def lineWords (line : List Char) : List (List Char) :=
  let words := (splitAt ' ' (line.map fun c => if c = '\t' then ' ' else c)).filter (· ≠ [])
  words.takeWhile (·.head? ≠ some '#')

/-- Whether a word is two numbers with a point between them. -/
def isVersion (word : List Char) : Bool :=
  match splitAt '.' word with
  | [major, minor] => [major, minor].all fun part => part ≠ [] && part.all (·.isDigit)
  | _ => false

/-- A directive line; `%TAG` declares a handle, `%YAML` names a version, and others mean
nothing. -/
def directive : Read Unit := do
  let line ← takeRun (· ≠ '\n')
  match lineWords line with
  | name :: parts =>
    if name = "%YAML".toList then require (parts.length = 1 && parts.all isVersion)
    else if name = "%TAG".toList then
      match parts with
      | [handle, start] => modify fun p => { p with
          handles := (String.ofList handle, String.ofList start) :: p.handles }
      | _ => fail
  | [] => pure ()

/-- Passes empty lines, comments and directives in front of a document; tells whether there
are directives. -/
def preamble : Nat → Bool → Read Bool
  | 0, found => pure found
  | fuel + 1, found => do
    let p ← get
    let spaced := { p with rest := p.rest.dropWhile (· = ' ') }
    match p.rest.head?, spaced.rest.head? with
    | some '%', _ =>
      directive
      if (← peek) = none then return true
      modify Position.nextLine
      preamble fuel true
    | _, some '\n' =>
      set spaced.nextLine
      preamble fuel found
    | _, some '#' =>
      set spaced.toBreak
      if (← peek) = none then return found
      modify Position.nextLine
      preamble fuel found
    | _, none =>
      set spaced
      return found
    | _, _ => return found

/-- What may follow a document: its end mark, then empty lines and comments. -/
def epilogue : Nat → Read Unit
  | 0 => fail
  | fuel + 1 => do
    if (← get).rest = [] then pure ()
    else
      require (startsWith "...".toList (← get).rest)
      skip 3
      endLine
      require ((← get).rest = [] || (← get).column = 0)
      epilogue fuel

/-- The root node of a text. -/
def document (fuel : Nat) : Read Value := do
  let directives ← preamble fuel false
  let p ← get
  if atDocumentMark p.rest then
    require (p.rest.head? = some '-')
    skip 3
    let crossed ← toContent
    let value ← node 0 0 fuel crossed crossed Properties.none
    epilogue fuel
    return value
  else
    require (!directives)
    modify Position.seek
    let value ← node 0 0 fuel true true Properties.none
    epilogue fuel
    return value

/-- The value of a text, if it is well formed. -/
def load? (text : String) : Option Value :=
  let cs := cleanText text.toList
  ((document (8 * (cs.length + 2))).run (startPosition cs)).map (·.1)

end Yaml
end ApiSync
