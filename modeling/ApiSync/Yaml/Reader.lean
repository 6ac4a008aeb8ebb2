import ApiSync.Yaml.Folding
/-!
The reading position in YAML text: gaps between tokens, the lines of scalars, and the
anchors met so far.

A reader fails on text that is not well formed; there is one kind of failure.
-/

namespace ApiSync
namespace Yaml

open Text

/-- A node that can be referred to by name.  It has no value while it is being read.
`inner` holds the nodes that are referred to from within, and `weight` is what one use of
the node counts for; it is set by the first use. -/
structure Anchor where
  id : Nat
  name : String
  value : Option Value
  count : Nat
  inner : List Nat
  weight : Nat

mutual

/-- Whether a value holds anything but empty collections. -/
def hasLeaf : Value → Bool
  | .list vs => anyLeaf vs
  | .map es => !es.isEmpty
  | _ => true

def anyLeaf : List Value → Bool
  | [] => false
  | v :: vs => hasLeaf v || anyLeaf vs

end

/-- What one use of a node counts for: the most that any of the uses in it counts for. -/
def Anchor.weigh (anchors : List Anchor) (a : Anchor) : Nat :=
  if a.weight ≠ 0 then a.weight
  else
    let inner := (anchors.filter fun (b : Anchor) => a.inner.contains b.id).map fun (b : Anchor) =>
      b.count * b.weight
    inner.foldl max (if a.value.any hasLeaf then 1 else 0)

/-- Where the reader stands.  `column` counts the characters in front on the line, a tab
and what follows it in the indentation left out, and `tab` says that a tab is among the
blanks right in front.  The newest anchor comes first. -/
structure Position where
  rest : List Char
  row : Nat
  column : Nat
  tab : Bool
  anchors : List Anchor
  handles : List (String × String)

/-- A reader either fails or takes some characters. -/
abbrev Read (α : Type) := StateT Position Option α

/-- White space inside a document, or the end of the text. -/
def isGap (c : Option Char) : Bool :=
  c.all fun c => isSpaceOrTab c || c = '\n' || c = '\r'

def isFlowMark (c : Char) : Bool := c = ',' || c = '[' || c = ']' || c = '{' || c = '}'

/-- Whether a line starts with one of the marks that end a document. -/
def atDocumentMark (cs : List Char) : Bool :=
  [['-', '-', '-'], ['.', '.', '.']].any fun mark =>
    (dropPrefix? mark cs).any fun rest => isGap rest.head?

namespace Position

/-- Whether nothing of the document is left. -/
def atEnd (p : Position) : Bool :=
  p.rest = [] || (p.column = 0 && !p.tab && atDocumentMark p.rest)

/-- Whether the indicator stands here, followed by white space. -/
def isIndicator (p : Position) (c : Char) : Bool :=
  p.rest.head? = some c && isGap (p.rest.drop 1).head?

/-- The same inside brackets, where one of their marks may follow as well. -/
def isFlowIndicator (p : Position) (c : Char) : Bool :=
  p.isIndicator c || (p.rest.head? = some c && (p.rest.drop 1).head?.any isFlowMark)

/-- The position after `n` characters of the line. -/
def skip (p : Position) (n : Nat) : Position :=
  { p with rest := p.rest.drop n, column := p.column + n, tab := false }

/-- The position after blanks on the line. -/
def skipBlanks (p : Position) : Position :=
  let run := p.rest.takeWhile isSpaceOrTab
  if run = [] then p
  else { p with
    rest := p.rest.drop run.length
    column := p.column + run.length
    tab := run.contains '\t' }

/-- The position after the indentation of a line that starts here. -/
def indented (p : Position) : Position :=
  let run := p.rest.takeWhile isSpaceOrTab
  { p with
    rest := p.rest.drop run.length
    column := (run.takeWhile (· = ' ')).length
    tab := run.contains '\t' }

/-- The start of the next line, from a line break. -/
def nextLine (p : Position) : Position :=
  { p with rest := p.rest.drop 1, row := p.row + 1, column := 0, tab := false }

/-- The position at the end of the line. -/
def toBreak (p : Position) : Position := { p with rest := p.rest.dropWhile (· ≠ '\n') }

/-- The first content on a line after this break or at this line start; the fuel bounds
the lines passed over. -/
def seekFrom : Nat → Position → Position
  | 0, p => p
  | fuel + 1, p =>
    let q := p.indented
    match q.rest with
    | '\n' :: _ => seekFrom fuel q.nextLine
    | '#' :: _ =>
      let r := q.toBreak
      if r.rest = [] then r else seekFrom fuel r.nextLine
    | _ => q

def seek (p : Position) : Position := seekFrom (p.rest.length + 1) p

end Position

namespace Read

def fail : Read α := fun _ => none

def require (b : Bool) : Read Unit := if b then pure () else fail

def fuelOf : Read Nat := do return (← get).rest.length + 1

def peek : Read (Option Char) := do return (← get).rest.head?

def skip (n : Nat) : Read Unit := modify (·.skip n)

/-- Takes the character, which must stand here. -/
def expect (c : Char) : Read Unit := do
  require ((← peek) = some c)
  skip 1

/-- Takes the characters of the line as long as they pass the test. -/
def takeRun (p : Char → Bool) : Read (List Char) := do
  let run := (← get).rest.takeWhile p
  skip run.length
  return run

/-- Passes blanks and tells whether there are any. -/
def blanks : Read Bool := do
  let p ← get
  set p.skipBlanks
  return p.rest.head?.any isSpaceOrTab

/-- Passes the rest of the line and goes on to the next content. -/
def passLine : Read Unit :=
  modify fun p => (if p.toBreak.rest = [] then p.toBreak else p.toBreak.nextLine.seek)

/-- What may follow a node on its line: nothing but blanks and a comment.  Goes on to the
next content. -/
def endLine : Read Unit := do
  let spaced ← blanks
  match ← peek with
  | none => pure ()
  | some '\n' => passLine
  | some '#' =>
    require spaced
    passLine
  | some _ => fail

/-- Goes to the content after an indicator, on this line or a later one; tells whether a
line break lies between. -/
def toContent : Read Bool := do
  let spaced ← blanks
  match ← peek with
  | none => pure true
  | some '\n' =>
    passLine
    pure true
  | some '#' =>
    require spaced
    passLine
    pure true
  | some _ => pure false

/-! ## Scalars over several lines -/

/-- Whether the line may continue a quoted scalar whose lines stand at `low` or deeper. -/
def mayContinue (low : Nat) (line : List Char) : Bool :=
  if low = 0 then !atDocumentMark line
  else
    let indent := (line.takeWhile (· = ' ')).length
    low ≤ indent || (line.drop indent).head? = some '\n'

/-- Takes quoted text up to the closing quote, the break rule included; `escaped` says
that the next character cannot close. -/
def quotedFrom (quote : Char) (low : Nat) : Nat → Bool → Read (List Char)
  | 0, _ => fail
  | fuel + 1, escaped => do
    let p ← get
    match p.rest with
    | [] => fail
    | '\n' :: line =>
      require (mayContinue low line)
      set p.nextLine
      return '\n' :: (← quotedFrom quote low fuel false)
    | c :: rest =>
      if c = quote && !escaped then
        if quote = '\'' && rest.head? = some quote then
          skip 2
          return quote :: quote :: (← quotedFrom quote low fuel false)
        else
          skip 1
          pure []
      else
        skip 1
        return c :: (← quotedFrom quote low fuel (quote = '"' && c = '\\' && !escaped))

/-- The value of a scalar in quotes. -/
def quotedScalar (low : Nat) : Read String := do
  let quote := (← peek).getD ' '
  skip 1
  let body ← quotedFrom quote low (← fuelOf) false
  if quote = '"' then
    match doubleQuotedValue? body with
    | some cs => pure (String.ofList cs)
    | none => fail
  else pure (String.ofList (singleQuotedValue body))

/-- How many characters of a line belong to a plain scalar, blanks at their end left out.
`run` counts the blanks passed over since. -/
def plainLength (flow : Bool) (run : Nat) : List Char → Nat
  | [] => 0
  | c :: cs =>
    if c = '\n' then 0
    else if isSpaceOrTab c then
      if cs.head? = some '#' then 0 else plainLength flow (run + 1) cs
    else if c = ':' && (isGap cs.head? || (flow && cs.head?.any isFlowMark)) then 0
    else if flow && isFlowMark c then 0
    else run + 1 + plainLength flow 0 cs

def plainLine (flow : Bool) : Read (List Char) := do
  let rest := (← get).rest
  let n := plainLength flow 0 rest
  skip n
  return rest.take n

/-- The next line of a plain scalar, from the break before it, and how many empty lines
lie between; the fuel bounds those. -/
def continuation? (low : Nat) : Nat → Position → Option (Nat × Position)
  | 0, _ => none
  | fuel + 1, p =>
    let start := p.nextLine
    let q := start.indented
    match q.rest with
    | [] => none
    | '\n' :: _ =>
      if low = 0 || q.column ≥ low || !q.tab then
        (continuation? low fuel q).map fun (n, r) => (n + 1, r)
      else none
    | _ =>
      if (low = 0 && atDocumentMark start.rest) || q.column < low then none else some (0, q)

/-- The lines of a plain scalar after the first one, each with the empty lines in front. -/
def plainMore (flow : Bool) (low : Nat) : Nat → Read (List (List Char))
  | 0 => pure []
  | fuel + 1 => do
    let p ← get
    let q := p.skipBlanks
    if q.rest.head? ≠ some '\n' then pure []
    else match continuation? low fuel q with
      | none => pure []
      | some (empty, r) =>
        if r.rest.head? = some '#' || plainLength flow 0 r.rest = 0 then pure []
        else
          set r
          let line ← plainLine flow
          return List.replicate empty [] ++ line :: (← plainMore flow low fuel)

def badPlainStarts : List Char := ",[]%|>@".toList ++ ['{', '}', '\x60']

/-- A plain scalar whose further lines stand at `low` or deeper. -/
def plain (flow : Bool) (low : Nat) : Read String := do
  let first ← plainLine flow
  require (first ≠ [] && !first.head?.any badPlainStarts.contains)
  let more ← plainMore flow low (← fuelOf)
  return String.ofList (foldLines (first :: more))

/-! ## Block scalars -/

def leadingSpaces (line : List Char) : Nat := (line.takeWhile (· = ' ')).length

def isSpaces (line : List Char) : Bool := line.all (· = ' ')

/-- The lines that belong to a block scalar whose first line with content, if there is one,
comes after `blank`, where `lines` run to the end of the text.  They stand at `limit` or
deeper, and the block is empty if its first line stands left of `low`. -/
def bodyLines (limit low : Nat) (lines : List (List Char)) : List (List Char) :=
  let blank := lines.takeWhile isSpaces
  let ends := fun line => limit = 0 && atDocumentMark (line ++ ['\n'])
  let fits := fun line => !ends line && (isSpaces line || limit ≤ leadingSpaces line)
  let body := match lines.drop blank.length with
    | [] => blank
    | first :: more =>
      if leadingSpaces first < low then blank else blank ++ (first :: more).takeWhile fits
  let last := (body.getLast?.map List.length).getD 0
  if body.length = lines.length && last < max limit low then body.dropLast else body

/-- Takes the lines of a block scalar.  Without an indicator the first line with content
sets the indentation.  The empty line after the last break is one of the lines. -/
def blockLines (h : BlockHeader) (low : Nat) : Read (List BlockLine) := do
  let p ← get
  let lines := splitAt '\n' p.rest
  let indent := match lines.find? (!isSpaces ·) with
    | some line => leadingSpaces line
    | none => (lines.getLast?.map List.length).getD 0
  let limit := if h.indicator = 0 then indent else h.indicator - 1 + max low 1
  let body := bodyLines limit low lines
  let kept := if h.chomp = .keep then body
    else dropEndWhile (fun l => isSpaces l && l.length ≤ indent) body
  let left := lines.drop body.length
  require (left.head?.all fun l => (l.drop (leadingSpaces l)).head? ≠ some '\t')
  set { p with rest := joinWith ['\n'] left, row := p.row + body.length, column := 0, tab := false }
  let kept := if kept.length = lines.length || kept = [] then kept else kept ++ [[]]
  return (if p.rest = [] then [] else kept).map BlockLine.ofText

/-- A block scalar from its first mark on, in a collection one column left of `low`. -/
def blockScalar (low : Nat) : Read String := do
  let folded := (← peek) = some '>'
  skip 1
  let marks ← takeRun fun c => !isGap (some c) && c ≠ '#'
  match BlockHeader.read? ⟨folded, 0, .clip⟩ marks with
  | none => fail
  | some h =>
    let spaced ← blanks
    match ← peek with
    | some '#' => require spaced
    | some '\n' | none => pure ()
    | _ => fail
    modify Position.toBreak
    if (← peek) = none then
      return String.ofList ((blockValue? h (low - 1) []).getD [])
    modify Position.nextLine
    let lines ← blockLines h low
    match blockValue? h (low - 1) lines with
    | none => fail
    | some cs =>
      modify Position.seek
      return String.ofList cs

/-! ## Anchors -/

def isAnchorChar (c : Char) : Bool := !isGap (some c) && !isFlowMark c

/-- Registers a node that is about to be read. -/
def openAnchor (name : String) : Read Nat := do
  let p ← get
  let id := p.anchors.length
  set { p with anchors := ⟨id, name, none, 1, [], 0⟩ :: p.anchors }
  return id

def changeAnchor (id : Nat) (f : Anchor → Anchor) : Read Unit :=
  modify fun p => { p with anchors := p.anchors.map fun (a : Anchor) => if a.id = id then f a else a }

def closeAnchor (anchor : Option Nat) (value : Value) : Read Unit :=
  match anchor with
  | none => pure ()
  | some id => changeAnchor id fun a => { a with value := some value }

/-- The uses of a node, each times its weight, come to this at most. -/
def aliasLimit : Nat := 100

/-- A copy of the value of the newest anchor with the name, which must have been read.  The use is
noted in the anchors that are still open. -/
def resolveAlias (name : String) : Read Value := do
  let anchors := (← get).anchors
  match anchors.find? (·.name = name) with
  | none => fail
  | some a =>
    let weight := a.weigh anchors
    require ((a.count + 1) * weight ≤ aliasLimit)
    modify fun p => { p with anchors := p.anchors.map fun (b : Anchor) =>
      if b.id = a.id then { b with count := b.count + 1, weight := weight }
      else if b.value.isNone then { b with inner := a.id :: b.inner }
      else b }
    match a.value with
    | none => fail
    | some v => pure v

def aliasValue : Read Value := do
  expect '*'
  let name ← takeRun isAnchorChar
  require (name ≠ [])
  resolveAlias (String.ofList name)

end Read
end Yaml
end ApiSync
