import ApiSync.Python.Expression
/-!
Reading statements and whole modules.

A block belongs to a header when the next line is indented deeper than the block around
it; it ends at the first line that is indented less than its own first line.  Lines that
are indented deeper without a header in front of them are read as if they were not.
-/

namespace ApiSync
namespace Python

open Read

/-- A reader of blocks inside statements: given the indentation that lines must keep,
it reads statements as long as they do. -/
structure Blocks where
  ctx : Context
  read : Nat → Read (List Statement)

/-! ## Simple statements -/

namespace Context

def augmentedOperators : List String :=
  ["+=", "-=", "*=", "/=", "@=", "//=", "%=", "**=", ">>=", "<<=", "&=", "^=", "|="]

/-- A type after a colon. -/
def typeExpression (ctx : Context) : Read Expr := do
  if ← isOp "**" then ctx.spanned (op "**" *> anyWord *> pure .other) else ctx.element

/-- The right side of an assignment, which may be an assignment itself. -/
def rightSide (ctx : Context) : Nat → Read Expr
  | 0 => fail
  | n + 1 => ctx.yieldOr do
    let start ← startOf
    let (items, trailing) ← commaList ctx.expression
    let left ← ctx.asGroup start (items, trailing)
    if items.all isPattern then
      if ← taken (op "=") then
        return ← ctx.finish start (.assignment left none (some (← ctx.rightSide n)))
      if ← taken (op ":") then
        let type ← ctx.typeExpression
        let value ← optional (op "=" *> ctx.rightSide n)
        return ← ctx.finish start (.assignment left (some type) value)
      if ← taken (anyOp augmentedOperators) then
        let _ ← ctx.rightSide n
        return ← ctx.finish start .other
    return left

/-- Reads the right side with as much fuel as there are tokens. -/
def right (ctx : Context) : Read Expr := do ctx.rightSide (← get).ahead.length

def expressionStatement (ctx : Context) : Read Statement := do
  if ← isWord "yield" then return .expression [← ctx.spanned ctx.yieldForm]
  let start ← startOf
  let (items, trailing) ← commaList ctx.expression
  if items.all isPattern then
    let left ← ctx.asGroup start (items, trailing)
    if ← taken (op "=") then
      let value ← ctx.right
      return .expression [← ctx.finish start (.assignment left none (some value))]
    if ← taken (op ":") then
      let type ← ctx.typeExpression
      let value ← optional (op "=" *> ctx.right)
      return .expression [← ctx.finish start (.assignment left (some type) value)]
    if ← taken (anyOp augmentedOperators) then
      let _ ← ctx.right
      return .expression [← ctx.finish start .other]
  return .expression items

/-- Succeeds where a simple statement may end; nothing is taken. -/
def atEnd : Read Unit := do
  match ← peek with
  | .op ";" => pure ()
  | .newline _ => pure ()
  | _ => fail

/-- The old `print` and `exec` statements and declarations of a type name. -/
def wordStatement (ctx : Context) : Read Statement := do
  match ← anyWord with
  | "print" =>
    let _ ← optional (op ">>")
    let _ ← commaList ctx.expression
    return .other
  | "exec" =>
    let _ ← (ctx.stringPiece <|> anyWord)
    if ← taken (word "in") then
      let _ ← commaList ctx.expression
    return .other
  | "type" =>
    let _ ← ctx.expression
    op "="
    let _ ← ctx.expression
    return .other
  | _ => fail

/-! ### Imports -/

def dottedName (ctx : Context) : Read String := do
  let start ← startOf
  let _ ← anyWord
  let _ ← many (op "." *> anyWord)
  return ctx.slice start (← get).last

def importedName (ctx : Context) : Read ImportedName := do
  let name ← ctx.dottedName
  match ← optional (word "as" *> anyWord) with
  | some bound => return ⟨name, bound⟩
  | none => return ⟨name, name⟩

def importedNames (ctx : Context) : Read (List ImportedName) := do
  if ← taken (op "*") then return []
  if ← taken (op "(") then
    let (names, _) ← commaList ctx.importedName
    op ")"
    return names
  return (← commaList ctx.importedName).1

/-- The dots in front of a relative module name; gaps between them count as well. -/
def leadingDots : Read Nat := do
  let start ← startOf
  let dots ← many (op ".")
  if dots.isEmpty then pure 0 else return (← get).last - start

def fromImport (ctx : Context) : Read Statement := do
  word "from"
  let level ← leadingDots
  let module ← if ← isWord "import" then
      if level = 0 then fail else pure none
    else some <$> ctx.dottedName
  word "import"
  let names ← ctx.importedNames
  if level = 0 ∧ module = some "__future__" then return .other
  else return .importFrom ⟨level, module, names⟩

/-! ### Keyword statements -/

/-- A statement that starts with a keyword; `none` if the word is not one. -/
def keywordStatement (ctx : Context) (text : String) : Option (Read Statement) :=
  let list : Read Unit := ctx.expressionList *> pure ()
  let names : Read Unit := commaList anyWord *> pure ()
  let other (p : Read Unit) : Option (Read Statement) := some (advance *> p *> pure .other)
  match text with
  | "import" => other (commaList ctx.importedName *> pure ())
  | "from" => some ctx.fromImport
  | "return" => some (advance *> (Statement.returned <$> optional ctx.expressionList))
  | "del" => other list
  | "raise" => other do
    if !(← isWord "from") then
      let _ ← optional ctx.expressionList
    if ← taken (word "from") then
      let _ ← ctx.expression
  | "pass" | "break" | "continue" => other (pure ())
  | "global" | "nonlocal" => other names
  | "assert" => other do
    let (_, trailing) ← commaList ctx.expression
    if trailing then fail
  | _ => none

def simpleStatement (ctx : Context) : Read Statement := do
  let plain : Read Statement :=
    (ctx.expressionStatement <* atEnd) <|> (ctx.wordStatement <* atEnd)
  match ← peek with
  | .word text =>
    match ctx.keywordStatement text with
    | some p => p <* atEnd
    | none => plain
  | _ => plain

/-- Takes the line break and notes the indentation of the next line. -/
def lineEnd : Read Unit := do
  match (← advance).kind with
  | .newline n => modify fun s => { s with indent := n }
  | _ => fail

/-- Simple statements on one line. -/
def simpleLine (ctx : Context) : Read (List Statement) := do
  let first ← ctx.simpleStatement
  let rest ← many (op ";" *> ctx.simpleStatement)
  let _ ← optional (op ";")
  lineEnd
  return first :: rest

end Context

/-! ## Compound statements -/

namespace Blocks

open Context

/-- What follows a header: statements on the same line or an indented block. -/
def suite (b : Blocks) (top : Nat) : Read (List Statement) := do
  op ":"
  match ← peek with
  | .newline n =>
    lineEnd
    if top < n then b.read n else fail
  | _ => b.ctx.simpleLine

/-- Whether the current line still belongs to a block and starts with the word. -/
def clause (top : Nat) (text : String) : Read Bool := do
  return decide (top ≤ (← get).indent) && (← peek) = .word text

def elseClause (b : Blocks) (top : Nat) (text : String) : Read Unit := do
  if ← (clause top text <|> pure false) then
    word text
    let _ ← b.suite top

def elifClauses (b : Blocks) (top : Nat) : Read Unit := do
  let _ ← many do
    if !(← clause top "elif") then fail
    word "elif"
    let _ ← b.ctx.expression
    let _ ← b.suite top

def ifStatement (b : Blocks) (top : Nat) : Read Unit := do
  word "if"
  let _ ← b.ctx.expression
  let _ ← b.suite top
  b.elifClauses top
  b.elseClause top "else"

def whileStatement (b : Blocks) (top : Nat) : Read Unit := do
  word "while"
  let _ ← b.ctx.expression
  let _ ← b.suite top
  b.elseClause top "else"

def forStatement (b : Blocks) (top : Nat) : Read Unit := do
  word "for"
  let _ ← b.ctx.targets
  word "in"
  let _ ← b.ctx.expressionList
  let _ ← b.suite top
  b.elseClause top "else"

def exceptClause (b : Blocks) (top : Nat) : Read Unit := do
  if !(← clause top "except") then fail
  word "except"
  let _ ← optional (op "*")
  if ← taken b.ctx.expression then
    let _ ← optional (op "," *> b.ctx.expression)
  let _ ← b.suite top

def tryStatement (b : Blocks) (top : Nat) : Read Unit := do
  word "try"
  let _ ← b.suite top
  let excepts ← many (b.exceptClause top)
  if excepts.isEmpty then
    if !(← clause top "finally") then fail
    b.elseClause top "finally"
  else
    b.elseClause top "else"
    b.elseClause top "finally"

def withStatement (b : Blocks) (top : Nat) : Read Unit := do
  word "with"
  let _ ← commaList b.ctx.expression
  let _ ← b.suite top

/-! ### Definitions -/

/-- The type parameters in brackets after a name. -/
def typeParameters (b : Blocks) : Read Unit := do
  let parameter : Read Unit := do
    let _ ← b.ctx.typeExpression
    let _ ← optional (op ":" *> b.ctx.typeExpression)
  let _ ← optional (op "[" *> commaList parameter *> op "]")

def functionHeader (b : Blocks) : Read String := do
  word "def"
  let name ← anyWord
  b.typeParameters
  op "("
  let _ ← optional (commaList (b.ctx.parameter true (b.ctx.read .operand)))
  op ")"
  let _ ← optional (op "->" *> b.ctx.typeExpression)
  return name

def rowOf : Read Nat := do
  match (← get).ahead with
  | t :: _ => pure t.row
  | [] => fail

def functionDefinition (b : Blocks) (top : Nat) : Read Definition := do
  let row ← rowOf
  let _ ← optional (word "async")
  let name ← b.functionHeader
  let body ← b.suite top
  return .mk .functionDef name (row + 1) [] [] body

def classDefinition (b : Blocks) (top : Nat) : Read Definition := do
  let row ← rowOf
  word "class"
  let name ← anyWord
  b.typeParameters
  let bases ← optional b.ctx.argumentList
  let body ← b.suite top
  return .mk .classDef name (row + 1) [] (bases.getD []) body

def definition (b : Blocks) (top : Nat) : Read Definition := do
  if ← isWord "class" then b.classDefinition top else b.functionDefinition top

/-- One decorator line; the next line must not leave the block. -/
def decorator (b : Blocks) (top : Nat) : Read Expr := do
  op "@"
  let e ← b.ctx.expression
  lineEnd
  if (← get).indent < top then fail else return e

def decorated (b : Blocks) (top : Nat) : Read Definition := do
  let decorators ← many (b.decorator top)
  return (← b.definition top).withDecorators decorators

/-! ### Matching -/

/-- Takes tokens up to a colon outside brackets. -/
def skipPattern (depth : Nat) : List Token → Option (List Token)
  | [] => none
  | t :: ts =>
    match t.kind with
    | .op ":" => if depth = 0 then some (t :: ts) else skipPattern depth ts
    | .op "(" | .op "[" | .op "\x7b" => skipPattern (depth + 1) ts
    | .op ")" | .op "]" | .op "\x7d" => if depth = 0 then none else skipPattern (depth - 1) ts
    | .newline _ | .bad => none
    | _ => skipPattern depth ts

def caseClause (b : Blocks) (top : Nat) : Read Unit := do
  if !(← clause top "case") then fail
  word "case"
  if ← isOp ":" then fail
  let s ← get
  match skipPattern 0 s.ahead with
  | none => fail
  | some ts => set { s with ahead := ts }
  let _ ← b.suite top

def matchStatement (b : Blocks) (top : Nat) : Read Unit := do
  word "match"
  let _ ← commaList b.ctx.expression
  op ":"
  lineEnd
  let inner := (← get).indent
  if inner ≤ top then fail
  let _ ← many (b.caseClause inner)
  if inner ≤ (← get).indent then fail

/-! ### Statements -/

def other (p : Read Unit) : Read (List Statement) := p *> pure [.other]

def one (p : Read Definition) : Read (List Statement) := do return [.definition (← p)]

/-- The word after `async`, if the line starts with that. -/
def asyncTarget : Read (Option String) := do
  match (← get).ahead with
  | a :: t :: _ =>
    match a.kind, t.kind with
    | .word "async", .word text => pure (some text)
    | _, _ => pure none
  | _ => pure none

/-- The statements of one line with the blocks below it. -/
def statement (b : Blocks) (top : Nat) : Read (List Statement) := do
  match ← peek with
  | .op "@" => one (b.decorated top)
  | .word "class" => one (b.classDefinition top)
  | .word "def" => one (b.functionDefinition top)
  | .word "if" => other (b.ifStatement top)
  | .word "while" => other (b.whileStatement top)
  | .word "for" => other (b.forStatement top)
  | .word "try" => other (b.tryStatement top)
  | .word "with" => other (b.withStatement top)
  | .word "match" => b.ctx.simpleLine <|> other (b.matchStatement top)
  | .word "async" =>
    match ← asyncTarget with
    | some "def" => one (b.functionDefinition top)
    | some "for" => other (word "async" *> b.forStatement top)
    | some "with" => other (word "async" *> b.withStatement top)
    | _ => b.ctx.simpleLine
  | _ => b.ctx.simpleLine

/-- Statements as long as lines keep the indentation. -/
def statements (b : Blocks) (top : Nat) : Nat → Read (List Statement)
  | 0 => fail
  | n + 1 => do
    let s ← get
    if s.ahead.isEmpty || decide (s.indent < top) then pure []
    else
      let first ← b.statement top
      return first ++ (← b.statements top n)

end Blocks

/-- Blocks nested to a bounded depth; no more than there are tokens. -/
def readBlock (ctx : Context) : Nat → Nat → Read (List Statement)
  | 0, _ => fail
  | fuel + 1, top => do
    let b : Blocks := ⟨ctx, readBlock ctx fuel⟩
    b.statements top ((← get).ahead.length + 1)

/-- The statements of a module; nothing if the source is not well formed. -/
def parse (source : String) : Option Module :=
  let chars := source.toList
  let ts := tokens chars
  let fuel := ts.length + 1
  let ctx : Context := ⟨chars.toArray, readGoal chars.toArray (8 * fuel)⟩
  match readBlock ctx fuel 0 |>.run ⟨ts, 0, 0⟩ with
  | some (body, s) => if s.ahead.isEmpty then some body else none
  | none => none

end Python
end ApiSync
