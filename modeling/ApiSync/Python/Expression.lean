import ApiSync.Python.Syntax
import ApiSync.Python.Token
/-!
Reading expressions from tokens.

The grammar is the one of a concrete syntax reader that knows Python 2 and 3 at once:
what it accepts is a superset of either language.  Words are reserved only where the
grammar has a use for them, so most keywords may serve as names.

Each rule of the grammar is a function that is given the reader of smaller
expressions; `readGoal` ties the knot, its fuel bounded by the number of tokens.
-/

namespace ApiSync
namespace Python

/-- Where the reader stands: the tokens ahead, the end of the last token taken, and
the indentation of the current line. -/
structure Position where
  ahead : List Token
  last : Nat
  indent : Nat

/-- A reader either fails or takes some tokens. -/
abbrev Read (α : Type) := StateT Position Option α

namespace Read

def fail : Read α := fun _ => none

/-- The next token, which stays ahead. -/
def peek : Read TokenKind := do
  match (← get).ahead with
  | t :: _ => pure t.kind
  | [] => fail

def advance : Read Token := do
  let s ← get
  match s.ahead with
  | t :: ts =>
    set { s with ahead := ts, last := t.stop }
    pure t
  | [] => fail

def kind (k : TokenKind) : Read Unit := do
  let t ← advance
  if t.kind = k then pure () else fail

def op (text : String) : Read Unit := kind (.op text)

def word (text : String) : Read Unit := kind (.word text)

def anyWord : Read String := do
  match (← advance).kind with
  | .word text => pure text
  | _ => fail

def isOp (text : String) : Read Bool := do return (← peek) = .op text

def isWord (text : String) : Read Bool := do return (← peek) = .word text

/-- Whether the reader succeeds; it takes its tokens if it does. -/
def taken (p : Read α) : Read Bool := (p *> pure true) <|> pure false

def manyUpTo : Nat → Read α → Read (List α)
  | 0, _ => pure []
  | n + 1, p => do
    match ← optional p with
    | none => pure []
    | some x => return x :: (← manyUpTo n p)

/-- As many as there are; each is expected to take a token. -/
def many (p : Read α) : Read (List α) := do manyUpTo (← get).ahead.length p

/-- Items between commas, at least one, and whether a comma follows the last. -/
def commaList (p : Read α) : Read (List α × Bool) := do
  let first ← p
  let rest ← many (op "," *> p)
  let trailing ← taken (op ",")
  return (first :: rest, trailing)

/-- A token of one of the given operators. -/
def anyOp (texts : List String) : Read String := do
  match (← advance).kind with
  | .op text => if texts.contains text then pure text else fail
  | _ => fail

end Read

open Read

/-- What the knot can be asked to read. -/
inductive Goal where
  | expression
  | disjunction
  | operand
  | field
deriving DecidableEq, Repr

/-- A reader of smaller expressions together with the source text. -/
structure Context where
  source : Array Char
  read : Goal → Read Expr

namespace Context

def slice (ctx : Context) (start stop : Nat) : String :=
  String.ofList (ctx.source.extract start stop).toList

def startOf : Read Nat := do
  match (← get).ahead with
  | t :: _ => pure t.start
  | [] => fail

/-- An expression of the given form that began at `start` and ends here. -/
def finish (ctx : Context) (start : Nat) (form : Form) : Read Expr := do
  return .mk (ctx.slice start (← get).last) form

def spanned (ctx : Context) (p : Read Form) : Read Expr := do
  let start ← startOf
  let form ← p
  ctx.finish start form

def expression (ctx : Context) : Read Expr := ctx.read .expression

/-! ## Patterns -/

mutual

/-- Whether an expression may stand on the left of an assignment. -/
def isPattern : Expr → Bool
  | .mk _ form => isPatternForm form

def isPatternForm : Form → Bool
  | .name _ => true
  | .attribute .. => true
  | .subscript _ => true
  | .splat operand => isSimplePattern operand
  | .list elements => arePatterns elements
  | .tuple elements => arePatterns elements
  | .group inner => isPattern inner
  | _ => false

def isSimplePattern : Expr → Bool
  | .mk _ (.name _) => true
  | .mk _ (.attribute ..) => true
  | .mk _ (.subscript _) => true
  | _ => false

def arePatterns : List Expr → Bool
  | [] => true
  | e :: es => isPattern e && arePatterns es

end

/-- A list of items that is a single item unless a comma follows it. -/
def asGroup (ctx : Context) (start : Nat) : List Expr × Bool → Read Expr
  | ([e], false) => pure e
  | _ => ctx.finish start .other

/-! ## Strings -/

/-- The items of a field or of a statement: one expression or several. -/
def expressionList (ctx : Context) : Read Expr := do
  let start ← startOf
  ctx.asGroup start (← commaList ctx.expression)

def yieldForm (ctx : Context) : Read Form := do
  word "yield"
  (word "from" *> ctx.expression *> pure ()) <|> (ctx.expressionList *> pure ()) <|> pure ()
  return .other

def yieldOr (ctx : Context) (p : Read Expr) : Read Expr := do
  if ← isWord "yield" then ctx.spanned ctx.yieldForm else p

/-- A replacement field of an f-string. -/
def fieldForm (ctx : Context) : Read Form := do
  kind .fieldOpen
  let _ ← ctx.yieldOr ctx.expressionList
  let _ ← optional (op "=")
  let _ ← optional (kind .conversion)
  if ← taken (kind .formatOpen) then
    let _ ← many (ctx.read .field)
  kind .fieldClose
  return .other

/-- One string literal; the result is its text. -/
def stringPiece (ctx : Context) : Read String := do
  let start ← startOf
  kind .stringOpen
  let _ ← many (ctx.read .field)
  kind .stringClose
  return ctx.slice start (← get).last

/-! ## Brackets -/

/-- A target of a loop; after a comma the word `in` ends the targets. -/
def target (ctx : Context) : Read Expr := do
  let e ← ctx.read .operand
  if isPattern e then pure e else fail

def nextTarget (ctx : Context) : Read Expr := do
  op ","
  if ← isWord "in" then fail else ctx.target

/-- The targets of a loop or comprehension. -/
def targets (ctx : Context) : Read Expr := do
  let start ← startOf
  let first ← ctx.target
  let rest ← many ctx.nextTarget
  let trailing ← taken (op ",")
  ctx.asGroup start (first :: rest, trailing)

def forClause (ctx : Context) : Read Unit := do
  let _ ← optional (word "async")
  word "for"
  let _ ← ctx.targets
  word "in"
  let _ ← commaList ctx.expression

def ifClause (ctx : Context) : Read Unit := word "if" *> ctx.expression *> pure ()

def comprehension (ctx : Context) : Read Unit := do
  ctx.forClause
  let _ ← many (ctx.forClause <|> ctx.ifClause)

/-- An element of a display or an argument: unpacked, a `yield`, or an expression. -/
def element (ctx : Context) : Read Expr := do
  if ← isOp "*" then ctx.spanned (op "*" *> ctx.expression >>= fun e => pure (.splat e))
  else ctx.yieldOr ctx.expression

def parenthesized (ctx : Context) : Read Form := do
  op "("
  if ← taken (op ")") then return .tuple []
  let first ← ctx.element
  if ← taken (op ")") then return .group first
  if ← taken ctx.comprehension then
    op ")"
    return .other
  let rest ← many (op "," *> ctx.element)
  let trailing ← taken (op ",")
  op ")"
  if rest.isEmpty && !trailing then fail else return .tuple (first :: rest)

def bracketed (ctx : Context) : Read Form := do
  op "["
  if ← taken (op "]") then return .list []
  let first ← ctx.element
  if ← taken ctx.comprehension then
    op "]"
    return .other
  let rest ← many (op "," *> ctx.element)
  let _ ← optional (op ",")
  op "]"
  return .list (first :: rest)

def dictEntry (ctx : Context) : Read DictEntry := do
  if ← taken (op "**") then
    let _ ← ctx.expression
    return .unpacked
  let key ← ctx.expression
  op ":"
  return .pair key (← ctx.expression)

/-- The rest of a dictionary display after its first entry. -/
def dictRest (ctx : Context) (first : DictEntry) : Read Form := do
  let rest ← many (op "," *> ctx.dictEntry)
  let _ ← optional (op ",")
  op "\x7d"
  return .dict (first :: rest)

def braced (ctx : Context) : Read Form := do
  op "\x7b"
  if ← taken (optional (op ",") *> op "\x7d") then return .dict []
  if ← isOp "**" then return ← ctx.dictRest (← ctx.dictEntry)
  let first ← ctx.element
  if ← taken (op ":") then
    let entry : DictEntry := .pair first (← ctx.expression)
    if ← taken ctx.comprehension then
      op "\x7d"
      return .other
    ctx.dictRest entry
  else
    if !(← taken ctx.comprehension) then
      let _ ← many (op "," *> ctx.element)
      let _ ← optional (op ",")
    op "\x7d"
    return .other

/-! ## Trailers -/

def argument (ctx : Context) : Read Argument := do
  if ← isOp "*" then
    let _ ← ctx.element
    return .unpacked
  if ← taken (op "**") then
    let _ ← ctx.expression
    return .unpacked
  let keyword : Read Argument := do
    let name ← anyWord
    op "="
    if ["not", "lambda", "True", "False", "None", "yield"].contains name then fail
    return .keyword name (← ctx.expression)
  keyword <|> (.positional <$> ctx.expression)

/-- The arguments in parentheses; a trailing comma may stand even without arguments.
A generator that is the whole list counts as one argument. -/
def argumentList (ctx : Context) : Read (List Argument) := do
  let start ← startOf
  op "("
  match ← optional ctx.argument with
  | none =>
    let _ ← optional (op ",")
    op ")"
    return []
  | some first =>
    if ← taken ctx.comprehension then
      op ")"
      return [.positional (← ctx.finish start .other)]
    let rest ← many (op "," *> ctx.argument)
    let _ ← optional (op ",")
    op ")"
    return first :: rest

def sliceItem (ctx : Context) : Read Unit := do
  if ← taken ((op "*" <|> op "**") *> ctx.expression) then return ()
  let low ← taken ctx.expression
  if ← taken (op ":") then
    let _ ← optional ctx.expression
    if ← taken (op ":") then
      let _ ← optional ctx.expression
  else if !low then fail

def trailer (ctx : Context) (object : Expr) : Read Form := do
  match ← peek with
  | .op "." => return .attribute object (← op "." *> anyWord)
  | .op "[" =>
    op "["
    let _ ← commaList ctx.sliceItem
    op "]"
    return .subscript object
  | .op "(" => return .call object (← ctx.argumentList)
  | _ => fail

def trailersFrom (ctx : Context) (start : Nat) : Nat → Expr → Read Expr
  | 0, e => pure e
  | n + 1, e => do
    match ← optional (ctx.trailer e) with
    | none => pure e
    | some form => ctx.trailersFrom start n (← ctx.finish start form)

/-! ## Atoms -/

/-- Three points without a gap. -/
def ellipsis : Read Form := do
  let a ← advance
  let b ← advance
  let c ← advance
  let point : TokenKind := .op "."
  if a.kind = point ∧ b.kind = point ∧ c.kind = point ∧ a.stop = b.start ∧ b.stop = c.start then
    return .other
  else fail

/-- A word in the place of an operand. -/
def wordForm (text : String) : Read Form :=
  match text with
  | "True" => pure (.truth true)
  | "False" => pure (.truth false)
  | "None" => pure .none
  | "not" | "lambda" | "yield" => fail
  | _ => pure (.name text)

def atom (ctx : Context) : Read Form := do
  match ← peek with
  | .word text => advance *> wordForm text
  | .integer => advance *> pure .integer
  | .float => advance *> pure .float
  | .stringOpen => return .strings ((← ctx.stringPiece) :: (← many ctx.stringPiece))
  | .op "(" => ctx.parenthesized
  | .op "[" => ctx.bracketed
  | .op "\x7b" => ctx.braced
  | .op "." => ellipsis
  | _ => fail

/-! ## Operators -/

def isSplatStart : Read Bool := do
  match (← get).ahead with
  | a :: b :: _ =>
    match a.kind, b.kind with
    | .op "*", .word _ => pure true
    | _, _ => pure false
  | _ => pure false

def primary (ctx : Context) : Read Expr := do
  let start ← startOf
  let first ← ctx.spanned ctx.atom
  ctx.trailersFrom start (← get).ahead.length first

/-- A unary operator, `await`, an unpacked name, or a primary with its power. -/
def operand (ctx : Context) : Read Expr := do
  let start ← startOf
  match ← peek with
  | .op "-" | .op "+" | .op "~" =>
    ctx.spanned do
      let sign ← anyOp ["-", "+", "~"]
      return .unary sign (← ctx.read .operand)
  | .op "*" =>
    if ← isSplatStart then
      ctx.spanned (op "*" *> ctx.primary >>= fun e => pure (.splat e))
    else fail
  | _ =>
    let awaited := ctx.spanned (word "await" *> ctx.read .operand *> pure .other)
    awaited <|> do
      let base ← ctx.primary
      if ← taken (op "**") then
        let _ ← ctx.read .operand
        ctx.finish start .other
      else pure base

def binaryOperators : List String :=
  ["+", "-", "*", "@", "/", "%", "//", "|", "&", "^", "<<", ">>"]

/-- Operands joined by an operator; a single one stays as it is. -/
def joined (ctx : Context) (operator : Read Unit) (p : Read Expr) : Read Expr := do
  let start ← startOf
  let first ← p
  let rest ← many (operator *> p)
  if rest.isEmpty then pure first else ctx.finish start .other

def comparisonOperator : Read Unit :=
  (anyOp ["<", "<=", "==", "!=", ">=", ">", "<>"] *> pure ())
    <|> word "in" <|> (word "not" *> word "in")
    <|> (word "is" *> optional (word "not") *> pure ())

def comparison (ctx : Context) : Read Expr :=
  ctx.joined comparisonOperator
    (ctx.joined (anyOp binaryOperators *> pure ()) ctx.operand)

/-- A parameter of a function or a lambda. -/
def parameter (ctx : Context) (typed : Bool) (pattern : Read Expr) : Read Unit := do
  let annotation : Read Unit :=
    if typed then optional (op ":" *> ctx.element) *> pure () else pure ()
  let default : Read Unit := optional (op "=" *> ctx.expression) *> pure ()
  match ← peek with
  | .op "*" => do
    op "*"
    if ← taken pattern then annotation
  | .op "**" => op "**" *> pattern *> annotation
  | .op "/" => op "/"
  | .word _ => anyWord *> annotation *> default
  | .op "(" => do
    let e ← pattern
    if isPattern e then default else fail
  | _ => fail

def lambda (ctx : Context) : Read Form := do
  word "lambda"
  if !(← isOp ":") then
    let _ ← commaList (ctx.parameter false (ctx.read .operand))
  op ":"
  let _ ← ctx.expression
  return .other

def negation (ctx : Context) : Read Form := do
  word "not"
  let _ ← ctx.read .disjunction
  return .other

/-- A comparison, a negation or a lambda. -/
def inversion (ctx : Context) : Read Expr := do
  if ← isWord "not" then ctx.spanned ctx.negation
  else if ← isWord "lambda" then ctx.spanned ctx.lambda
  else ctx.comparison

def disjunction (ctx : Context) : Read Expr :=
  ctx.joined (word "or") (ctx.joined (word "and") ctx.inversion)

def namedForm (ctx : Context) : Read Form := do
  let name ← anyWord
  op ":="
  let _ ← wordForm name
  let _ ← ctx.expression
  return .other

/-- A disjunction with a condition after it, an `as` name, or both. -/
def plainExpression (ctx : Context) : Read Expr := do
  let start ← startOf
  let first ← ctx.disjunction
  let condition : Read Unit := do
    word "if"
    let _ ← ctx.expression
    word "else"
    let _ ← ctx.expression
  let conditional ← taken condition
  let named ← taken (word "as" *> ctx.expression)
  if conditional || named then ctx.finish start .other else pure first

def fullExpression (ctx : Context) : Read Expr := ctx.spanned ctx.namedForm <|> ctx.plainExpression

end Context

/-- Reads one goal, with fuel for the depth of nested expressions. -/
def readGoal (source : Array Char) : Nat → Goal → Read Expr
  | 0, _ => Read.fail
  | fuel + 1, goal =>
    let ctx : Context := ⟨source, readGoal source fuel⟩
    match goal with
    | .expression => ctx.fullExpression
    | .disjunction => ctx.disjunction
    | .operand => ctx.operand
    | .field => ctx.spanned ctx.fieldForm

end Python
end ApiSync
