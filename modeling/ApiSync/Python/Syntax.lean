import ApiSync.Text
/-!
Syntax trees of Python source.

An expression keeps its source text beside its form, because annotations and defaults
are read as text.  Only the forms that some rule looks into are told apart; all
others are `other`.
-/

namespace ApiSync
namespace Python

mutual

inductive Expr where
  | mk (text : String) (form : Form)

inductive Form where
  | name (id : String)
  | attribute (object : Expr) (name : String)
  | subscript (object : Expr)
  | call (function : Expr) (arguments : List Argument)
  | strings (pieces : List String)
  | integer
  | float
  | truth (value : Bool)
  | none
  | unary (operator : String) (operand : Expr)
  | list (elements : List Expr)
  | tuple (elements : List Expr)
  | group (inner : Expr)
  | dict (entries : List DictEntry)
  | splat (operand : Expr)
  | assignment (target : Expr) (type : Option Expr) (value : Option Expr)
  | other

inductive Argument where
  | positional (value : Expr)
  | keyword (name : String) (value : Expr)
  | unpacked

inductive DictEntry where
  | pair (key value : Expr)
  | unpacked

end

namespace Expr

def text : Expr → String
  | .mk t _ => t

def form : Expr → Form
  | .mk _ f => f

end Expr

instance : Inhabited Expr := ⟨.mk "" .other⟩

/-- One name of an import, and the name it is bound to in the importing file. -/
structure ImportedName where
  name : String
  boundTo : String
deriving DecidableEq, Repr

/-- `from module import names`; `level` counts the leading dots. -/
structure ImportFrom where
  level : Nat
  module : Option String
  names : List ImportedName
deriving DecidableEq, Repr

inductive DefinitionKind where
  | classDef
  | functionDef
deriving DecidableEq, Repr

mutual

inductive Statement where
  | expression (children : List Expr)
  | definition (d : Definition)
  | importFrom (i : ImportFrom)
  | returned (value : Option Expr)
  | other

/-- A class or function with its decorators; `line` counts from one, and the bases are
the arguments after a class name. -/
inductive Definition where
  | mk (kind : DefinitionKind) (name : String) (line : Nat) (decorators : List Expr)
      (bases : List Argument) (body : List Statement)

end

namespace Definition

def kind : Definition → DefinitionKind
  | .mk k _ _ _ _ _ => k

def name : Definition → String
  | .mk _ n _ _ _ _ => n

def line : Definition → Nat
  | .mk _ _ l _ _ _ => l

def decorators : Definition → List Expr
  | .mk _ _ _ d _ _ => d

def bases : Definition → List Argument
  | .mk _ _ _ _ b _ => b

def body : Definition → List Statement
  | .mk _ _ _ _ _ b => b

def withDecorators (ds : List Expr) : Definition → Definition
  | .mk k n l _ b body => .mk k n l ds b body

end Definition

/-- A module is its statements; comments are not among them. -/
abbrev Module := List Statement

def definitionOf (kind : DefinitionKind) : Statement → Option Definition
  | .definition d => if d.kind = kind then some d else none
  | _ => none

/-- The classes defined directly among the statements. -/
def classes (body : List Statement) : List Definition := body.filterMap (definitionOf .classDef)

/-- The functions defined directly among the statements. -/
def functions (body : List Statement) : List Definition := body.filterMap (definitionOf .functionDef)

/-- The parts of a call: what is called, the positional and the keyword arguments. -/
structure Call where
  function : Expr
  args : List Expr
  keywords : List (String × Expr)

def positional? : Argument → Option Expr
  | .positional v => some v
  | _ => none

def keyword? : Argument → Option (String × Expr)
  | .keyword n v => some (n, v)
  | _ => none

/-- The parts of an expression that is a call; unpacked arguments are left out. -/
def Expr.call? (e : Expr) : Option Call :=
  match e.form with
  | .call f arguments => some ⟨f, arguments.filterMap positional?, arguments.filterMap keyword?⟩
  | _ => none

/-- The last name of a plain or dotted name. -/
def Expr.lastName? (e : Expr) : Option String :=
  match e.form with
  | .name id => some id
  | .attribute _ name => some name
  | _ => none

end Python
end ApiSync
