import ApiSync.Annotation
import ApiSync.Value
/-!
Schemas that annotations resolve to, and the rules that resolve them.

A schema is one of five forms, and only the forms that may carry `nullable` have
room for it: a reference never does.
-/

namespace ApiSync

open Text

/-- Which of several schemas an instance must match. -/
inductive Composition where
  | oneOf
  | anyOf
deriving DecidableEq, Repr

/-- The types a schema may name without further structure. -/
inductive PlainType where
  | string
  | integer
  | number
  | boolean
  | object
deriving DecidableEq, Repr

inductive Schema where
  | enumeration (tokens : List String) (nullable : Bool)
  | composition (kind : Composition) (models : List String) (nullable : Bool)
  | array (items : Schema) (nullable : Bool)
  | plain (type : PlainType) (nullable : Bool)
  | ref (model : String)
deriving DecidableEq, Repr, Inhabited

def Composition.key : Composition → String
  | .oneOf => "oneOf"
  | .anyOf => "anyOf"

def PlainType.name : PlainType → String
  | .string => "string"
  | .integer => "integer"
  | .number => "number"
  | .boolean => "boolean"
  | .object => "object"

namespace Schema

/-- Where references to components point. -/
def refStart : String := "#/components/schemas/"

def refFields (model : String) : Fields := [("$ref", .str (refStart ++ model))]

def withNullable (nullable : Bool) (fields : Fields) : Fields :=
  if nullable then fields ++ [("nullable", .bool true)] else fields

def toFields : Schema → Fields
  | .enumeration tokens n =>
    withNullable n [("type", .str "string"), ("enum", .ofStrings tokens)]
  | .composition kind models n =>
    withNullable n [(kind.key, .list (models.map fun m => .map (refFields m)))]
  | .array items n => withNullable n [("type", .str "array"), ("items", .map items.toFields)]
  | .plain type n => withNullable n [("type", .str type.name)]
  | .ref model => refFields model

def toValue (s : Schema) : Value := .map s.toFields

/-- The schema with `nullable` set; a reference stays as it is. -/
def makeNullable : Schema → Schema
  | .enumeration tokens _ => .enumeration tokens true
  | .composition kind models _ => .composition kind models true
  | .array items _ => .array items true
  | .plain type _ => .plain type true
  | .ref model => .ref model

/-! ## Resolving annotations -/

def literal? (text : List Char) : Option Schema :=
  match Annotation.literalTokens text with
  | [] => none
  | tokens => some (.enumeration tokens false)

def union? (kind : Composition) (nullable : Bool) (text : List Char) : Option Schema :=
  match Annotation.unionModels text with
  | [] => none
  | models => some (.composition kind models nullable)

def mentions (text : List Char) (mark : String) : Bool := contains mark.toList text

def mentionsList (text : List Char) : Bool := mentions text "list" || mentions text "List"

/-- Mappings are recognised in any letter case. -/
def mentionsMapping (text : List Char) : Bool :=
  let lower := lowerAscii text
  mentions lower "dict" || mentions lower "mapping"

/-- Containers and scalars by the names they contain, then the first model, else a
string. -/
def primitive (text : List Char) : Schema :=
  if mentionsList text then .array (.plain .string false) false
  else if mentionsMapping text then .plain .object false
  else if mentions text "int" then .plain .integer false
  else if mentions text "bool" then .plain .boolean false
  else if mentions text "float" || mentions (lowerAscii text) "double" then .plain .number false
  else match Annotation.modelName? text with
    | some model => .ref model
    | none => .plain .string false

/-- Every rule in order: enumeration, union of models, primitive. -/
def ofTypeText (text : List Char) : Schema :=
  match literal? text with
  | some s => s
  | none =>
    let u := Annotation.unwrapOptional text
    match union? .oneOf u.nullable u.inner with
    | some s => s
    | none => primitive text

/-! ## Attributes of models -/

/-- What the annotation of an attribute is read against: the type variables of its
file and the hint given for it. -/
structure AttributeContext where
  typeVars : List String
  hint : Option (List Char)

/-- The schema for a hint; the items of an array of mappings are objects. -/
def ofHint? (hint : Option (List Char)) : Option Schema :=
  match hint with
  | none | some [] => none
  | some text =>
    match ofTypeText text with
    | .array items n => some (.array (if mentionsMapping text then .plain .object false else items) n)
    | s => some s

/-- The name between the brackets of `List[...]` at the start of the text. -/
def listItemHere? (text : List Char) : Option (List Char) :=
  let capital := Annotation.afterOpening? "List".toList text
  let start := capital.or <| Annotation.afterOpening? "list".toList text
  start.bind fun inside =>
    let body := trimStart inside
    let name := body.takeWhile isWordChar
    match name, trimStart (body.dropWhile isWordChar) with
    | c :: _, ']' :: _ => if c.isDigit then none else some name
    | _, _ => none

/-- The item name of the first list of a single name. -/
def listItem? : List Char → Option (List Char)
  | [] => none
  | c :: cs => (listItemHere? (c :: cs)).or (listItem? cs)

def arrayItems (text : List Char) (context : AttributeContext) : Schema :=
  if mentions (lowerAscii text) "dict" then .plain .object false
  else match listItem? text with
    | none => .plain .string false
    | some name =>
      if context.typeVars.contains (String.ofList name) then
        match ofHint? context.hint with
        | none => .plain .object false
        | some (.array items _) => items
        | some s => s
      else if Annotation.startsUpper name then .ref (String.ofList name)
      else .plain .string false

/-- Whether the annotation of an attribute admits a missing value. -/
def admitsNone (text : List Char) : Bool := mentions text "Optional" || mentions text "None"

/-- The schema of an attribute before `nullable` is added. -/
def attributeBase (text : List Char) (context : AttributeContext) : Schema :=
  match literal? text with
  | some s => s
  | none =>
    if mentionsList text then .array (arrayItems text context) false
    else if mentionsMapping text then .plain .object false
    else if mentions text "int" then .plain .integer false
    else if mentions text "bool" then .plain .boolean false
    else if mentions text "float" then .plain .number false
    else match Annotation.modelName? text with
      | none => .plain .string false
      | some model =>
        if context.typeVars.contains model then
          (ofHint? context.hint).getD (.plain .object false)
        else .ref model

def ofAttribute (text : List Char) (context : AttributeContext) : Schema :=
  let s := attributeBase text context
  if admitsNone text then s.makeNullable else s

end Schema
end ApiSync
