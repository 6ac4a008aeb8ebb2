import ApiSync.Yaml.Dump
import ApiSync.Yaml.Reader
/-!
Nodes of YAML text: scalars, flow collections and block collections with their anchors
and tags.

A block collection owns the lines that start in its column; what is indented further
belongs to one of its entries.  All readers of this module bound their depth by fuel, and
every step between two levels takes at least one character.
-/

namespace ApiSync
namespace Yaml

open Text Read

/-! ## Properties -/

/-- What may stand in front of a node. -/
structure Properties where
  anchor : Option Nat
  tag : Option String
deriving DecidableEq, Repr

def Properties.none : Properties := ⟨.none, .none⟩

/-- The namespace of the standard tags. -/
def standardTags : String := "tag:yaml.org,2002:"

def isTagChar (c : Char) : Bool := isWordChar c || "-#;/?:@&=+$.!~*'()%".toList.contains c

/-- The handle of a tag up to its last `!`, and the rest. -/
def splitTag (tag : List Char) : List Char × List Char :=
  let suffix := (tag.reverse.takeWhile (· ≠ '!')).reverse
  (tag.take (tag.length - suffix.length), suffix)

/-- The name of a tag, written from the character after its `!` on. -/
def tagName : Read String := do
  if (← peek) = some '<' then
    skip 1
    let name ← takeRun fun c => !isGap (some c) && c ≠ '>'
    expect '>'
    require (name ≠ [] && name ≠ ['!'] && name ≠ ['!', '!'])
    return String.ofList name
  let body ← takeRun isTagChar
  let (handle, suffix) := splitTag ('!' :: body)
  if body = [] then return "!"
  require (suffix ≠ [])
  match (← get).handles.find? (·.1.toList = handle) with
  | some (_, start) => return start ++ String.ofList suffix
  | none =>
    require (handle = ['!'])
    return String.ofList ('!' :: body)

/-- Adds the anchor or tag that stands here; each may be given once. -/
def property (flow : Bool) (props : Properties) : Read Properties := do
  let next ← if (← peek) = some '&' then do
      require (props.anchor = none)
      skip 1
      let name ← takeRun isAnchorChar
      require (name ≠ [])
      let id ← openAnchor (String.ofList name)
      pure { props with anchor := some id }
    else do
      require (props.tag = none)
      expect '!'
      let name ← tagName
      pure { props with tag := some name }
  let after ← peek
  require (isGap after || (flow && after.any fun c => c = ',' || c = ']' || c = '}'))
  return next

def isPropertyMark (c : Option Char) : Bool := c = some '&' || c = some '!'

/-- The value of a scalar without a tag: only plain ones are looked at. -/
def untagged (isPlain : Bool) (text : String) : Value :=
  if isPlain then resolve text else .str text

/-- The value of a scalar.  A standard tag asks for its own reading, and where the text has
none, or under any other tag, the scalar is a string. -/
def scalarValue (tag : Option String) (isPlain : Bool) (text : String) : Value :=
  match tag with
  | none => untagged isPlain text
  | some name =>
    if name = standardTags ++ "null" then if isNullWord text then .null else .str text
    else if name = standardTags ++ "bool" then ((bool? text).map .bool).getD (.str text)
    else if name = standardTags ++ "int" then ((int? text).map .num).getD (.str text)
    else if name = standardTags ++ "float" then ((float? text).map .num).getD (.str text)
    else .str text

/-! ## Keys -/

mutual

/-- The text of a value on one line. -/
def flowText : Value → List Char
  | .null => "null".toList
  | .bool b => (if b then "true" else "false").toList
  | .num n => (numberText n).toList
  | .str s => writeString ⟨2, true⟩ s
  | .list [] => ['[', ']']
  | .list (v :: vs) => '[' :: ' ' :: joinWith [',', ' '] (flowItems (v :: vs)) ++ [' ', ']']
  | .map [] => ['{', '}']
  | .map (e :: es) => '{' :: ' ' :: joinWith [',', ' '] (flowEntries (e :: es)) ++ [' ', '}']

def flowItems : List Value → List (List Char)
  | [] => []
  | v :: vs => flowText v :: flowItems vs

def flowEntries : Fields → List (List Char)
  | [] => []
  | (k, v) :: es => (writeString ⟨2, true⟩ k ++ ':' :: ' ' :: flowText v) :: flowEntries es

end

/-- The key of an entry as text. -/
def keyText : Value → String
  | .null => ""
  | .bool b => if b then "true" else "false"
  | .num n => n.text
  | .str s => s
  | v => String.ofList (flowText v)

/-- A node with what is known about it as a key: whether it is a scalar of its own, and
whether it is quoted or in brackets, so that a colon may follow at once. -/
structure Item where
  value : Value
  isScalar : Bool
  isClosed : Bool

/-- Two scalar keys that may not stand in one mapping. -/
def clash (a b : Value) : Bool :=
  match a, b with
  | .num m, .num n => (m.isZero && n.isZero) || (m = n && !m.isNan)
  | .null, .null => true
  | .bool a, .bool b => a = b
  | .str a, .str b => a = b
  | _, _ => false

/-- The entries of a mapping so far, and its scalar keys. -/
structure Entries where
  fields : Fields
  keys : List Value

def Entries.empty : Entries := ⟨[], []⟩

/-- Adds an entry unless its key is there already. -/
def Entries.add (e : Entries) (key : Item) (value : Value) : Read Entries := do
  require (!(key.isScalar && e.keys.any (clash key.value)))
  return ⟨Fields.set e.fields (keyText key.value) value,
    if key.isScalar then key.value :: e.keys else e.keys⟩

/-- A key can be this many units long, up to its colon. -/
def longestImplicitKey : Nat := 1024

/-- Passes the text from a key on to its colon, which stands on the same line. -/
def requireKey (start : Position) : Read Unit := do
  let p ← get
  require (p.row = start.row)
  require (unitLength (start.rest.take (start.rest.length - p.rest.length)) ≤ longestImplicitKey)

/-! ## Flow collections -/

/-- Goes to the next token inside brackets.  Lines stand at `low` or deeper, except that
the outermost closing bracket may stand one column before; `spaced` says that a comment
may follow at once. -/
def flowGapFrom (low level : Nat) : Nat → Bool → Bool → Read Unit
  | 0, _, _ => fail
  | fuel + 1, crossed, spaced => do
    let p ← get
    let q := if crossed && p.column = 0 then p.indented else p.skipBlanks
    let indent := if crossed && p.column = 0 then q.column else p.column
    let spaced := spaced || q.rest.length < p.rest.length
    match q.rest with
    | [] => fail
    | '\n' :: _ =>
      set q.nextLine
      flowGapFrom low level fuel true true
    | '#' :: _ =>
      require spaced
      set { q.toBreak with column := 1 }
      flowGapFrom low level fuel true true
    | c :: _ =>
      let closing := level = 1 && indent + 1 = low && (c = ']' || c = '}')
      require (!(crossed && p.column = 0) || low ≤ indent || closing)
      require (!(crossed && p.column = 0 && atDocumentMark p.rest))
      set q

def flowGap (low level : Nat) : Read Unit := do flowGapFrom low level (← fuelOf) false false

/-- Whether the key is followed by its colon. -/
def atFlowColon (key : Item) : Read Bool := do
  let p ← get
  return p.isFlowIndicator ':' || (key.isClosed && p.rest.head? = some ':')

def emptyItem (props : Properties) : Read Item := do
  let value := scalarValue props.tag true ""
  closeAnchor props.anchor value
  return ⟨value, true, false⟩

/-- Closes the anchor of a node that has been read. -/
def finish (props : Properties) (item : Item) : Read Item := do
  closeAnchor props.anchor item.value
  return item

mutual

/-- A node inside brackets; it is empty where a mark of the collection follows. -/
def flowNode (low level : Nat) : Nat → Properties → Read Item
  | 0, _ => fail
  | fuel + 1, props => do
    let p ← get
    match p.rest with
    | [] => fail
    | c :: _ =>
      if isPropertyMark (some c) then
        let next ← property true props
        flowGap low level
        flowNode low level fuel next
      else if c = ',' || c = ']' || c = '}' || p.isFlowIndicator ':' then emptyItem props
      else if p.isFlowIndicator '-' || p.isFlowIndicator '?' then fail
      else if c = '*' then
        require (props = Properties.none)
        return ⟨← aliasValue, false, false⟩
      else if c = '"' || c = '\'' then
        let text ← quotedScalar low
        finish props ⟨scalarValue props.tag false text, true, true⟩
      else if c = '[' then
        skip 1
        let items ← flowItemsFrom low (level + 1) fuel []
        finish props ⟨.list items.reverse, false, true⟩
      else if c = '{' then
        skip 1
        let entries ← flowEntriesFrom low (level + 1) fuel Entries.empty
        finish props ⟨.map entries.fields, false, true⟩
      else
        let text ← plain true low
        finish props ⟨scalarValue props.tag true text, true, false⟩

/-- The value after a key inside brackets, if a colon follows. -/
def flowValue (low level : Nat) : Nat → Item → Read (Option Value)
  | 0, _ => fail
  | fuel + 1, key => do
    flowGap low level
    if ← atFlowColon key then
      skip 1
      flowGap low level
      return some (← flowNode low level fuel Properties.none).value
    else return none

/-- A key marked with `?`, and its value. -/
def flowExplicit (low level : Nat) : Nat → Read (Item × Value)
  | 0 => fail
  | fuel + 1 => do
    skip 1
    flowGap low level
    let key ← flowNode low level fuel Properties.none
    let value ← flowValue low level fuel key
    return (key, value.getD .null)

/-- The items of a sequence up to its closing bracket, last one first. -/
def flowItemsFrom (low level : Nat) : Nat → List Value → Read (List Value)
  | 0, _ => fail
  | fuel + 1, items => do
    flowGap low level
    let p ← get
    if p.rest.head? = some ']' then
      skip 1
      return items
    let item ← if p.isFlowIndicator '?' then do
        let (key, value) ← flowExplicit low level fuel
        pure (Value.map [(keyText key.value, value)])
      else do
        require (p.rest.head? ≠ some ',')
        let key ← flowNode low level fuel Properties.none
        flowGap low level
        if ← atFlowColon key then
          requireKey p
          let value ← flowValue low level fuel key
          pure (Value.map [(keyText key.value, value.getD .null)])
        else pure key.value
    flowNext low level
    flowItemsFrom low level fuel (item :: items)

/-- The entries of a mapping up to its closing bracket. -/
def flowEntriesFrom (low level : Nat) : Nat → Entries → Read Entries
  | 0, _ => fail
  | fuel + 1, entries => do
    flowGap low level
    let p ← get
    if p.rest.head? = some '}' then
      skip 1
      return entries
    let (key, value) ← if p.isFlowIndicator '?' then flowExplicit low level fuel
      else do
        require (p.rest.head? ≠ some ',')
        let key ← flowNode low level fuel Properties.none
        let value ← flowValue low level fuel key
        pure (key, value.getD .null)
    let entries ← entries.add key value
    flowNext low level
    flowEntriesFrom low level fuel entries

/-- Between two items there is a comma; after the last one there may be one. -/
def flowNext (low level : Nat) : Read Unit := do
  flowGap low level
  match ← peek with
  | some ',' => skip 1
  | some ']' | some '}' => pure ()
  | _ => fail

end

/-- A collection in brackets. -/
def flowCollection (low fuel : Nat) : Read Value := do
  let open_ ← peek
  skip 1
  if open_ = some '[' then return .list (← flowItemsFrom low 1 fuel []).reverse
  else return .map (← flowEntriesFrom low 1 fuel Entries.empty).fields

/-! ## Block collections -/

/-- The properties on the line of a key. -/
def keyProperties : Nat → Properties → Read Properties
  | 0, _ => fail
  | fuel + 1, props => do
    if isPropertyMark (← peek) then
      let next ← property false props
      let _ ← blanks
      keyProperties fuel next
    else return props

/-- A key that shares its line with its colon, both taken. -/
def implicitKey (low fuel : Nat) : Read Item := do
  let start ← get
  let props ← keyProperties 3 Properties.none
  let p ← get
  let key ← if p.isIndicator ':' then emptyItem props
    else match p.rest with
      | [] => fail
      | c :: _ =>
        if c = '*' then do
          require (props = Properties.none)
          pure ⟨← aliasValue, false, false⟩
        else if c = '"' || c = '\'' then do
          finish props ⟨scalarValue props.tag false (← quotedScalar low), true, true⟩
        else if c = '[' || c = '{' then do
          finish props ⟨← flowCollection low fuel, false, true⟩
        else do
          let line ← plainLine false
          require (line ≠ [] && !badPlainStarts.contains c && c ≠ '#')
          finish props ⟨scalarValue props.tag true (String.ofList line), true, false⟩
  let _ ← blanks
  require ((← get).isIndicator ':')
  requireKey start
  skip 1
  return key

/-- Whether an entry of a mapping starts here. -/
def atEntry (low fuel : Nat) : Read Bool := do
  let p ← get
  return p.isIndicator '?' || ((implicitKey low fuel).run p).isSome

/-- A node that is no block collection, up to the end of its line. -/
def leaf (low fuel : Nat) (crossed : Bool) (props : Properties) : Read Value := do
  let p ← get
  require (!(p.isIndicator '-' || p.isIndicator '?' || p.isIndicator ':'))
  let c := p.rest.head?.getD ' '
  let isFlow := c = '[' || c = '{'
  require (!(crossed && p.tab && p.column = 0 && !isFlow))
  let value ← if c = '|' || c = '>' then do
      pure (scalarValue props.tag false (← blockScalar low))
    else do
      let value ← if c = '*' then do
          require (props = Properties.none)
          aliasValue
        else if c = '"' || c = '\'' then do
          pure (scalarValue props.tag false (← quotedScalar low))
        else if isFlow then flowCollection low fuel
        else do
          pure (scalarValue props.tag true (← plain false low))
      endLine
      pure value
  closeAnchor props.anchor value
  return value

mutual

/-- A node whose lines stand at `low` or deeper; a sequence on later lines may already
start at `lowSeq`.  A block collection may start here if `block` is set, and `crossed`
says that the node starts on a line of its own. -/
def node (low lowSeq : Nat) : Nat → Bool → Bool → Properties → Read Value
  | 0, _, _, _ => fail
  | fuel + 1, block, crossed, props => do
    let p ← get
    if p.atEnd || (crossed && p.column < low) then
      if !p.atEnd && lowSeq ≤ p.column && p.isIndicator '-' && !p.tab then
        let items ← sequence p.column fuel []
        let value := Value.list items.reverse
        closeAnchor props.anchor value
        return value
      else return (← emptyItem props).value
    else if block && p.isIndicator '-' then
      require (!p.tab)
      let value := Value.list (← sequence p.column fuel []).reverse
      closeAnchor props.anchor value
      return value
    else if block && (← atEntry low fuel) then
      require (!p.tab)
      let value := Value.map (← mapping p.column fuel Entries.empty).fields
      closeAnchor props.anchor value
      return value
    else if isPropertyMark p.rest.head? then
      let next ← property false props
      let crossed ← toContent
      node low lowSeq fuel crossed crossed next
    else leaf low fuel crossed props
termination_by structural fuel => fuel

/-- The node after an indicator. -/
def nodeAfter (low lowSeq : Nat) : Nat → Bool → Read Value
  | 0, _ => fail
  | fuel + 1, compact => do
    let crossed ← toContent
    node low lowSeq fuel (compact || crossed) crossed Properties.none
termination_by structural fuel => fuel

/-- The items of a sequence in the given column, last one first. -/
def sequence (column : Nat) : Nat → List Value → Read (List Value)
  | 0, _ => fail
  | fuel + 1, items => do
    let p ← get
    if p.atEnd || p.column < column || (p.column = column && !p.isIndicator '-') then return items
    require (p.column = column && !p.tab)
    skip 1
    let value ← nodeAfter (column + 1) (column + 1) fuel true
    sequence column fuel (value :: items)
termination_by structural fuel => fuel

/-- The entries of a mapping in the given column. -/
def mapping (column : Nat) : Nat → Entries → Read Entries
  | 0, _ => fail
  | fuel + 1, entries => do
    let p ← get
    if p.atEnd || p.column < column then return entries
    require (p.column = column && !p.tab)
    let (key, value) ← if p.isIndicator '?' then do
        skip 1
        let key ← nodeAfter (column + 1) column fuel true
        let q ← get
        let value ← if !q.atEnd && q.column = column && q.isIndicator ':' then do
            require (!q.tab)
            skip 1
            nodeAfter (column + 1) column fuel true
          else pure .null
        let isScalar := !(key.isMap || key.asList?.isSome)
        pure (Item.mk key isScalar false, value)
      else do
        let key ← implicitKey (column + 1) fuel
        let value ← nodeAfter (column + 1) column fuel false
        pure (key, value)
    let entries ← entries.add key value
    mapping column fuel entries
termination_by structural fuel => fuel

end

end Yaml
end ApiSync
