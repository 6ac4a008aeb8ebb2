import ApiSync.Number.Decimal
import ApiSync.Text
/-!
Values of documents: null, booleans, numbers, strings, lists and mappings.

Documents are trees.  A part that a file names and refers to again is copied to each of its places;
that the copies change together is not modelled.

A mapping keeps its entries in order.  Keys that are array indexes stand in front
in ascending order, the others in the order in which they were first set; setting
a key again keeps its place.  Every mapping that is built goes through
`Fields.set`, so the order is the same everywhere.
-/

namespace ApiSync

inductive Value where
  | null
  | bool (b : Bool)
  | num (n : Number)
  | str (s : String)
  | list (items : List Value)
  | map (fields : List (String × Value))
deriving Inhabited, Repr

/-- The entries of a mapping. -/
abbrev Fields := List (String × Value)

namespace Fields

/-- The index that a key spells: digits without a leading zero, below 2^32 - 1. -/
def indexOf? (key : String) : Option Nat :=
  let ds := key.toList
  if ds ≠ [] ∧ ds.all Char.isDigit ∧ ds.length ≤ 10 ∧ (ds.head? ≠ some '0' ∨ ds = ['0']) then
    let n := Number.decimalValue ds
    if n < 4294967295 then some n else none
  else none

def get? (fields : List (String × α)) (key : String) : Option α :=
  (fields.find? (·.1 = key)).map (·.2)

def has (fields : List (String × α)) (key : String) : Bool := fields.any (·.1 = key)

def keys (fields : List (String × α)) : List String := fields.map (·.1)

/-- Whether an entry with the index `n` has its place in front of `key`. -/
def indexBefore (n : Nat) (key : String) : Bool :=
  match indexOf? key with
  | some k => n < k
  | none => true

/-- Puts a new entry in its place. -/
def place (key : String) (value : α) (fields : List (String × α)) : List (String × α) :=
  match indexOf? key with
  | none => fields ++ [(key, value)]
  | some n =>
    fields.takeWhile (fun e => !indexBefore n e.1) ++
      (key, value) :: fields.dropWhile (fun e => !indexBefore n e.1)

/-- Changes the value of the first entry with the key. -/
def replace (key : String) (value : α) : List (String × α) → List (String × α)
  | [] => []
  | e :: rest => if e.1 = key then (key, value) :: rest else e :: replace key value rest

def set (fields : List (String × α)) (key : String) (value : α) : List (String × α) :=
  if has fields key then replace key value fields else place key value fields

def erase (fields : List (String × α)) (key : String) : List (String × α) :=
  fields.filter (·.1 ≠ key)

/-- The mapping that results from setting the entries one after the other. -/
def ofList (entries : List (String × α)) : List (String × α) :=
  entries.foldl (fun fields e => set fields e.1 e.2) []

/-- The entries of `upper` set on top of `fields`. -/
def setAll (fields upper : List (String × α)) : List (String × α) :=
  upper.foldl (fun acc e => set acc e.1 e.2) fields

theorem get?_place (key : String) (value : α) (fields : List (String × α))
    (h : has fields key = false) (k : String) :
    get? (place key value fields) k = if key = k then some value else get? fields k := by
  have hne : ∀ e ∈ fields, e.1 ≠ key := by
    intro e he heq
    have : has fields key = true := List.any_eq_true.2 ⟨e, he, by simp [heq]⟩
    simp [this] at h
  have absent : ∀ ys : List (String × α), ys.Sublist fields → get? ys key = none := by
    intro ys hys
    have : ys.find? (·.1 = key) = none := by
      rw [List.find?_eq_none]
      intro e he
      simpa using hne e (hys.subset he)
    simp [get?, this]
  have hfull : get? fields key = none := absent fields (List.Sublist.refl _)
  have append : ∀ (xs ys : List (String × α)),
      get? (xs ++ ys) k = (get? xs k).or (get? ys k) := by
    intro xs ys
    simp only [get?, List.find?_append]
    cases xs.find? (·.1 = k) <;> simp
  have single : ∀ ys : List (String × α),
      get? ((key, value) :: ys) k = if key = k then some value else get? ys k := by
    intro ys
    by_cases hk : key = k <;> simp [get?, hk]
  unfold place
  split
  · rw [append, single]
    by_cases hk : key = k
    · subst hk; simp [hfull]
    · simp [hk, get?]
  · next n _ =>
    rw [append, single]
    by_cases hk : key = k
    · subst hk; simp [absent _ (List.takeWhile_sublist _)]
    · simp only [hk, if_false]
      rw [← append, List.takeWhile_append_dropWhile]

theorem get?_replace (key : String) (value : α) (fields : List (String × α))
    (h : has fields key = true) (k : String) :
    get? (replace key value fields) k = if key = k then some value else get? fields k := by
  induction fields with
  | nil => simp [has] at h
  | cons e rest ih =>
    by_cases he : e.1 = key
    · by_cases hk : key = k <;> simp [replace, get?, he, hk]
    · have h' : has rest key = true := by simpa [has, he] using h
      simp only [replace, he, if_false]
      by_cases hk : e.1 = k
      · have : key ≠ k := fun h => he (hk.trans h.symm)
        simp [get?, hk, this]
      · have := ih h'
        simp only [get?, List.find?_cons, hk, decide_false] at this ⊢
        exact this

/-- Reading after setting: the new value at its key, all else as before. -/
theorem get?_set (fields : List (String × α)) (key : String) (value : α) (k : String) :
    get? (set fields key value) k = if key = k then some value else get? fields k := by
  unfold set
  split
  · next h => exact get?_replace key value fields h k
  · next h => exact get?_place key value fields (by simpa using h) k

end Fields

namespace Value

def ofStrings (names : List String) : Value := .list (names.map .str)

def ofNat (n : Nat) : Value := .num (Number.ofNat n)

def asMap? : Value → Option Fields
  | .map fields => some fields
  | _ => none

def asList? : Value → Option (List Value)
  | .list items => some items
  | _ => none

def asStr? : Value → Option String
  | .str s => some s
  | _ => none

def isMap : Value → Bool
  | .map _ => true
  | _ => false

def isNull : Value → Bool
  | .null => true
  | _ => false

/-- What counts as set: not null, `false`, zero, `nan` or the empty string. -/
def truthy : Value → Bool
  | .null => false
  | .bool b => b
  | .num n => !n.isZero && !n.isNan
  | .str s => s ≠ ""
  | .list _ => true
  | .map _ => true

mutual

/-- The bare text of a value: the members of a list between commas, null members empty,
and no details of a mapping. -/
def display : Value → String
  | .null => "null"
  | .bool b => if b then "true" else "false"
  | .num n => n.text
  | .str s => s
  | .list items => ",".intercalate (displayItems items)
  | .map _ => "[object Object]"

def displayItems : List Value → List String
  | [] => []
  | .null :: vs => "" :: displayItems vs
  | v :: vs => v.display :: displayItems vs

end

mutual

/-- Whether a value can be written as text.  An entry of a mapping under the name of the conversion
hides the conversion, and a list is written by way of its members. -/
def hasText : Value → Bool
  | .map fields => !Fields.has fields "toString"
  | .list items => itemsHaveText items
  | _ => true

def itemsHaveText : List Value → Bool
  | [] => true
  | v :: vs => v.hasText && itemsHaveText vs

end

/-- The entry of a mapping; nothing for any other value. -/
def field? (v : Value) (key : String) : Option Value := v.asMap?.bind (Fields.get? · key)

/-- The entries that a value is copied with: those of a mapping, and the members of a list and the
letters of a text under their positions. -/
def entries : Value → Fields
  | .map fields => fields
  | .list items => positioned items
  | .str s => positioned (s.toList.flatMap letters)
  | _ => []
where
  positioned (members : List Value) : Fields :=
    Fields.ofList (((List.range members.length).map toString).zip members)
  /-- A character beyond the basic plane makes two letters, neither of which is a text. -/
  letters (c : Char) : List Value :=
    if c.toNat < 0x10000 then [.str c.toString] else [.str "\uFFFD", .str "\uFFFD"]

/-- The mapping at a key, empty where there is none. -/
def fieldsAt (fields : Fields) (key : String) : Fields :=
  ((Fields.get? fields key).bind asMap?).getD []

/-! ## Equality that ignores the order of keys -/

mutual

/-- Deep equality: the same values in lists of the same order, and the same
entries in mappings of any order. -/
def same : Value → Value → Bool
  | .null, .null => true
  | .bool a, .bool b => a == b
  | .num a, .num b => a = b
  | .str a, .str b => a = b
  | .list a, .list b => sameList a b
  | .map a, .map b => a.length = b.length && sameFields a b
  | _, _ => false

def sameList : List Value → List Value → Bool
  | [], [] => true
  | a :: as, b :: bs => same a b && sameList as bs
  | _, _ => false

/-- Each entry of the first mapping is in the second. -/
def sameFields : Fields → Fields → Bool
  | [], _ => true
  | (k, a) :: rest, b =>
    (match Fields.get? b k with
      | some w => same a w
      | none => false) && sameFields rest b

end

/-- Deep equality of entries that may be absent. -/
def sameOption : Option Value → Option Value → Bool
  | none, none => true
  | some a, some b => same a b
  | _, _ => false

mutual

/-- Whether two values are identical, the order of keys included. -/
def identical : Value → Value → Bool
  | .null, .null => true
  | .bool a, .bool b => a == b
  | .num a, .num b => a = b
  | .str a, .str b => a = b
  | .list a, .list b => identicalList a b
  | .map a, .map b => identicalFields a b
  | _, _ => false

def identicalList : List Value → List Value → Bool
  | [], [] => true
  | a :: as, b :: bs => identical a b && identicalList as bs
  | _, _ => false

def identicalFields : Fields → Fields → Bool
  | [], [] => true
  | (k, a) :: as, (l, b) :: bs => k = l && identical a b && identicalFields as bs
  | _, _ => false

end

end Value
end ApiSync
