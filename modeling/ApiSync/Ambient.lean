import ApiSync.Value
/-!
Names that every mapping answers to, besides its own keys.

A look-up that does not ask for own keys finds these names everywhere.  Setting the name
`__proto__` leaves the entries of a mapping as they are.
-/

namespace ApiSync
namespace Ambient

def functionNames : List String :=
  ["toString", "valueOf", "hasOwnProperty", "isPrototypeOf", "propertyIsEnumerable",
    "toLocaleString", "__defineGetter__", "__defineSetter__", "__lookupGetter__",
    "__lookupSetter__"]

def parentName : String := "__proto__"

def names : List String := "constructor" :: parentName :: functionNames

def isAmbient (key : String) : Bool := names.contains key

/-- What a look-up of the name gives, written as text. -/
def text? (key : String) : Option String :=
  if key = "constructor" then some "function Object() \x7b [native code] \x7d"
  else if key = parentName then some "[object Object]"
  else if functionNames.contains key then
    some ("function " ++ key ++ "() \x7b [native code] \x7d")
  else none

end Ambient

namespace Fields

/-- Whether a look-up of the key finds anything, own entry or not. -/
def answers (fields : List (String × α)) (key : String) : Bool :=
  has fields key || Ambient.isAmbient key

/-- Sets an entry by plain assignment. -/
def assign (fields : List (String × α)) (key : String) (value : α) : List (String × α) :=
  if key = Ambient.parentName && !has fields key then fields else set fields key value

end Fields
end ApiSync
