import ApiSync.Failure
import ApiSync.Metadata.Overlay
import ApiSync.Text.Case
/-!
Examples and where they go: under a parameter, the request body or a response, or on the
list of examples for schemas.

The methods that an example is limited to are compared as texts, and the text of its status names
a response.  A mapping that hides the conversion has no text, so an example may fail to be placed.
-/

namespace ApiSync
namespace Metadata

/-- Changes the mapping at a key, which is made if no mapping is there. -/
def within (fields : Fields) (key : String) (change : Fields → Fields) : Fields :=
  match Fields.get? fields key with
  | some (.map inner) => Fields.assign fields key (.map (change inner))
  | _ => Fields.assign fields key (.map (change []))

/-- The same at the end of a path of keys. -/
def withinPath (fields : Fields) (path : List String) (change : Fields → Fields) : Fields :=
  match path with
  | [] => change fields
  | key :: rest => within fields key fun inner => withinPath inner rest change

/-- The first of the keys that the example holds, as an entry of its own. -/
def firstHeld (entry : Fields) (keys : List String) : Fields :=
  match keys.find? (Fields.has entry) with
  | some key => [(key, (Fields.get? entry key).getD .null)]
  | none => []

def held (entry : Fields) (key : String) : Fields := firstHeld entry [key]

/-- The example object that is written: one of its three ways to give the value, its
texts, and its extensions. -/
def exampleObject (entry : Fields) : Fields :=
  let start := firstHeld entry ["value", "externalValue", "$ref"]
    ++ held entry "summary" ++ held entry "description"
  Fields.setAll (Fields.ofList start) (entry.filter fun e => Text.hasPrefix e.1 "x-")

/-- Whether the example is limited to methods and the method is not among them, letter
case aside.  The methods listed have a text. -/
def excludesMethod (entry : Fields) (method : String) : Bool :=
  match Fields.get? entry "methods" with
  | none => false
  | some (.list ms) =>
    !ms.any fun m => Text.lowerCased m.display = Text.lowerCased method
  | some _ => true

def contentTypeOf (entry : Fields) : String :=
  ((Fields.get? entry "contentType").bind Value.asStr?).getD "application/json"

/-- Whether two values are the same scalar. -/
def sameScalar : Value → Value → Bool
  | .bool a, .bool b => a = b
  | .str a, .str b => a = b
  | .num a, .num b => !a.isNan && (a = b || (a.isZero && b.isZero))
  | .null, .null => true
  | _, _ => false

def isNamed (name : Value) (parameter : Value) : Bool :=
  (parameter.field? "name").any (sameScalar name)

/-- Changes the first item that passes the test. -/
def changeFirst (test : Value → Bool) (change : Fields → Fields) : List Value → List Value
  | [] => []
  | v :: vs =>
    if test v then
      (match v with
        | .map fields => .map (change fields)
        | other => other) :: vs
    else v :: changeFirst test change vs

def listAt (fields : Fields) (key : String) : List Value :=
  ((Fields.get? fields key).bind Value.asList?).getD []

/-- Puts a built example under its name into the `examples` of a mapping. -/
def addExample (name : String) (built : Fields) (holder : Fields) : Fields :=
  within holder "examples" fun all => Fields.assign all name (.map built)

/-- Places one example with a name at a placement.  The status of a response has a text. -/
def placeExample (target entry : Fields) (placement name : String) : Fields :=
  let built := exampleObject entry
  let media := ["content", contentTypeOf entry]
  if placement = "parameter" then
    match Fields.get? entry "parameter_name" with
    | none => target
    | some parameter =>
      if !parameter.truthy then target
      else
        let all := changeFirst (isNamed parameter) (addExample name built) (listAt target "parameters")
        Fields.set target "parameters" (.list all)
  else if placement = "requestBody" then
    withinPath target ("requestBody" :: media) (addExample name built)
  else if placement = "response" then
    match Fields.get? entry "status_code" with
    | none | some .null => target
    | some status =>
      withinPath target ["responses", status.display] fun response =>
        let described := if Fields.has response "description" then response
          else Fields.set response "description" (.str "Response")
        withinPath described media (addExample name built)
  else if placement = "schema" then
    Fields.set target "x-schema-examples"
      (.list (listAt target "x-schema-examples" ++ [.map entry]))
  else target

/-- An example is used if it has a placement and a name and does not exclude the method. -/
def useExample (method : String) (target : Fields) (entry : Value) : Fields :=
  match entry with
  | .map e =>
    match Fields.get? e "placement", Fields.get? e "name" with
    | some (.str placement), some (.str name) =>
      if placement = "" || name = "" || excludesMethod e method then target
      else placeExample target e placement name
    | _, _ => target
  | _ => target

/-- The target with the examples in their places. -/
def withExamples (target : Fields) (examples : List Value) (method : String) : Fields :=
  examples.foldl (useExample method) target

/-! ## Texts that examples need -/

/-- Whether the methods that an example is limited to can be written as text. -/
def methodsHaveText (entry : Fields) : Bool := (listAt entry "methods").all Value.hasText

/-- Whether a placement needs the text of a status that has none. -/
def lacksStatusText (entry : Fields) (placement : Value) : Bool :=
  placement.asStr? = some "response" && !(Fields.get? entry "status_code").all Value.hasText

/-- Whether the texts that an example needs can be written.  Its methods are looked at once it has
a placement and a name, and its status if it is for the method. -/
def isPlaceable (method : String) (entry : Value) : Bool :=
  match entry with
  | .map entry =>
    match Fields.get? entry "placement", Fields.get? entry "name" with
    | some placement, some (.str name) =>
      !placement.truthy || name = "" ||
        (methodsHaveText entry
          && (excludesMethod entry method || !lacksStatusText entry placement))
    | _, _ => true
  | _ => true

/-- Places the examples one after the other, as long as the texts that they need can be written. -/
def placeExamples (target : Fields) (examples : Option Value) (method : String) :
    Except Failure Fields :=
  let listed := itemsOf examples
  if listed.all (isPlaceable method) then pure (withExamples target listed method)
  else throw .noText

end Metadata
end ApiSync
