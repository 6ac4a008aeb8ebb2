import ApiSync.Ambient
/-!
Laying metadata over metadata.

Mappings are united key by key; where both sides hold anything else, what lies on top
wins.  Lists with a key field keep the items below whose key does not come again on top.
-/

namespace ApiSync
namespace Metadata

mutual

/-- The entries of the second mapping laid over the first one, one after the other. -/
def overlay (base : Fields) : Fields → Fields
  | [] => base
  | (k, v) :: rest =>
    overlay (Fields.assign base k (overlayValue (Fields.get? base k) v)) rest

/-- A value on top of the one that the key holds, if any. -/
def overlayValue (current : Option Value) : Value → Value
  | .map upper =>
    match current with
    | some (.map base) => .map (overlay base upper)
    | _ => .map upper
  | v => v

end

/-! ## Lists -/

def itemsOf (v : Option Value) : List Value := (v.bind Value.asList?).getD []

/-- Whether two members name the same item.  Collections are never the same, and two
absent ones are. -/
def sameKey : Option Value → Option Value → Bool
  | none, none => true
  | some .null, some .null => true
  | some (.bool a), some (.bool b) => a = b
  | some (.str a), some (.str b) => a = b
  | some (.num a), some (.num b) => a = b || (a.isZero && b.isZero)
  | _, _ => false

/-- The key of an item; an item that is no mapping has none. -/
def keyOf? (field : String) (item : Value) : Option (Option Value) :=
  item.asMap?.map (Fields.get? · field)

/-- Whether the key of an item comes again among the items on top. -/
def isOverridden (field : String) (upper : List Value) (item : Value) : Bool :=
  upper.any fun o =>
    match keyOf? field item, keyOf? field o with
    | some a, some b => sameKey a b
    | _, _ => false

/-- Two lists, of which the second lies on top.  An empty list on either side gives way,
and without a key field the list on top is the result. -/
def mergeLists (base upper : Option Value) (uniqueBy : Option String) : List Value :=
  let below := itemsOf base
  let above := itemsOf upper
  if above = [] then below
  else if below = [] then above
  else match uniqueBy with
    | none | some "" => above
    | some field => below.filter (fun v => v.isMap && !isOverridden field above v) ++ above

/-! ## Responses -/

/-- Whether metadata with a list of methods is meant for the method; without a list or a
method it is. -/
def appliesTo (method : String) (entry : Fields) : Bool :=
  method = "" || match Fields.get? entry "methods" with
    | none => true
    | some (.list ms) => ms.any fun m => m.asStr? = some method
    | some _ => false

def withoutMethods (entry : Fields) : Fields := Fields.erase entry "methods"

/-- A response on top of the one with its status. -/
def addResponse (method : String) (acc : Fields) (status : String) : Value → Fields
  | .map response =>
    if appliesTo method response then
      let incoming := withoutMethods response
      match Fields.get? acc status with
      | some (.map existing) => Fields.assign acc status (.map (overlay existing incoming))
      | _ => Fields.assign acc status (.map incoming)
    else acc
  | _ => acc

/-- Responses by status; those on top may be limited to some methods. -/
def mergeResponses (base upper : Option Value) (method : String) : Fields :=
  let start := (base.bind Value.asMap?).getD []
  let above := (upper.bind Value.asMap?).getD []
  above.foldl (fun acc e => addResponse method acc e.1 e.2) start

end Metadata
end ApiSync
