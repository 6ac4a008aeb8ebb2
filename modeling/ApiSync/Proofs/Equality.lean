import ApiSync.Proofs.Fields
/-!
# Deep equality of well-formed values

A value is well formed when no mapping in it repeats a key.  Deep equality counts the entries
of two mappings and looks up each key of the first in the second, so a repeated key would be
compared with the value of another entry, and a value could differ from itself.
-/

namespace ApiSync
namespace Value

mutual

/-- No mapping inside the value repeats a key. -/
def WellFormed : Value → Prop
  | .list items => WellFormedItems items
  | .map fields => (Fields.keys fields).Nodup ∧ WellFormedEntries fields
  | _ => True

def WellFormedItems : List Value → Prop
  | [] => True
  | v :: vs => WellFormed v ∧ WellFormedItems vs

def WellFormedEntries : Fields → Prop
  | [] => True
  | (_, v) :: rest => WellFormed v ∧ WellFormedEntries rest

end

theorem wellFormedItems_iff {vs : List Value} :
    WellFormedItems vs ↔ ∀ v ∈ vs, v.WellFormed := by
  induction vs with
  | nil => simp [WellFormedItems]
  | cons v vs ih => rw [WellFormedItems, ih, List.forall_mem_cons]

theorem wellFormedEntries_iff {fields : Fields} :
    WellFormedEntries fields ↔ ∀ e ∈ fields, e.2.WellFormed := by
  induction fields with
  | nil => simp [WellFormedEntries]
  | cons e rest ih =>
    obtain ⟨k, v⟩ := e
    rw [WellFormedEntries, ih, List.forall_mem_cons]

mutual

theorem same_self (v : Value) (h : v.WellFormed) : same v v = true := by
  cases v with
  | null => rfl
  | bool b => simp [same]
  | num n => simp [same]
  | str s => simp [same]
  | list items =>
    rw [same]
    rw [WellFormed] at h
    exact sameList_self items h
  | map fields =>
    rw [WellFormed] at h
    rw [same, decide_eq_true rfl, Bool.true_and]
    exact sameFields_found fields fields h.2 fun e he => Fields.get?_of_mem h.1 he

theorem sameList_self (vs : List Value) (h : WellFormedItems vs) : sameList vs vs = true := by
  cases vs with
  | nil => rfl
  | cons v vs =>
    rw [WellFormedItems] at h
    rw [sameList, same_self v h.1, sameList_self vs h.2]
    rfl

/-- Entries that another mapping holds are among its entries. -/
theorem sameFields_found (fields others : Fields) (h : WellFormedEntries fields)
    (hfound : ∀ e ∈ fields, Fields.get? others e.1 = some e.2) :
    sameFields fields others = true := by
  cases fields with
  | nil => rfl
  | cons e rest =>
    obtain ⟨k, v⟩ := e
    rw [WellFormedEntries] at h
    have hv : Fields.get? others k = some v := hfound (k, v) List.mem_cons_self
    have hrest : sameFields rest others = true :=
      sameFields_found rest others h.2 fun e he => hfound e (List.mem_cons_of_mem _ he)
    rw [sameFields, hv, hrest, Bool.and_true]
    exact same_self v h.1

end

end Value
end ApiSync
