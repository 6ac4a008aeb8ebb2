import ApiSync.Proofs.Metadata.Remerging
/-!
# Lists united by name

The parameters of a block and of its decorators are united by name: those of the block whose name
the decorators do not use, and behind them all of the decorators.  A name on either side is a name
of the result and no other is, and names that are different on each side stay different, because
what is kept of the block has no name in common with the decorators.
-/

namespace ApiSync
namespace Metadata

/-! ## Names of items -/

/-- The text that names an item; only a mapping is named. -/
def itemName? (item : Value) : Option String := (item.field? "name").bind Value.asStr?

def itemNames (items : List Value) : List String := items.filterMap itemName?

/-- Every mapping among the items is named by a text. -/
def Named (items : List Value) : Prop := ∀ v ∈ items, v.isMap = true → (itemName? v).isSome = true

/-- The item is a mapping whose name none of the others has. -/
def namedApart (others : List Value) (item : Value) : Bool :=
  (itemName? item).any (· ∉ itemNames others)

theorem namedApart_of_name {item : Value} {name : String} (h : itemName? item = some name)
    (others : List Value) : namedApart others item = true ↔ name ∉ itemNames others := by
  rw [namedApart, h]
  exact decide_eq_true_iff

theorem mem_itemNames_iff {items : List Value} {name : String} :
    name ∈ itemNames items ↔ ∃ v ∈ items, itemName? v = some name := List.mem_filterMap

theorem itemNames_append (items others : List Value) :
    itemNames (items ++ others) = itemNames items ++ itemNames others := List.filterMap_append

/-- A named item is a mapping with the text under its key. -/
theorem exists_of_itemName? {item : Value} {name : String} (h : itemName? item = some name) :
    ∃ fields, item = .map fields ∧ Fields.get? fields "name" = some (.str name) := by
  cases item with
  | map fields =>
    obtain ⟨v, hv, hname⟩ := Option.bind_eq_some_iff.mp h
    cases v with
    | str s =>
      obtain rfl : s = name := Option.some.inj hname
      exact ⟨fields, rfl, hv⟩
    | _ => cases hname
  | _ => cases h

/-! ## Items that are kept -/

/-- Named items are compared by the texts of their names. -/
theorem isOverridden_iff {above : List Value} (habove : Named above) {item : Value}
    {name : String} (hname : itemName? item = some name) :
    isOverridden "name" above item = true ↔ name ∈ itemNames above := by
  obtain ⟨fields, rfl, hfield⟩ := exists_of_itemName? hname
  have hkey : keyOf? "name" (.map fields) = some (some (.str name)) := congrArg some hfield
  rw [isOverridden, List.any_eq_true, mem_itemNames_iff]
  refine exists_congr fun other => and_congr_right fun hother => ?_
  rw [hkey]
  cases other with
  | map others =>
    obtain ⟨text, htext⟩ := Option.isSome_iff_exists.mp (habove _ hother rfl)
    obtain ⟨entries, hentries, hget⟩ := exists_of_itemName? htext
    obtain rfl : others = entries := Value.map.inj hentries
    have hkey' : keyOf? "name" (.map others) = some (some (.str text)) := congrArg some hget
    rw [hkey', htext, Option.some.injEq]
    show decide (name = text) = true ↔ text = name
    rw [decide_eq_true_iff, eq_comm]
  | _ => exact iff_of_false Bool.false_ne_true (Option.some_ne_none name).symm

/-- An item below stays if its name does not come again on top. -/
theorem stays_eq_namedApart {below above : List Value} (hbelow : Named below)
    (habove : Named above) {item : Value} (hitem : item ∈ below) :
    stays above item = namedApart above item := by
  cases item with
  | map fields =>
    obtain ⟨name, hname⟩ := Option.isSome_iff_exists.mp (hbelow _ hitem rfl)
    rw [Bool.eq_iff_iff, namedApart_of_name hname, ← isOverridden_iff habove hname, stays]
    simp [Value.isMap]
  | _ => rfl

/-! ## Names of the union -/

/-- Nothing is lost and nothing comes twice when items are united by name. -/
structure UnitedByName (below above united : List Value) : Prop where
  /-- Those below with a name of their own, and behind them all on top. -/
  eq_append : united = below.filter (namedApart above) ++ above
  /-- The names are those of both sides. -/
  mem_names : ∀ name, name ∈ itemNames united ↔ name ∈ itemNames below ∨ name ∈ itemNames above
  /-- Items on top are kept as they are, in their order. -/
  kept : ∀ v ∈ above, v ∈ united
  /-- No name is doubled. -/
  nodup : (itemNames below).Nodup → (itemNames above).Nodup → (itemNames united).Nodup

theorem mem_itemNames_filter {below above : List Value} {name : String} :
    name ∈ itemNames (below.filter (namedApart above)) ↔
      name ∈ itemNames below ∧ name ∉ itemNames above := by
  rw [mem_itemNames_iff, mem_itemNames_iff]
  constructor
  · rintro ⟨v, hv, hname⟩
    obtain ⟨hmem, hapart⟩ := List.mem_filter.mp hv
    exact ⟨⟨v, hmem, hname⟩, (namedApart_of_name hname above).mp hapart⟩
  · rintro ⟨⟨v, hmem, hname⟩, hnew⟩
    exact ⟨v, List.mem_filter.mpr ⟨hmem, (namedApart_of_name hname above).mpr hnew⟩, hname⟩

theorem itemNames_filter_sublist (p : Value → Bool) (items : List Value) :
    (itemNames (items.filter p)).Sublist (itemNames items) :=
  List.filter_sublist.filterMap itemName?

theorem unitedByName_append (below above : List Value) :
    UnitedByName below above (below.filter (namedApart above) ++ above) where
  eq_append := rfl
  mem_names name := by
    rw [itemNames_append, List.mem_append, mem_itemNames_filter]
    by_cases h : name ∈ itemNames above
    · exact iff_of_true (Or.inr h) (Or.inr h)
    · exact or_congr_left (and_iff_left h)
  kept v hv := List.mem_append_right _ hv
  nodup hbelow habove := by
    rw [itemNames_append]
    refine List.nodup_append.mpr ⟨hbelow.sublist (itemNames_filter_sublist _ _), habove, ?_⟩
    rintro name hkept _ hname rfl
    exact (mem_itemNames_filter.mp hkept).2 hname

/-- Named items are united by name, and a side without items gives way to the other one. -/
theorem mergeLists_unites (below above : Option Value) :
    (itemsOf above ≠ [] → Named (itemsOf below) → Named (itemsOf above) →
      UnitedByName (itemsOf below) (itemsOf above) (mergeLists below above (some "name"))) ∧
    (itemsOf above = [] → mergeLists below above (some "name") = itemsOf below) ∧
    (itemsOf below = [] → mergeLists below above (some "name") = itemsOf above) := by
  refine ⟨fun hne hbelow habove => ?_, fun h => mergeLists_of_nil h below, fun h => ?_⟩
  · rw [mergeLists_of_ne_nil hne,
      List.filter_congr fun v hv => stays_eq_namedApart hbelow habove hv]
    exact unitedByName_append _ _
  · by_cases hnil : itemsOf above = []
    · rw [mergeLists_of_nil hnil, h, hnil]
    · rw [mergeLists_of_ne_nil hnil, h]
      rfl

/-- A name that stands on both sides, one that comes twice below, and items without a name. -/
def blockParameters : List Value :=
  [.map [("name", .str "id"), ("in", .str "query")], .str "page",
    .map [("name", .str "limit")], .map [("name", .str "limit"), ("in", .str "header")]]

def decoratorParameters : List Value := [.null, .map [("name", .str "id"), ("in", .str "path")]]

theorem mergeLists_unites_parameters :
    Named blockParameters ∧ Named decoratorParameters ∧
      mergeLists (some (.list blockParameters)) (some (.list decoratorParameters)) (some "name") =
        [.map [("name", .str "limit")], .map [("name", .str "limit"), ("in", .str "header")],
          .null, .map [("name", .str "id"), ("in", .str "path")]] := by
  have hbelow : Named blockParameters := by
    simp [Named, blockParameters, itemName?, Value.field?, Value.asMap?, Fields.get?,
      Value.asStr?, Value.isMap]
  have habove : Named decoratorParameters := by
    simp [Named, decoratorParameters, itemName?, Value.field?, Value.asMap?, Fields.get?,
      Value.asStr?, Value.isMap]
  have hunited := (mergeLists_unites (some (.list blockParameters))
    (some (.list decoratorParameters))).1 (List.cons_ne_nil _ _) hbelow habove
  exact ⟨hbelow, habove, hunited.eq_append.trans rfl⟩

end Metadata
end ApiSync
