import ApiSync.Proofs.Annotation.PipeUnions
import ApiSync.Proofs.Annotation.SubscriptUnions
/-!
# A union of names resolves to its leaves

However a union is nested, and whether it is written with brackets or with pipes, its schema lists
the models that its leaves name, in the order of the leaves.
-/

namespace ApiSync
namespace Annotation

open Text

/-- The text is a union with these leaves, in one of the two ways to write it. -/
inductive SpellsUnion (ls : List Leaf) (text : List Char) : Prop
  | subscript (h : IsSubscriptUnion ls text)
  | pipes (h : IsPipeUnion ls text)

theorem SpellsUnion.union?_composed {ls : List Leaf} {text : List Char} (h : SpellsUnion ls text)
    (kind : Composition) (nullable : Bool) :
    Schema.union? kind nullable text = composed kind nullable (ls.filterMap Leaf.model?) := by
  rw [union?_eq]
  cases h with
  | subscript h => rw [h.unionModels]
  | pipes h => rw [h.unionModels]

theorem composed_eq_none {kind : Composition} {nullable : Bool} {models : List String} :
    composed kind nullable models = none ↔ models = [] := by
  cases models with
  | nil => exact ⟨fun _ => rfl, fun _ => rfl⟩
  | cons m ms => exact ⟨nofun, nofun⟩

/-- The schema of a union lists one model for each leaf that names one, left to right, and there
is no schema if no leaf does.  So all ways to nest and to write the same leaves give the same
schema. -/
theorem union_resolves_to_its_leaves {ls : List Leaf} {text : List Char}
    (h : SpellsUnion ls text) (kind : Composition) (nullable : Bool) :
    Schema.union? kind nullable text = composed kind nullable (ls.filterMap Leaf.model?) ∧
      (Schema.union? kind nullable text = none ↔ ∀ l ∈ ls, l.model? = none) ∧
      ∀ other, SpellsUnion ls other →
        Schema.union? kind nullable other = Schema.union? kind nullable text := by
  have hunion := h.union?_composed kind nullable
  refine ⟨hunion, ?_, fun other hother => (hother.union?_composed kind nullable).trans hunion.symm⟩
  rw [hunion, composed_eq_none, List.filterMap_eq_nil_iff]

section Example

def itemLeaf : Leaf := ⟨["models", "Item", "Meta"], by decide, by decide⟩

def noneLeaf : Leaf := ⟨["None"], by decide, by decide⟩

def anyLeaf : Leaf := ⟨["typing", "Any"], by decide, by decide⟩

def tagLeaf : Leaf := ⟨["Tag"], by decide, by decide⟩

def exampleLeaves : List Leaf := [itemLeaf, noneLeaf, anyLeaf, tagLeaf]

def bracketText : List Char :=
  "Union[typing.Union[models.Item.Meta, None],Union[Union[typing.Any],Tag]]".toList

def pipeText : List Char := "models.Item.Meta|((None| typing.Any)|Tag)".toList

theorem spells_bracketText : SpellsUnion exampleLeaves bracketText := by
  have hnone : Subscripted [noneLeaf] " None".toList :=
    @Subscripted.padded _ _ [' '] [] (.leaf noneLeaf) (List.forall_mem_singleton.mpr rfl)
      (List.forall_mem_nil _)
  have hfirst : Subscripted [itemLeaf, noneLeaf] "typing.Union[models.Item.Meta, None]".toList :=
    .union true [([itemLeaf], itemLeaf.text), ([noneLeaf], " None".toList)] (List.cons_ne_nil _ _)
      (List.forall_mem_cons.mpr ⟨.leaf itemLeaf, List.forall_mem_singleton.mpr hnone⟩)
  have hinner : Subscripted [anyLeaf] "Union[typing.Any]".toList :=
    .union false [([anyLeaf], anyLeaf.text)] (List.cons_ne_nil _ _)
      (List.forall_mem_singleton.mpr (.leaf anyLeaf))
  have hsecond : Subscripted [anyLeaf, tagLeaf] "Union[Union[typing.Any],Tag]".toList :=
    .union false [([anyLeaf], "Union[typing.Any]".toList), ([tagLeaf], tagLeaf.text)]
      (List.cons_ne_nil _ _)
      (List.forall_mem_cons.mpr ⟨hinner, List.forall_mem_singleton.mpr (.leaf tagLeaf)⟩)
  exact .subscript ⟨false,
    [([itemLeaf, noneLeaf], "typing.Union[models.Item.Meta, None]".toList),
      ([anyLeaf, tagLeaf], "Union[Union[typing.Any],Tag]".toList)], [], [],
    List.cons_ne_nil _ _, List.forall_mem_cons.mpr ⟨hfirst, List.forall_mem_singleton.mpr hsecond⟩,
    List.forall_mem_nil _, List.forall_mem_nil _, rfl, rfl⟩

theorem spells_pipeText : SpellsUnion exampleLeaves pipeText := by
  have hany : Piped 8 [anyLeaf] " typing.Any".toList :=
    @Piped.padded _ _ _ [' '] [] (.leaf 8 anyLeaf) (List.forall_mem_singleton.mpr rfl)
      (List.forall_mem_nil _)
  have hinner : Piped 9 [noneLeaf, anyLeaf] "(None| typing.Any)".toList :=
    .group [([noneLeaf], noneLeaf.text), ([anyLeaf], " typing.Any".toList)] (by decide)
      (List.forall_mem_cons.mpr ⟨.leaf 8 noneLeaf, List.forall_mem_singleton.mpr hany⟩)
  have houter : Piped 10 [noneLeaf, anyLeaf, tagLeaf] "((None| typing.Any)|Tag)".toList :=
    .group [([noneLeaf, anyLeaf], "(None| typing.Any)".toList), ([tagLeaf], tagLeaf.text)]
      (by decide)
      (List.forall_mem_cons.mpr ⟨hinner, List.forall_mem_singleton.mpr (.leaf 9 tagLeaf)⟩)
  exact .pipes ⟨[([itemLeaf], itemLeaf.text),
      ([noneLeaf, anyLeaf, tagLeaf], "((None| typing.Any)|Tag)".toList)], by decide,
    List.forall_mem_cons.mpr ⟨.leaf 10 itemLeaf, List.forall_mem_singleton.mpr houter⟩, rfl, rfl⟩

/-- The same leaves in brackets and between pipes, nested in different ways. -/
theorem nested_spellings_agree :
    SpellsUnion exampleLeaves bracketText ∧ SpellsUnion exampleLeaves pipeText ∧
      Schema.union? .anyOf true bracketText = some (.composition .anyOf ["Item", "Tag"] true) ∧
      Schema.union? .anyOf true pipeText = Schema.union? .anyOf true bracketText := by
  obtain ⟨hlist, -, hsame⟩ := union_resolves_to_its_leaves spells_bracketText .anyOf true
  refine ⟨spells_bracketText, spells_pipeText, hlist.trans ?_, hsame pipeText spells_pipeText⟩
  decide

end Example

end Annotation
end ApiSync
