import ApiSync.Proofs.Annotation.NullSpellings
/-!
# Annotations as trees

An annotation that is put together from names by unions, `Optional` and parentheses is a tree, and
its text is one way of reading the tree.  Whatever is read off a tree from the bottom up is a fold
over it; replacing names by trees is one such fold, and dropping the parentheses another.
-/

namespace ApiSync
namespace Annotation

open Text

/-! ## Words and names -/

structure IsWord (w : List Char) : Prop where
  nonempty : w ≠ []
  chars : ∀ c ∈ w, isWordChar c = true

instance (w : List Char) : Decidable (IsWord w) :=
  decidable_of_iff (w ≠ [] ∧ w.all isWordChar = true)
    ⟨fun h => ⟨h.1, List.all_eq_true.mp h.2⟩, fun h => ⟨h.nonempty, List.all_eq_true.mpr h.chars⟩⟩

/-- A name that the search for models finds. -/
structure IsModel (w : String) : Prop where
  word : IsWord w.toList
  upper : startsUpper w.toList = true
  noKeyword : w ∉ unionKeywords

instance (w : String) : Decidable (IsModel w) :=
  decidable_of_iff (IsWord w.toList ∧ startsUpper w.toList = true ∧ w ∉ unionKeywords)
    ⟨fun h => ⟨h.1, h.2.1, h.2.2⟩, fun h => ⟨h.word, h.upper, h.noKeyword⟩⟩

/-! ## Trees -/

/-- An annotation; a group is a pair of parentheses.  A union has at least one member. -/
inductive Tree where
  | name (word : String)
  | union (first : Tree) (more : List Tree)
  | optional (inner : Tree)
  | group (inner : Tree)
deriving Inhabited, Repr

namespace Tree

/-- Induction over trees, with the members of a union at hand. -/
@[elab_as_elim, induction_eliminator]
theorem induct {motive : Tree → Prop} (name : ∀ word, motive (.name word))
    (union : ∀ first more, motive first → (∀ t ∈ more, motive t) → motive (.union first more))
    (optional : ∀ inner, motive inner → motive (.optional inner))
    (group : ∀ inner, motive inner → motive (.group inner)) (t : Tree) : motive t := by
  refine @Tree.rec motive (fun ts => ∀ t ∈ ts, motive t) name union optional group
    (fun _ h => absurd h List.not_mem_nil) ?_ t
  intro first more hfirst hmore
  exact List.forall_mem_cons.mpr ⟨hfirst, hmore⟩

/-! ## Folds -/

section

variable {α : Type} (onName : String → α) (onUnion : List α → α) (onOptional onGroup : α → α)

mutual

/-- Puts what is read off the parts of a tree together. -/
def fold : Tree → α
  | name word => onName word
  | union first more => onUnion (fold first :: foldAll more)
  | optional inner => onOptional (fold inner)
  | group inner => onGroup (fold inner)

def foldAll : List Tree → List α
  | [] => []
  | t :: ts => fold t :: foldAll ts

end

theorem foldAll_eq (ts : List Tree) : foldAll onName onUnion onOptional onGroup ts =
    ts.map (fold onName onUnion onOptional onGroup) := by
  induction ts with
  | nil => rfl
  | cons t ts ih => rw [foldAll, ih, List.map_cons]

theorem fold_union (first : Tree) (more : List Tree) :
    fold onName onUnion onOptional onGroup (union first more) =
      onUnion ((first :: more).map (fold onName onUnion onOptional onGroup)) := by
  rw [fold, foldAll_eq, List.map_cons]

end

/-- The text of a tree, one blank behind each comma. -/
def text : Tree → List Char :=
  fold String.toList unionOf optionalOf fun inside => '(' :: (inside ++ [')'])

theorem text_union (first : Tree) (more : List Tree) :
    (union first more).text = unionOf ((first :: more).map text) := fold_union _ _ _ _ first more

theorem text_name (word : String) : (name word).text = word.toList := rfl

theorem text_optional (inner : Tree) : (optional inner).text = optionalOf inner.text := rfl

theorem text_group (inner : Tree) : (group inner).text = '(' :: (inner.text ++ [')']) := rfl

def names : Tree → List String := fold (fun word => [word]) List.flatten id id

theorem names_union (first : Tree) (more : List Tree) :
    (union first more).names = (first :: more).flatMap names := by
  rw [names, fold_union, List.flatMap_def]

theorem names_name (word : String) : (name word).names = [word] := rfl

theorem names_optional (inner : Tree) : (optional inner).names = inner.names := rfl

theorem names_group (inner : Tree) : (group inner).names = inner.names := rfl

/-- What holds of the names of a union holds of those of its members. -/
theorem names_of_union {p : String → Prop} {first : Tree} {more : List Tree}
    (h : ∀ w ∈ (union first more).names, p w) : ∀ t ∈ first :: more, ∀ w ∈ t.names, p w := by
  intro t ht w hw
  refine h w ?_
  rw [names_union]
  exact List.mem_flatMap.mpr ⟨t, ht, hw⟩

/-- All names in the tree are those of models. -/
def OfModels (t : Tree) : Prop := ∀ w ∈ t.names, IsModel w

theorem OfModels.members {first : Tree} {more : List Tree} (h : (union first more).OfModels) :
    ∀ t ∈ first :: more, t.OfModels := names_of_union h

/-- Names are what the text of a tree comes down to, so it is not empty. -/
theorem text_ne_nil {t : Tree} (h : ∀ w ∈ t.names, w.toList ≠ []) : t.text ≠ [] := by
  cases t using induct with
  | name word => exact h word List.mem_cons_self
  | union first more =>
    rw [text_union, unionOf_eq]
    exact List.cons_ne_nil _ _
  | optional inner =>
    rw [text_optional, optionalOf_eq]
    exact List.cons_ne_nil _ _
  | group inner => exact List.cons_ne_nil _ _

/-! ## Replacing names -/

/-- The union of a list of members; without any there is none. -/
def ofMembers : List Tree → Tree
  | [] => default
  | first :: more => union first more

/-- Writes a tree in the place of each name. -/
def bind (t : Tree) (f : String → Tree) : Tree := t.fold f ofMembers optional group

theorem bind_union (first : Tree) (more : List Tree) (f : String → Tree) :
    (union first more).bind f = union (first.bind f) (more.map (·.bind f)) :=
  fold_union f ofMembers optional group first more

theorem bind_name (word : String) (f : String → Tree) : (name word).bind f = f word := rfl

theorem bind_optional (inner : Tree) (f : String → Tree) :
    (optional inner).bind f = optional (inner.bind f) := rfl

theorem bind_group (inner : Tree) (f : String → Tree) :
    (group inner).bind f = group (inner.bind f) := rfl

section

variable {t : Tree} {f g : String → Tree}

theorem mem_names_bind {w : String} :
    w ∈ (t.bind f).names ↔ ∃ v ∈ t.names, w ∈ (f v).names := by
  induction t with
  | name word => simp [bind_name, names_name]
  | union first more hfirst hmore =>
    have hall : ∀ t ∈ first :: more, (w ∈ (t.bind f).names ↔ ∃ v ∈ t.names, w ∈ (f v).names) :=
      List.forall_mem_cons.mpr ⟨hfirst, hmore⟩
    rw [bind_union, names_union, names_union]
    show w ∈ ((first :: more).map (·.bind f)).flatMap names ↔ _
    rw [List.mem_flatMap]
    constructor
    · rintro ⟨_, hmem, hw⟩
      obtain ⟨t, ht, rfl⟩ := List.mem_map.mp hmem
      obtain ⟨v, hv, hvw⟩ := (hall t ht).mp hw
      exact ⟨v, List.mem_flatMap.mpr ⟨t, ht, hv⟩, hvw⟩
    · rintro ⟨v, hmem, hvw⟩
      obtain ⟨t, ht, hv⟩ := List.mem_flatMap.mp hmem
      exact ⟨t.bind f, List.mem_map_of_mem ht, (hall t ht).mpr ⟨v, hv, hvw⟩⟩
  | optional inner ih => rw [bind_optional, names_optional, names_optional, ih]
  | group inner ih => rw [bind_group, names_group, names_group, ih]

theorem bind_congr (h : ∀ w ∈ t.names, f w = g w) : t.bind f = t.bind g := by
  induction t with
  | name word => exact h word List.mem_cons_self
  | union first more hfirst hmore =>
    have hparts := names_of_union h
    rw [bind_union, bind_union, hfirst (hparts first List.mem_cons_self)]
    congr 1
    exact List.map_congr_left fun t ht => hmore t ht (hparts t (List.mem_cons_of_mem first ht))
  | optional inner ih => exact congrArg optional (ih h)
  | group inner ih => exact congrArg group (ih h)

end

/-! ## Dropping the groups -/

def ungroup : Tree → Tree := fold name ofMembers optional id

theorem ungroup_union (first : Tree) (more : List Tree) :
    (union first more).ungroup = union first.ungroup (more.map ungroup) :=
  fold_union name ofMembers optional id first more

theorem ungroup_optional (inner : Tree) : (optional inner).ungroup = optional inner.ungroup := rfl

theorem ungroup_group (inner : Tree) : (group inner).ungroup = inner.ungroup := rfl

theorem names_ungroup (t : Tree) : t.ungroup.names = t.names := by
  induction t with
  | name word => rfl
  | union first more hfirst hmore =>
    rw [ungroup_union, names_union, names_union, List.flatMap_cons, List.flatMap_cons, hfirst,
      List.flatMap_map]
    congr 1
    exact List.flatMap_congr hmore
  | optional inner ih => rw [ungroup_optional, names_optional, names_optional, ih]
  | group inner ih => rw [ungroup_group, names_group, ih]

def isPlain : Tree → Bool := fold (fun _ => true) (·.all id) id fun _ => false

theorem ungroup_bind_of_isPlain {t : Tree} (h : t.isPlain = true) (f : String → Tree) :
    (t.bind f).ungroup = t.bind fun w => (f w).ungroup := by
  induction t with
  | name word => rfl
  | union first more hfirst hmore =>
    have hparts : ∀ t ∈ first :: more, t.isPlain = true := by
      rw [isPlain, fold_union, List.all_map, List.all_eq_true] at h
      exact h
    rw [bind_union, bind_union, ungroup_union, hfirst (hparts first List.mem_cons_self),
      List.map_map]
    congr 1
    exact List.map_congr_left fun t ht => hmore t ht (hparts t (List.mem_cons_of_mem first ht))
  | optional inner ih => exact congrArg optional (ih h)
  | group inner ih => cases h

end Tree
end Annotation
end ApiSync
