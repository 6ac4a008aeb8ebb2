import ApiSync.Proofs.Alias.Expansion
import ApiSync.Proofs.Schema.OfTree
/-!
# When an alias is read like the type written in place

Expansion puts parentheses around each type, and the same tree without its groups is the
annotation with the types written in place.  The parentheses are seen through where a single
member is read, but a union inside them is not spliced into the union around it, and an `Optional`
inside them is not unwrapped.  So the two annotations resolve to one schema exactly as long as
no union hides its members and no `Optional` around a union is hidden as a whole.
-/

namespace ApiSync
namespace Annotation
namespace Tree

variable {t : Tree}

/-! ## Reading without the groups -/

/-- The members that a tree comes to without its groups. -/
def inlined (t : Tree) : List Tree := t.ungroup.splice

theorem core_ungroup (t : Tree) : t.ungroup.core = t.core.ungroup := by
  induction t with
  | name word => rfl
  | union first more => rw [ungroup_union, core, core, ungroup_union] <;> simp
  | optional inner ih => exact ih
  | group inner ih => exact ih

theorem leftmost_ungroup (t : Tree) : t.ungroup.leftmost = t.leftmost := by
  induction t with
  | name word => rfl
  | union first more hfirst => rw [ungroup_union, leftmost_union, leftmost_union, hfirst]
  | optional inner ih => exact ih
  | group inner ih => exact ih

/-- The first member that a tree comes to starts with its leftmost model. -/
theorem splice_eq_cons (t : Tree) : ∃ x xs, t.splice = x :: xs ∧ x.leftmost = t.leftmost := by
  induction t with
  | name word => exact ⟨_, _, rfl, rfl⟩
  | union first more hfirst =>
    obtain ⟨x, xs, hsplice, hleft⟩ := hfirst
    refine ⟨x, xs ++ more.flatMap splice, ?_, by rw [hleft, leftmost_union]⟩
    rw [splice_union, List.flatMap_cons, hsplice, List.cons_append]
  | optional inner => exact ⟨_, _, rfl, rfl⟩
  | group inner => exact ⟨_, _, rfl, rfl⟩

theorem inlined_eq_cons (t : Tree) : ∃ x xs, t.inlined = x :: xs ∧ x.leftmost = t.leftmost := by
  obtain ⟨x, xs, hsplice, hleft⟩ := splice_eq_cons t.ungroup
  exact ⟨x, xs, hsplice, hleft.trans (leftmost_ungroup t)⟩

theorem inlined_of_isName (h : t.isName = true) : t.inlined = [name t.leftmost] := by
  induction t with
  | name word => rfl
  | union first more => rw [isName_union] at h; cases h
  | optional inner => cases h
  | group inner ih => exact ih h

/-- Members can be spliced before the groups are dropped. -/
theorem inlined_eq (t : Tree) : t.inlined = t.splice.flatMap inlined := by
  induction t with
  | name word => rfl
  | union first more hfirst hmore =>
    have hall : ∀ t ∈ first :: more, t.inlined = t.splice.flatMap inlined :=
      List.forall_mem_cons.mpr ⟨hfirst, hmore⟩
    have hunion : (union first more).inlined = (first :: more).flatMap inlined := by
      rw [inlined, ungroup_union, splice_union, ← List.map_cons, List.flatMap_map]
      rfl
    rw [hunion, splice_union, List.flatMap_assoc]
    exact List.flatMap_congr hall
  | optional inner => exact (List.append_nil _).symm
  | group inner => exact (List.append_nil _).symm

theorem flatMap_inlined (ts : List Tree) :
    (ts.map ungroup).flatMap splice = (ts.flatMap splice).flatMap inlined := by
  rw [List.flatMap_map, List.flatMap_assoc]
  exact List.flatMap_congr fun t _ => inlined_eq t

/-! ## Which members are hidden -/

/-- Whether the members are read as they are without their groups: the first one that is no
name does not hide a list of members that starts with a name, unless that name is all there is. -/
def readsOn : List Tree → Bool
  | [] => true
  | t :: ts =>
    if t.isName then readsOn ts
    else match t.inlined with
      | [] => true
      | x :: xs => !x.isName || (xs.isEmpty && ts.isEmpty)

theorem flatMap_inlined_eq_nil_iff {ts : List Tree} : ts.flatMap inlined = [] ↔ ts = [] := by
  cases ts with
  | nil => exact iff_of_true rfl rfl
  | cons t ts =>
    refine iff_of_false (fun h => ?_) (List.cons_ne_nil t ts)
    exact splice_ne_nil t.ungroup (List.append_eq_nil_iff.mp h).1

theorem reads_inlined_iff (ts : List Tree) :
    reads ts = reads (ts.flatMap inlined) ↔ readsOn ts = true := by
  induction ts with
  | nil => exact iff_of_true rfl rfl
  | cons t ts ih =>
    rw [List.flatMap_cons, reads, readsOn]
    cases hname : t.isName with
    | true =>
      rw [inlined_of_isName hname, List.singleton_append, reads, if_pos rfl, if_pos rfl]
      show t.leftmost :: reads ts = t.leftmost :: reads (ts.flatMap inlined) ↔ _
      rw [← ih, List.cons_inj_right]
    | false =>
      -- Only the leftmost model is read here, and nothing behind it.
      obtain ⟨x, xs, hinlined, hleft⟩ := inlined_eq_cons t
      have hreads : ∀ us, [] = reads us ↔ us = [] := fun us =>
        ⟨fun h => by_contra fun hne => reads_ne_nil hne h.symm, fun h => by rw [h]; rfl⟩
      rw [hinlined, List.cons_append, reads, hleft, List.cons_inj_right, if_neg Bool.false_ne_true,
        if_neg Bool.false_ne_true]
      dsimp only
      cases hx : x.isName with
      | true => rw [if_pos rfl, hreads, List.append_eq_nil_iff, flatMap_inlined_eq_nil_iff]; simp
      | false => rw [if_neg Bool.false_ne_true]; simp

/-- Whether the groups of a tree hide nothing from the rules: neither members of its first union,
nor an `Optional` around all of it. -/
def isTransparent (t : Tree) : Bool :=
  match t.core with
  | union first more =>
    (t.isOptional || !t.ungroup.isOptional) && readsOn ((first :: more).flatMap splice)
  | _ => true

theorem isOptional_eq_iff :
    t.isOptional = t.ungroup.isOptional ↔ (t.isOptional || !t.ungroup.isOptional) = true := by
  cases t using induct with
  | name word => exact iff_of_true rfl rfl
  | union first more => rw [ungroup_union]; exact iff_of_true rfl rfl
  | optional inner => exact iff_of_true rfl rfl
  | group inner =>
    show false = inner.ungroup.isOptional ↔ (false || !inner.ungroup.isOptional) = true
    cases inner.ungroup.isOptional <;> simp

end Tree
end Annotation

namespace Schema

open Annotation

/-- The groups of a tree of models make no difference to its schema exactly when they hide
nothing. -/
theorem ofTypeText_ungroup_iff {t : Tree} (h : t.OfModels) :
    ofTypeText t.text = ofTypeText t.ungroup.text ↔ t.isTransparent = true := by
  have hungroup : t.ungroup.OfModels := by rwa [Tree.OfModels, Tree.names_ungroup]
  have hcore := Tree.core_ungroup t
  rw [Tree.isTransparent]
  rcases t.core_cases with ⟨w, hc⟩ | ⟨first, more, hc⟩
  · rw [hc] at hcore ⊢
    exact iff_of_true (by rw [ofTypeText_of_name h hc, ofTypeText_of_name hungroup hcore]) rfl
  · rw [hc, Tree.ungroup_union] at hcore
    have hreads : Tree.reads ((first.ungroup :: more.map Tree.ungroup).flatMap Tree.splice) =
        Tree.reads (((first :: more).flatMap Tree.splice).flatMap Tree.inlined) := by
      rw [← Tree.flatMap_inlined, List.map_cons]
    rw [ofTypeText_of_union h hc, ofTypeText_of_union hungroup hcore, hreads, hc]
    dsimp only
    rw [Bool.and_eq_true, ← Tree.isOptional_eq_iff, ← Tree.reads_inlined_iff,
      Schema.composition.injEq]
    simp [and_comm]

end Schema

namespace Alias
namespace Definitions

open Annotation

variable {defs : Definitions}

/-! ## Aliases and their types in place -/

theorem ungroup_resolve (h : defs.Sound) (k : Nat) (w : String) :
    (resolve .group defs k w).ungroup = resolve id defs k w := by
  induction k generalizing w with
  | zero => rfl
  | succ k ih =>
    rw [resolve, resolve]
    cases hd : Fields.get? defs w with
    | none => rfl
    | some d =>
      have hplain := (h.types _ (Fields.mem_of_get? hd)).plain
      dsimp only
      rw [Tree.ungroup_group, Tree.ungroup_bind_of_isPlain hplain, id]
      exact Tree.bind_congr fun v _ => ih v

/-- Without its groups the expanded annotation has the types in place. -/
theorem ungroup_expanded (h : defs.Sound) {t : Tree} (ht : defs.Over t) :
    (expanded defs t).ungroup = inPlace defs t := by
  rw [expanded, Tree.ungroup_bind_of_isPlain ht.plain]
  exact Tree.bind_congr fun w _ => ungroup_resolve h expansionPasses w

/-- What a name stands for in the end is put together from models. -/
theorem isModel_of_resolve (h : defs.Sound) {k : Nat} {v : String}
    (hv : v ∈ Fields.keys defs ∨ IsModel v) (hk : defs.endsWithin k v = true) :
    (resolve .group defs k v).OfModels := by
  induction k generalizing v with
  | zero =>
    have hnone : v ∉ Fields.keys defs :=
      Fields.get?_eq_none_iff.mp (Option.isNone_iff_eq_none.mp hk)
    intro w hw
    rw [List.mem_singleton.mp hw]
    exact hv.resolve_left hnone
  | succ k ih =>
    intro w hw
    rw [resolve] at hw
    cases hd : Fields.get? defs v with
    | none =>
      rw [hd] at hw
      rw [List.mem_singleton.mp hw]
      exact hv.resolve_left (Fields.get?_eq_none_iff.mp hd)
    | some d =>
      rw [hd] at hw
      obtain ⟨u, hu, hwu⟩ := Tree.mem_names_bind.mp hw
      have htype := h.types _ (Fields.mem_of_get? hd)
      exact ih (htype.names u hu) (endsWithin_succ.mp hk d hd u hu) w hwu

theorem isModel_of_expanded (h : defs.Sound) {t : Tree} (ht : defs.Over t)
    (hchains : ∀ w ∈ t.names, defs.endsWithin expansionPasses w = true) :
    (expanded defs t).OfModels := by
  intro w hw
  obtain ⟨v, hv, hwv⟩ := Tree.mem_names_bind.mp hw
  exact isModel_of_resolve h (ht.names v hv) (hchains v hv) w hwv

/-- An annotation with its aliases expanded resolves like the annotation with the types in place
exactly when the parentheses of the expansion hide nothing. -/
theorem ofTypeText_expand_iff (h : defs.Sound) {t : Tree} (ht : defs.Over t)
    (hchains : ∀ w ∈ t.names, defs.endsWithin expansionPasses w = true) :
    Schema.ofTypeText (expand defs.table (String.ofList t.text)).toList =
        Schema.ofTypeText (inPlace defs t).text ↔
      (expanded defs t).isTransparent = true := by
  rw [expand_text h ht hchains, String.toList_ofList, ← ungroup_expanded h ht]
  exact Schema.ofTypeText_ungroup_iff (isModel_of_expanded h ht hchains)

section Example

/-- An alias for a union, and one for the alias. -/
def references : Definitions :=
  [("Ref", .union (.name "User") [.name "Group"]), ("AnyRef", .name "Ref")]

theorem references_sound : references.Sound where
  distinct := by decide
  aliases := by decide
  types := by decide

/-- An optional alias is seen through, also if it stands for another one. -/
theorem optional_alias_in_place :
    references.Sound ∧ references.Over (.optional (.name "AnyRef")) ∧
      (∀ w ∈ (Tree.optional (.name "AnyRef")).names,
        references.endsWithin expansionPasses w = true) ∧
      Schema.ofTypeText (expand references.table "Optional[AnyRef]").toList =
        Schema.ofTypeText "Optional[Union[User, Group]]".toList := by
  have hover : references.Over (.optional (.name "AnyRef")) := by decide
  have hchains : ∀ w ∈ (Tree.optional (.name "AnyRef")).names,
      references.endsWithin expansionPasses w = true := by decide
  exact ⟨references_sound, hover, hchains,
    (ofTypeText_expand_iff references_sound hover hchains).mpr (by decide)⟩

/-- An alias for a union is no union among the members of another one: what it stands for is read
up to its first model, and nothing behind it. -/
theorem union_alias_not_in_place :
    (references.Sound ∧ references.Over (.union (.name "Ref") [.name "Account"]) ∧
      ∀ w ∈ (Tree.union (.name "Ref") [.name "Account"]).names,
        references.endsWithin expansionPasses w = true) ∧
      Schema.ofTypeText (expand references.table "Union[Ref, Account]").toList ≠
        Schema.ofTypeText (inPlace references (.union (.name "Ref") [.name "Account"])).text :=
  ⟨⟨references_sound, by decide, by decide⟩, by decide⟩

end Example

end Definitions
end Alias
end ApiSync
