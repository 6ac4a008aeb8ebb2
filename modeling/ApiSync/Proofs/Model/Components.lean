import ApiSync.Proofs.Model.Attributes
import ApiSync.Proofs.Model.Exclusion
/-!
# What a component is made from

A component of classes comes from the last class of its name, whatever the classes before it are,
and no type alias takes its place.
-/

namespace ApiSync

namespace Model

open Python Alias Alias.Loading

instance (d : Decorators) (name : String) : Decidable (d.Generates name) :=
  inferInstanceAs (Decidable (_ ∧ _ ∧ _ ∧ _))

/-- The class that a component is made from: the last one that is a component of the name. -/
def componentClass? (name : String) (cs : List Class) : Option Class :=
  cs.reverse.find? fun c => c.decorators.Generates name

section

variable {name : String}

theorem mem_of_componentClass? {cs : List Class} {c : Class}
    (h : componentClass? name cs = some c) : c ∈ cs :=
  List.mem_reverse.mp (List.mem_of_find?_eq_some h)

theorem generates_of_componentClass? {cs : List Class} {c : Class}
    (h : componentClass? name cs = some c) : c.decorators.Generates name :=
  of_decide_eq_true (List.find?_some (p := fun c : Class => c.decorators.Generates name) h)

theorem exists_componentClass? {cs : List Class} {c : Class} (hc : c ∈ cs)
    (h : c.decorators.Generates name) : ∃ d, componentClass? name cs = some d :=
  Option.isSome_iff_exists.mp
    (List.find?_isSome.mpr ⟨c, List.mem_reverse.mpr hc, decide_eq_true h⟩)

theorem get?_components_add {c : Class} (h : c.decorators.Generates name) (s : Scan) :
    Fields.get? (s.add c).components name = some (.map c.schema) := by
  obtain ⟨hname, hne, hin, hparent⟩ := h
  unfold Scan.add
  split
  · next hnone => exact absurd (hnone.symm.trans hname) nofun
  · next hempty => exact absurd (Option.some.inj (hempty.symm.trans hname)).symm hne
  · next own _ hcomponent =>
    obtain rfl : own = name := Option.some.inj (hcomponent.symm.trans hname)
    rw [if_neg (Bool.eq_false_iff.mp hin), Fields.get?_assign (fun heq => absurd heq hparent),
      if_pos rfl]

theorem get?_components_add_of_not {c : Class} (hparent : name ≠ Ambient.parentName)
    (h : ¬c.decorators.Generates name) (s : Scan) :
    Fields.get? (s.add c).components name = Fields.get? s.components name := by
  unfold Scan.add
  split
  · rfl
  · rfl
  · next own hown hcomponent =>
    split
    · rfl
    · next hin =>
      refine Fields.get?_assign_of_ne _ (fun heq => h ?_) _
      subst heq
      exact ⟨hcomponent, hown, Bool.eq_false_iff.mpr hin, hparent⟩

theorem get?_components_foldl_add {cs : List Class} {c : Class}
    (h : componentClass? name cs = some c) (s : Scan) :
    Fields.get? (cs.foldl Scan.add s).components name = some (.map c.schema) := by
  have hparent : name ≠ Ambient.parentName := (generates_of_componentClass? h).2.2.2
  induction cs using List.reverseRecOn with
  | nil => cases h
  | append_singleton cs last ih =>
    rw [componentClass?, List.reverse_append, List.reverse_singleton, List.singleton_append,
      List.find?_cons] at h
    rw [List.foldl_append, List.foldl_cons, List.foldl_nil]
    by_cases hlast : last.decorators.Generates name
    · rw [decide_eq_true hlast] at h
      obtain rfl : last = c := Option.some.inj h
      exact get?_components_add hlast _
    · rw [decide_eq_false hlast] at h
      rw [get?_components_add_of_not hparent hlast]
      exact ih h

/-- A type alias does not take the place of a component. -/
theorem get?_components_foldl_addAlias (registry : Registry) (root : String)
    (records : List Record) {s : Scan} {v : Value} (h : Fields.get? s.components name = some v) :
    Fields.get? (records.foldl (Scan.addAlias registry root) s).components name = some v := by
  refine List.foldlRecOn (motive := fun t : Scan => Fields.get? t.components name = some v)
    records _ h fun t ht record _ => ?_
  rw [Scan.addAlias]
  split
  · exact ht
  · next hfree =>
    rw [Fields.get?_assign_of_ne, ht]
    rintro rfl
    rw [Fields.answers, Fields.has_of_get? ht, Bool.true_or, Bool.or_true] at hfree
    exact hfree rfl

end

/-- Each component that classes are read for has the schema of the last class of its name. -/
def MadeFrom (cs : List Class) (s : Scan) : Prop :=
  ∀ name c, componentClass? name cs = some c →
    Fields.get? s.components name = some (.map c.schema)

theorem marked_of_mem_treeClasses {files : Files} {markers : Markers} {root : String}
    {r : Registry} {cs : List Class} (h : treeClasses files markers root r = .ok cs) {c : Class}
    (hc : c ∈ cs) : c.decorators.Marked := by
  obtain ⟨table, hread, -⟩ := areRead_of_treeClasses h
  exact Decorators.marked_read _ _ _ (read_of_isRead (hread.read c hc))

theorem madeFrom_of_scan {files : Files} {markers : Markers} {root : String} {r r' : Registry}
    {s : Scan} (h : Returns (scan files markers root) r s r') :
    ∃ cs, treeClasses files markers root r' = .ok cs ∧ MadeFrom cs s := by
  obtain ⟨cs, hcs, hs⟩ := scan_reads h
  refine ⟨cs, hcs, fun name c hc => ?_⟩
  rw [hs]
  exact get?_components_foldl_addAlias r' root _ (get?_components_foldl_add hc Scan.empty)

end Model
end ApiSync
