import ApiSync.Proofs.Document.Resyncing
import ApiSync.Proofs.Model.Reading
/-!
# Generated and excluded components

A class that is kept out only adds its name to the excluded ones.  Nothing is taken back: a name
that another class or a type alias uses as well stays among the generated components, in whatever
order the scan meets them.
-/

namespace ApiSync

open Fields (WellFormed Each)

namespace Fields

/-- Assignment adds the key, unless it stands for the parent. -/
theorem mem_keys_assign {α : Type} {fields : List (String × α)} {k key : String} {v : α} :
    k ∈ keys (assign fields key v) ↔ k ∈ keys fields ∨ key = k ∧ key ≠ Ambient.parentName := by
  rw [mem_keys_iff_has, mem_keys_iff_has]
  by_cases hparent : key = Ambient.parentName → has fields key = true
  · rw [assign_eq_set hparent, has_set]
    by_cases hk : key = k
    · subst hk
      by_cases hp : key = Ambient.parentName
      · simp [hp, hp ▸ hparent hp]
      · simp [hp]
    · simp [hk]
  · obtain ⟨rfl, hhas⟩ := Classical.not_imp.mp hparent
    rw [assign_parent (Bool.eq_false_iff.mpr hhas)]
    simp

end Fields

namespace Model

open Python Alias Alias.Loading

/-! ## What becomes of a name -/

/-- A class with the decorators keeps the name out. -/
def Decorators.Excludes (d : Decorators) (name : String) : Prop :=
  d.component = some name ∧ name ≠ "" ∧ isExcluded d = true

/-- A class with the decorators is a component of the name. -/
def Decorators.Generates (d : Decorators) (name : String) : Prop :=
  d.component = some name ∧ name ≠ "" ∧ isExcluded d = false ∧ name ≠ Ambient.parentName

/-- The record is a component of the name below the root. -/
def Generates (root : String) (record : Record) (name : String) : Prop :=
  record.component = name ∧ isWithin root record.file = true ∧ Ambient.isAmbient name = false

/-- What each step may add to a fact holds at the end if it held at first or a step added it. -/
theorem holds_foldl_iff {σ α : Type} {f : σ → α → σ} {M : σ → Prop} {N : α → Prop}
    (hstep : ∀ s a, M (f s a) ↔ M s ∨ N a) (xs : List α) (s : σ) :
    M (xs.foldl f s) ↔ M s ∨ ∃ a ∈ xs, N a := by
  induction xs generalizing s with
  | nil => simp
  | cons x rest ih =>
    rw [List.foldl_cons, ih, hstep, or_assoc]
    simp only [List.mem_cons, exists_eq_or_imp]

theorem mem_excluded_add (name : String) (s : Scan) (c : Class) :
    name ∈ (s.add c).excluded ↔ name ∈ s.excluded ∨ c.decorators.Excludes name := by
  unfold Scan.add Decorators.Excludes
  split
  · next hnone => simp [hnone]
  · next hempty =>
    rw [hempty]
    refine (or_iff_left ?_).symm
    rintro ⟨hname, hne, -⟩
    exact hne (Option.some.inj hname).symm
  · next own hown hcomponent =>
    rw [hcomponent]
    split
    · next hout =>
      have hown' : own = name → name ≠ "" := fun h => h ▸ hown
      have hadd : name ∈ (if s.excluded.contains own then s.excluded else s.excluded ++ [own]) ↔
          name ∈ s.excluded ∨ own = name := by
        split
        · next hthere =>
          have hmem : own ∈ s.excluded := List.contains_iff_mem.mp hthere
          exact ⟨.inl, fun h => h.elim id fun heq => heq ▸ hmem⟩
        · rw [List.mem_append, List.mem_singleton, eq_comm (a := name)]
      refine hadd.trans (or_congr_right ?_)
      exact ⟨fun h => ⟨congrArg some h, hown' h, hout⟩, fun h => Option.some.inj h.1⟩
    · next hin =>
      refine (or_iff_left ?_).symm
      rintro ⟨-, -, hout⟩
      exact hin hout

theorem mem_components_add (name : String) (s : Scan) (c : Class) :
    name ∈ Fields.keys (s.add c).components ↔
      name ∈ Fields.keys s.components ∨ c.decorators.Generates name := by
  unfold Scan.add Decorators.Generates
  split
  · next hnone => simp [hnone]
  · next hempty =>
    rw [hempty]
    refine (or_iff_left ?_).symm
    rintro ⟨hname, hne, -⟩
    exact hne (Option.some.inj hname).symm
  · next own hown hcomponent =>
    rw [hcomponent]
    split
    · next hout =>
      refine (or_iff_left ?_).symm
      rintro ⟨-, -, hin, -⟩
      rw [hout] at hin
      cases hin
    · next hin =>
      refine Fields.mem_keys_assign.trans (or_congr_right ⟨?_, ?_⟩)
      · rintro ⟨rfl, hparent⟩
        exact ⟨rfl, hown, Bool.eq_false_iff.mpr hin, hparent⟩
      · rintro ⟨hname, -, -, hparent⟩
        cases hname
        exact ⟨rfl, hparent⟩

theorem mem_excluded_foldl_add (name : String) (cs : List Class) (s : Scan) :
    name ∈ (cs.foldl Scan.add s).excluded ↔
      name ∈ s.excluded ∨ ∃ c ∈ cs, c.decorators.Excludes name :=
  holds_foldl_iff (M := fun s => name ∈ s.excluded) (N := fun c => c.decorators.Excludes name)
    (mem_excluded_add name) cs s

theorem mem_components_foldl_add (name : String) (cs : List Class) (s : Scan) :
    name ∈ Fields.keys (cs.foldl Scan.add s).components ↔
      name ∈ Fields.keys s.components ∨ ∃ c ∈ cs, c.decorators.Generates name :=
  holds_foldl_iff (M := fun s => name ∈ Fields.keys s.components)
    (N := fun c => c.decorators.Generates name) (mem_components_add name) cs s

section

variable (registry : Registry) (root : String)

theorem excluded_foldl_addAlias (records : List Record) (s : Scan) :
    (records.foldl (Scan.addAlias registry root) s).excluded = s.excluded := by
  refine List.foldlRecOn (motive := fun t : Scan => t.excluded = s.excluded) records _ rfl
    fun t ht record _ => ?_
  rw [Scan.addAlias]
  split
  · exact ht
  · exact ht

theorem mem_components_addAlias (name : String) (s : Scan) (record : Record) :
    name ∈ Fields.keys (s.addAlias registry root record).components ↔
      name ∈ Fields.keys s.components ∨ Generates root record name := by
  rw [Scan.addAlias, Fields.answers]
  split
  · next htaken =>
    refine ⟨.inl, fun h => h.elim id ?_⟩
    rintro ⟨rfl, hwithin, hplain⟩
    rw [hwithin, hplain, Bool.not_true, Bool.false_or, Bool.or_false] at htaken
    exact Fields.mem_keys_iff_has.mpr htaken
  · next hfree =>
    rw [Bool.or_eq_true, Bool.or_eq_true, not_or, not_or, Bool.not_eq_true', Bool.not_eq_false,
      Bool.not_eq_true, Bool.not_eq_true] at hfree
    obtain ⟨hwithin, -, hplain⟩ := hfree
    refine Fields.mem_keys_assign.trans (or_congr_right ⟨?_, ?_⟩)
    · rintro ⟨rfl, -⟩
      exact ⟨rfl, hwithin, hplain⟩
    · rintro ⟨rfl, -, -⟩
      refine ⟨rfl, fun hparent => ?_⟩
      rw [hparent] at hplain
      exact absurd hplain (by decide)

theorem mem_components_foldl_addAlias (name : String) (records : List Record) (s : Scan) :
    name ∈ Fields.keys (records.foldl (Scan.addAlias registry root) s).components ↔
      name ∈ Fields.keys s.components ∨ ∃ record ∈ records, Generates root record name :=
  holds_foldl_iff (f := Scan.addAlias registry root)
    (M := fun s => name ∈ Fields.keys s.components) (N := fun record => Generates root record name)
    (mem_components_addAlias registry root name) records s

end

/-! ## What the source says of a name -/

/-- Whether the decorators of some class of the tree, as a scan reads them, have the property. -/
def SomeClass (files : Files) (root : String) (P : Decorators → Prop) : Prop :=
  ∃ table, attributes files root = .ok table ∧
    ∃ d ∈ modelClasses files (files.pythonFiles root), ∃ decorators,
      Decorators.read table d = .ok decorators ∧ P decorators

/-- A class of the tree keeps the name out. -/
def ExcludedIn (files : Files) (root name : String) : Prop :=
  SomeClass files root (·.Excludes name)

/-- A class of the tree or a type alias of the session is a component of the name. -/
def GeneratedIn (files : Files) (root : String) (registry : Registry) (name : String) : Prop :=
  files.pythonFiles root ≠ [] ∧ (SomeClass files root (·.Generates name) ∨
    ∃ record ∈ registry.records.map (·.2), Generates root record name)

theorem exists_read_iff {markers : Markers} {table : AttributeTable} {ds : List Definition}
    {cs : List Class} (h : AreRead markers table ds cs) (P : Decorators → Prop) :
    (∃ c ∈ cs, P c.decorators) ↔
      ∃ d ∈ ds, ∃ decorators, Decorators.read table d = .ok decorators ∧ P decorators := by
  rw [← h.definitions]
  constructor
  · rintro ⟨c, hc, hP⟩
    exact ⟨c.definition, List.mem_map_of_mem hc, c.decorators, read_of_isRead (h.read c hc), hP⟩
  · rintro ⟨d, hd, decorators, hread, hP⟩
    obtain ⟨c, hc, rfl⟩ := List.mem_map.mp hd
    rw [read_of_isRead (h.read c hc)] at hread
    cases hread
    exact ⟨c, hc, hP⟩

/-- The names of a scan are those that the source keeps out and those that it generates. -/
theorem mem_scan {files : Files} {markers : Markers} {root : String} {r r' : Registry} {s : Scan}
    (h : Returns (scan files markers root) r s r') (name : String) :
    (name ∈ s.excluded ↔ ExcludedIn files root name) ∧
      (name ∈ Fields.keys s.components ↔ GeneratedIn files root r' name) := by
  by_cases hsources : files.pythonFiles root = []
  · rw [scan, hsources] at h
    rw [ExcludedIn, GeneratedIn, SomeClass, hsources, ← (returns_pure.mp h).1]
    simp [Scan.empty, modelClasses, Fields.keys]
  obtain ⟨cs, hclasses, hs⟩ := scan_reads h
  obtain ⟨table, hcs, htable⟩ := areRead_of_treeClasses hclasses
  rw [treeRecords, if_neg hsources] at hs
  have hclass : ∀ P : Decorators → Prop, SomeClass files root P ↔ ∃ c ∈ cs, P c.decorators := by
    intro P
    rw [exists_read_iff hcs, SomeClass, htable hsources]
    simp
  constructor
  · rw [hs, excluded_foldl_addAlias, mem_excluded_foldl_add, ExcludedIn, hclass]
    exact or_iff_right List.not_mem_nil
  · rw [hs, mem_components_foldl_addAlias, mem_components_foldl_add, GeneratedIn, hclass]
    exact (or_congr_left (or_iff_right List.not_mem_nil)).trans
      (and_iff_right hsources).symm

/-! ## Components without repeated keys -/

theorem Decorators.WellFormed.complete {d : Decorators} (h : d.WellFormed) {b : Blocks}
    (hb : b.WellFormed) : Gives (d.complete b) Blocks.WellFormed := by
  unfold Decorators.complete
  split
  · exact gives_pure hb
  · refine Gives.bind (P := fun r => ∀ schema, r = some schema → Fields.WellFormed schema) ?_
      fun r hr => gives_pure ⟨hr, hb.properties⟩
    unfold Decorators.sharedReplacement
    split
    · refine gives_pure fun schema hschema => ?_
      cases hschema
    · next v hv =>
      split
      · refine gives_pure fun schema hschema => ?_
        cases hschema
        exact (h.shared.get? (Option.mem_filter_iff.mp hv).1).entries
      · intro replaced hreplaced
        cases hreplaced

theorem wellFormed_of_isRead {markers : Markers} {table : AttributeTable} {c : Class}
    (h : c.IsRead markers table) : c.WellFormed := by
  obtain ⟨aliases, vars, h⟩ := h
  have hread : Gives (readClass markers table aliases vars c.definition) Class.WellFormed :=
    (Decorators.wellFormed_read table c.definition).bind fun _ hd => (gives_self _).bind
      fun doc _ => (hd.complete (Blocks.wellFormed_read markers doc)).bind
        fun _ hb => gives_pure ⟨hd, hb⟩
  exact hread c h

theorem wellFormed_add {s : Scan} (h : WellFormed s.components) {c : Class} (hc : c.WellFormed) :
    WellFormed (s.add c).components := by
  rw [Scan.add]
  split
  · exact h
  · exact h
  · split
    · exact h
    · exact h.assign _ (Class.wellFormed_schema hc)

theorem wellFormed_aliasSchema (registry : Registry) {record : Record} (h : record.WellFormed) :
    WellFormed (aliasSchema registry record) := by
  refine WellFormed.setAll (WellFormed.setAll (Schema.wellFormed_toFields _) fun e he => ?_)
    (Fields.wellFormed_iff.mp h).2
  rcases List.mem_append.mp he with hdescription | hdefault
  · obtain ⟨d, -, rfl⟩ := Option.map_eq_some_iff.mp (Option.mem_toList.mp hdescription)
    trivial
  · obtain ⟨c, -, rfl⟩ := Option.map_eq_some_iff.mp (Option.mem_toList.mp hdefault)
    exact c.wellFormed_toValue

theorem wellFormed_addAlias {s : Scan} (h : WellFormed s.components) (registry : Registry)
    (root : String) {record : Record} (hrecord : record.WellFormed) :
    WellFormed (s.addAlias registry root record).components := by
  rw [Scan.addAlias]
  split
  · exact h
  · exact h.assign _ (wellFormed_aliasSchema registry hrecord)

theorem wellFormed_of_scan {files : Files} {markers : Markers} {root : String} {r r' : Registry}
    {s : Scan} (hr : InSession r) (h : Returns (scan files markers root) r s r') :
    WellFormed s.components := by
  have hsound : r'.Sound := by
    have hafter := (hr.scan files markers root).sound
    rw [Loading.after, h] at hafter
    exact hafter
  obtain ⟨cs, hread, hs⟩ := scan_reads h
  obtain ⟨table, hcs, -⟩ := areRead_of_treeClasses hread
  have hclasses : WellFormed (cs.foldl Scan.add Scan.empty).components :=
    List.foldlRecOn (motive := fun t : Scan => WellFormed t.components) cs _ Fields.wellFormed_nil
      fun t ht c hc => wellFormed_add ht (wellFormed_of_isRead (hcs.read c hc))
  rw [hs]
  refine List.foldlRecOn (motive := fun t : Scan => WellFormed t.components) _ _ hclasses
    fun t ht record hmem => wellFormed_addAlias ht r' root ?_
  obtain ⟨e, he, rfl⟩ := exists_of_mem_treeRecords hmem
  exact hsound e he

/-! ## The exact condition -/

section Example

/-- A model and an earlier version of it that is kept out. -/
def userSource (legacyName : String) : String :=
"@openapi.component('User')
class User:
    pass


@openapi.component('" ++ legacyName ++ "')
@openapi.attribute('x-openapi-exclude')
class LegacyUser:
    pass
"

def userTree (legacyName : String) : Files :=
  .dir [("models", .dir [("user.py", .file (userSource legacyName))])]

/-- The scan of the models of a tree in a new session. -/
def modelsOf (files : Files) : Except Failure Scan × Registry :=
  (scan files Markers.default "/models").run.run (Registry.empty "/")

/-- What a scan finds, as far as it is told by name. -/
def namesOf (files : Files) : Option (List String × List String) :=
  (modelsOf files).1.toOption.map fun s => (Fields.keys s.components, s.excluded)

theorem returns_of_modelsOf {files : Files} {s : Scan}
    (h : (modelsOf files).1.toOption = some s) :
    Returns (scan files Markers.default "/models") (Registry.empty "/") s (modelsOf files).2 := by
  cases hrun : modelsOf files with
  | mk result r' =>
    rw [hrun] at h
    cases result with
    | error f => cases h
    | ok t =>
      cases h
      exact hrun

theorem returns_of_namesOf {files : Files} {names excluded : List String}
    (h : namesOf files = some (names, excluded)) :
    ∃ s r', Returns (scan files Markers.default "/models") (Registry.empty "/") s r' ∧
      Fields.keys s.components = names ∧ s.excluded = excluded := by
  obtain ⟨s, hs, hnames⟩ := Option.map_eq_some_iff.mp h
  obtain ⟨hkeys, hexcluded⟩ := Prod.mk.inj hnames
  exact ⟨s, _, returns_of_modelsOf hs, hkeys, hexcluded⟩

end Example

end Model
end ApiSync
