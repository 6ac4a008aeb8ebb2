import ApiSync.Proofs.Model.Assignments
import ApiSync.Proofs.Model.Components
/-!
# Inferred component schemas

Unless a block replaces it, the schema of a class follows from what its first `__init__` assigns and
from its bases: which properties there are and in which order, the text from which each is inferred,
which of them are required, and where in the schema they stand.  What a decorator or a block says of
a property does not stay with its class if every mapping answers to the name of the property, and
under the name of the parent of all mappings it can even replace the schema.
-/

namespace ApiSync

namespace Text

theorem ascending_sortNames {names : List String} (h : names.Nodup) :
    Ascending (sortNames names) :=
  (pairwise_sortNames names).and ((List.mergeSort_perm names nameLe).nodup_iff.mpr h)

end Text

namespace Model

open Python Alias Alias.Loading

namespace Class

variable (c : Class)

/-- The text from which the schema of an attribute is inferred, with the aliases written out. -/
def inferenceText? (attr : String) : Option (List Char) :=
  (typeText? c.aliases attr (initBody c.definition.body)).map fun text =>
    (Alias.expand c.aliases text).toList

/-- Neither of the words that make a property nullable occurs in the text. -/
def Demands (text : List Char) : Prop :=
  Text.contains "Optional".toList text = false ∧ Text.contains "None".toList text = false

/-- The list of required properties, which is left out if it is empty. -/
def requiredList? (p : Properties) : Option Value :=
  if p.required = [] then none else some (.ofStrings p.required)

/-- The properties are the attributes in the order of their first assignments, each inferred from
its text, and those are required of which the text demands a value. -/
structure Infers (p : Properties) : Prop where
  names : Fields.keys p.schemas = Text.distinct ((initBody c.definition.body).flatMap assigned)
  inferred : ∀ attr ∈ Fields.keys p.schemas, ∃ text, c.inferenceText? attr = some text ∧
    Fields.get? p.schemas attr = some (.map (c.propertySchema attr text))
  ascending : Text.Ascending p.required
  required : ∀ attr, attr ∈ p.required ↔ attr ∈ Fields.keys p.schemas ∧
    ∃ text, c.inferenceText? attr = some text ∧ Demands text

/-- Where the properties and the list of required ones stand in the schema: in the schema itself, or
behind the references to the bases of the class in their order, if there are properties. -/
structure Places (p : Properties) (schema : Fields) : Prop where
  plain : bases c.typeVars c.definition = [] →
    Fields.get? schema "allOf" = none ∧
    Fields.get? schema "properties" = some (.map p.schemas) ∧
    Fields.get? schema "required" = requiredList? p
  derived : bases c.typeVars c.definition ≠ [] →
    Fields.get? schema "properties" = none ∧
    Fields.get? schema "required" = none ∧
    Fields.get? schema "allOf" = some (.list
      ((bases c.typeVars c.definition).map (fun m => .map (Schema.refFields m)) ++
        if p.schemas = [] then [] else [.map (("properties", .map p.schemas) ::
          ((requiredList? p).map fun v => ("required", v)).toList)]))

/-! ## Properties -/

theorem required_foldl (attrs : AnnotationTable) (p : Properties) :
    (attrs.foldl c.addProperty p).required = p.required ++
      (attrs.filter fun e => !Schema.admitsNone (Alias.expand c.aliases e.2).toList).map (·.1) := by
  induction attrs generalizing p with
  | nil => exact (List.append_nil _).symm
  | cons e attrs ih =>
    rw [List.foldl_cons, ih, addProperty, List.filter_cons]
    cases Schema.admitsNone (Alias.expand c.aliases e.2).toList with
    | true => rfl
    | false =>
      show (p.required ++ [e.1]) ++ _ = p.required ++ e.1 :: _
      rw [List.append_assoc, List.singleton_append]

theorem admitsNone_eq_false_iff {text : List Char} :
    Schema.admitsNone text = false ↔ Demands text := by
  rw [Schema.admitsNone, Bool.or_eq_false_iff]
  exact Iff.rfl

variable {c}

theorem schemas_eq (h : BodyNamed c.definition.body) :
    c.properties.schemas = (initAnnotations c.aliases c.definition.body).map fun e =>
      (e.1, .map (c.propertySchema e.1 (Alias.expand c.aliases e.2).toList)) := by
  have hkeys := Fields.keys_map
    (fun attr text => Value.map (c.propertySchema attr (Alias.expand c.aliases text).toList))
    (initAnnotations c.aliases c.definition.body)
  rw [properties, schemas_foldl, Fields.setAll_of_new]
  · rfl
  · rw [hkeys]
    exact nodup_initAnnotations c.aliases c.definition.body
  · exact fun k _ => List.not_mem_nil
  · rw [hkeys]
    exact fun k hk => indexOf?_of_mem_initAnnotations h hk

theorem required_eq : c.properties.required = Text.sortNames
    (((initAnnotations c.aliases c.definition.body).filter fun e =>
      !Schema.admitsNone (Alias.expand c.aliases e.2).toList).map (·.1)) := by
  rw [properties, required_foldl, List.nil_append]

theorem inferenceText?_eq (attr : String) : c.inferenceText? attr =
    (Fields.get? (initAnnotations c.aliases c.definition.body) attr).map fun text =>
      (Alias.expand c.aliases text).toList := by
  rw [inferenceText?, get?_initAnnotations]

/-- An attribute is required if it is one of the table and its text demands a value. -/
theorem mem_required_iff {attr : String} : attr ∈ c.properties.required ↔
    ∃ text, c.inferenceText? attr = some text ∧ Demands text := by
  have hnodup := nodup_initAnnotations c.aliases c.definition.body
  rw [required_eq, Text.sortNames, List.mem_mergeSort, List.mem_map]
  constructor
  · rintro ⟨e, he, rfl⟩
    obtain ⟨hmem, hdemands⟩ := List.mem_filter.mp he
    refine ⟨_, by rw [inferenceText?_eq, Fields.get?_of_mem hnodup hmem]; rfl, ?_⟩
    exact admitsNone_eq_false_iff.mp (by simpa using hdemands)
  · rintro ⟨text, htext, hdemands⟩
    rw [inferenceText?_eq] at htext
    obtain ⟨own, hown, rfl⟩ := Option.map_eq_some_iff.mp htext
    refine ⟨(attr, own), List.mem_filter.mpr ⟨Fields.mem_of_get? hown, ?_⟩, rfl⟩
    simpa using admitsNone_eq_false_iff.mpr hdemands

theorem keys_schemas (h : BodyNamed c.definition.body) : Fields.keys c.properties.schemas =
    Fields.keys (initAnnotations c.aliases c.definition.body) := by
  rw [schemas_eq h]
  exact Fields.keys_map (fun attr text =>
    Value.map (c.propertySchema attr (Alias.expand c.aliases text).toList)) _

theorem infers_properties (h : BodyNamed c.definition.body) : c.Infers c.properties := by
  have htext : ∀ attr ∈ Fields.keys c.properties.schemas,
      ∃ text, Fields.get? (initAnnotations c.aliases c.definition.body) attr = some text := by
    intro attr hattr
    rw [keys_schemas h] at hattr
    exact Option.isSome_iff_exists.mp
      ((Fields.has_eq_isSome _ _).symm.trans (Fields.mem_keys_iff_has.mp hattr))
  constructor
  case names => rw [keys_schemas h, keys_initAnnotations c.aliases h]
  case inferred =>
    intro attr hattr
    obtain ⟨text, hget⟩ := htext attr hattr
    refine ⟨(Alias.expand c.aliases text).toList, by rw [inferenceText?_eq, hget]; rfl, ?_⟩
    rw [schemas_eq h, Fields.get?_map fun attr text =>
      Value.map (c.propertySchema attr (Alias.expand c.aliases text).toList), hget]
    rfl
  case ascending =>
    rw [required_eq]
    have hnodup := nodup_initAnnotations c.aliases c.definition.body
    exact Text.ascending_sortNames (hnodup.sublist (List.filter_sublist.map Prod.fst))
  case required =>
    intro attr
    rw [mem_required_iff]
    refine ⟨fun hdemands => ⟨?_, hdemands⟩, And.right⟩
    obtain ⟨text, hsome, -⟩ := hdemands
    rw [inferenceText?_eq] at hsome
    obtain ⟨own, hown, -⟩ := Option.map_eq_some_iff.mp hsome
    rw [keys_schemas h]
    exact Fields.mem_keys_iff_has.mpr (Fields.has_of_get? hown)

/-! ## Their place -/

theorem requiredEntry_eq (p : Properties) :
    requiredEntry p = ((requiredList? p).map fun v => ("required", v)).toList := by
  rw [requiredEntry, requiredList?]
  split <;> rfl

theorem get?_required (p : Properties) :
    Fields.get? (requiredEntry p) "required" = requiredList? p := by
  rw [requiredEntry, requiredList?]
  split <;> rfl

/-- Without properties none is required. -/
theorem required_of_schemas_eq_nil (h : BodyNamed c.definition.body)
    (hnil : c.properties.schemas = []) : c.properties.required = [] := by
  rw [schemas_eq h, List.map_eq_nil_iff] at hnil
  rw [required_eq, hnil, List.filter_nil, List.map_nil, Text.sortNames, List.mergeSort_nil]

theorem ownPart_eq {p : Properties} (h : p.schemas = [] → p.required = []) : ownPart p =
    if p.schemas = [] then [] else [.map (("properties", .map p.schemas) ::
      ((requiredList? p).map fun v => ("required", v)).toList)] := by
  rw [ownPart, requiredEntry_eq]
  by_cases hnil : p.schemas = []
  · rw [if_pos hnil, if_pos hnil, requiredList?, if_pos (h hnil)]
    rfl
  · rw [if_neg hnil, if_neg hnil]
    rfl

/-- Neither the description nor an extension takes the place of the properties. -/
theorem places_inferredSchema (h : BodyNamed c.definition.body) (hmarked : c.decorators.Marked) :
    c.Places c.properties c.inferredSchema := by
  have hget : ∀ {key : String} (start : Fields), Text.hasPrefix key "x-" = false →
      key ≠ "description" → Fields.get? (Fields.setAll (start ++ c.descriptionEntry)
        c.decorators.extensions) key = Fields.get? start key :=
    fun start hkey hdescription => get?_completed hmarked hkey hdescription start
  constructor
  case plain =>
    intro hbases
    have hschema : c.inferredSchema = Fields.setAll ((("type", .str "object") ::
        ("properties", .map c.properties.schemas) :: requiredEntry c.properties) ++
        c.descriptionEntry) c.decorators.extensions := by
      rw [inferredSchema, hbases]
    rw [hschema, hget _ (by decide) (by decide), hget _ (by decide) (by decide),
      hget _ (by decide) (by decide)]
    refine ⟨get?_requiredEntry (by decide) _, rfl, ?_⟩
    exact get?_required c.properties
  case derived =>
    intro hbases
    obtain ⟨model, more, heq⟩ := List.exists_cons_of_ne_nil hbases
    have hschema : c.inferredSchema = Fields.setAll ([("allOf", .list
        ((bases c.typeVars c.definition).map (fun m => .map (Schema.refFields m)) ++
          ownPart c.properties))] ++ c.descriptionEntry) c.decorators.extensions := by
      rw [inferredSchema, heq]
    rw [hschema, hget _ (by decide) (by decide), hget _ (by decide) (by decide),
      hget _ (by decide) (by decide), ownPart_eq (required_of_schemas_eq_nil h)]
    exact ⟨rfl, rfl, rfl⟩

end Class

/-! ## Scanned classes -/

/-- The definitions that a scan reads assign to names. -/
theorem bodyNamed_of_mem_modelClasses {files : Files} {sources : List String} {d : Definition}
    (h : d ∈ modelClasses files sources) : BodyNamed d.body := by
  obtain ⟨file, -, hd⟩ := List.mem_flatMap.mp h
  rw [modelModule?] at hd
  split at hd
  · cases hd
  · cases hmodule : (files.read? file).bind parse with
    | none =>
      rw [hmodule] at hd
      cases hd
    | some module =>
      obtain ⟨source, -, hparse⟩ := Option.bind_eq_some_iff.mp hmodule
      rw [hmodule] at hd
      exact ((bodyNamed_of_parse hparse).definition hd).body

theorem bodyNamed_of_mem_treeClasses {files : Files} {markers : Markers} {root : String}
    {r : Registry} {cs : List Class} (h : treeClasses files markers root r = .ok cs) {c : Class}
    (hc : c ∈ cs) : BodyNamed c.definition.body := by
  obtain ⟨table, hread, -⟩ := areRead_of_treeClasses h
  have hmem : c.definition ∈ cs.map Class.definition := List.mem_map_of_mem hc
  rw [hread.definitions] at hmem
  exact bodyNamed_of_mem_modelClasses hmem

/-- No property that the decorators or the blocks of the class document has a name that every mapping
answers to, so what they say of properties stays with the class. -/
structure Class.KeepsApart (c : Class) : Prop where
  shared : c.decorators.shared = []
  decorated : ∀ name ∈ Fields.keys c.decorators.properties, Ambient.isAmbient name = false
  described : ∀ name ∈ Fields.keys c.blocks.properties, Ambient.isAmbient name = false

/-- A block in the docstring of the class replaces its schema. -/
def Class.IsReplaced (markers : Markers) (c : Class) : Prop :=
  ∃ doc, docstring c.definition.body = .ok doc ∧ (Blocks.read markers doc).replacement.isSome = true

theorem Decorators.complete_of_shared {d : Decorators} (h : d.shared = []) (b : Blocks) :
    d.complete b = .ok b := by
  obtain ⟨replacement, properties⟩ := b
  cases replacement with
  | some schema => rfl
  | none =>
    rw [Decorators.complete, sharedReplacement, h]
    rfl

/-- Only a block of its own replaces the schema of a class that keeps apart from the others. -/
theorem replacement_eq_none {markers : Markers} {table : AttributeTable} {c : Class}
    (hread : c.IsRead markers table) (hapart : c.KeepsApart)
    (h : ¬c.IsReplaced markers) : c.blocks.replacement = none := by
  obtain ⟨aliases, vars, hread⟩ := hread
  obtain ⟨decorators, hdecorators, hread⟩ := bind_eq_ok.mp hread
  obtain ⟨doc, hdoc, hread⟩ := bind_eq_ok.mp hread
  obtain ⟨blocks, hblocks, hread⟩ := bind_eq_ok.mp hread
  have hc := pure_eq_ok.mp hread
  have hshared : decorators.shared = [] := by rw [← hapart.shared, ← hc]
  rw [Decorators.complete_of_shared hshared] at hblocks
  cases hblocks
  rw [← hc]
  exact Option.not_isSome_iff_eq_none.mp fun hsome => h ⟨doc, hdoc, hsome⟩

/-- Where each class keeps apart from the others, a scan gives the component of a class that no
block replaces the attributes that the first `__init__` assigns for properties, in the order of
their first assignments.  The last annotation of an attribute counts for its schema, or else the
first literal, and a property is required unless its text mentions that it may be missing.  With
bases they come behind the references to these. -/
theorem components_inferred {files : Files} {markers : Markers} {root : String} {r r' : Registry}
    {s : Scan} (h : Returns (scan files markers root) r s r') :
    ∃ cs, treeClasses files markers root r' = .ok cs ∧
      ((∀ c ∈ cs, c.KeepsApart) → MadeFrom cs s ∧
        ∀ c ∈ cs, ¬c.IsReplaced markers → ∃ p, c.Infers p ∧ c.Places p c.schema) := by
  obtain ⟨cs, hcs, hmade⟩ := madeFrom_of_scan h
  refine ⟨cs, hcs, fun hapart => ⟨hmade, fun c hc hopen => ⟨c.properties, ?_, ?_⟩⟩⟩
  · exact Class.infers_properties (bodyNamed_of_mem_treeClasses hcs hc)
  · obtain ⟨table, hread, -⟩ := areRead_of_treeClasses hcs
    rw [Class.schema, replacement_eq_none (hread.read c hc) (hapart c hc) hopen]
    exact Class.places_inferredSchema (bodyNamed_of_mem_treeClasses hcs hc)
      (marked_of_mem_treeClasses hcs hc)

/-! ## Examples -/

section Example

instance (c : Class) : Decidable c.KeepsApart :=
  decidable_of_iff (c.decorators.shared.isEmpty = true ∧
      (∀ name ∈ Fields.keys c.decorators.properties, Ambient.isAmbient name = false) ∧
      ∀ name ∈ Fields.keys c.blocks.properties, Ambient.isAmbient name = false)
    ⟨fun h => ⟨List.isEmpty_iff.mp h.1, h.2.1, h.2.2⟩,
      fun h => ⟨List.isEmpty_iff.mpr h.shared, h.decorated, h.described⟩⟩

instance (markers : Markers) (c : Class) : Decidable (c.IsReplaced markers) :=
  decidable_of_iff ((docstring c.definition.body).toOption.any
      fun doc => (Blocks.read markers doc).replacement.isSome) <| by
    rw [Class.IsReplaced]
    cases docstring c.definition.body <;> simp [Except.toOption]

/-- Whether the scan of a tree returns and the class of a component, among those that it reads, has
a property. -/
def readsClass (files : Files) (name : String) (P : List Class → Class → Bool) : Bool :=
  (modelsOf files).1.toOption.isSome &&
    (treeClasses files Markers.default "/models" (modelsOf files).2).toOption.any fun cs =>
      (componentClass? name cs).any fun c => P cs c

theorem exists_of_readsClass {files : Files} {name : String} {P : List Class → Class → Bool}
    (h : readsClass files name P = true) : ∃ s r' cs c,
      Returns (scan files Markers.default "/models") (Registry.empty "/") s r' ∧
        treeClasses files Markers.default "/models" r' = .ok cs ∧
        componentClass? name cs = some c ∧ P cs c = true := by
  rw [readsClass, Bool.and_eq_true] at h
  obtain ⟨hreturns, hclasses⟩ := h
  obtain ⟨s, hs⟩ := Option.isSome_iff_exists.mp hreturns
  obtain ⟨cs, hcs, hany⟩ := (Option.any_eq_true _ _).mp hclasses
  obtain ⟨c, hc, hP⟩ := (Option.any_eq_true _ _).mp hany
  have hok : treeClasses files Markers.default "/models" (modelsOf files).2 = .ok cs := by
    cases hall : treeClasses files Markers.default "/models" (modelsOf files).2 with
    | error e =>
      rw [hall] at hcs
      cases hcs
    | ok all =>
      rw [hall] at hcs
      cases hcs
      rfl
  exact ⟨s, _, cs, c, returns_of_modelsOf hs, hok, hc, hP⟩

/-- Attributes that are assigned more than once, in a chain, and with and without annotations. -/
def shapeSource : String :=
"@openapi.component
class Shape(Figure):
    def __init__(self):
        self.zero = self.alpha = 1
        self.name: Optional[str] = None
        self.alpha: float = 2
        self.name = 3
        self._hidden = 4
"

def shapeTree : Files := .dir [("models", .dir [("shape.py", .file shapeSource)])]

theorem components_inferred_shape : ∃ s r' cs c p,
    Returns (scan shapeTree Markers.default "/models") (Registry.empty "/") s r' ∧
      treeClasses shapeTree Markers.default "/models" r' = .ok cs ∧
      (∀ d ∈ cs, d.KeepsApart) ∧ componentClass? "Shape" cs = some c ∧
      ¬c.IsReplaced Markers.default ∧ bases c.typeVars c.definition = ["Figure"] ∧
      Fields.get? s.components "Shape" = some (.map c.schema) ∧
      c.Infers p ∧ c.Places p c.schema ∧ Fields.keys p.schemas = ["zero", "alpha", "name"] := by
  have hreads : readsClass shapeTree "Shape" (fun cs c =>
      cs.all (fun d => d.KeepsApart) && (¬c.IsReplaced Markers.default &&
        (bases c.typeVars c.definition = ["Figure"] && Text.distinct
          ((initBody c.definition.body).flatMap assigned) = ["zero", "alpha", "name"]))) = true := by
    decide +kernel
  obtain ⟨s, r', cs, c, hrun, hcs, hc, hP⟩ := exists_of_readsClass hreads
  simp only [Bool.and_eq_true, List.all_eq_true, decide_eq_true_eq] at hP
  obtain ⟨hapart, hopen, hbases, hnames⟩ := hP
  obtain ⟨classes, hclasses, hinferred⟩ := components_inferred hrun
  obtain rfl := Except.ok.inj (hcs.symm.trans hclasses)
  obtain ⟨hmade, hall⟩ := hinferred hapart
  obtain ⟨p, hinfers, hplaces⟩ := hall c (mem_of_componentClass? hc) hopen
  exact ⟨s, r', cs, c, p, hrun, hcs, hapart, hc, hopen, hbases, hmade "Shape" c hc, hinfers,
    hplaces, hinfers.names.trans hnames⟩

/-- The decorator writes a replacement into the parent that all blocks share. -/
def sharingSource : String :=
"@openapi.component
@openapi.property('__proto__', override='x')
class A:
    def __init__(self):
        self.id: int = 0
"

def sharingTree : Files := .dir [("models", .dir [("a.py", .file sharingSource)])]

/-- The component has the letters of the text for entries, and no properties. -/
theorem not_inferred_of_sharing : ∃ s r' cs c,
    Returns (scan sharingTree Markers.default "/models") (Registry.empty "/") s r' ∧
      treeClasses sharingTree Markers.default "/models" r' = .ok cs ∧
      componentClass? "A" cs = some c ∧ ¬c.IsReplaced Markers.default ∧
      Fields.get? s.components "A" = some (.map c.schema) ∧ Fields.keys c.schema = ["0"] ∧
      ¬∃ p, c.Places p c.schema := by
  have hreads : readsClass sharingTree "A" (fun _ c => ¬c.IsReplaced Markers.default &&
      (bases c.typeVars c.definition = [] && Fields.keys c.schema = ["0"])) = true := by
    decide +kernel
  obtain ⟨s, r', cs, c, hrun, hcs, hc, hP⟩ := exists_of_readsClass hreads
  simp only [Bool.and_eq_true, decide_eq_true_eq] at hP
  obtain ⟨hopen, hbases, hkeys⟩ := hP
  obtain ⟨classes, hclasses, hmade⟩ := madeFrom_of_scan hrun
  obtain rfl := Except.ok.inj (hcs.symm.trans hclasses)
  refine ⟨s, r', cs, c, hrun, hcs, hc, hopen, hmade "A" c hc, hkeys, fun ⟨p, hplaces⟩ => ?_⟩
  have hmissing : "properties" ∉ Fields.keys c.schema := by
    rw [hkeys]
    decide
  rw [← Fields.get?_eq_none_iff, (hplaces.plain hbases).2.1] at hmissing
  cases hmissing

end Example

end Model
end ApiSync
