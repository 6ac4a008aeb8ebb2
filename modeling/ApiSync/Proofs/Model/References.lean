import ApiSync.Proofs.Annotation.MapWords
import ApiSync.Proofs.Annotation.TreeUnion
import ApiSync.Proofs.Model.Components
import ApiSync.Proofs.Schema.Nullable
/-!
# References to the components that annotations name

The annotation of an attribute may be the name of a component.  It is read as a text: what counts
first is whether the names of containers and scalars occur in it, also inside a longer word, and
only then its first capitalised word.  So the attribute refers to the component exactly if its name
is a word that the search for a model finds and none of those names is hidden in it.
-/

namespace ApiSync

namespace Schema

open Text Annotation

/-! ## Texts that resolve to a reference -/

/-- A word that the search for a model finds. -/
structure IsModelWord (w : String) : Prop where
  word : IsWord w.toList
  upper : startsUpper w.toList = true
  noKeyword : w ∉ typingKeywords

instance (w : String) : Decidable (IsModelWord w) :=
  decidable_of_iff (IsWord w.toList ∧ startsUpper w.toList = true ∧ w ∉ typingKeywords)
    ⟨fun h => ⟨h.1, h.2.1, h.2.2⟩, fun h => ⟨h.word, h.upper, h.noKeyword⟩⟩

theorem isModelWord_of_modelName? {text : List Char} {model : String}
    (h : modelName? text = some model) : IsModelWord model := by
  obtain ⟨hword, hupper, hkeyword⟩ := mem_modelNames_iff.mp (List.mem_of_head? h)
  exact ⟨isWord_of_mem_words hword, hupper, hkeyword⟩

theorem IsModelWord.modelName?_self {w : String} (h : IsModelWord w) :
    modelName? w.toList = some w := by
  have hkeyword : (!typingKeywords.contains w) = true := by simpa using h.noKeyword
  rw [modelName?, modelNames, words_of_isWord h.word, List.filter_singleton, h.upper]
  show (List.filter _ [String.ofList w.toList]).head? = some w
  rw [String.ofList_toList, List.filter_singleton, hkeyword]
  rfl

theorem IsModelWord.literal?_eq_none {w : String} (h : IsModelWord w) :
    literal? w.toList = none := by
  have hmark : contains literalMark w.toList = false :=
    contains_of_not_mem (c := '[') (by decide) (not_mem_of_isWord h.word (by decide))
  exact (literal?_eq_none_iff _).mpr (literalTokens_of_not_contains hmark)

theorem literal?_ne_ref {text : List Char} {model : String} :
    literal? text ≠ some (.ref model) := by
  intro h
  rw [literal?] at h
  split at h <;> cases h

theorem attributeTyped?_ne_ref {text : List Char} {context : AttributeContext} {model : String} :
    attributeTyped? text context ≠ some (.ref model) := by
  intro h
  rcases firstNamed?_cases h with h | ⟨type, h⟩ <;> cases h

theorem attributeNamed_eq_ref_iff {typeVars : List String} {found : Option String}
    {model : String} :
    attributeNamed ⟨typeVars, none⟩ found = .ref model ↔
      found = some model ∧ model ∉ typeVars := by
  cases found with
  | none => simp [attributeNamed]
  | some own =>
    rw [attributeNamed]
    split
    · next hvar =>
      have hmem : own ∈ typeVars := by simpa using hvar
      simp only [ofHint?, Option.getD_none, reduceCtorEq, Option.some.injEq, false_iff]
      rintro ⟨rfl, hmodel⟩
      exact hmodel hmem
    · next hvar =>
      have hmem : own ∉ typeVars := by simpa using hvar
      simp only [Schema.ref.injEq, Option.some.injEq, iff_self_and]
      rintro rfl
      exact hmem

/-- Without a hint an attribute is a reference if no rule before the search for a model applies and
the search finds one that is no type variable. -/
theorem attributeBase_eq_ref_iff {text : List Char} {typeVars : List String} {model : String} :
    attributeBase text ⟨typeVars, none⟩ = .ref model ↔
      literal? text = none ∧ namesType text = false ∧ modelName? text = some model ∧
        model ∉ typeVars := by
  rw [attributeBase_eq, ← attributeTyped?_eq_none_iff text ⟨typeVars, none⟩]
  cases hliteral : literal? text with
  | some l =>
    have hne : l ≠ .ref model := fun h => literal?_ne_ref (h ▸ hliteral)
    simp [hne]
  | none =>
    cases htyped : attributeTyped? text ⟨typeVars, none⟩ with
    | some s =>
      have hne : s ≠ .ref model := fun h => attributeTyped?_ne_ref (h ▸ htyped)
      simp [hne]
    | none =>
      rw [Option.none_or, Option.getD_none, attributeNamed_eq_ref_iff]
      simp

/-- The first key of a schema tells a reference from the other forms. -/
theorem toFields_eq_refFields_iff {s : Schema} {model : String} :
    s.toFields = refFields model ↔ s = .ref model := by
  have hfirst : ∀ (n : Bool) (k : String) (v : Value) (rest : Fields), k ≠ "$ref" →
      withNullable n ((k, v) :: rest) ≠ refFields model := by
    intro n k v rest hk h
    have hhead := congrArg (fun fields : Fields => fields.head?.map Prod.fst) h
    cases n <;> exact hk (Option.some.inj hhead)
  constructor
  · intro h
    cases s with
    | enumeration tokens n => exact absurd h (hfirst n _ _ _ (by decide))
    | composition kind models n => exact absurd h (hfirst n _ _ _ (by cases kind <;> decide))
    | array items n => exact absurd h (hfirst n _ _ _ (by decide))
    | plain type n => exact absurd h (hfirst n _ _ _ (by decide))
    | ref own =>
      rw [toFields, refFields, refFields] at h
      have htext : refStart ++ own = refStart ++ model := by simpa using h
      rw [(String.append_right_inj refStart).mp htext]
  · rintro rfl
    rfl

theorem makeNullable_eq_ref_iff {s : Schema} {model : String} :
    s.makeNullable = .ref model ↔ s = .ref model := by
  cases s <;> simp [makeNullable]

/-- A null member makes no difference to a reference. -/
theorem ofAttribute_eq_ref_iff {text : List Char} {typeVars : List String} {model : String} :
    (ofAttribute text ⟨typeVars, none⟩).toFields = refFields model ↔
      literal? text = none ∧ namesType text = false ∧ modelName? text = some model ∧
        model ∉ typeVars := by
  rw [toFields_eq_refFields_iff, ofAttribute, ← attributeBase_eq_ref_iff]
  split
  · exact makeNullable_eq_ref_iff
  · rfl

end Schema

namespace Model

open Python Alias Alias.Loading Annotation Schema

/-! ## Attributes that name a component -/

/-- The name is the annotation of the attribute, it stands for nothing else in the file, and only
the annotation says what the attribute is.  An alias without a name would stand at every word. -/
structure Class.Annotates (c : Class) (attr name : String) : Prop where
  annotation : (annotationOf? attr c.definition.body).map Expr.line = some name
  undecorated : Fields.get? c.decorators.properties attr = none
  undescribed : Fields.get? c.blocks.properties attr = none
  unreplaced : c.blocks.replacement = none
  noTypeVar : name ∉ c.typeVars
  noAlias : ∀ n ∈ Fields.keys c.aliases, n ≠ "" ∧ n ≠ name

instance (c : Class) (attr name : String) : Decidable (c.Annotates attr name) :=
  decidable_of_iff ((annotationOf? attr c.definition.body).map Expr.line = some name ∧
      Fields.get? c.decorators.properties attr = none ∧
      Fields.get? c.blocks.properties attr = none ∧ c.blocks.replacement = none ∧
      name ∉ c.typeVars ∧ ∀ n ∈ Fields.keys c.aliases, n ≠ "" ∧ n ≠ name)
    ⟨fun ⟨h₁, h₂, h₃, h₄, h₅, h₆⟩ => ⟨h₁, h₂, h₃, h₄, h₅, h₆⟩,
      fun h => ⟨h.annotation, h.undecorated, h.undescribed, h.unreplaced, h.noTypeVar,
        h.noAlias⟩⟩

/-- A class of the name becomes a component of its own name. -/
def NamesComponent (cs : List Class) (name : String) : Prop :=
  ∃ c ∈ cs, c.definition.name = name ∧ c.decorators.Generates name

/-- The schema of the attribute is a reference to the target, and the target is a component. -/
structure RefersTo (components : Fields) (component attr target : String) : Prop where
  exists_ref : ∃ fields, Fields.get? components component = some (.map fields) ∧
    Fields.get? (attributesOf fields) attr = some (.map (refFields target))
  resolves : target ∈ Fields.keys components

namespace Class

variable {c : Class} {attr name : String}

/-- A word that is no alias is what the schema is made from. -/
theorem Annotates.expand_eq (h : c.Annotates attr name) (hword : IsWord name.toList) {type : Expr}
    (htype : type.line = name) :
    Alias.expand c.aliases (annotationText c.aliases type) = name := by
  have hexpand := expand_word hword h.noAlias
  have hne : name ≠ "" := fun hnil => hword.nonempty (String.toList_eq_nil_iff.mpr hnil)
  rw [annotationText, htype, hexpand, if_neg hne, hexpand]

theorem Annotates.get?_schemas_eq_ref_iff (h : c.Annotates attr name) :
    Fields.get? c.properties.schemas attr = some (.map (refFields name)) ↔
      IsModelWord name ∧ namesType name.toList = false := by
  obtain ⟨type, hlast, htype⟩ := Option.map_eq_some_iff.mp h.annotation
  rw [get?_schemas c hlast, Option.some.injEq, Value.map.injEq, propertySchema, h.undecorated,
    h.undescribed]
  show (ofAttribute _ ⟨c.typeVars, none⟩).toFields = _ ↔ _
  rw [ofAttribute_eq_ref_iff]
  constructor
  · rintro ⟨-, hnames, hmodel, -⟩
    -- What the search finds is a word, so no alias was written out for the name.
    have hword := isModelWord_of_modelName? hmodel
    rw [h.expand_eq hword.word htype] at hnames
    exact ⟨hword, hnames⟩
  · rintro ⟨hword, hnames⟩
    rw [h.expand_eq hword.word htype]
    exact ⟨hword.literal?_eq_none, hnames, hword.modelName?_self, h.noTypeVar⟩

theorem Annotates.refersTo_iff (h : c.Annotates attr name) {components : Fields}
    {component : String} (hmarked : c.decorators.Marked)
    (hget : Fields.get? components component = some (.map c.schema))
    (hname : name ∈ Fields.keys components) :
    RefersTo components component attr name ↔
      IsModelWord name ∧ namesType name.toList = false := by
  rw [← h.get?_schemas_eq_ref_iff, ← attributesOf_schema h.unreplaced hmarked]
  constructor
  · rintro ⟨⟨fields, hfields, href⟩, -⟩
    rw [hget] at hfields
    cases hfields
    exact href
  · exact fun href => ⟨⟨c.schema, hget, href⟩, hname⟩

end Class

theorem NamesComponent.mem_keys {cs : List Class} {name : String} (h : NamesComponent cs name)
    {s : Scan} (hcs : MadeFrom cs s) : name ∈ Fields.keys s.components := by
  obtain ⟨c, hc, -, hgenerates⟩ := h
  obtain ⟨last, hlast⟩ := exists_componentClass? hc hgenerates
  exact List.mem_map_of_mem (Fields.mem_of_get? (hcs name last hlast))

section Example

/-- Two components, of which the second has an attribute with the name of the first. -/
def shapesSource (name : String) : String :=
"@openapi.component
class " ++ name ++ ":
    pass


@openapi.component
class Shape:
    def __init__(self):
        self.origin: " ++ name ++ " = None
"

def shapesTree (name : String) : Files :=
  .dir [("models", .dir [("shapes.py", .file (shapesSource name))])]

/-- The classes of the tree with the aliases that its scan leaves. -/
def shapesClasses (name : String) : Except Failure (List Class) :=
  treeClasses (shapesTree name) Markers.default "/models" (modelsOf (shapesTree name)).2

/-- Whether the scan of the tree returns and finds the annotation. -/
def annotatesOrigin (name : String) : Bool :=
  (modelsOf (shapesTree name)).1.toOption.isSome &&
    (shapesClasses name).toOption.any fun cs =>
      (componentClass? "Shape" cs).any (fun c => c.Annotates "origin" name) &&
        cs.any fun d => d.definition.name = name && d.decorators.Generates name

theorem exists_of_annotatesOrigin {name : String} (h : annotatesOrigin name = true) :
    ∃ s r', Returns (scan (shapesTree name) Markers.default "/models") (Registry.empty "/") s r' ∧
      ∀ cs, treeClasses (shapesTree name) Markers.default "/models" r' = .ok cs →
        NamesComponent cs name ∧
          ∃ c, componentClass? "Shape" cs = some c ∧ c.Annotates "origin" name := by
  rw [annotatesOrigin, Bool.and_eq_true] at h
  obtain ⟨hreturns, hclasses⟩ := h
  obtain ⟨s, hs⟩ := Option.isSome_iff_exists.mp hreturns
  refine ⟨s, _, returns_of_modelsOf hs, fun cs hcs => ?_⟩
  rw [shapesClasses, hcs] at hclasses
  obtain ⟨hshape, hname⟩ := Bool.and_eq_true_iff.mp hclasses
  obtain ⟨d, hd, hgenerates⟩ := List.any_eq_true.mp hname
  rw [Bool.and_eq_true, decide_eq_true_eq, decide_eq_true_eq] at hgenerates
  obtain ⟨c, hc, hannotates⟩ := (Option.any_eq_true _ _).mp hshape
  exact ⟨⟨d, hd, hgenerates⟩, c, hc, of_decide_eq_true hannotates⟩

end Example

end Model

end ApiSync
