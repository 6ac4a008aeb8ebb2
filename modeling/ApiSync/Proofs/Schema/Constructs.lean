import ApiSync.Proofs.Schema.Resolved
import ApiSync.Proofs.Validation.References
/-!
# References to typing constructs

No component is called like a typing construct or `None`, so a reference to one of these names
leads nowhere.  The members of a union are searched for other names only.  The search for a single
model leaves out the constructs but finds `None`, and the item of a list may be any capitalised
word.  So an attribute refers to such a name exactly if one of these two places holds it, or holds
a type variable whose hint is read as `None`.
-/

namespace ApiSync

/-- The parts of a value at any depth, itself included. -/
inductive Value.IsPart : Value → Value → Prop
  | here (v : Value) : IsPart v v
  | item {part v : Value} {items : List Value} (h : v ∈ items) (hin : IsPart part v) :
    IsPart part (.list items)
  | entry {part v : Value} {k : String} {fields : Fields} (h : (k, v) ∈ fields)
      (hin : IsPart part v) : IsPart part (.map fields)

namespace Schema

open Text Annotation
open Validation (RefersTo)

/-! ## References in written schemas -/

/-- Somewhere in the written schema there is a reference to the name. -/
def References (v : Value) (name : String) : Prop := ∃ part, Value.IsPart part v ∧ RefersTo part name

section

variable {name : String}

theorem references_list_iff {items : List Value} :
    References (.list items) name ↔ ∃ v ∈ items, References v name := by
  constructor
  · rintro ⟨part, hpart, href⟩
    cases hpart with
    | here => cases href
    | item h hin => exact ⟨_, h, part, hin, href⟩
  · rintro ⟨v, hv, part, hpart, href⟩
    exact ⟨part, .item hv hpart, href⟩

theorem references_map_iff {fields : Fields} :
    References (.map fields) name ↔
      Fields.get? fields "$ref" = some (.str (refStart ++ name)) ∨
        ∃ e ∈ fields, References e.2 name := by
  constructor
  · rintro ⟨part, hpart, href⟩
    cases hpart with
    | here => exact .inl href
    | entry h hin => exact .inr ⟨_, h, part, hin, href⟩
  · rintro (href | ⟨e, he, part, hpart, href⟩)
    · exact ⟨_, .here _, href⟩
    · exact ⟨part, .entry he hpart, href⟩

theorem not_references_str (text : String) : ¬References (.str text) name := by
  rintro ⟨part, hpart, href⟩
  cases hpart with
  | here => cases href

theorem not_references_bool (b : Bool) : ¬References (.bool b) name := by
  rintro ⟨part, hpart, href⟩
  cases hpart with
  | here => cases href

/-- Apart from a reference, a schema refers to what its entries refer to. -/
theorem references_withNullable_iff {n : Bool} {fields : Fields}
    (h : Fields.get? fields "$ref" = none) :
    References (.map (withNullable n fields)) name ↔ ∃ e ∈ fields, References e.2 name := by
  cases n with
  | false =>
    rw [withNullable, if_neg Bool.false_ne_true, references_map_iff, h]
    simp
  | true =>
    have hnone : Fields.get? (fields ++ [("nullable", .bool true)]) "$ref" = none := by
      rw [Fields.get?_eq_none_iff] at h ⊢
      simpa [Fields.keys] using h
    rw [withNullable, if_pos rfl, references_map_iff, hnone]
    simp [not_references_bool]

theorem references_refFields_iff {model : String} :
    References (.map (refFields model)) name ↔ model = name := by
  rw [references_map_iff, refFields, Fields.get?_cons, if_pos rfl]
  simp [not_references_str]

theorem not_references_ofStrings (texts : List String) :
    ¬References (.ofStrings texts) name := by
  rw [Value.ofStrings, references_list_iff]
  rintro ⟨v, hv, href⟩
  obtain ⟨text, -, rfl⟩ := List.mem_map.mp hv
  exact not_references_str text href

/-- A written schema refers to what the schema refers to. -/
theorem references_toValue_iff {s : Schema} :
    References s.toValue name ↔ refersTo name s = true := by
  induction s with
  | enumeration tokens n =>
    rw [toValue, toFields, references_withNullable_iff rfl]
    simp [not_references_str, not_references_ofStrings, refersTo]
  | composition kind models n =>
    have hkey : Fields.get? [(kind.key, Value.list (models.map fun m => .map (refFields m)))]
        "$ref" = none := by cases kind <;> rfl
    rw [toValue, toFields, references_withNullable_iff hkey, refersTo]
    simp [references_list_iff, references_refFields_iff]
  | array items n ih =>
    rw [toValue, toFields, references_withNullable_iff rfl, refersTo, ← ih, toValue]
    simp [not_references_str]
  | plain type n =>
    rw [toValue, toFields, references_withNullable_iff rfl]
    simp [not_references_str, refersTo]
  | ref model =>
    rw [toValue, toFields, references_refFields_iff, refersTo, decide_eq_true_iff]

end

/-! ## Where constructs are found -/

theorem startsUpper_of_mem_unionKeywords {name : String} (h : name ∈ unionKeywords) :
    startsUpper name.toList = true := by
  have hall : ∀ k ∈ unionKeywords, startsUpper k.toList = true := by decide
  exact hall name h

theorem not_mem_unionKeywords_of_unionModels {text : List Char} {model : String}
    (h : model ∈ unionModels text) : model ∉ unionKeywords :=
  (mem_modelNames_iff.mp (mem_modelNames_of_unionModels h)).2.2

/-- Among the names that no component has, the search for a model finds `None` alone. -/
theorem eq_none_of_modelName? {text : List Char} {model : String}
    (h : modelName? text = some model) (hk : model ∈ unionKeywords) : model = "None" := by
  have hnot := (mem_modelNames_iff.mp (List.mem_of_mem_head? h)).2.2
  rcases List.mem_append.mp hk with hkeyword | hnone
  · exact absurd hkeyword hnot
  · exact List.mem_singleton.mp hnone

/-- The text is read as `None`: nothing else is found before the search for a model. -/
structure ReadsNone (text : List Char) : Prop where
  noLiteral : literalTokens text = []
  noUnion : unionModels (unwrapOptional text).inner = []
  noType : typed? text = none
  model : modelName? text = some "None"

/-- The word stands where the schema of an attribute takes a word for a model: it is the model of an
annotation that names no container and no scalar, or the item of a list. -/
inductive StandsForModel (text : List Char) (word : String) : Prop
  | model (htype : namesType text = false) (h : modelName? text = some word)
  | item (hlist : mentionsList text = true) (hdict : mentions (lowerAscii text) "dict" = false)
      (h : listItem? text = some word.toList)

/-- The annotation is no enumeration, and the word that is taken for a model is the name of a
construct, or a type variable with a hint that is read as `None`. -/
def TakesConstruct (text : List Char) (context : AttributeContext) : Prop :=
  literalTokens text = [] ∧ ∃ word, StandsForModel text word ∧
    if word ∈ context.typeVars then ReadsNone context.hintText else word ∈ unionKeywords

section

variable {text : List Char} {context : AttributeContext} {name : String}

theorem ReadsNone.ofTypeText_eq (h : ReadsNone text) : ofTypeText text = .ref "None" := by
  rw [ofTypeText, (literal?_eq_none_iff text).mpr h.noLiteral]
  dsimp only
  rw [(union?_eq_none_iff _ _ _).mpr h.noUnion]
  dsimp only
  rw [primitive_eq, h.noType, h.model]
  rfl

theorem refersTo_ofTypeText_iff (hk : name ∈ unionKeywords) :
    refersTo name (ofTypeText text) = true ↔ name = "None" ∧ ReadsNone text := by
  constructor
  · intro h
    by_cases hliteral : literalTokens text = []
    · by_cases hunion : unionModels (unwrapOptional text).inner = []
      · have hprimitive : ofTypeText text = primitive text := by
          rw [ofTypeText, (literal?_eq_none_iff text).mpr hliteral]
          dsimp only
          rw [(union?_eq_none_iff _ _ _).mpr hunion]
        rw [hprimitive, primitive_eq] at h
        cases htyped : typed? text with
        | some s =>
          rw [htyped, Option.getD_some, refersTo_typed? htyped] at h
          cases h
        | none =>
          rw [htyped, Option.getD_none] at h
          cases hmodel : modelName? text with
          | none =>
            rw [hmodel] at h
            cases h
          | some model =>
            rw [hmodel, named, refersTo, decide_eq_true_iff] at h
            have hnone := eq_none_of_modelName? hmodel (h ▸ hk)
            exact ⟨h.symm.trans hnone, hliteral, hunion, htyped, hnone ▸ hmodel⟩
      · obtain ⟨model, hmodel⟩ := List.exists_mem_of_ne_nil _ hunion
        rw [ofTypeText_eq_union hliteral hmodel, refersTo, List.contains_iff_mem] at h
        exact absurd hk (not_mem_unionKeywords_of_unionModels h)
    · rw [ofTypeText] at h
      cases hs : literal? text with
      | none => exact absurd ((literal?_eq_none_iff text).mp hs) hliteral
      | some s =>
        rw [hs] at h
        rw [refersTo_literal? hs] at h
        cases h
  · rintro ⟨rfl, h⟩
    rw [h.ofTypeText_eq]
    rfl

/-- The items of a hint that is an array refer to nothing. -/
theorem refersTo_ofHintText (hk : name ∈ unionKeywords) (hint : List Char) :
    refersTo name (ofHintText hint) = refersTo name (ofTypeText hint) := by
  rw [ofHintText]
  split
  · next items n harray =>
    have hitems : refersTo name (ofTypeText hint) = false := by
      by_contra h
      have hnone := ((refersTo_ofTypeText_iff hk).mp (by simpa using h)).2.ofTypeText_eq
      rw [harray] at hnone
      cases hnone
    rw [harray, refersTo] at hitems
    rw [harray, refersTo, refersTo, hitems]
    split
    · rfl
    · exact hitems
  · rfl

/-- A hint leads to the name of a construct exactly if it is read as `None`. -/
theorem exists_ofHint?_iff (hk : name ∈ unionKeywords) :
    (∃ s, ofHint? context.hint = some s ∧ refersTo name s = true) ↔
      name = "None" ∧ ReadsNone context.hintText := by
  rw [ofHint?_eq, ← refersTo_ofTypeText_iff hk, ← refersTo_ofHintText hk]
  split
  · next hempty =>
    have hnothing : refersTo name (ofHintText []) = false := rfl
    simp [hempty, hnothing]
  · simp

theorem refersTo_attributeNamed_iff (hk : name ∈ unionKeywords) {found : Option String} :
    refersTo name (attributeNamed context found) = true ↔ ∃ word, found = some word ∧
      if word ∈ context.typeVars then name = "None" ∧ ReadsNone context.hintText
      else word = name := by
  cases found with
  | none => simp [attributeNamed, refersTo]
  | some word =>
    rw [attributeNamed]
    by_cases hvar : word ∈ context.typeVars
    · rw [if_pos (by simpa using hvar), ← exists_ofHint?_iff hk]
      cases ofHint? context.hint <;> simp [hvar, refersTo]
    · rw [if_neg (by simpa using hvar)]
      simp [hvar, refersTo]

theorem refersTo_arrayItems_iff (hk : name ∈ unionKeywords) :
    refersTo name (arrayItems text context) = true ↔
      mentions (lowerAscii text) "dict" = false ∧ ∃ word, listItem? text = some word.toList ∧
        if word ∈ context.typeVars then name = "None" ∧ ReadsNone context.hintText
        else word = name := by
  rw [arrayItems]
  cases hdict : mentions (lowerAscii text) "dict" with
  | true => simp [refersTo]
  | false =>
    rw [if_neg Bool.false_ne_true]
    cases hitem : listItem? text with
    | none => simp [refersTo]
    | some item =>
      have hword (word : String) : some item = some word.toList ↔ word = String.ofList item := by
        rw [Option.some.injEq]
        constructor
        · rintro rfl
          exact String.ofList_toList.symm
        · rintro rfl
          exact String.toList_ofList.symm
      simp only [hword, true_and, exists_eq_left]
      by_cases hvar : String.ofList item ∈ context.typeVars
      · rw [if_pos (by simpa using hvar), if_pos hvar, ← exists_ofHint?_iff hk]
        cases ofHint? context.hint with
        | none => simp [refersTo]
        | some s => cases s <;> simp [refersTo]
      · rw [if_neg (by simpa using hvar), if_neg hvar]
        split
        · exact decide_eq_true_iff
        · next hlower =>
          refine iff_of_false Bool.false_ne_true fun heq => hlower ?_
          have hupper := startsUpper_of_mem_unionKeywords (heq ▸ hk)
          rwa [String.toList_ofList] at hupper

/-! ## Attributes -/

theorem attributeTyped?_of_list (hlist : mentionsList text = true) :
    attributeTyped? text context = some (.array (arrayItems text context) false) := by
  rw [attributeTyped?, hlist]
  rfl

/-- Without a list the items are not asked for. -/
theorem plain_of_attributeTyped? (hlist : mentionsList text = false) {s : Schema}
    (h : attributeTyped? text context = some s) : ∃ type, s = .plain type false := by
  rw [attributeTyped?, hlist] at h
  change firstNamed? (.plain .string false) false _ _ _ _ = some s at h
  rcases firstNamed?_cases h with rfl | hplain
  · exact ⟨.string, rfl⟩
  · exact hplain

theorem standsForModel_of_list (hlist : mentionsList text = true) (word : String) :
    StandsForModel text word ↔
      mentions (lowerAscii text) "dict" = false ∧ listItem? text = some word.toList := by
  constructor
  · intro h
    cases h with
    | model htype =>
      rw [namesType, hlist] at htype
      simp at htype
    | item _ hdict hitem => exact ⟨hdict, hitem⟩
  · exact fun h => .item hlist h.1 h.2

theorem standsForModel_of_noList (hlist : mentionsList text = false) (word : String) :
    StandsForModel text word ↔ namesType text = false ∧ modelName? text = some word := by
  constructor
  · intro h
    cases h with
    | model htype hmodel => exact ⟨htype, hmodel⟩
    | item h =>
      rw [hlist] at h
      cases h
  · exact fun h => .model h.1 h.2

/-- Among the names that no component has, an attribute refers to the word that stands for a model,
or, if that is a type variable, to what its hint leads to. -/
theorem refersTo_ofAttribute_iff (hk : name ∈ unionKeywords) :
    refersTo name (ofAttribute text context) = true ↔
      literalTokens text = [] ∧ ∃ word, StandsForModel text word ∧
        if word ∈ context.typeVars then name = "None" ∧ ReadsNone context.hintText
        else word = name := by
  have hbase : refersTo name (ofAttribute text context) =
      refersTo name (attributeBase text context) := by
    rw [ofAttribute]
    split
    · exact refersTo_makeNullable name _
    · rfl
  rw [hbase, attributeBase_eq, ← literal?_eq_none_iff]
  cases hliteral : literal? text with
  | some s =>
    rw [Option.some_or, Option.getD_some, refersTo_literal? hliteral]
    simp
  | none =>
    rw [Option.none_or, eq_self_iff_true, true_and]
    cases hlist : mentionsList text with
    | true =>
      simp only [standsForModel_of_list hlist, and_assoc, exists_and_left]
      rw [attributeTyped?_of_list hlist, Option.getD_some, refersTo, refersTo_arrayItems_iff hk]
    | false =>
      simp only [standsForModel_of_noList hlist, and_assoc, exists_and_left]
      rw [← attributeTyped?_eq_none_iff text context]
      cases htyped : attributeTyped? text context with
      | some s =>
        obtain ⟨type, rfl⟩ := plain_of_attributeTyped? hlist htyped
        simp [refersTo]
      | none =>
        rw [Option.getD_none, refersTo_attributeNamed_iff hk]
        simp

end

/-- No part of the written schema is a reference to a typing construct or to `None`. -/
def AvoidsConstructs (v : Value) : Prop := ∀ name, References v name → name ∉ unionKeywords

/-- An attribute avoids the constructs unless its annotation takes one for a model. -/
theorem avoidsConstructs_iff (text : List Char) (context : AttributeContext) :
    AvoidsConstructs (ofAttribute text context).toValue ↔ ¬TakesConstruct text context := by
  constructor
  · rintro havoids ⟨hliteral, word, hstands, h⟩
    have hfound (name : String) (hk : name ∈ unionKeywords)
        (hname : if word ∈ context.typeVars then name = "None" ∧ ReadsNone context.hintText
          else word = name) : False :=
      havoids name (references_toValue_iff.mpr
        ((refersTo_ofAttribute_iff hk).mpr ⟨hliteral, word, hstands, hname⟩)) hk
    by_cases hvar : word ∈ context.typeVars
    · rw [if_pos hvar] at h
      exact hfound "None" (by decide) (by rw [if_pos hvar]; exact ⟨rfl, h⟩)
    · rw [if_neg hvar] at h
      exact hfound word h (by rw [if_neg hvar])
  · intro hnot name href hk
    obtain ⟨hliteral, word, hstands, h⟩ :=
      (refersTo_ofAttribute_iff hk).mp (references_toValue_iff.mp href)
    refine hnot ⟨hliteral, word, hstands, ?_⟩
    split
    · next hvar =>
      rw [if_pos hvar] at h
      exact h.2
    · next hvar =>
      rw [if_neg hvar] at h
      exact h ▸ hk

/-- The item of a list is taken for a model although it is a construct. -/
theorem not_avoidsConstructs_of_anyItem :
    ¬AvoidsConstructs (ofAttribute "List[Any]".toList noContext).toValue := by
  intro h
  exact h "Any" (references_toValue_iff.mpr (by decide)) (by decide)

end Schema
end ApiSync
