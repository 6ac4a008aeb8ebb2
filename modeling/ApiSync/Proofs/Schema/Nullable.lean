import ApiSync.Proofs.Annotation.UnionMembers
import ApiSync.Proofs.Schema.ListItems
/-!
# When the three null spellings give one schema

An annotation is resolved from the text inside its null wrapper only as far as enumerations and
unions go.  The later rules read the whole text again, where `Union[X, None]` and `X | None` hold
one more capitalised word than `Optional[X]`.  So the spellings agree as long as a rule before the
search for a model applies to the annotation, or it names a model itself; if all rules fail, the
null member is taken for a component.
-/

namespace ApiSync
namespace Schema

open Text Annotation

/-- Whether the schema refers to a component. -/
def refersTo (name : String) : Schema → Bool
  | .composition _ models _ => models.contains name
  | .array items _ => items.refersTo name
  | .ref model => model = name
  | _ => false

theorem refersTo_makeNullable (name : String) (s : Schema) :
    refersTo name s.makeNullable = refersTo name s := by
  cases s <;> rfl

/-! ## Marks in the spellings -/

/-- The names around an annotation, in both cases of letters. -/
def wrapperNames : List String := ["Optional", "Union", "None", "optional", "union", "none"]

/-- A mark that is a word and not a part of the names around an annotation. -/
def isNeutral (mark : String) : Bool :=
  mark.toList ≠ [] && mark.toList.all isWordChar &&
    wrapperNames.all fun name => !contains mark.toList name.toList

theorem isNeutral_iff {mark : String} :
    isNeutral mark = true ↔ mark.toList ≠ [] ∧ (∀ c ∈ mark.toList, isWordChar c = true) ∧
      ∀ name ∈ wrapperNames, contains mark.toList name.toList = false := by
  rw [isNeutral, Bool.and_eq_true, Bool.and_eq_true, decide_eq_true_eq, List.all_eq_true,
    List.all_eq_true, and_assoc]
  simp only [Bool.not_eq_true']

section

variable {x s : List Char}

theorem mentions_of_mem {mark : String} (hmark : isNeutral mark = true) (hs : s ∈ nullSpellings x) :
    mentions s mark = mentions x mark := by
  obtain ⟨hne, hword, hnames⟩ := isNeutral_iff.mp hmark
  rw [nullSpellings_eq] at hs
  exact contains_spellings hne hword (hnames "Optional" (by decide)) (hnames "Union" (by decide))
    (hnames "None" (by decide)) hs

theorem mentions_lower_of_mem {mark : String} (hmark : isNeutral mark = true)
    (hs : s ∈ nullSpellings x) : mentions (lowerAscii s) mark = mentions (lowerAscii x) mark := by
  obtain ⟨hne, hword, hnames⟩ := isNeutral_iff.mp hmark
  have hlower : lowerAscii s ∈
      spellings "optional".toList "union".toList "none".toList (lowerAscii x) := by
    have hmem := List.mem_map_of_mem (f := lowerAscii) hs
    rw [nullSpellings_eq, lowerAscii_spellings] at hmem
    exact hmem
  exact contains_spellings hne hword (hnames "optional" (by decide)) (hnames "union" (by decide))
    (hnames "none" (by decide)) hlower

theorem mentionsList_of_mem (hs : s ∈ nullSpellings x) : mentionsList s = mentionsList x := by
  rw [mentionsList, mentionsList, mentions_of_mem (by decide) hs, mentions_of_mem (by decide) hs]

theorem mentionsMapping_of_mem (hs : s ∈ nullSpellings x) :
    mentionsMapping s = mentionsMapping x := by
  simp only [mentionsMapping]
  rw [mentions_lower_of_mem (by decide) hs, mentions_lower_of_mem (by decide) hs]

/-! ## The rules before the search for a model -/

/-- The schema of the first container or scalar that is named. -/
def firstNamed? (array : Schema) (list mapping integer boolean number : Bool) : Option Schema :=
  if list then some array
  else if mapping then some (.plain .object false)
  else if integer then some (.plain .integer false)
  else if boolean then some (.plain .boolean false)
  else if number then some (.plain .number false)
  else none

section

variable {array : Schema} {list mapping integer boolean number : Bool}

theorem firstNamed?_getD (other : Schema) :
    (firstNamed? array list mapping integer boolean number).getD other =
      if list then array
      else if mapping then .plain .object false
      else if integer then .plain .integer false
      else if boolean then .plain .boolean false
      else if number then .plain .number false
      else other := by
  rw [firstNamed?]
  simp only [apply_ite (Option.getD · other), Option.getD_some, Option.getD_none]

theorem firstNamed?_eq_none_iff :
    firstNamed? array list mapping integer boolean number = none ↔
      (list || mapping || integer || boolean || number) = false := by
  rw [firstNamed?]
  cases list <;> cases mapping <;> cases integer <;> cases boolean <;> cases number <;> simp

theorem firstNamed?_cases {s : Schema}
    (h : firstNamed? array list mapping integer boolean number = some s) :
    s = array ∨ ∃ type, s = .plain type false := by
  rw [firstNamed?] at h
  cases list with
  | true => exact Or.inl (Option.some.inj h).symm
  | false =>
    cases mapping with
    | true => exact Or.inr ⟨.object, (Option.some.inj h).symm⟩
    | false =>
      cases integer with
      | true => exact Or.inr ⟨.integer, (Option.some.inj h).symm⟩
      | false =>
        cases boolean with
        | true => exact Or.inr ⟨.boolean, (Option.some.inj h).symm⟩
        | false =>
          cases number with
          | true => exact Or.inr ⟨.number, (Option.some.inj h).symm⟩
          | false => cases h

end

/-- The schema of a container or a scalar, by the names in the text. -/
def typed? (text : List Char) : Option Schema :=
  firstNamed? (.array (.plain .string false) false) (mentionsList text) (mentionsMapping text)
    (mentions text "int") (mentions text "bool")
    (mentions text "float" || mentions (lowerAscii text) "double")

/-- The schema of a model, or a string. -/
def named : Option String → Schema
  | some model => .ref model
  | none => .plain .string false

theorem primitive_eq (text : List Char) :
    primitive text = (typed? text).getD (named (modelName? text)) := by
  rw [typed?, firstNamed?_getD, primitive]
  cases modelName? text <;> rfl

theorem typed?_of_mem (hs : s ∈ nullSpellings x) : typed? s = typed? x := by
  unfold typed?
  rw [mentionsList_of_mem hs, mentionsMapping_of_mem hs, mentions_of_mem (by decide) hs,
    mentions_of_mem (by decide) hs, mentions_of_mem (by decide) hs,
    mentions_lower_of_mem (by decide) hs]

/-- What the rules before the search for a model make of an annotation, its unions read from a
text of its own. -/
def ruled? (text inner : List Char) : Option Schema :=
  (literal? text).or ((union? .oneOf true inner).or (typed? text))

theorem ofTypeText_eq {text inner : List Char} (h : unwrapOptional text = ⟨inner, true⟩) :
    ofTypeText text = (ruled? text inner).getD (named (modelName? text)) := by
  unfold ofTypeText ruled?
  rw [h]
  cases literal? text with
  | some l => rfl
  | none =>
    dsimp only
    cases union? .oneOf true inner with
    | some u => rfl
    | none => exact primitive_eq text

theorem literal?_of_mem (h : square.Balanced x) (hs : s ∈ nullSpellings x) :
    literal? s = literal? x := by
  unfold literal?
  rw [literalTokens_of_mem_nullSpellings h hs]

theorem ruled?_of_mem (h : square.Balanced x) (hs : s ∈ nullSpellings x) (inner : List Char) :
    ruled? s inner = ruled? x inner := by
  rw [ruled?, ruled?, literal?_of_mem h hs, typed?_of_mem hs]

theorem optionalOf_mem (x : List Char) : optionalOf x ∈ nullSpellings x :=
  mem_nullSpellings.mpr (Or.inl rfl)

theorem unionWithNone_mem (x : List Char) : unionWithNone x ∈ nullSpellings x :=
  mem_nullSpellings.mpr (Or.inr (Or.inl rfl))

theorem pipeWithNone_mem (x : List Char) : pipeWithNone x ∈ nullSpellings x :=
  mem_nullSpellings.mpr (Or.inr (Or.inr rfl))

theorem ofTypeText_optionalOf (h : NullFree x) :
    ofTypeText (optionalOf x) = (ruled? x x).getD (named (modelName? x)) := by
  rw [ofTypeText_eq (unwrapOptional_of_optional h.nonempty h.trimmed h.oneLine),
    ruled?_of_mem h.member.balanced (optionalOf_mem x), modelName?_optionalOf]

theorem ofTypeText_unionWithNone (h : NullFree x) :
    ofTypeText (unionWithNone x) =
      (ruled? x x).getD (named ((modelName? x).or (some "None"))) := by
  rw [ofTypeText_eq (unwrapOptional_unionWithNone h.written h.noneName_not_mem),
    ruled?_of_mem h.member.balanced (unionWithNone_mem x), modelName?_unionWithNone]

theorem ofTypeText_pipeWithNone (h : NullFree x) :
    ofTypeText (pipeWithNone x) =
      (ruled? x (spacedPipes x)).getD (named ((modelName? x).or (some "None"))) := by
  rw [ofTypeText_eq (unwrapOptional_pipeWithNone h.written h.noneName_not_mem),
    ruled?_of_mem h.member.balanced (pipeWithNone_mem x), modelName?_pipeWithNone]

/-! ## Attributes -/

/-- Whether a container or a scalar is named in the text of an attribute. -/
def namesType (text : List Char) : Bool :=
  mentionsList text || mentionsMapping text || mentions text "int" || mentions text "bool"
    || mentions text "float"

/-- The schema of an attribute, by the containers and scalars named in its text. -/
def attributeTyped? (text : List Char) (context : AttributeContext) : Option Schema :=
  firstNamed? (.array (arrayItems text context) false) (mentionsList text) (mentionsMapping text)
    (mentions text "int") (mentions text "bool") (mentions text "float")

/-- The schema of a model of an attribute: what the hint says if it is a type variable. -/
def attributeNamed (context : AttributeContext) : Option String → Schema
  | some model =>
    if context.typeVars.contains model then (ofHint? context.hint).getD (.plain .object false)
    else .ref model
  | none => .plain .string false

theorem attributeBase_eq (text : List Char) (context : AttributeContext) :
    attributeBase text context = ((literal? text).or (attributeTyped? text context)).getD
      (attributeNamed context (modelName? text)) := by
  rw [attributeBase]
  cases literal? text with
  | some l => rfl
  | none =>
    rw [Option.none_or, attributeTyped?, firstNamed?_getD]
    cases modelName? text <;> rfl

theorem attributeTyped?_eq_none_iff (text : List Char) (context : AttributeContext) :
    attributeTyped? text context = none ↔ namesType text = false := firstNamed?_eq_none_iff

theorem typed?_eq_none_iff (text : List Char) :
    typed? text = none ↔ namesType text = false ∧ mentions (lowerAscii text) "double" = false := by
  rw [typed?, firstNamed?_eq_none_iff, ← Bool.or_assoc, Bool.or_eq_false_iff]
  rfl

theorem arrayItems_of_mem (h : square.Balanced x) (hs : s ∈ nullSpellings x)
    (context : AttributeContext) : arrayItems s context = arrayItems x context := by
  unfold arrayItems
  rw [mentions_lower_of_mem (by decide) hs, listItem?_of_mem_nullSpellings h hs]

theorem attributeTyped?_of_mem (h : square.Balanced x) (hs : s ∈ nullSpellings x)
    (context : AttributeContext) : attributeTyped? s context = attributeTyped? x context := by
  unfold attributeTyped?
  rw [mentionsList_of_mem hs, mentionsMapping_of_mem hs, mentions_of_mem (by decide) hs,
    mentions_of_mem (by decide) hs, mentions_of_mem (by decide) hs, arrayItems_of_mem h hs]

/-- Each spelling mentions its null member. -/
theorem admitsNone_of_mem (hs : s ∈ nullSpellings x) : admitsNone s = true := by
  have hoptional := contains_append [] "Optional".toList ('[' :: (x ++ [']']))
  have hunion := contains_append ("Union[".toList ++ x ++ [',', ' ']) noneName [']']
  have hpipe := contains_append (x ++ [' ', '|', ' ']) noneName []
  rw [admitsNone, Bool.or_eq_true]
  rcases mem_nullSpellings.mp hs with rfl | rfl | rfl
  · refine Or.inl ?_
    rw [optionalOf_eq]
    exact hoptional
  · refine Or.inr ?_
    rw [unionWithNone_eq]
    rw [List.append_assoc, List.append_assoc, List.append_assoc] at hunion
    exact hunion
  · refine Or.inr ?_
    rw [List.append_nil, List.append_assoc] at hpipe
    exact hpipe

/-- What the rules before the search for a model make of an attribute. -/
def attributeRuled? (text : List Char) (context : AttributeContext) : Option Schema :=
  (literal? text).or (attributeTyped? text context)

theorem ofAttribute_of_mem (h : square.Balanced x) (hs : s ∈ nullSpellings x)
    (context : AttributeContext) :
    ofAttribute s context = ((attributeRuled? x context).getD
      (attributeNamed context (modelName? s))).makeNullable := by
  rw [ofAttribute, admitsNone_of_mem hs, if_pos rfl, attributeBase_eq, literal?_of_mem h hs,
    attributeTyped?_of_mem h hs, attributeRuled?]

/-! ## When the spellings agree -/

theorem literal?_eq_none_iff (text : List Char) :
    literal? text = none ↔ literalTokens text = [] := by
  rw [literal?]
  cases literalTokens text with
  | nil => simp
  | cons token tokens => simp

theorem union?_eq_none_iff (kind : Composition) (nullable : Bool) (text : List Char) :
    union? kind nullable text = none ↔ unionModels text = [] := by
  rw [union?]
  cases unionModels text with
  | nil => simp
  | cons model models => simp

theorem ruled?_eq_none_iff (text inner : List Char) :
    ruled? text inner = none ↔
      literalTokens text = [] ∧ unionModels inner = [] ∧ typed? text = none := by
  rw [ruled?, Option.or_eq_none_iff, Option.or_eq_none_iff, literal?_eq_none_iff,
    union?_eq_none_iff]

theorem getD_eq_getD_iff {α : Type} {o : Option α} {a b : α} :
    o.getD a = o.getD b ↔ o ≠ none ∨ a = b := by
  cases o with
  | none => simp
  | some v => simp

theorem named_eq_named_or_iff {model : Option String} {other : String} :
    named model = named (model.or (some other)) ↔ model ≠ none := by
  cases model with
  | none => simp [named]
  | some m => simp [named]

/-- Containers, scalars and models are no compositions. -/
theorem typed?_getD_ne_composition (text : List Char) (model : String) (kind : Composition)
    (models : List String) (nullable : Bool) :
    (typed? text).getD (.ref model) ≠ .composition kind models nullable := by
  intro h
  cases htyped : typed? text with
  | none =>
    rw [htyped] at h
    cases h
  | some s =>
    rw [htyped, Option.getD_some] at h
    rcases firstNamed?_cases htyped with rfl | ⟨type, rfl⟩
    · cases h
    · cases h

/-- Two unions make the same of an annotation without enumerations only if they have the same
models. -/
theorem ruled?_getD_eq_iff {text a b : List Char} {model : String} :
    (ruled? text a).getD (.ref model) = (ruled? text b).getD (.ref model) ↔
      literalTokens text ≠ [] ∨ unionModels a = unionModels b := by
  have hother := typed?_getD_ne_composition text model
  unfold ruled?
  cases hlit : literal? text with
  | some l =>
    have hne : literalTokens text ≠ [] := by
      intro hnil
      rw [(literal?_eq_none_iff text).mpr hnil] at hlit
      cases hlit
    simp [hne]
  | none =>
    have hnil := (literal?_eq_none_iff text).mp hlit
    rw [Option.none_or, Option.none_or, union?_eq, union?_eq]
    cases unionModels a with
    | nil =>
      cases unionModels b with
      | nil => simp
      | cons n ns => simpa [composed, hnil] using hother .oneOf (n :: ns) true
    | cons m ms =>
      cases unionModels b with
      | nil => simpa [composed, hnil] using (hother .oneOf (m :: ms) true).symm
      | cons n ns => simp [composed, hnil]

theorem named_or_some (model : Option String) (other : String) :
    ∃ m, named (model.or (some other)) = .ref m := by
  cases model with
  | none => exact ⟨other, rfl⟩
  | some m => exact ⟨m, rfl⟩

theorem agree_logic {noLiteral noUnion noType noModel sameUnion : Prop} :
    (¬(noLiteral ∧ noUnion ∧ noType) ∨ ¬noModel) ∧ (¬noLiteral ∨ sameUnion) ↔
      ¬noLiteral ∨ sameUnion ∧ (¬noUnion ∨ ¬noType ∨ ¬noModel) := by
  tauto

/-- Full resolution agrees on the spellings if a rule before the search for a model applies to
all of them, or if a model is named. -/
theorem ofTypeText_agree_iff (h : NullFree x) :
    (ofTypeText (optionalOf x) = ofTypeText (unionWithNone x) ∧
      ofTypeText (unionWithNone x) = ofTypeText (pipeWithNone x)) ↔
      literalTokens x ≠ [] ∨ (unionModels x = unionModels (spacedPipes x) ∧
        (unionModels x ≠ [] ∨ typed? x ≠ none ∨ modelName? x ≠ none)) := by
  obtain ⟨m, hm⟩ := named_or_some (modelName? x) "None"
  have hfirst : ofTypeText (optionalOf x) = ofTypeText (unionWithNone x) ↔
      ruled? x x ≠ none ∨ modelName? x ≠ none := by
    rw [ofTypeText_optionalOf h, ofTypeText_unionWithNone h, getD_eq_getD_iff,
      named_eq_named_or_iff]
  have hsecond : ofTypeText (unionWithNone x) = ofTypeText (pipeWithNone x) ↔
      literalTokens x ≠ [] ∨ unionModels x = unionModels (spacedPipes x) := by
    rw [ofTypeText_unionWithNone h, ofTypeText_pipeWithNone h, hm, ruled?_getD_eq_iff]
  rw [hfirst, hsecond, ne_eq, ruled?_eq_none_iff]
  exact agree_logic

/-- A type variable called `None` whose hint is a string.  In its scope the null member resolves
to what a text without any name resolves to. -/
def NoneIsString (context : AttributeContext) : Prop :=
  context.typeVars.contains "None" = true ∧
    ((ofHint? context.hint).getD (.plain .object false)).makeNullable = .plain .string true

theorem attributeNamed_none_iff (context : AttributeContext) :
    (attributeNamed context none).makeNullable =
      (attributeNamed context (some "None")).makeNullable ↔ NoneIsString context := by
  cases hvar : context.typeVars.contains "None" with
  | true =>
    have hhint : attributeNamed context (some "None") =
        (ofHint? context.hint).getD (.plain .object false) := if_pos hvar
    rw [hhint]
    exact ⟨fun h => ⟨hvar, h.symm⟩, fun h => h.2.symm⟩
  | false =>
    have hmodel : attributeNamed context (some "None") = .ref "None" :=
      if_neg (by rw [hvar]; decide)
    rw [hmodel]
    constructor
    · intro h
      cases h
    · intro h
      rw [h.1] at hvar
      cases hvar

theorem ofAttribute_agree_iff (h : square.Balanced x) (context : AttributeContext) :
    (ofAttribute (optionalOf x) context = ofAttribute (unionWithNone x) context ∧
      ofAttribute (unionWithNone x) context = ofAttribute (pipeWithNone x) context) ↔
      literalTokens x ≠ [] ∨ namesType x = true ∨ modelName? x ≠ none ∨ NoneIsString context := by
  have hruled : attributeRuled? x context = none ↔
      literalTokens x = [] ∧ namesType x = false := by
    rw [attributeRuled?, Option.or_eq_none_iff, literal?_eq_none_iff, attributeTyped?_eq_none_iff]
  rw [ofAttribute_of_mem h (optionalOf_mem x), ofAttribute_of_mem h (unionWithNone_mem x),
    ofAttribute_of_mem h (pipeWithNone_mem x), modelName?_optionalOf, modelName?_unionWithNone,
    modelName?_pipeWithNone, eq_self_iff_true, and_true]
  cases hr : attributeRuled? x context with
  | some r =>
    have hrules : ¬(literalTokens x = [] ∧ namesType x = false) := by
      rw [← hruled, hr]
      exact fun hn => by cases hn
    simp only [Option.getD_some, true_iff]
    by_cases hl : literalTokens x = []
    · have ht : namesType x = true := by simpa [hl] using hrules
      exact Or.inr (Or.inl ht)
    · exact Or.inl hl
  | none =>
    obtain ⟨hl, ht⟩ := hruled.mp hr
    rw [Option.getD_none, Option.getD_none]
    cases modelName? x with
    | some m => simp
    | none =>
      rw [Option.none_or, attributeNamed_none_iff]
      simp [hl, ht]

/-! ## No component called `None` -/

theorem not_mem_memberModels_none (ms : List (List Char)) : "None" ∉ memberModels ms := by
  intro hmem
  obtain ⟨m, -, hm⟩ := exists_of_mem_memberModels hmem
  exact absurd (mem_modelNames_iff.mp hm).2.2 (by decide)

theorem unionModels_eq_memberModels (text : List Char) :
    ∃ ms, unionModels text = memberModels ms := by
  have harguments : ∃ ms, argumentModels (flattenUnions text) = memberModels ms := by
    rw [argumentModels]
    split
    · exact ⟨_, rfl⟩
    · exact ⟨[], rfl⟩
  have hpipes : ∃ ms, pipeModels (flattenUnions text) = memberModels ms := by
    rw [pipeModels]
    split
    · exact ⟨_, rfl⟩
    · exact ⟨[], rfl⟩
  rw [unionModels_eq]
  split
  · exact harguments
  · exact hpipes

theorem modelName?_ne_none (h : contains noneName x = false) : modelName? x ≠ some "None" := by
  intro hname
  have hnone : noneName ∈ words x := (mem_modelNames_iff.mp (List.mem_of_mem_head? hname)).1
  obtain ⟨a, b, hx⟩ := eq_append_of_mem_words hnone
  have hcontains := contains_append a noneName b
  rw [← hx, h] at hcontains
  cases hcontains

theorem refersTo_typed? {text : List Char} {s : Schema} (h : typed? text = some s)
    (name : String) : refersTo name s = false := by
  rcases firstNamed?_cases h with rfl | ⟨type, rfl⟩
  · rfl
  · rfl

theorem refersTo_literal? {text : List Char} {s : Schema} (h : literal? text = some s)
    (name : String) : refersTo name s = false := by
  rw [literal?] at h
  split at h
  · cases h
  · cases h
    rfl

theorem refersTo_ruled? {text inner : List Char} {s : Schema} (h : ruled? text inner = some s) :
    refersTo "None" s = false := by
  rw [ruled?, Option.or_eq_some_iff, Option.or_eq_some_iff] at h
  rcases h with hliteral | ⟨-, hunion | ⟨-, htyped⟩⟩
  · exact refersTo_literal? hliteral "None"
  · rw [union?_eq] at hunion
    obtain ⟨ms, hms⟩ := unionModels_eq_memberModels inner
    rw [hms] at hunion
    have hnone := not_mem_memberModels_none ms
    cases hmodels : memberModels ms with
    | nil =>
      rw [hmodels] at hunion
      cases hunion
    | cons m rest =>
      rw [hmodels] at hunion hnone
      have hs : Schema.composition .oneOf (m :: rest) true = s := by
        simpa [composed] using hunion
      rw [← hs, refersTo]
      simpa using hnone
  · exact refersTo_typed? htyped "None"

theorem refersTo_optionalOf (h : NullFree x) :
    refersTo "None" (ofTypeText (optionalOf x)) = false := by
  rw [ofTypeText_optionalOf h]
  cases hruled : ruled? x x with
  | some s => exact refersTo_ruled? hruled
  | none =>
    have hne := modelName?_ne_none h.noNone
    cases hmodel : modelName? x with
    | none => rfl
    | some m =>
      have hm : m ≠ "None" := fun he => hne (by rw [hmodel, he])
      exact decide_eq_false hm

/-- An optional attribute refers to what the attribute itself refers to. -/
theorem refersTo_ofAttribute_optionalOf (h : square.Balanced x) (context : AttributeContext)
    (name : String) :
    refersTo name (ofAttribute (optionalOf x) context) = refersTo name (ofAttribute x context) := by
  have hbase : refersTo name (ofAttribute x context) = refersTo name (attributeBase x context) := by
    rw [ofAttribute]
    split
    · exact refersTo_makeNullable name _
    · rfl
  rw [ofAttribute_of_mem h (optionalOf_mem x), refersTo_makeNullable, modelName?_optionalOf, hbase,
    attributeBase_eq, attributeRuled?]

/-! ## The three spellings -/

/-- Each spelling resolves to the same schema, as an annotation and as an attribute, with a null
admitted in each, and none of the schemas refers to a component called `None`. -/
structure NullSpellingsAgree (x : List Char) (context : AttributeContext) : Prop where
  resolved : ∀ a ∈ nullSpellings x, ∀ b ∈ nullSpellings x, ofTypeText a = ofTypeText b
  inferred : ∀ a ∈ nullSpellings x, ∀ b ∈ nullSpellings x,
    ofAttribute a context = ofAttribute b context
  nullable : ∀ a ∈ nullSpellings x, admitsNone a = true
  noNone : ∀ a ∈ nullSpellings x,
    refersTo "None" (ofTypeText a) = false ∧ refersTo "None" (ofAttribute a context) = false

theorem agree_on_nullSpellings {α : Type} {f : List Char → α} :
    (∀ a ∈ nullSpellings x, ∀ b ∈ nullSpellings x, f a = f b) ↔
      f (optionalOf x) = f (unionWithNone x) ∧ f (unionWithNone x) = f (pipeWithNone x) := by
  constructor
  · intro h
    exact ⟨h _ (optionalOf_mem x) _ (unionWithNone_mem x),
      h _ (unionWithNone_mem x) _ (pipeWithNone_mem x)⟩
  · intro h a ha b hb
    have hall : ∀ s ∈ nullSpellings x, f s = f (optionalOf x) := by
      intro s hs
      rcases mem_nullSpellings.mp hs with rfl | rfl | rfl
      · rfl
      · exact h.1.symm
      · exact (h.1.trans h.2).symm
    rw [hall a ha, hall b hb]

/-- Something in the annotation decides its schema: an enumeration, or else, with unions that do
not depend on the blanks around pipes, a model, a container or a scalar.  A union and the name
`double` count for annotations only, so an attribute needs a type variable for the null member. -/
def Decided (x : List Char) (context : AttributeContext) : Prop :=
  literalTokens x ≠ [] ∨ unionModels x = unionModels (spacedPipes x) ∧
    (modelName? x ≠ none ∨ namesType x = true ∨
      (unionModels x ≠ [] ∨ mentions (lowerAscii x) "double" = true) ∧ NoneIsString context)

theorem decided_logic {noLiteral sameUnion noModel type noUnion noDouble noneIsString : Prop} :
    (¬noLiteral ∨ sameUnion ∧ (¬noUnion ∨ ¬(¬type ∧ noDouble) ∨ ¬noModel)) ∧
      (¬noLiteral ∨ type ∨ ¬noModel ∨ noneIsString) ↔
      ¬noLiteral ∨ sameUnion ∧ (¬noModel ∨ type ∨ (¬noUnion ∨ ¬noDouble) ∧ noneIsString) := by
  tauto

/-- The three spellings agree exactly when something in the annotation decides its schema, and
the annotation itself, by its hint, does not refer to `None`. -/
theorem nullSpellingsAgree_iff (x : List Char) (context : AttributeContext) (h : NullFree x) :
    NullSpellingsAgree x context ↔
      Decided x context ∧ refersTo "None" (ofAttribute x context) = false := by
  have hagree : ((∀ a ∈ nullSpellings x, ∀ b ∈ nullSpellings x, ofTypeText a = ofTypeText b) ∧
      ∀ a ∈ nullSpellings x, ∀ b ∈ nullSpellings x,
        ofAttribute a context = ofAttribute b context) ↔ Decided x context := by
    have hdouble : mentions (lowerAscii x) "double" = true ↔
        ¬mentions (lowerAscii x) "double" = false := by rw [Bool.not_eq_false]
    rw [agree_on_nullSpellings, ofTypeText_agree_iff h,
      agree_on_nullSpellings (f := fun a => ofAttribute a context),
      ofAttribute_agree_iff h.member.balanced, ne_eq (typed? x), typed?_eq_none_iff, Decided,
      hdouble, ← Bool.not_eq_true (namesType x)]
    exact decided_logic
  constructor
  · intro hall
    refine ⟨hagree.mp ⟨hall.resolved, hall.inferred⟩, ?_⟩
    rw [← refersTo_ofAttribute_optionalOf h.member.balanced]
    exact (hall.noNone _ (optionalOf_mem x)).2
  · rintro ⟨hdecided, hnone⟩
    obtain ⟨hresolved, hinferred⟩ := hagree.mpr hdecided
    -- All schemas are that of the optional annotation, where `None` is not written.
    refine ⟨hresolved, hinferred, fun a ha => admitsNone_of_mem ha, fun a ha => ⟨?_, ?_⟩⟩
    · rw [hresolved a ha _ (optionalOf_mem x)]
      exact refersTo_optionalOf h
    · rw [hinferred a ha _ (optionalOf_mem x), refersTo_ofAttribute_optionalOf h.member.balanced]
      exact hnone

end

section Example

def noContext : AttributeContext := ⟨[], none⟩

/-- A string decides nothing, so the null member is taken for a component in two spellings. -/
theorem not_nullSpellingsAgree_of_string :
    NullFree "str".toList ∧ ¬NullSpellingsAgree "str".toList noContext := by
  refine ⟨⟨by decide, by decide, by decide, ⟨by decide, by decide⟩, by decide⟩, fun h => ?_⟩
  have hsame := h.resolved _ (optionalOf_mem _) _ (unionWithNone_mem _)
  exact absurd hsame (by decide)

theorem nullSpellingsAgree_of_model :
    NullFree "User".toList ∧ NullSpellingsAgree "User".toList noContext := by
  have h : NullFree "User".toList :=
    ⟨by decide, by decide, by decide, ⟨by decide, by decide⟩, by decide⟩
  have hdecided : Decided "User".toList noContext :=
    Or.inr ⟨by decide, Or.inl (by decide)⟩
  exact ⟨h, (nullSpellingsAgree_iff _ noContext h).mpr ⟨hdecided, by decide⟩⟩

end Example

end Schema
end ApiSync
