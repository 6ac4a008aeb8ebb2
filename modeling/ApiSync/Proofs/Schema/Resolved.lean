import ApiSync.Proofs.Annotation.RewrittenWords
import ApiSync.Proofs.Model.References
import ApiSync.Proofs.Text.Order
/-!
# The form of resolved schemas

Whatever the text of an annotation, its schema is an enumeration, a union of references, an array,
a plain type or a reference, and its references name capitalised words that were found in the
annotation or in the hint.  Only unions are read from a text that is not the annotation itself: what
is rewritten for them may run two words together, where a word stands directly beside a group.  The
schemas are well formed exactly where this does not make up a model.
-/

namespace ApiSync
namespace Schema

open Text Annotation

/-! ## Forms -/

/-- Values of an enumeration: at least one, in strictly ascending order, made of the characters of
tokens. -/
structure IsEnumeration (tokens : List String) : Prop where
  nonempty : tokens ≠ []
  ascending : Ascending tokens
  token : ∀ t ∈ tokens, t ≠ "" ∧ t.toList.all isEnumChar = true

/-- A name that a reference may have: a capitalised word that was found.  Only the item of an array
may be a keyword. -/
structure NamesFound (found : List (List Char)) (item : Bool) (model : String) : Prop where
  word : IsWord model.toList
  upper : startsUpper model.toList = true
  found : model.toList ∈ found
  noKeyword : item = false → model ∉ typingKeywords

/-- The written form of a schema, as an item of an array or by itself.  A null may be admitted by
each form but a reference, which has no other key. -/
inductive WellResolved (found : List (List Char)) : Bool → Fields → Prop
  | enumeration {item : Bool} {tokens : List String} (nullable : Bool) (h : IsEnumeration tokens) :
    WellResolved found item
      (withNullable nullable [("type", .str "string"), ("enum", .ofStrings tokens)])
  | union {item : Bool} {models : List String} (nullable : Bool) (hne : models ≠ [])
      (h : ∀ m ∈ models, NamesFound found false m) :
    WellResolved found item
      (withNullable nullable [("oneOf", .list (models.map fun m => .map (refFields m)))])
  | array {item : Bool} {items : Fields} (nullable : Bool) (h : WellResolved found true items) :
    WellResolved found item
      (withNullable nullable [("type", .str "array"), ("items", .map items)])
  | plain {item : Bool} (type : PlainType) (nullable : Bool) :
    WellResolved found item (withNullable nullable [("type", .str type.name)])
  | ref {item : Bool} {model : String} (h : NamesFound found item model) :
    WellResolved found item (refFields model)

/-- The same for a schema that is not written yet. -/
def Resolved (found : List (List Char)) : Bool → Schema → Prop
  | _, .enumeration tokens _ => IsEnumeration tokens
  | _, .composition kind models _ =>
    kind = .oneOf ∧ models ≠ [] ∧ ∀ m ∈ models, NamesFound found false m
  | _, .array items _ => Resolved found true items
  | _, .plain _ _ => True
  | item, .ref model => NamesFound found item model

section

variable {found found' : List (List Char)} {item : Bool} {s : Schema}

theorem Resolved.wellResolved (h : Resolved found item s) : WellResolved found item s.toFields := by
  induction s generalizing item with
  | enumeration tokens n => exact .enumeration n h
  | composition kind models n =>
    obtain ⟨rfl, hne, hmodels⟩ := h
    exact .union n hne hmodels
  | array items n ih => exact .array n (ih h)
  | plain type n => exact .plain type n
  | ref model => exact .ref h

theorem resolved_makeNullable : Resolved found item s.makeNullable ↔ Resolved found item s := by
  cases s <;> exact Iff.rfl

theorem NamesFound.mono (hsub : found ⊆ found') {model : String}
    (h : NamesFound found item model) : NamesFound found' item model :=
  { h with found := hsub h.found }

theorem Resolved.mono (hsub : found ⊆ found') (h : Resolved found item s) :
    Resolved found' item s := by
  induction s generalizing item with
  | enumeration tokens n => exact h
  | composition kind models n => exact ⟨h.1, h.2.1, fun m hm => (h.2.2 m hm).mono hsub⟩
  | array items n ih => exact ih h
  | plain type n => trivial
  | ref model => exact NamesFound.mono hsub h

/-- What a schema may be by itself it may be as an item. -/
theorem Resolved.as_item (h : Resolved found false s) : Resolved found true s := by
  cases s with
  | ref model => exact { h with noKeyword := fun hitem => nomatch hitem }
  | _ => exact h

theorem head?_withNullable (nullable : Bool) (entry : String × Value) (rest : Fields) :
    (withNullable nullable (entry :: rest)).head? = some entry := by
  cases nullable <;> rfl

/-- In a union every reference is to what was found. -/
theorem WellResolved.found_of_composition {kind : Composition} {models : List String} {n : Bool}
    (h : WellResolved found item (composition kind models n).toFields) {model : String}
    (hm : model ∈ models) : model.toList ∈ found := by
  have hfirst : (composition kind models n).toFields.head? =
      some (kind.key, .list (models.map fun m => .map (refFields m))) :=
    head?_withNullable n _ []
  have htype : "type" ≠ kind.key ∧ "$ref" ≠ kind.key := by cases kind <;> decide
  -- The first entry tells the forms apart.
  generalize (composition kind models n).toFields = fields at h hfirst
  have hkey : ∀ {entry : String × Value} {rest : Fields} {nullable : Bool},
      fields = withNullable nullable (entry :: rest) →
        entry.1 = kind.key ∧ entry.2 = .list (models.map fun m => .map (refFields m)) := by
    intro entry rest nullable heq
    rw [heq, head?_withNullable] at hfirst
    rw [Option.some.inj hfirst]
    exact ⟨rfl, rfl⟩
  cases h with
  | enumeration => exact absurd (hkey rfl).1 htype.1
  | @union _ names _ _ hnames =>
    have hmem : Value.map (refFields model) ∈ names.map fun m => .map (refFields m) := by
      rw [Value.list.inj (hkey rfl).2]
      exact List.mem_map_of_mem hm
    obtain ⟨name, hname, href⟩ := List.mem_map.mp hmem
    have hsame : (Schema.ref name).toFields = refFields model := Value.map.inj href
    obtain rfl := Schema.ref.inj (toFields_eq_refFields_iff.mp hsame)
    exact (hnames name hname).found
  | array => exact absurd (hkey rfl).1 htype.1
  | plain => exact absurd (hkey rfl).1 htype.1
  | ref => exact absurd (Prod.mk.inj (Option.some.inj hfirst)).1 htype.2

end

/-! ## Enumerations -/

theorem enumToken?_eq_some {piece : List Char} {token : String}
    (h : enumToken? piece = some token) : token ≠ "" ∧ token.toList.all isEnumChar = true := by
  rw [enumToken?] at h
  split at h
  · next hplain =>
    obtain rfl := Option.some.inj h
    rw [String.toList_ofList]
    refine ⟨fun hempty => hplain.1 ?_, hplain.2⟩
    have hlist := congrArg String.toList hempty
    rwa [String.toList_ofList] at hlist
  · cases h

theorem isEnumeration_literalTokens {text : List Char} (h : literalTokens text ≠ []) :
    IsEnumeration (literalTokens text) := by
  rw [literalTokens_eq] at h ⊢
  split at h
  · exact absurd rfl h
  · next inside hinside =>
    refine ⟨h, ascending_sortNames_distinct _, fun t ht => ?_⟩
    obtain ⟨piece, -, hpiece⟩ := List.mem_filterMap.mp (mem_sortNames_distinct.mp ht)
    exact enumToken?_eq_some hpiece

theorem resolved_literal? {text : List Char} {s : Schema} (h : literal? text = some s)
    (found : List (List Char)) (item : Bool) : Resolved found item s := by
  rw [literal?] at h
  split at h
  · cases h
  · next tokens htokens =>
    obtain rfl := Option.some.inj h
    exact isEnumeration_literalTokens htokens

/-! ## Names -/

theorem namesFound_of_modelNames {exclude : List String} (hexclude : typingKeywords ⊆ exclude)
    {text : List Char} {model : String} (h : model ∈ modelNames exclude text)
    {found : List (List Char)} (hfound : model.toList ∈ found) (item : Bool) :
    NamesFound found item model := by
  obtain ⟨hword, hupper, hnot⟩ := mem_modelNames_iff.mp h
  exact ⟨isWord_of_mem_words hword, hupper, hfound, fun _ hkeyword => hnot (hexclude hkeyword)⟩

theorem namesFound_modelName? {text : List Char} {model : String} (h : modelName? text = some model)
    (item : Bool) : NamesFound (words text) item model := by
  have hmem := List.mem_of_mem_head? h
  exact namesFound_of_modelNames (List.Subset.refl _) hmem (mem_modelNames_iff.mp hmem).1 item

theorem namesFound_unionModels {text : List Char} {model : String} (h : model ∈ unionModels text)
    {found : List (List Char)} (hfound : model.toList ∈ found) (item : Bool) :
    NamesFound found item model :=
  namesFound_of_modelNames (fun _ hk => List.mem_append_left _ hk)
    (mem_modelNames_of_unionModels h) hfound item

/-- The item name of a list is a word by itself. -/
theorem word_of_itemName? {inside name : List Char} (h : itemName? inside = some name) :
    IsWord name ∧ name ∈ words inside := by
  obtain ⟨hname, hne⟩ := eq_takeWhile_of_itemName? h
  have hword : IsWord name := by
    refine ⟨hne, fun c hc => ?_⟩
    rw [← hname] at hc
    exact List.mem_takeWhile_imp hc
  have hblanks : ∀ c ∈ inside.takeWhile isBlank, isBlank c = true := fun c hc =>
    List.mem_takeWhile_imp hc
  have hinside : inside = inside.takeWhile isBlank ++
      (name ++ (trimStart inside).dropWhile isWordChar) := by
    rw [← hname, List.takeWhile_append_dropWhile, trimStart, List.takeWhile_append_dropWhile]
  refine ⟨hword, ?_⟩
  rw [hinside, splits_words.blanks_append hblanks, words_word hword (startsWithWord_dropWhile _)]
  exact List.mem_cons_self

theorem namesFound_listItem? {text name : List Char} (h : listItem? text = some name)
    (hupper : startsUpper name = true) : NamesFound (words text) true (String.ofList name) := by
  obtain ⟨front, inside, rfl, hitem⟩ := exists_of_listItem? h
  obtain ⟨hword, hmem⟩ := word_of_itemName? hitem
  constructor
  · rwa [String.toList_ofList]
  · rwa [String.toList_ofList]
  · rw [String.toList_ofList, words_append_cons (by decide)]
    exact List.mem_append_right _ hmem
  · exact fun hitem => nomatch hitem

/-! ## Annotations -/

/-- The models found for a union are words of the text itself.  An enumeration is found first. -/
def UnionWords (text : List Char) : Prop :=
  literalTokens text = [] → ∀ m ∈ unionModels (unwrapOptional text).inner, m.toList ∈ words text

instance : DecidablePred UnionWords := fun text =>
  inferInstanceAs (Decidable (literalTokens text = [] →
    ∀ m ∈ unionModels (unwrapOptional text).inner, m.toList ∈ words text))

theorem unionWords_of_groupsApart {text : List Char} (h : GroupsApart text) : UnionWords text :=
  fun _ _ hm => mem_words_of_unionModels h hm

section

variable {text : List Char}

theorem resolved_typed? {s : Schema} (h : typed? text = some s) (found : List (List Char))
    (item : Bool) : Resolved found item s := by
  rcases firstNamed?_cases h with rfl | ⟨type, rfl⟩
  · trivial
  · trivial

theorem resolved_primitive (text : List Char) (item : Bool) :
    Resolved (words text) item (primitive text) := by
  rw [primitive_eq]
  cases htyped : typed? text with
  | some s => exact resolved_typed? htyped _ item
  | none =>
    cases hmodel : modelName? text with
    | none => trivial
    | some model => exact namesFound_modelName? hmodel item

/-- Without an enumeration the models of a union come first. -/
theorem ofTypeText_eq_union (hliteral : literalTokens text = []) {model : String}
    (h : model ∈ unionModels (unwrapOptional text).inner) :
    ofTypeText text = .composition .oneOf (unionModels (unwrapOptional text).inner)
      (unwrapOptional text).nullable := by
  rw [ofTypeText, (literal?_eq_none_iff text).mpr hliteral]
  dsimp only
  rw [union?]
  cases hmodels : unionModels (unwrapOptional text).inner with
  | nil =>
    rw [hmodels] at h
    cases h
  | cons first rest => rfl

theorem resolved_ofTypeText (h : UnionWords text) :
    Resolved (words text) false (ofTypeText text) := by
  cases hliteral : literal? text with
  | some s =>
    rw [ofTypeText, hliteral]
    exact resolved_literal? hliteral _ false
  | none =>
    have hnone := (literal?_eq_none_iff text).mp hliteral
    cases hmodels : unionModels (unwrapOptional text).inner with
    | nil =>
      rw [ofTypeText, hliteral]
      dsimp only
      rw [(union?_eq_none_iff _ _ _).mpr hmodels]
      exact resolved_primitive text false
    | cons first rest =>
      have hne : unionModels (unwrapOptional text).inner ≠ [] := by
        rw [hmodels]
        exact List.cons_ne_nil first rest
      rw [ofTypeText_eq_union hnone (List.head_mem hne)]
      exact ⟨rfl, hne, fun m hm => namesFound_unionModels hm (h hnone m hm) false⟩

theorem unionWords_of_wellResolved
    (h : WellResolved (words text) false (ofTypeText text).toFields) : UnionWords text := by
  intro hliteral m hm
  rw [ofTypeText_eq_union hliteral hm] at h
  exact h.found_of_composition hm

/-! ## Hints -/

/-- The hint as a text, empty if there is none. -/
def AttributeContext.hintText (context : AttributeContext) : List Char := context.hint.getD []

variable {context : AttributeContext}

/-- What a hint that is not empty resolves to. -/
def ofHintText (hint : List Char) : Schema :=
  match ofTypeText hint with
  | .array items n => .array (if mentionsMapping hint then .plain .object false else items) n
  | s => s

theorem ofHint?_eq (context : AttributeContext) :
    ofHint? context.hint =
      if context.hintText = [] then none else some (ofHintText context.hintText) := by
  rw [AttributeContext.hintText]
  cases context.hint with
  | none => rfl
  | some hint =>
    cases hint with
    | nil => rfl
    | cons c hint =>
      rw [Option.getD_some, if_neg (List.cons_ne_nil c hint), ofHintText, ofHint?]
      · cases ofTypeText (c :: hint) <;> rfl
      · exact List.cons_ne_nil c hint

theorem resolved_ofHint? (h : UnionWords context.hintText) {s : Schema}
    (hs : ofHint? context.hint = some s) : Resolved (words context.hintText) false s := by
  have hresolved := resolved_ofTypeText h
  rw [ofHint?_eq] at hs
  split at hs
  · cases hs
  · obtain rfl := Option.some.inj hs
    rw [ofHintText]
    split
    · next items n harray =>
      rw [harray] at hresolved
      cases mentionsMapping context.hintText with
      | true => trivial
      | false => exact hresolved
    · exact hresolved

theorem unionWords_hintText (h : ∀ s, ofHint? context.hint = some s →
    WellResolved (words context.hintText) false s.toFields) : UnionWords context.hintText := by
  by_cases hempty : context.hintText = []
  · rw [hempty]
    decide
  · intro hliteral m hm
    have hschema := h (ofHintText context.hintText) (by rw [ofHint?_eq, if_neg hempty])
    rw [ofHintText, ofTypeText_eq_union hliteral hm] at hschema
    exact hschema.found_of_composition hm

/-! ## Attributes -/

theorem resolved_arrayItems (h : UnionWords context.hintText) (text : List Char) :
    Resolved (words text ++ words context.hintText) true (arrayItems text context) := by
  rw [arrayItems]
  split
  · trivial
  · split
    · trivial
    · next name hname =>
      split
      · cases hs : ofHint? context.hint with
        | none => trivial
        | some s =>
          have hhint := (resolved_ofHint? h hs).mono (List.subset_append_right (words text) _)
          cases s with
          | array items n => exact hhint
          | _ => exact hhint.as_item
      · split
        · next hupper =>
          exact (namesFound_listItem? hname hupper).mono (List.subset_append_left _ _)
        · trivial

theorem resolved_attributeNamed (h : UnionWords context.hintText) (text : List Char) :
    Resolved (words text ++ words context.hintText) false
      (attributeNamed context (modelName? text)) := by
  cases hmodel : modelName? text with
  | none => trivial
  | some model =>
    rw [attributeNamed]
    split
    · cases hs : ofHint? context.hint with
      | none => trivial
      | some s => exact (resolved_ofHint? h hs).mono (List.subset_append_right _ _)
    · exact (namesFound_modelName? hmodel false).mono (List.subset_append_left _ _)

/-- The schema of an attribute reads unions in its hint only. -/
theorem resolved_ofAttribute (h : UnionWords context.hintText) (text : List Char) :
    Resolved (words text ++ words context.hintText) false (ofAttribute text context) := by
  have hbase : Resolved (words text ++ words context.hintText) false
      (attributeBase text context) := by
    rw [attributeBase_eq]
    cases hliteral : literal? text with
    | some s => exact resolved_literal? hliteral _ false
    | none =>
      cases htyped : attributeTyped? text context with
      | some s =>
        rcases firstNamed?_cases htyped with rfl | ⟨type, rfl⟩
        · exact resolved_arrayItems h text
        · trivial
      | none => exact resolved_attributeNamed h text
  rw [ofAttribute]
  split
  · exact resolved_makeNullable.mpr hbase
  · exact hbase

end

/-! ## All schemas of a text -/

/-- The schemas that a text resolves to as an annotation, with its hint for what is generic in it,
and as an attribute are well formed: their references are to words of the text and of the hint. -/
structure ResolvesWell (text : List Char) (context : AttributeContext) : Prop where
  resolved : WellResolved (words text) false (ofTypeText text).toFields
  hinted : ∀ s, ofHint? context.hint = some s →
    WellResolved (words context.hintText) false s.toFields
  inferred : WellResolved (words text ++ words context.hintText) false
    (ofAttribute text context).toFields

theorem resolvesWell_of_unionWords {text : List Char} {context : AttributeContext}
    (htext : UnionWords text) (hhint : UnionWords context.hintText) : ResolvesWell text context :=
  ⟨(resolved_ofTypeText htext).wellResolved, fun _ hs => (resolved_ofHint? hhint hs).wellResolved,
    (resolved_ofAttribute hhint text).wellResolved⟩

/-- The schemas are well formed exactly if the models of unions are words of the annotation and of
the hint, and they are wherever groups stand apart from words and from each other. -/
theorem resolvesWell_iff (text : List Char) (context : AttributeContext) :
    (ResolvesWell text context ↔ UnionWords text ∧ UnionWords context.hintText) ∧
      (GroupsApart text → GroupsApart context.hintText → ResolvesWell text context) := by
  refine ⟨⟨fun h => ?_, fun h => resolvesWell_of_unionWords h.1 h.2⟩, fun htext hhint => ?_⟩
  · exact ⟨unionWords_of_wellResolved h.resolved, unionWords_hintText h.hinted⟩
  · exact resolvesWell_of_unionWords (unionWords_of_groupsApart htext)
      (unionWords_of_groupsApart hhint)

/-- Groups in a list of members, and a hint that is one. -/
theorem resolvesWell_of_groups :
    ResolvesWell "Union[A, (B | C), None]".toList ⟨["T"], some "((D | E) | F)".toList⟩ :=
  (resolvesWell_iff _ _).2 (by decide) (by decide)

/-- A word directly in front of a group runs together with the first one inside. -/
theorem not_resolvesWell_of_joined : ¬ResolvesWell "Foo(A | B)".toList noContext := fun h =>
  absurd (unionWords_of_wellResolved h.resolved) (by decide)

end Schema
end ApiSync
