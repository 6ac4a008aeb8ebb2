import ApiSync.Proofs.Model.WellFormed
import ApiSync.Proofs.Text
/-!
# The attributes of a component

The annotation that counts for an attribute is the last one that the first `__init__` of its class
gives it, whatever is assigned before and after.  The schemas of the attributes stand in the
component itself, or beside the references to its bases.
-/

namespace ApiSync

namespace Fields

variable {α : Type}

theorem get?_append (a b : List (String × α)) (k : String) :
    get? (a ++ b) k = (get? a k).or (get? b k) := by
  induction a with
  | nil => rw [List.nil_append, get?_nil, Option.none_or]
  | cons e rest ih =>
    rw [List.cons_append, get?_cons, get?_cons, ih]
    by_cases h : e.1 = k
    · rw [if_pos h, if_pos h, Option.some_or]
    · rw [if_neg h, if_neg h]

/-- Entries with distinct keys, set on top of others, are found first. -/
theorem get?_setAll (fields : List (String × α)) {upper : List (String × α)}
    (h : (keys upper).Nodup) (k : String) :
    get? (setAll fields upper) k = (get? upper k).or (get? fields k) := by
  induction upper generalizing fields with
  | nil => rfl
  | cons e rest ih =>
    obtain ⟨hnew, hrest⟩ := List.nodup_cons.mp h
    have hset : get? (setAll fields (e :: rest)) k = _ := ih (set fields e.1 e.2) hrest
    rw [hset, get?_set, get?_cons]
    by_cases hk : e.1 = k
    · have hnone : get? rest k = none := get?_eq_none_iff.mpr (hk ▸ hnew)
      rw [if_pos hk, if_pos hk, hnone, Option.none_or, Option.some_or]
    · rw [if_neg hk, if_neg hk]

theorem keys_map {β : Type} (f : String → α → β) (fields : List (String × α)) :
    keys (fields.map fun e => (e.1, f e.1 e.2)) = keys fields := by
  rw [keys, List.map_map]
  rfl

theorem get?_setAll_of_not_mem {fields upper : List (String × α)} {k : String}
    (h : k ∉ keys upper) : get? (setAll fields upper) k = get? fields k :=
  List.foldlRecOn (motive := fun acc => get? acc k = get? fields k) upper _ rfl
    fun acc hacc e he => by
      rw [get?_set, if_neg, hacc]
      rintro rfl
      exact h (List.mem_map_of_mem he)

end Fields

namespace Model

open Python

/-! ## Assignments of a statement -/

/-- The type that a statement annotates an attribute with. -/
def annotates? (attr : String) : Statement → Option Expr
  | .expression (e :: _) =>
    match e.form with
    | .assignment target (some type) _ =>
      if ownAttribute? target = some attr then some type else none
    | _ => none
  | _ => none

/-- The last annotation that the first `__init__` of a class gives an attribute. -/
def annotationOf? (attr : String) (body : List Statement) : Option Expr :=
  ((functions body).find? (·.name = "__init__")).bind fun init =>
    init.body.reverse.findSome? (annotates? attr)

/-- The statements of the first `__init__` of a class. -/
def initBody (body : List Statement) : List Statement :=
  (((functions body).find? (·.name = "__init__")).map Definition.body).getD []

/-- The attributes that a statement assigns, each as a whole target. -/
def assigned : Statement → List String
  | .expression (e :: _) =>
    match e.form with
    | .assignment target (some _) _ => (ownAttribute? target).toList
    | .assignment _ none _ => (chain e).1.filterMap ownAttribute?
    | _ => []
  | _ => []

/-- The type of the literal that a statement without an annotation assigns to an attribute. -/
def literalOf? (attr : String) : Statement → Option String
  | .expression (e :: _) =>
    match e.form with
    | .assignment _ none _ =>
      if attr ∈ (chain e).1.filterMap ownAttribute? then some (literalType (chain e).2) else none
    | _ => none
  | _ => none

/-- The text from which the schema of an attribute is inferred: its last annotation, or the type of
the literal that is assigned to it first. -/
def typeText? (aliases : Alias.Table) (attr : String) (ss : List Statement) : Option String :=
  ((ss.reverse.findSome? (annotates? attr)).map (annotationText aliases)).or
    (ss.findSome? (literalOf? attr))

/-- Nothing is assigned to an attribute. -/
structure Idle (s : Statement) : Prop where
  keeps : ∀ aliases table, addAssignment aliases table s = table
  assigned : assigned s = []
  annotates : ∀ attr, annotates? attr s = none
  literal : ∀ attr, literalOf? attr s = none

/-- A statement annotates one target, assigns to a chain of targets, or is idle. -/
theorem assignment_cases (s : Statement) :
    (∃ text target type value more,
      s = .expression (.mk text (.assignment target (some type) value) :: more)) ∨
    (∃ text target value more,
      s = .expression (.mk text (.assignment target none value) :: more)) ∨ Idle s := by
  cases s with
  | expression children =>
    cases children with
    | nil => exact .inr (.inr ⟨fun _ _ => rfl, rfl, fun _ => rfl, fun _ => rfl⟩)
    | cons e more =>
      obtain ⟨text, form⟩ := e
      cases form with
      | assignment target type value =>
        cases type with
        | some type => exact .inl ⟨text, target, type, value, more, rfl⟩
        | none => exact .inr (.inl ⟨text, target, value, more, rfl⟩)
      | _ => exact .inr (.inr ⟨fun _ _ => rfl, rfl, fun _ => rfl, fun _ => rfl⟩)
  | _ => exact .inr (.inr ⟨fun _ _ => rfl, rfl, fun _ => rfl, fun _ => rfl⟩)

theorem addAssignment_annotated (aliases : Alias.Table) (table : AnnotationTable) (text : String)
    (target type : Expr) (value : Option Expr) (more : List Expr) :
    addAssignment aliases table
        (.expression (.mk text (.assignment target (some type) value) :: more)) =
      ((ownAttribute? target).map fun attr =>
        Fields.set table attr (annotationText aliases type)).getD table := by
  simp only [addAssignment, Expr.form]
  cases ownAttribute? target <;> rfl

theorem annotationOf?_eq (attr : String) (body : List Statement) :
    annotationOf? attr body = (initBody body).reverse.findSome? (annotates? attr) := by
  rw [annotationOf?, initBody]
  cases (functions body).find? (·.name = "__init__") <;> rfl

theorem initAnnotations_eq (aliases : Alias.Table) (body : List Statement) :
    initAnnotations aliases body = (initBody body).foldl (addAssignment aliases) [] := by
  rw [initAnnotations, initBody]
  cases (functions body).find? (·.name = "__init__") <;> rfl

/-! ## Their texts -/

section

variable (aliases : Alias.Table) (attr : String)

theorem get?_addLiteral (type other : String) (table : AnnotationTable) :
    Fields.get? (addLiteral type table other) attr =
      (Fields.get? table attr).or (if other = attr then some type else none) := by
  rw [addLiteral, Fields.has_eq_isSome]
  by_cases hsame : other = attr
  · subst hsame
    rw [if_pos rfl]
    cases hget : Fields.get? table other with
    | some text =>
      rw [Option.isSome_some, if_pos rfl, hget]
      rfl
    | none =>
      rw [Option.isSome_none, if_neg Bool.false_ne_true, Fields.get?_set, if_pos rfl,
        Option.none_or]
  · rw [if_neg hsame, Option.or_none]
    split
    · rfl
    · rw [Fields.get?_set, if_neg hsame]

theorem get?_foldl_addLiteral (type : String) (names : List String) (table : AnnotationTable) :
    Fields.get? (names.foldl (addLiteral type) table) attr =
      (Fields.get? table attr).or (if attr ∈ names then some type else none) := by
  induction names generalizing table with
  | nil => rw [List.foldl_nil, if_neg List.not_mem_nil, Option.or_none]
  | cons name names ih =>
    rw [List.foldl_cons, ih, get?_addLiteral, Option.or_assoc]
    congr 1
    by_cases hname : name = attr
    · simp [hname]
    · have hne : attr ≠ name := fun h => hname h.symm
      simp [hname, hne]

/-- An annotation replaces the text of an attribute, and the type of a literal only fills in. -/
theorem get?_addAssignment (table : AnnotationTable) (s : Statement) :
    Fields.get? (addAssignment aliases table s) attr =
      ((annotates? attr s).map (annotationText aliases)).or
        ((Fields.get? table attr).or (literalOf? attr s)) := by
  rcases assignment_cases s with ⟨text, target, type, value, more, rfl⟩ |
    ⟨text, target, value, more, rfl⟩ | hidle
  · rw [addAssignment_annotated]
    show _ = ((if ownAttribute? target = some attr then some type else none).map
      (annotationText aliases)).or ((Fields.get? table attr).or none)
    rw [Option.or_none]
    cases ownAttribute? target with
    | none => rfl
    | some own =>
      rw [Option.map_some, Option.getD_some, Fields.get?_set]
      by_cases hown : own = attr
      · rw [if_pos hown, if_pos (congrArg some hown)]
        rfl
      · rw [if_neg hown, if_neg fun h => hown (Option.some.inj h)]
        rfl
  · exact get?_foldl_addLiteral attr _ _ table
  · rw [hidle.keeps, hidle.annotates, hidle.literal, Option.or_none]
    rfl

theorem get?_foldl_addAssignment (ss : List Statement) (table : AnnotationTable) :
    Fields.get? (ss.foldl (addAssignment aliases) table) attr =
      ((ss.reverse.findSome? (annotates? attr)).map (annotationText aliases)).or
        ((Fields.get? table attr).or (ss.findSome? (literalOf? attr))) := by
  induction ss generalizing table with
  | nil => exact (Option.or_none).symm
  | cons s ss ih =>
    rw [List.foldl_cons, ih, get?_addAssignment, List.reverse_cons, List.findSome?_append,
      List.findSome?_singleton, Option.map_or, List.findSome?_cons]
    simp only [Option.or_assoc]
    congr 3
    cases literalOf? attr s <;> rfl

theorem get?_initAnnotations (body : List Statement) :
    Fields.get? (initAnnotations aliases body) attr = typeText? aliases attr (initBody body) := by
  rw [initAnnotations_eq, get?_foldl_addAssignment, Fields.get?_nil, Option.none_or]
  rfl

end

theorem nodup_addAssignment (aliases : Alias.Table) {table : AnnotationTable}
    (h : (Fields.keys table).Nodup) (s : Statement) :
    (Fields.keys (addAssignment aliases table s)).Nodup := by
  rcases assignment_cases s with ⟨text, target, type, value, more, rfl⟩ |
    ⟨text, target, value, more, rfl⟩ | hidle
  · rw [addAssignment_annotated]
    cases ownAttribute? target with
    | none => exact h
    | some attr => exact Fields.nodup_keys_set h _ _
  · refine List.foldlRecOn (motive := fun t : AnnotationTable => (Fields.keys t).Nodup) _ _ h
      fun t ht attr _ => ?_
    rw [addLiteral]
    split
    · exact ht
    · exact Fields.nodup_keys_set ht _ _
  · rw [hidle.keeps]
    exact h

theorem nodup_initAnnotations (aliases : Alias.Table) (body : List Statement) :
    (Fields.keys (initAnnotations aliases body)).Nodup := by
  rw [initAnnotations]
  split
  · exact List.nodup_nil
  · exact List.foldlRecOn (motive := fun t : AnnotationTable => (Fields.keys t).Nodup) _ _
      List.nodup_nil fun t ht s _ => nodup_addAssignment aliases ht s

/-! ## The schemas of the attributes -/

namespace Class

variable (c : Class)

theorem schemas_foldl (attrs : AnnotationTable) (p : Properties) :
    (attrs.foldl c.addProperty p).schemas = Fields.setAll p.schemas (attrs.map fun e =>
      (e.1, .map (c.propertySchema e.1 (Alias.expand c.aliases e.2).toList))) := by
  induction attrs generalizing p with
  | nil => rfl
  | cons e rest ih => exact ih (c.addProperty p e)

/-- The schema of an attribute follows from the annotation that counts for it. -/
theorem get?_schemas {attr : String} {type : Expr}
    (h : annotationOf? attr c.definition.body = some type) :
    Fields.get? c.properties.schemas attr = some (.map (c.propertySchema attr
      (Alias.expand c.aliases (annotationText c.aliases type)).toList)) := by
  have hannotation : typeText? c.aliases attr (initBody c.definition.body) =
      some (annotationText c.aliases type) := by
    rw [typeText?, ← annotationOf?_eq, h]
    rfl
  rw [properties, schemas_foldl, Fields.get?_setAll,
    Fields.get?_map fun attr text =>
      Value.map (c.propertySchema attr (Alias.expand c.aliases text).toList),
    get?_initAnnotations, hannotation]
  · rfl
  · rw [Fields.keys_map fun attr text =>
      Value.map (c.propertySchema attr (Alias.expand c.aliases text).toList)]
    exact nodup_initAnnotations c.aliases c.definition.body

end Class

/-! ## Their place in the component -/

/-- The schemas of the attributes in the component of a class. -/
def attributesOf (component : Fields) : Fields :=
  match Fields.get? component "allOf" with
  | some (.list parts) =>
    ((parts.getLast?.bind Value.asMap?).map (Value.fieldsAt · "properties")).getD []
  | _ => Value.fieldsAt component "properties"

/-- The extensions of decorators are told by how their keys start. -/
def Decorators.Marked (d : Decorators) : Prop :=
  ∀ k ∈ Fields.keys d.extensions, Text.hasPrefix k "x-" = true

theorem hasPrefix_extensionKey (name : String) :
    Text.hasPrefix (Alias.extensionKey name) "x-" = true := by
  rw [Alias.extensionKey]
  split
  · next h => exact h
  · exact Text.hasPrefix_iff.mpr ⟨name, rfl⟩

namespace Decorators

variable {d : Decorators}

theorem Marked.addExtension (h : d.Marked) (a : Attribute) : (d.addExtension a).Marked := by
  intro k hk
  rw [Decorators.addExtension, Attribute.addTo] at hk
  split at hk
  · exact h k hk
  · exact h k hk
  · obtain ⟨e, he, rfl⟩ := List.mem_map.mp hk
    rcases Fields.mem_set he with rfl | hold
    · exact hasPrefix_extensionKey _
    · exact h e.1 (List.mem_map_of_mem hold)

theorem Marked.step {d' : Decorators} (h : d.Marked) (hstep : Step d d') : d'.Marked := by
  cases hstep with
  | component => exact h
  | extension a => exact h.addExtension a
  | property => exact h
  | shared => exact h

theorem marked_read (table : AttributeTable) (c : Definition) : Gives (read table c) Marked :=
  gives_read (fun _ hk => absurd hk List.not_mem_nil) (fun _ _ h hstep => h.step hstep) table c

end Decorators

namespace Class

variable {c : Class}

theorem get?_requiredEntry {key : String} (h : key ≠ "required") (p : Properties) :
    Fields.get? (requiredEntry p) key = none := by
  rw [requiredEntry]
  split
  · rfl
  · rw [Fields.get?_cons, if_neg h.symm, Fields.get?_nil]

/-- Neither the description nor the extensions take the place of another entry. -/
theorem get?_completed {key : String} (h : c.decorators.Marked)
    (hkey : Text.hasPrefix key "x-" = false) (hdescription : key ≠ "description")
    (start : Fields) :
    Fields.get? (Fields.setAll (start ++ c.descriptionEntry) c.decorators.extensions) key =
      Fields.get? start key := by
  have hextension : key ∉ Fields.keys c.decorators.extensions := by
    intro hmem
    rw [h key hmem] at hkey
    cases hkey
  have hnone : Fields.get? c.descriptionEntry key = none := by
    rw [descriptionEntry]
    split
    · rfl
    · rw [Fields.get?_cons, if_neg hdescription.symm, Fields.get?_nil]
  rw [Fields.get?_setAll_of_not_mem hextension, Fields.get?_append, hnone, Option.or_none]

/-- The last part of a class with model bases holds its attributes, if it has any. -/
theorem attributesOf_parts {models : List String} (hmodels : models ≠ []) (p : Properties) :
    (((models.map fun m => Value.map (Schema.refFields m)) ++ ownPart p).getLast?.bind
      Value.asMap?).map (Value.fieldsAt · "properties") = some p.schemas := by
  have hlast : ∀ fields : Fields, ownPart p = [.map fields] →
      Value.fieldsAt fields "properties" = p.schemas →
      (((models.map fun m => Value.map (Schema.refFields m)) ++ ownPart p).getLast?.bind
        Value.asMap?).map (Value.fieldsAt · "properties") = some p.schemas := by
    intro fields hown hfields
    rw [hown, List.getLast?_concat, ← hfields]
    rfl
  by_cases hschemas : p.schemas = []
  · by_cases hrequired : p.required = []
    · have hown : ownPart p = [] := by
        rw [ownPart, if_pos hschemas, requiredEntry, if_pos hrequired]
        rfl
      rw [hown, List.append_nil, List.getLast?_map, List.getLast?_eq_some_getLast hmodels,
        hschemas]
      rfl
    · refine hlast [("required", .ofStrings p.required)] ?_ ?_
      · rw [ownPart, if_pos hschemas, requiredEntry, if_neg hrequired]
        rfl
      · rw [hschemas]
        rfl
  · refine hlast (("properties", .map p.schemas) :: requiredEntry p) ?_ ?_
    · rw [ownPart, if_neg hschemas]
      rfl
    · exact Value.fieldsAt_of_get? (by rw [Fields.get?_cons, if_pos rfl])

theorem attributesOf_schema (hblock : c.blocks.replacement = none) (h : c.decorators.Marked) :
    attributesOf c.schema = c.properties.schemas := by
  have hget := fun {key : String} (hkey : Text.hasPrefix key "x-" = false)
    (hdescription : key ≠ "description") => get?_completed h hkey hdescription
  rw [schema, hblock]
  show attributesOf c.inferredSchema = _
  unfold inferredSchema
  extract_lets p start
  cases hbases : bases c.typeVars c.definition with
  | nil =>
    have hstart : start =
        ("type", .str "object") :: ("properties", .map p.schemas) :: requiredEntry p := by
      dsimp only [start]
      rw [hbases]
    have hall : Fields.get? start "allOf" = none := by
      rw [hstart, Fields.get?_cons, if_neg (by simp), Fields.get?_cons, if_neg (by simp),
        get?_requiredEntry (by decide)]
    have hproperties : Fields.get? start "properties" = some (.map p.schemas) := by
      rw [hstart, Fields.get?_cons, if_neg (by simp), Fields.get?_cons, if_pos rfl]
    rw [attributesOf, hget (by decide) (by decide), hall]
    exact Value.fieldsAt_of_get? ((hget (by decide) (by decide) start).trans hproperties)
  | cons model more =>
    have hall : Fields.get? start "allOf" =
        some (.list ((model :: more).map (fun m => .map (Schema.refFields m)) ++ ownPart p)) := by
      dsimp only [start]
      rw [hbases]
      rfl
    rw [attributesOf, hget (by decide) (by decide), hall]
    dsimp only
    rw [attributesOf_parts (List.cons_ne_nil model more) p]
    rfl

end Class

end Model
end ApiSync
