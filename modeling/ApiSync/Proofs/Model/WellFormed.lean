import ApiSync.Model.Component
import ApiSync.Proofs.Failing
import ApiSync.Proofs.Yaml.WellFormed
/-!
# Component schemas are well formed

A schema takes its entries from inferred types, from documentation blocks and from the constants
of decorators.  Blocks are values of YAML texts and constants are scalars, and all of them are
written by key, so no mapping in the schema of a class repeats one.
-/

namespace ApiSync

open Fields (WellFormed Each)

namespace Python

theorem Constant.wellFormed_toValue (c : Constant) : c.toValue.WellFormed := by
  cases c <;> trivial

theorem wellFormed_constantEntries (entries : List DictEntry) {acc : Fields}
    (h : WellFormed acc) :
    Gives (constantEntries acc entries) fun result => ∀ fields, result = some fields →
      WellFormed fields := by
  induction entries generalizing acc with
  | nil =>
    refine gives_pure fun fields heq => ?_
    cases heq
    exact h
  | cons entry rest ih =>
    cases entry with
    | unpacked => exact gives_pure fun _ heq => nomatch heq
    | pair key value =>
      rw [constantEntries]
      refine (gives_self _).bind fun k _ => ?_
      split
      · exact gives_pure fun _ heq => nomatch heq
      · refine (gives_self _).bind fun v _ => ?_
        split
        · exact gives_pure fun _ heq => nomatch heq
        · exact ih (h.assign _ (Constant.wellFormed_toValue _))

theorem wellFormed_constantDict? (e : Expr) :
    Gives e.constantDict? fun result => ∀ fields, result = some fields → WellFormed fields := by
  rw [Expr.constantDict?]
  split
  · exact wellFormed_constantEntries _ Fields.wellFormed_nil
  · exact gives_pure fun _ heq => nomatch heq

end Python

namespace Fields

theorem wellFormed_cons {k : String} {v : Value} {rest : Fields} (hk : k ∉ keys rest)
    (hv : v.WellFormed) (hrest : WellFormed rest) : WellFormed ((k, v) :: rest) := by
  have h := wellFormed_iff.mp hrest
  exact wellFormed_iff.mpr ⟨List.nodup_cons.mpr ⟨hk, h.1⟩, List.forall_mem_cons.mpr ⟨hv, h.2⟩⟩

theorem wellFormed_append {fields : Fields} {k : String} {v : Value} (h : WellFormed fields)
    (hk : k ∉ keys fields) (hv : v.WellFormed) : WellFormed (fields ++ [(k, v)]) := by
  have hf := wellFormed_iff.mp h
  refine wellFormed_iff.mpr ⟨?_, fun e he => ?_⟩
  · rw [keys, List.map_append]
    exact (List.perm_append_singleton k _).nodup_iff.mpr (List.nodup_cons.mpr ⟨hk, hf.1⟩)
  · rcases List.mem_append.mp he with hold | hnew
    · exact hf.2 e hold
    · rw [List.mem_singleton.mp hnew]
      exact hv

end Fields

/-! ## Schemas of annotations -/

namespace Schema

theorem wellFormed_refFields (model : String) : WellFormed (refFields model) :=
  Fields.wellFormed_cons List.not_mem_nil trivial Fields.wellFormed_nil

theorem wellFormed_strings (names : List String) : (Value.ofStrings names).WellFormed := by
  refine Value.wellFormed_list fun v hv => ?_
  obtain ⟨s, -, rfl⟩ := List.mem_map.mp hv
  trivial

theorem wellFormed_refs (models : List String) :
    (Value.list (models.map fun m => .map (refFields m))).WellFormed := by
  refine Value.wellFormed_list fun v hv => ?_
  obtain ⟨m, -, rfl⟩ := List.mem_map.mp hv
  exact wellFormed_refFields m

theorem wellFormed_withNullable (nullable : Bool) {fields : Fields} (h : WellFormed fields)
    (hk : "nullable" ∉ Fields.keys fields) : WellFormed (withNullable nullable fields) := by
  rw [withNullable]
  split
  · exact Fields.wellFormed_append h hk trivial
  · exact h

theorem wellFormed_toFields (s : Schema) : WellFormed s.toFields := by
  induction s with
  | enumeration tokens n =>
    refine wellFormed_withNullable n (Fields.wellFormed_cons (by simp [Fields.keys]) trivial ?_)
      (by simp [Fields.keys])
    exact Fields.wellFormed_cons List.not_mem_nil (wellFormed_strings tokens) Fields.wellFormed_nil
  | composition kind models n =>
    refine wellFormed_withNullable n ?_ (by cases kind <;> simp [Fields.keys, Composition.key])
    exact Fields.wellFormed_cons List.not_mem_nil (wellFormed_refs models) Fields.wellFormed_nil
  | array items n ih =>
    refine wellFormed_withNullable n (Fields.wellFormed_cons (by simp [Fields.keys]) trivial ?_)
      (by simp [Fields.keys])
    exact Fields.wellFormed_cons List.not_mem_nil ih Fields.wellFormed_nil
  | plain type n =>
    exact wellFormed_withNullable n (Fields.wellFormed_cons List.not_mem_nil trivial
      Fields.wellFormed_nil) (by simp [Fields.keys])
  | ref model => exact wellFormed_refFields model

theorem wellFormed_fillAbsent {schema metadata : Fields} (h : WellFormed schema)
    (hm : Each Value.WellFormed metadata) : WellFormed (fillAbsent schema metadata) := by
  refine List.foldlRecOn metadata _ h fun s hs e he => ?_
  split
  · exact hs
  · exact hs.set e.1 (hm e he)

theorem wellFormed_withBlock {schema : Fields} {metadata : Option Fields} (h : WellFormed schema)
    (hm : ∀ m, metadata = some m → WellFormed m) : WellFormed (withBlock schema metadata) := by
  cases metadata with
  | none => exact h
  | some m =>
    have hfields := hm m rfl
    refine wellFormed_fillAbsent ?_ (Fields.wellFormed_iff.mp hfields).2
    split
    · next items hitems =>
      refine Fields.WellFormed.set ?_ "enum" (hfields.get? hitems)
      split
      · exact h.set "description" trivial
      · exact h
    · split
      · exact h.set "description" trivial
      · exact h

theorem wellFormed_withDecorator {schema : Fields} {metadata : Option Fields}
    (h : WellFormed schema) (hm : ∀ m, metadata = some m → Each Value.WellFormed m) :
    WellFormed (withDecorator schema metadata) := by
  cases metadata with
  | none => exact h
  | some m =>
    refine List.foldlRecOn m _ h fun s hs e he => ?_
    split
    · exact hs.set e.1 (hm m rfl e he)
    · exact hs

theorem each_propertyBlocks {block : Fields} (h : WellFormed block) :
    Each WellFormed (propertyBlocks block) := by
  have hinner : WellFormed (Value.fieldsAt block "properties") :=
    Metadata.wellFormed_mapOf (Metadata.itemsWellFormed_get? h "properties")
  refine List.foldlRecOn _ _ Fields.each_nil fun acc hacc e he => ?_
  have hvalue := (Fields.wellFormed_iff.mp hinner).2 e he
  split
  · next m hm =>
    rw [hm] at hvalue
    exact hacc.assign e.1 hvalue
  · exact hacc

end Schema

namespace Model

open Python

/-! ## Documentation blocks -/

/-- The blocks repeat no key at any depth. -/
structure Blocks.WellFormed (b : Blocks) : Prop where
  replacement : ∀ schema, b.replacement = some schema → Fields.WellFormed schema
  properties : Each Fields.WellFormed b.properties

theorem Blocks.WellFormed.addProperty {b : Blocks} (h : b.WellFormed) {e : String × Fields}
    (he : Fields.WellFormed e.2) : (b.addProperty e).WellFormed := by
  refine ⟨h.replacement, h.properties.assign e.1 ?_⟩
  split
  · exact he
  · next earlier hget =>
    exact Schema.wellFormed_fillAbsent (h.properties.get? hget) (Fields.wellFormed_iff.mp he).2

theorem Blocks.WellFormed.add {b : Blocks} (h : b.WellFormed) {block : Fields}
    (hblock : Fields.WellFormed block) : (b.add block).WellFormed := by
  rw [Blocks.add]
  split
  · exact h
  · split
    · refine ⟨fun schema hs => ?_, h.properties⟩
      cases hs
      exact hblock
    · exact List.foldlRecOn _ _ h fun b hb e he =>
        Blocks.WellFormed.addProperty hb (Schema.each_propertyBlocks hblock e he)

theorem wellFormed_parseBlock (markers : Markers) (raw : String) :
    Gives (parseBlock markers raw) WellFormed := by
  rw [parseBlock]
  split
  · exact fun _ h => nomatch h
  · exact gives_pure Fields.wellFormed_nil
  · next fields hload => exact gives_pure (Yaml.wellFormed_of_load? hload)
  · exact fun _ h => nomatch h

theorem wellFormed_of_toOption {markers : Markers} {raw : String} {block : Fields}
    (h : (parseBlock markers raw).toOption = some block) : WellFormed block := by
  cases hresult : parseBlock markers raw with
  | error e =>
    rw [hresult] at h
    cases h
  | ok fields =>
    rw [hresult] at h
    cases h
    exact wellFormed_parseBlock markers raw _ hresult

theorem Blocks.wellFormed_read (markers : Markers) (doc : String) :
    (Blocks.read markers doc).WellFormed :=
  List.foldlRecOn _ _ ⟨fun _ h => (nomatch h), Fields.each_nil⟩ fun _ hb _ hblock =>
    have ⟨_, _, hparse⟩ := List.mem_filterMap.mp hblock
    Blocks.WellFormed.add hb (wellFormed_of_toOption hparse)

/-! ## Decorators -/

/-- The decorators repeat no key, neither in an extension nor in what they say of a property. -/
structure Decorators.WellFormed (d : Decorators) : Prop where
  extensions : Fields.WellFormed d.extensions
  properties : Each Fields.WellFormed d.properties
  shared : Fields.WellFormed d.shared

theorem Attribute.wellFormed_addTo (a : Attribute) {extensions : Fields}
    (h : WellFormed extensions) : WellFormed (a.addTo extensions) := by
  rw [Attribute.addTo]
  split
  · exact h
  · exact h
  · refine h.set _ ?_
    cases a.value with
    | none => trivial
    | some c => exact c.wellFormed_toValue

theorem Property.each_addKeyword {p : Property} (h : Each Value.WellFormed p.entries)
    (keyword : String × Expr) :
    Gives (p.addKeyword keyword) fun q => Each Value.WellFormed q.entries := by
  obtain ⟨name, value⟩ := keyword
  unfold Property.addKeyword
  dsimp only
  split
  · exact (gives_self _).bind fun _ _ => gives_pure h
  · exact (gives_self _).bind fun _ _ => gives_pure h
  · exact (gives_self _).bind fun _ _ => gives_pure h
  · refine (gives_self _).bind fun hint _ => ?_
    split
    · exact gives_pure h
    · exact gives_pure (h.set "hint" trivial)
  · refine (gives_self _).bind fun value _ => ?_
    split
    · exact gives_pure h
    · exact gives_pure h
    · exact gives_pure (h.assign _ (Constant.wellFormed_toValue _))

theorem Property.each_ofCall (call : Call) :
    Gives (Property.ofCall call) fun p => Each Value.WellFormed p.entries := by
  have hkeywords : ∀ start : Property, Each Value.WellFormed start.entries →
      Gives (call.keywords.foldlM Property.addKeyword start)
        fun p => Each Value.WellFormed p.entries := fun start h =>
    gives_foldlM h fun p keyword _ hp => Property.each_addKeyword hp keyword
  have hempty := @Fields.each_nil Value Value.WellFormed
  unfold Property.ofCall
  extract_lets run named
  have hnamed : ∀ name, Gives (named name) fun p => Each Value.WellFormed p.entries := by
    intro name
    dsimp only [named]
    split
    · exact (gives_self _).bind fun _ _ => (gives_self _).bind fun _ _ =>
        (gives_self _).bind fun _ hstart => hkeywords _ (pure_eq_ok.mp hstart ▸ hempty)
    · exact (gives_self _).bind fun _ hstart => hkeywords _ (pure_eq_ok.mp hstart ▸ hempty)
  split
  · exact (gives_self _).bind fun name _ => hnamed name
  · exact (gives_self _).bind fun name _ => hnamed name

theorem Property.wellFormed_addTo {p : Property} (hp : Each Value.WellFormed p.entries)
    {entries : Fields} (h : WellFormed entries) : WellFormed (p.addTo entries) := by
  refine WellFormed.setAll ?_ hp
  split
  · exact h.assign _ (Constant.wellFormed_toValue _)
  · exact h

namespace Decorators

variable {d : Decorators}

/-- What one decorator adds: it names and describes the component, extends the schema, or says
something of one property. -/
inductive Step (d : Decorators) : Decorators → Prop
  | component (component : Option String) (description : String) :
    Step d { d with component := component, description := description }
  | extension (a : Attribute) : Step d (d.addExtension a)
  | property {call : Call} {p : Property} (hcall : Property.ofCall call = .ok p) (name : String) :
    Step d { d with
      properties := Fields.set d.properties name
        (p.addTo ((Fields.get? d.properties name).getD [])) }
  | shared {call : Call} {p : Property} (hcall : Property.ofCall call = .ok p) :
    Step d { d with shared := p.addTo d.shared }

theorem Step.refl (d : Decorators) : Step d d := .component d.component d.description

theorem step_addProperty (d : Decorators) (call : Call) : Gives (d.addProperty call) (Step d) := by
  refine (gives_self _).bind fun p hp => ?_
  split
  · refine gives_pure ?_
    rw [describe]
    split
    · exact .shared hp
    · exact .property hp _
  · exact gives_pure (.refl d)

theorem step_addComponentKeyword {t : Decorators}
    (h : ∃ c s, t = { d with component := c, description := s }) (keyword : String × Expr) :
    Gives (t.addComponentKeyword keyword)
      fun u => ∃ c s, u = { d with component := c, description := s } := by
  obtain ⟨c, s, rfl⟩ := h
  refine (gives_self _).bind fun value _ => ?_
  split
  · exact gives_pure ⟨_, _, rfl⟩
  · exact gives_pure ⟨_, _, rfl⟩
  · exact gives_pure ⟨_, _, rfl⟩

theorem step_addComponent (d : Decorators) (className : String) (call : Option Call) :
    Gives (d.addComponent className call) (Step d) := by
  unfold addComponent
  split
  · exact gives_pure (.component _ _)
  · next call =>
    extract_lets rest
    have hrest : ∀ first, Gives (rest first) (Step d) := fun first =>
      (gives_foldlM ⟨_, _, rfl⟩ fun _ keyword _ ht => step_addComponentKeyword ht keyword).bind
        fun t ht => by
          obtain ⟨c, s, rfl⟩ := ht
          exact gives_pure (.component _ s)
    split
    · exact (gives_self _).bind fun first _ => hrest first
    · exact (gives_self _).bind fun first _ => hrest first

theorem step_add (table : AttributeTable) (className : String) (d : Decorators) (e : Expr) :
    Gives (add table className d e) (Step d) := by
  unfold add
  dsimp only
  split
  · exact step_addComponent d className _
  · exact step_addProperty d _
  · exact gives_pure (.refl d)
  · exact (gives_self _).bind fun a _ => gives_pure (.extension a)
  · exact gives_pure (.refl d)
  · next name _ _ _ _ _ _ =>
    refine gives_pure ?_
    cases Fields.get? table name with
    | none => exact .refl d
    | some a => exact .extension a
  · exact gives_pure (.refl d)

/-- What every decorator keeps holds of all of them together. -/
theorem gives_read {P : Decorators → Prop} (hempty : P empty)
    (hstep : ∀ d d', P d → Step d d' → P d') (table : AttributeTable) (c : Definition) :
    Gives (read table c) P :=
  gives_foldlM hempty fun d e _ hd d' hd' => hstep d d' hd (step_add table c.name d e d' hd')

theorem WellFormed.step {d' : Decorators} (h : d.WellFormed) (hstep : Step d d') :
    d'.WellFormed := by
  cases hstep with
  | component => exact ⟨h.extensions, h.properties, h.shared⟩
  | extension a => exact ⟨a.wellFormed_addTo h.extensions, h.properties, h.shared⟩
  | property hcall name =>
    have hp := Property.each_ofCall _ _ hcall
    refine ⟨h.extensions, h.properties.set name (Property.wellFormed_addTo hp ?_), h.shared⟩
    cases hget : Fields.get? d.properties name with
    | none => exact Fields.wellFormed_nil
    | some entries => exact h.properties.get? hget
  | shared hcall =>
    exact ⟨h.extensions, h.properties, Property.wellFormed_addTo (Property.each_ofCall _ _ hcall)
      h.shared⟩

theorem wellFormed_read (table : AttributeTable) (c : Definition) :
    Gives (read table c) WellFormed :=
  gives_read ⟨Fields.wellFormed_nil, Fields.each_nil, Fields.wellFormed_nil⟩ (fun _ _ h hstep => h.step hstep) table c

end Decorators

/-! ## Classes -/

structure Class.WellFormed (c : Class) : Prop where
  decorators : c.decorators.WellFormed
  blocks : c.blocks.WellFormed

namespace Class

variable {c : Class}

theorem wellFormed_propertySchema (h : c.WellFormed) (attr : String) (text : List Char) :
    Fields.WellFormed (c.propertySchema attr text) := by
  refine Schema.wellFormed_withDecorator (Schema.wellFormed_withBlock
    (Schema.wellFormed_toFields _) fun m hm => h.blocks.properties.get? hm) fun m hm => ?_
  exact (Fields.wellFormed_iff.mp (h.decorators.properties.get? hm)).2

theorem wellFormed_properties (h : c.WellFormed) : Fields.WellFormed c.properties.schemas :=
  List.foldlRecOn (motive := fun p : Properties => Fields.WellFormed p.schemas) _ _
    Fields.wellFormed_nil fun _ hp attr _ => hp.set attr.1 (wellFormed_propertySchema h _ _)

theorem wellFormed_requiredEntry (p : Properties) : Fields.WellFormed (requiredEntry p) := by
  rw [requiredEntry]
  split
  · exact Fields.wellFormed_nil
  · exact Fields.wellFormed_cons List.not_mem_nil (Schema.wellFormed_strings _)
      Fields.wellFormed_nil

theorem wellFormed_descriptionEntry (c : Class) : Fields.WellFormed c.descriptionEntry := by
  rw [descriptionEntry]
  split
  · exact Fields.wellFormed_nil
  · exact Fields.wellFormed_cons List.not_mem_nil trivial Fields.wellFormed_nil

theorem wellFormed_closing (c : Class) (p : Properties) :
    Fields.WellFormed (requiredEntry p ++ c.descriptionEntry) ∧
      ∀ k ∈ Fields.keys (requiredEntry p ++ c.descriptionEntry),
        k = "required" ∨ k = "description" := by
  have hdescription := wellFormed_descriptionEntry c
  have hkeys : ∀ k ∈ Fields.keys c.descriptionEntry, k = "description" := by
    rw [descriptionEntry]
    split <;> simp [Fields.keys]
  rw [requiredEntry]
  split
  · exact ⟨hdescription, fun k hk => .inr (hkeys k hk)⟩
  · refine ⟨Fields.wellFormed_cons ?_ (Schema.wellFormed_strings _) hdescription, fun k hk => ?_⟩
    · exact fun hk => absurd (hkeys _ hk) (by decide)
    · exact (List.mem_cons.mp hk).imp_right (hkeys k)

theorem wellFormed_ownPart {p : Properties} (h : Fields.WellFormed p.schemas) :
    ∀ v ∈ ownPart p, v.WellFormed := by
  have hrequired := wellFormed_requiredEntry p
  have hfields : Fields.WellFormed ((if p.schemas = [] then []
      else [("properties", Value.map p.schemas)]) ++ requiredEntry p) := by
    split
    · exact hrequired
    · refine Fields.wellFormed_cons ?_ h hrequired
      rw [requiredEntry]
      split <;> simp [Fields.keys]
  intro v hv
  rw [ownPart] at hv
  split at hv
  · exact absurd hv List.not_mem_nil
  · rw [List.mem_singleton.mp hv]
    exact hfields

theorem wellFormed_inferredSchema (h : c.WellFormed) : Fields.WellFormed c.inferredSchema := by
  have hschemas := wellFormed_properties h
  have hextensions := (Fields.wellFormed_iff.mp h.decorators.extensions).2
  obtain ⟨hclosing, hkeys⟩ := wellFormed_closing c c.properties
  unfold inferredSchema
  refine WellFormed.setAll ?_ hextensions
  split
  · have hproperties : "properties" ∉ Fields.keys (requiredEntry c.properties ++
        c.descriptionEntry) := fun hk => absurd (hkeys _ hk) (by decide)
    refine Fields.wellFormed_cons (fun hk => ?_) trivial
      (Fields.wellFormed_cons hproperties hschemas hclosing)
    rcases List.mem_cons.mp hk with heq | hk
    · have hne : "type" ≠ "properties" := by decide
      exact hne heq
    · exact absurd (hkeys _ hk) (by decide)
  · refine Fields.wellFormed_cons (fun hk => ?_) (Value.wellFormed_list fun v hv => ?_)
      (wellFormed_descriptionEntry c)
    · have hmem : "allOf" ∈ Fields.keys (requiredEntry c.properties ++ c.descriptionEntry) := by
        rw [Fields.keys, List.map_append]
        exact List.mem_append_right _ hk
      exact absurd (hkeys _ hmem) (by decide)
    · rcases List.mem_append.mp hv with hbase | hown
      · obtain ⟨m, -, rfl⟩ := List.mem_map.mp hbase
        exact Schema.wellFormed_refFields m
      · exact wellFormed_ownPart hschemas v hown

/-- A schema from a block keeps its entries in front of those of the decorators. -/
theorem wellFormed_replacedSchema (h : c.WellFormed) {schema : Fields}
    (hs : Fields.WellFormed schema) : Fields.WellFormed (c.replacedSchema schema) := by
  have hextensions := (Fields.wellFormed_iff.mp h.decorators.extensions).2
  refine WellFormed.setAll (WellFormed.setAll hs ?_) hextensions
  split
  · exact fun _ he => absurd he List.not_mem_nil
  · exact (Fields.wellFormed_iff.mp (wellFormed_descriptionEntry c)).2

theorem wellFormed_schema (h : c.WellFormed) : Fields.WellFormed c.schema := by
  rw [schema]
  split
  · next schema hs => exact wellFormed_replacedSchema h (h.blocks.replacement schema hs)
  · exact wellFormed_inferredSchema h

end Class

end Model
end ApiSync
