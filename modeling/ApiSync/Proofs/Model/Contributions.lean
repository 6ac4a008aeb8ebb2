import ApiSync.Proofs.Fields.Assignment
import ApiSync.Proofs.Model.WellFormed
/-!
# What the blocks of a class say together

The blocks of a docstring are read one after the other.  A malformed one is passed over, the first
one that replaces the schema ends the reading, and each of the others adds what it says of a
property, key by key, where no earlier block has said anything.  So what is collected under a key
is what the first block before the replacement says of it.

Names that every mapping answers to are left out: they count as said from the beginning.
-/

namespace ApiSync

namespace Schema

/-- Filling gaps gives a key the value of the metadata unless it has one. -/
theorem get?_fillAbsent (schema metadata : Fields) {k : String} (hk : Ambient.isAmbient k = false) :
    Fields.get? (fillAbsent schema metadata) k =
      (Fields.get? schema k).or (Fields.get? metadata k) := by
  induction metadata generalizing schema with
  | nil => simp [fillAbsent, Fields.get?_nil]
  | cons e rest ih =>
    show Fields.get? (fillAbsent (if Fields.answers schema e.1 then schema
      else Fields.set schema e.1 e.2) rest) k = _
    rw [ih, Fields.get?_cons]
    by_cases he : e.1 = k
    · rw [if_pos he, he, Fields.answers_eq_has hk, Fields.has_eq_isSome]
      cases hget : Fields.get? schema k with
      | some v => simp [hget]
      | none => simp [Fields.get?_set]
    · rw [if_neg he]
      split
      · rfl
      · rw [Fields.get?_set, if_neg he]

/-! ## The metadata of single properties -/

/-- Takes an entry over if it is a mapping. -/
def addMapping (acc : List (String × Fields)) (e : String × Value) : List (String × Fields) :=
  match e.2 with
  | .map m => Fields.assign acc e.1 m
  | _ => acc

theorem propertyBlocks_eq (block : Fields) :
    propertyBlocks block = (Value.fieldsAt block "properties").foldl addMapping [] := rfl

theorem get?_addMapping {p : String} (hp : Ambient.isAmbient p = false)
    (acc : List (String × Fields)) (e : String × Value) :
    Fields.get? (addMapping acc e) p =
      (if e.1 = p then e.2.asMap? else none).or (Fields.get? acc p) := by
  have hmap (m : Fields) : Fields.get? (Fields.assign acc e.1 m) p =
      (if e.1 = p then some m else none).or (Fields.get? acc p) := by
    by_cases he : e.1 = p
    · have hassign : Fields.assign acc e.1 m = Fields.set acc e.1 m :=
        Fields.assign_eq_set_of_not_ambient (he ▸ hp) m
      rw [hassign, Fields.get?_set, if_pos he, if_pos he, Option.some_or]
    · rw [Fields.get?_assign_of_ne acc he, if_neg he, Option.none_or]
  rw [addMapping]
  cases he : e.2 with
  | map m => exact hmap m
  | _ => simp [Value.asMap?]

/-- Entries with distinct keys are taken over one by one. -/
theorem get?_foldl_addMapping {p : String} (hp : Ambient.isAmbient p = false) {entries : Fields}
    (hd : (Fields.keys entries).Nodup) (acc : List (String × Fields)) :
    Fields.get? (entries.foldl addMapping acc) p =
      ((Fields.get? entries p).bind Value.asMap?).or (Fields.get? acc p) := by
  induction entries generalizing acc with
  | nil => simp [Fields.get?_nil]
  | cons e rest ih =>
    obtain ⟨hnew, hrest⟩ := List.nodup_cons.mp hd
    rw [List.foldl_cons, ih hrest, get?_addMapping hp, Fields.get?_cons]
    by_cases he : e.1 = p
    · have hnone : Fields.get? rest p = none := Fields.get?_eq_none_iff.mpr (he ▸ hnew)
      simp [he, hnone]
    · simp [he]

theorem get?_propertyBlocks {block : Fields} (h : Fields.WellFormed block) {p : String}
    (hp : Ambient.isAmbient p = false) :
    Fields.get? (propertyBlocks block) p =
      (Fields.get? (Value.fieldsAt block "properties") p).bind Value.asMap? := by
  have hinner : Fields.WellFormed (Value.fieldsAt block "properties") :=
    Metadata.wellFormed_mapOf (Metadata.itemsWellFormed_get? h "properties")
  have hdistinct := (Fields.wellFormed_iff.mp hinner).1
  rw [propertyBlocks_eq, get?_foldl_addMapping hp hdistinct, Fields.get?_nil, Option.or_none]

theorem nodup_keys_propertyBlocks (block : Fields) :
    (Fields.keys (propertyBlocks block)).Nodup := by
  refine List.foldlRecOn (motive := fun acc : List (String × Fields) =>
    (Fields.keys acc).Nodup) _ _ List.nodup_nil fun acc hacc e _ => ?_
  split
  · exact Fields.nodup_keys_assign hacc _ _
  · exact hacc

end Schema

namespace Model

open Fields (get?)

/-! ## What a block says -/

/-- What a block says of a key of a property: the value in the mapping at the property, among the
`properties` of the block. -/
def said? (p k : String) (block : Fields) : Option Value :=
  ((get? block "properties").bind (Value.field? · p)).bind (Value.field? · k)

/-- What has been collected under a key of a property. -/
def Blocks.collected? (b : Blocks) (p k : String) : Option Value :=
  (get? b.properties p).bind (get? · k)

section

variable {p k : String}

theorem said?_eq {block : Fields} (h : Fields.WellFormed block)
    (hp : Ambient.isAmbient p = false) :
    said? p k block = (get? (Schema.propertyBlocks block) p).bind (get? · k) := by
  rw [Schema.get?_propertyBlocks h hp, said?, Value.fieldsAt]
  cases get? block "properties" with
  | none => rfl
  | some v =>
    cases v with
    | map fields => cases hp : get? fields p <;> simp [Value.field?, Value.asMap?, hp]
    | _ => rfl

theorem collected?_addProperty (hp : Ambient.isAmbient p = false) (hk : Ambient.isAmbient k = false)
    (b : Blocks) (e : String × Fields) :
    (b.addProperty e).collected? p k =
      (b.collected? p k).or (if e.1 = p then get? e.2 k else none) := by
  by_cases he : e.1 = p
  · subst he
    rw [if_pos rfl, Blocks.collected?, Blocks.collected?, Blocks.addProperty]
    dsimp only
    rw [Fields.assign_eq_set_of_not_ambient hp, Fields.get?_set, if_pos rfl, Option.bind_some]
    cases get? b.properties e.1 with
    | none => rw [Option.bind_none, Option.none_or]
    | some earlier => exact Schema.get?_fillAbsent earlier e.2 hk
  · rw [if_neg he, Option.or_none]
    exact congrArg (Option.bind · (get? · k)) (Fields.get?_assign_of_ne _ he _)

theorem collected?_foldl_addProperty (hp : Ambient.isAmbient p = false)
    (hk : Ambient.isAmbient k = false) {entries : List (String × Fields)}
    (hd : (Fields.keys entries).Nodup) (b : Blocks) :
    (entries.foldl Blocks.addProperty b).collected? p k =
      (b.collected? p k).or ((get? entries p).bind (get? · k)) := by
  induction entries generalizing b with
  | nil => simp [Fields.get?_nil]
  | cons e rest ih =>
    obtain ⟨hnew, hrest⟩ := List.nodup_cons.mp hd
    rw [List.foldl_cons, ih hrest, collected?_addProperty hp hk, Fields.get?_cons]
    by_cases he : e.1 = p
    · have hnone : get? rest p = none := Fields.get?_eq_none_iff.mpr (he ▸ hnew)
      simp [he, hnone]
    · simp [he]

end

/-! ## Reading the texts one by one -/

/-- The mapping that a text holds, unless it is malformed. -/
def mapping? (markers : Markers) (raw : String) : Option Fields := (parseBlock markers raw).toOption

/-- The mapping that a text holds, if it replaces the schema. -/
def replacement? (markers : Markers) (raw : String) : Option Fields :=
  (mapping? markers raw).filter isReplacement

/-- Reads the text of a block; a malformed one says nothing. -/
def Blocks.addText (markers : Markers) (b : Blocks) (raw : String) : Blocks :=
  ((mapping? markers raw).map b.add).getD b

theorem read_eq_foldl (markers : Markers) (doc : String) :
    Blocks.read markers doc =
      (findBlocks markers doc).foldl (Blocks.addText markers) Blocks.empty := by
  rw [Blocks.read, wellFormedBlocks, List.foldl_filterMap]
  congr 1
  funext b raw
  rw [Blocks.addText, mapping?]
  cases (parseBlock markers raw).toOption <;> rfl

section

variable {markers : Markers} {b : Blocks} {raw : String}

theorem addText_of_malformed (h : mapping? markers raw = none) : b.addText markers raw = b := by
  rw [Blocks.addText, h]
  rfl

theorem addText_of_mapping {block : Fields} (h : mapping? markers raw = some block) :
    b.addText markers raw = b.add block := by
  rw [Blocks.addText, h]
  rfl

/-- Nothing is read behind a block that replaces the schema. -/
theorem foldl_addText_of_replaced (h : b.replacement.isSome = true) (raws : List String) :
    raws.foldl (Blocks.addText markers) b = b := by
  refine List.foldlRecOn (motive := (· = b)) raws _ rfl fun t ht raw _ => ?_
  subst ht
  cases hmapping : mapping? markers raw with
  | none => exact addText_of_malformed hmapping
  | some block => rw [addText_of_mapping hmapping, Blocks.add, if_pos h]

theorem replacement_addText (h : b.replacement = none) :
    (b.addText markers raw).replacement = replacement? markers raw := by
  rw [replacement?]
  cases hmapping : mapping? markers raw with
  | none =>
    rw [addText_of_malformed hmapping]
    exact h
  | some block =>
    rw [addText_of_mapping hmapping, Blocks.add, h, Option.filter_some]
    by_cases hblock : isReplacement block = true
    · simp [hblock]
    · have hkeep : ((Schema.propertyBlocks block).foldl Blocks.addProperty b).replacement = none :=
        List.foldlRecOn (motive := fun t : Blocks => t.replacement = none) _ _ h
          fun _ ht _ _ => ht
      simp [hblock, hkeep]

variable {p k : String}

/-- A block that does not replace the schema adds what it says where nothing has been said. -/
theorem collected?_addText (hp : Ambient.isAmbient p = false) (hk : Ambient.isAmbient k = false)
    (h : b.replacement = none) (hraw : replacement? markers raw = none) :
    (b.addText markers raw).collected? p k =
      (b.collected? p k).or ((mapping? markers raw).bind (said? p k)) := by
  rw [replacement?] at hraw
  cases hmapping : mapping? markers raw with
  | none => rw [addText_of_malformed hmapping, Option.bind_none, Option.or_none]
  | some block =>
    have hwell : Fields.WellFormed block := wellFormed_of_toOption hmapping
    have hblock : ¬isReplacement block = true := by
      simpa [hmapping, Option.filter_some] using hraw
    rw [addText_of_mapping hmapping, Blocks.add, h, if_neg (by simp), if_neg hblock,
      collected?_foldl_addProperty hp hk (Schema.nodup_keys_propertyBlocks block), Option.bind_some,
      said?_eq hwell hp]

theorem collected?_addText_of_replacement (h : b.replacement = none)
    (hraw : (replacement? markers raw).isSome = true) :
    (b.addText markers raw).collected? p k = b.collected? p k := by
  obtain ⟨block, hreplaces⟩ := Option.isSome_iff_exists.mp hraw
  obtain ⟨hmapping, hblock⟩ := Option.filter_eq_some_iff.mp hreplaces
  rw [addText_of_mapping hmapping, Blocks.add, h, if_neg (by simp), if_pos hblock]
  rfl

theorem replacement_foldl_addText (h : b.replacement = none) (raws : List String) :
    (raws.foldl (Blocks.addText markers) b).replacement =
      raws.findSome? (replacement? markers) := by
  induction raws generalizing b with
  | nil => exact h
  | cons raw rest ih =>
    rw [List.foldl_cons, List.findSome?_cons]
    have hstep : (b.addText markers raw).replacement = replacement? markers raw :=
      replacement_addText h
    cases hraw : replacement? markers raw with
    | none => exact ih (hstep.trans hraw)
    | some schema =>
      rw [foldl_addText_of_replaced (by rw [hstep, hraw]; rfl), hstep, hraw]

/-- The texts in front of the first one that replaces the schema. -/
def unreplaced (markers : Markers) (raws : List String) : List String :=
  raws.takeWhile fun raw => (replacement? markers raw).isNone

theorem collected?_foldl_addText (hp : Ambient.isAmbient p = false) (hk : Ambient.isAmbient k = false)
    (h : b.replacement = none) (raws : List String) :
    (raws.foldl (Blocks.addText markers) b).collected? p k =
      (b.collected? p k).or
        ((unreplaced markers raws).findSome? fun raw =>
          (mapping? markers raw).bind (said? p k)) := by
  induction raws generalizing b with
  | nil => simp [unreplaced]
  | cons raw rest ih =>
    have hstep : (b.addText markers raw).replacement = replacement? markers raw :=
      replacement_addText h
    rw [List.foldl_cons, unreplaced, List.takeWhile_cons]
    cases hraw : replacement? markers raw with
    | none =>
      rw [ih (hstep.trans hraw), collected?_addText hp hk h hraw, Option.or_assoc]
      simp only [Option.isNone_none, if_true, List.findSome?_cons]
      cases (mapping? markers raw).bind (said? p k) <;> rfl
    | some schema =>
      rw [foldl_addText_of_replaced (by rw [hstep, hraw]; rfl),
        collected?_addText_of_replacement h (by rw [hraw]; rfl)]
      simp

/-- Malformed texts do not count. -/
theorem foldl_addText_filter (raws : List String) :
    (raws.filter fun raw => (mapping? markers raw).isSome).foldl (Blocks.addText markers) b =
      raws.foldl (Blocks.addText markers) b := by
  induction raws generalizing b with
  | nil => rfl
  | cons raw rest ih =>
    rw [List.filter_cons, List.foldl_cons]
    cases hraw : mapping? markers raw with
    | none =>
      rw [addText_of_malformed hraw, ← ih]
      rfl
    | some block => exact ih

end

/-- The replacement is the first block that replaces the schema, and what is collected under a key
of a property is what the first block before it says.  Docstrings that differ in malformed blocks
only are read alike. -/
theorem read_first_said (markers : Markers) (doc : String) :
    (Blocks.read markers doc).replacement =
        (findBlocks markers doc).findSome? (replacement? markers) ∧
      (∀ p k, Ambient.isAmbient p = false → Ambient.isAmbient k = false →
        (Blocks.read markers doc).collected? p k =
          (unreplaced markers (findBlocks markers doc)).findSome?
            fun raw => (mapping? markers raw).bind (said? p k)) ∧
      ∀ other, (findBlocks markers other).filter (fun raw => (mapping? markers raw).isSome) =
          (findBlocks markers doc).filter (fun raw => (mapping? markers raw).isSome) →
        Blocks.read markers other = Blocks.read markers doc := by
  refine ⟨?_, fun p k hp hk => ?_, fun other h => ?_⟩
  · rw [read_eq_foldl]
    exact replacement_foldl_addText rfl _
  · rw [read_eq_foldl, collected?_foldl_addText hp hk rfl]
    rfl
  · rw [read_eq_foldl, read_eq_foldl, ← foldl_addText_filter, h, foldl_addText_filter]

/-- A docstring with a malformed block, two blocks about a property, a replacement and a block
behind it. -/
def colorDoc : String :=
">>>openapi
- color
<<<openapi
>>>openapi
properties:
  color:
    format: rgb
<<<openapi
>>>openapi
properties:
  color:
    format: hex
    example: red
<<<openapi
>>>openapi
type: string
<<<openapi
>>>openapi
properties:
  size:
    format: int32
<<<openapi"

theorem color_first_said :
    (Blocks.read Markers.default colorDoc).replacement.isSome = true ∧
      ((Blocks.read Markers.default colorDoc).collected? "color" "format").bind Value.asStr? =
        some "rgb" ∧
      ((Blocks.read Markers.default colorDoc).collected? "color" "example").bind Value.asStr? =
        some "red" ∧
      ((Blocks.read Markers.default colorDoc).collected? "size" "format").isNone = true := by
  obtain ⟨hreplacement, hentry, -⟩ := read_first_said Markers.default colorDoc
  rw [hreplacement, hentry "color" "format" (by decide) (by decide),
    hentry "color" "example" (by decide) (by decide),
    hentry "size" "format" (by decide) (by decide)]
  decide +kernel

end Model
end ApiSync
