import ApiSync.Proofs.Metadata.Settling
/-!
# Where examples are placed

An example is put under its name into a mapping of examples, deep inside the parameters, the body
or the responses.  On the way mappings are made where there are none, and a response without a
description gets one.  So placing examples is a series of changes of three entries, each of a kind
that settles.  Those of the parameters change one item each, the first one with the name.
-/

namespace ApiSync
namespace Metadata

open Fields (WellFormed get? has keys assign)

/-! ## Changes inside mappings -/

theorem within_eq (fields : Fields) (key : String) (change : Fields → Fields) :
    within fields key change = EntryChange.apply ⟨key, onMap change⟩ fields := by
  show within fields key change = assign fields key (onMap change (get? fields key))
  unfold within
  split
  · next inner h => rw [h]; rfl
  · next h => rw [onMap, mapOf_of_not_map h]

/-- The description that a response is given if it has none. -/
def describing : EntryChange := ⟨"description", fun current => current.getD (.str "Response")⟩

theorem describing_apply (response : Fields) :
    describing.apply response =
      if has response "description" then response
      else Fields.set response "description" (.str "Response") := by
  show assign response "description" ((get? response "description").getD (.str "Response")) = _
  rw [Fields.has_eq_isSome]
  cases h : get? response "description" with
  | some v => exact Fields.assign_of_get? h
  | none => exact Fields.assign_eq_set (fun hp => absurd hp (by decide)) _

/-- The change that puts an example under its content type. -/
def mediaChange (contentType name : String) (built holder : Fields) : Fields :=
  withinPath holder ["content", contentType] (addExample name built)

/-! ## Kinds of changes, from the inside out -/

def NamedExample : (Fields → Fields) → Prop := Entrywise fun _ => Replacing

def InExamples : (Fields → Fields) → Prop := Entrywise fun _ => Inside NamedExample

def InMediaType : (Fields → Fields) → Prop := Entrywise fun _ => Inside InExamples

def InContent : (Fields → Fields) → Prop := Entrywise fun _ => Inside InMediaType

/-- The description of a response is filled in, and its content is changed. -/
def responseEntry (k : String) : (Option Value → Value) → Prop :=
  if k = "description" then Filling else Inside InMediaType

def InResponse : (Fields → Fields) → Prop := Composed (Entrywise responseEntry)

def InStatus : (Fields → Fields) → Prop := Entrywise fun _ => Inside InResponse

theorem settling_inExamples : Settling InExamples :=
  settling_entrywise fun _ => settlingAt_inside (settling_entrywise fun _ => settlingAt_replacing)

theorem settling_inMediaType : Settling InMediaType :=
  settling_entrywise fun _ => settlingAt_inside settling_inExamples

theorem settling_inContent : Settling InContent :=
  settling_entrywise fun _ => settlingAt_inside settling_inMediaType

theorem settlingAt_responseEntry (k : String) : SettlingAt (responseEntry k) := by
  unfold responseEntry
  split
  · exact settlingAt_filling
  · exact settlingAt_inside settling_inMediaType

theorem settling_inStatus : Settling InStatus :=
  settling_entrywise fun _ =>
    settlingAt_inside (settling_composed (settling_entrywise settlingAt_responseEntry))

theorem entrywise_within {family : String → (Option Value → Value) → Prop}
    {change : Fields → Fields} (key : String) (h : family key (onMap change)) :
    Entrywise family fun fields => within fields key change :=
  ⟨⟨key, onMap change⟩, h, funext fun fields => within_eq fields key change⟩

section Kinds

variable (built : Fields) (contentType name : String)

theorem inExamples_addExample : InExamples (addExample name built) :=
  entrywise_within "examples" ⟨_, ⟨⟨name, fun _ => .map built⟩, ⟨.map built, rfl⟩, rfl⟩, rfl⟩

theorem inMediaType_addExample :
    InMediaType fun content => within content contentType (addExample name built) :=
  entrywise_within contentType ⟨_, inExamples_addExample built name, rfl⟩

theorem inContent_mediaChange : InContent (mediaChange contentType name built) :=
  entrywise_within "content" ⟨_, inMediaType_addExample built contentType name, rfl⟩

theorem entrywise_describing : Entrywise responseEntry describing.apply := by
  refine ⟨describing, ?_, rfl⟩
  show responseEntry "description" describing.change
  rw [responseEntry, if_pos rfl]
  exact ⟨.str "Response", rfl⟩

theorem entrywise_mediaChange : Entrywise responseEntry (mediaChange contentType name built) := by
  refine entrywise_within "content" ?_
  rw [responseEntry, if_neg (by decide)]
  exact ⟨_, inMediaType_addExample built contentType name, rfl⟩

theorem inStatus_mediaChange (status : String) :
    InStatus fun responses => within responses status fun response =>
      mediaChange contentType name built (describing.apply response) := by
  refine entrywise_within status ⟨_, ⟨[describing.apply, mediaChange contentType name built],
    fun change hchange => ?_, rfl⟩, rfl⟩
  simp only [List.mem_cons, List.not_mem_nil, or_false] at hchange
  rcases hchange with rfl | rfl
  · exact entrywise_describing
  · exact entrywise_mediaChange built contentType name

end Kinds

/-! ## Examples for parameters -/

/-- An example for the parameter with a name. -/
structure ParameterExample where
  parameter : Value
  name : String
  built : Fields

namespace ParameterExample

def add (e : ParameterExample) : Fields → Fields := addExample e.name e.built

/-- The example is for the item. -/
def isFor (e : ParameterExample) (item : Value) : Bool := isNamed e.parameter item

def put (e : ParameterExample) (items : List Value) : List Value :=
  changeFirst (isNamed e.parameter) e.add items

def change (e : ParameterExample) (v : Option Value) : Value := .list (e.put (itemsOf v))

end ParameterExample

def putAll (es : List ParameterExample) (items : List Value) : List Value :=
  es.foldl (fun acc e => e.put acc) items

/-- All examples added to one item. -/
def addAll (es : List ParameterExample) : Value → Value
  | .map fields => .map (compose (es.map ParameterExample.add) fields)
  | v => v

theorem addAll_nil (v : Value) : addAll [] v = v := by
  cases v <;> rfl

theorem addAll_addAll_cons (e : ParameterExample) (es : List ParameterExample) (v : Value) :
    addAll es (addAll [e] v) = addAll (e :: es) v := by
  cases v <;> rfl

theorem get?_compose_add (es : List ParameterExample) (fields : Fields) :
    get? (compose (es.map ParameterExample.add) fields) "name" = get? fields "name" := by
  induction es generalizing fields with
  | nil => rfl
  | cons e es ih =>
    have hstep : get? (e.add fields) "name" = get? fields "name" := by
      show get? (within fields "examples" _) "name" = _
      rw [within_eq]
      exact Fields.get?_assign_of_ne fields (show "examples" ≠ "name" by decide) _
    exact (ih (e.add fields)).trans hstep

/-- Items keep their names. -/
theorem keyOf?_addAll (es : List ParameterExample) (v : Value) :
    keyOf? "name" (addAll es v) = keyOf? "name" v := by
  cases v with
  | map fields => exact congrArg some (get?_compose_add es fields)
  | _ => rfl

theorem isFor_congr {v w : Value} (h : keyOf? "name" v = keyOf? "name" w)
    (e : ParameterExample) : e.isFor v = e.isFor w := by
  have hfield (u : Value) : u.field? "name" = (keyOf? "name" u).join := by
    cases u with
    | map fields => rfl
    | _ => rfl
  rw [ParameterExample.isFor, ParameterExample.isFor, isNamed, isNamed, hfield, hfield, h]

theorem put_cons (e : ParameterExample) (v : Value) (items : List Value) :
    e.put (v :: items) = if e.isFor v then addAll [e] v :: items else v :: e.put items := by
  cases v <;> rfl

theorem putAll_nil (es : List ParameterExample) : putAll es [] = [] := by
  induction es with
  | nil => rfl
  | cons e es ih => exact ih

/-- The first item gets the examples that are for it, and the others are left for the rest.  Items
keep their names, so which one an example is for does not change on the way. -/
theorem putAll_cons (es : List ParameterExample) (v : Value) (items : List Value) :
    putAll es (v :: items) =
      addAll (es.filter (·.isFor v)) v :: putAll (es.filter fun e => !e.isFor v) items := by
  induction es generalizing v items with
  | nil => rw [List.filter_nil, List.filter_nil, addAll_nil]; rfl
  | cons e es ih =>
    show putAll es (e.put (v :: items)) = _
    rw [put_cons]
    by_cases h : e.isFor v = true
    · have hsame (d : ParameterExample) : d.isFor (addAll [e] v) = d.isFor v :=
        isFor_congr (keyOf?_addAll [e] v) d
      rw [if_pos h, ih, List.filter_cons_of_pos (by simpa using h),
        List.filter_cons_of_neg (by simpa using h)]
      simp only [hsame]
      rw [addAll_addAll_cons]
    · rw [if_neg h, ih, List.filter_cons_of_neg (by simpa using h),
        List.filter_cons_of_pos (by simpa using h)]
      rfl

theorem keys_putAll (es : List ParameterExample) (items : List Value) :
    (putAll es items).map (keyOf? "name") = items.map (keyOf? "name") := by
  induction items generalizing es with
  | nil => rw [putAll_nil]
  | cons v items ih =>
    rw [putAll_cons, List.map_cons, List.map_cons, keyOf?_addAll, ih]

theorem length_putAll (es : List ParameterExample) (items : List Value) :
    (putAll es items).length = items.length := by
  have := congrArg List.length (keys_putAll es items)
  rwa [List.length_map, List.length_map] at this

theorem putAll_append (es : List ParameterExample) (items rest : List Value) :
    putAll es (items ++ rest) =
      putAll es items ++ putAll (es.filter fun e => !items.any e.isFor) rest := by
  induction items generalizing es with
  | nil =>
    have hall : es.filter (fun e => !([] : List Value).any e.isFor) = es :=
      List.filter_eq_self.mpr fun _ _ => rfl
    rw [putAll_nil, hall, List.nil_append, List.nil_append]
  | cons v items ih =>
    rw [List.cons_append, putAll_cons, putAll_cons, ih, List.filter_filter, List.cons_append]
    simp only [List.any_cons, Bool.not_or, Bool.and_comm]

theorem forall_mem_putAll {P : Value → Prop}
    (hP : ∀ v w, keyOf? "name" v = keyOf? "name" w → (P v ↔ P w)) (es : List ParameterExample)
    (items : List Value) : (∀ v ∈ putAll es items, P v) ↔ ∀ v ∈ items, P v := by
  induction items generalizing es with
  | nil => rw [putAll_nil]
  | cons v items ih =>
    rw [putAll_cons, List.forall_mem_cons, List.forall_mem_cons, ih,
      hP _ _ (keyOf?_addAll (es.filter (·.isFor v)) v)]

theorem any_isFor_putAll (es : List ParameterExample) (items : List Value)
    (e : ParameterExample) : (putAll es items).any e.isFor = items.any e.isFor := by
  induction items generalizing es with
  | nil => rw [putAll_nil]
  | cons v items ih =>
    rw [putAll_cons, List.any_cons, List.any_cons, ih, isFor_congr (keyOf?_addAll _ v)]

theorem addAll_addAll (es : List ParameterExample) {v : Value} (hv : v.WellFormed) :
    addAll es (addAll es v) = addAll es v := by
  cases v with
  | map fields =>
    have hkind : ∀ change ∈ es.map ParameterExample.add, InExamples change := by
      intro change hchange
      obtain ⟨e, -, rfl⟩ := List.mem_map.mp hchange
      exact inExamples_addExample e.built e.name
    exact congrArg Value.map ((settling_inExamples _ hkind).twice hv)
  | _ => rfl

/-- Examples that were put in can be put in again. -/
theorem putAll_putAll (es : List ParameterExample) {items : List Value}
    (hitems : ∀ v ∈ items, v.WellFormed) : putAll es (putAll es items) = putAll es items := by
  induction items generalizing es with
  | nil => rw [putAll_nil, putAll_nil]
  | cons v items ih =>
    have hsame (e : ParameterExample) :
        e.isFor (addAll (es.filter (·.isFor v)) v) = e.isFor v :=
      isFor_congr (keyOf?_addAll _ v) e
    rw [putAll_cons, putAll_cons]
    simp only [hsame]
    rw [addAll_addAll _ (hitems v List.mem_cons_self),
      ih _ fun w hw => hitems w (List.mem_cons_of_mem v hw)]

theorem valueAfter_change (es : List ParameterExample) (items : List Value) :
    valueAfter (es.map ParameterExample.change) (some (.list items)) =
      some (.list (putAll es items)) := by
  induction es generalizing items with
  | nil => rfl
  | cons e es ih => exact ih (e.put items)

/-- Putting in an example makes a list of anything else. -/
theorem valueAfter_change_of_ne_nil {es : List ParameterExample} (h : es ≠ [])
    (v : Option Value) : valueAfter (es.map ParameterExample.change) v =
      some (.list (putAll es (itemsOf v))) := by
  cases es with
  | nil => exact absurd rfl h
  | cons e es => exact valueAfter_change es (e.put (itemsOf v))

/-! ## Examples of an operation -/

/-- The changes that placing an example can make. -/
inductive Placing : EntryChange → Prop
  | parameter (e : ParameterExample) : Placing ⟨"parameters", e.change⟩
  | requestBody {change : Fields → Fields} (h : InContent change) :
      Placing ⟨"requestBody", onMap change⟩
  | response {change : Fields → Fields} (h : InStatus change) : Placing ⟨"responses", onMap change⟩

/-- What `place` does to an operation is a series of such changes. -/
def PlacesBy (place : Fields → Fields) : Prop :=
  ∃ cs, (∀ c ∈ cs, Placing c) ∧ ∀ target, place target = applyAll cs target

theorem placesBy_id : PlacesBy fun target => target :=
  ⟨[], fun _ h => absurd h List.not_mem_nil, fun _ => rfl⟩

theorem Placing.placesBy {c : EntryChange} (h : Placing c) {place : Fields → Fields}
    (heq : ∀ target, place target = c.apply target) : PlacesBy place :=
  ⟨[c], fun _ hd => List.mem_singleton.mp hd ▸ h, heq⟩

theorem PlacesBy.comp {first next : Fields → Fields} (h : PlacesBy first) (h' : PlacesBy next) :
    PlacesBy fun target => next (first target) := by
  obtain ⟨cs, hcs, hfirst⟩ := h
  obtain ⟨ds, hds, hnext⟩ := h'
  refine ⟨cs ++ ds, fun c hc => (List.mem_append.mp hc).elim (hcs c) (hds c), fun target => ?_⟩
  show next (first target) = _
  rw [hnext, hfirst, applyAll, applyAll, applyAll, List.foldl_append]

theorem placesBy_placeExample {placement : String} (hschema : placement ≠ "schema")
    (entry : Fields) (name : String) :
    PlacesBy fun target => placeExample target entry placement name := by
  unfold placeExample
  dsimp only
  by_cases hparameter : placement = "parameter"
  · simp only [if_pos hparameter]
    cases get? entry "parameter_name" with
    | none => exact placesBy_id
    | some parameter =>
      by_cases htruthy : parameter.truthy = true
      · simp only [htruthy]
        refine (Placing.parameter ⟨parameter, name, exampleObject entry⟩).placesBy fun target => ?_
        exact (Fields.assign_eq_set (fun hp => absurd hp (by decide)) _).symm
      · simp only [htruthy]
        exact placesBy_id
  simp only [if_neg hparameter]
  by_cases hbody : placement = "requestBody"
  · simp only [if_pos hbody]
    have hmedia := inContent_mediaChange (exampleObject entry) (contentTypeOf entry) name
    exact (Placing.requestBody hmedia).placesBy fun target => within_eq target "requestBody" _
  simp only [if_neg hbody]
  by_cases hresponse : placement = "response"
  · simp only [if_pos hresponse, ← describing_apply]
    have hplaced (status : Value) : PlacesBy fun target =>
        withinPath target ["responses", status.display] fun response =>
          mediaChange (contentTypeOf entry) name (exampleObject entry)
            (describing.apply response) :=
      (Placing.response (inStatus_mediaChange _ _ name status.display)).placesBy
        fun target => within_eq target "responses" _
    cases get? entry "status_code" with
    | none => exact placesBy_id
    | some status =>
      cases status with
      | null => exact placesBy_id
      | _ => exact hplaced _
  simp only [if_neg hresponse, if_neg hschema]
  exact placesBy_id

/-- No example is placed on the list of examples for schemas. -/
def NoSchemaExamples (examples : Option Value) : Prop :=
  ∀ e ∈ itemsOf examples, e.field? "placement" ≠ some (.str "schema")

theorem placesBy_useExample {entry : Value}
    (hschema : entry.field? "placement" ≠ some (.str "schema")) (method : String) :
    PlacesBy fun target => useExample method target entry := by
  cases entry with
  | map e =>
    unfold useExample
    dsimp only
    split
    · next placement name hplacement _ =>
      by_cases hunused : (placement = "" || name = "" || excludesMethod e method) = true
      · simp only [if_pos hunused]
        exact placesBy_id
      · simp only [if_neg hunused]
        refine placesBy_placeExample (fun heq => hschema ?_) e name
        exact heq ▸ hplacement
    · exact placesBy_id
  | _ => exact placesBy_id

/-- Placing examples is a series of changes of an operation. -/
theorem placesBy_withExamples {examples : Option Value} (hschema : NoSchemaExamples examples)
    (method : String) : PlacesBy fun target => withExamples target (itemsOf examples) method := by
  unfold NoSchemaExamples at hschema
  unfold withExamples
  generalize itemsOf examples = items at hschema ⊢
  induction items with
  | nil => exact placesBy_id
  | cons e rest ih =>
    have hfirst := placesBy_useExample (hschema e List.mem_cons_self) method
    exact hfirst.comp (ih fun d hd => hschema d (List.mem_cons_of_mem e hd))

section Changes

variable {cs : List EntryChange} (h : ∀ c ∈ cs, Placing c)
include h

theorem exists_parameterExamples :
    ∃ es : List ParameterExample, changesAt "parameters" cs = es.map ParameterExample.change := by
  have heach : ∀ change ∈ changesAt "parameters" cs,
      ∃ e : ParameterExample, True ∧ change = e.change := by
    intro change hchange
    obtain ⟨c, hc, hkey, rfl⟩ := mem_changesAt hchange
    cases h c hc with
    | parameter e => exact ⟨e, trivial, rfl⟩
    | _ => exact absurd hkey (by simp)
  obtain ⟨es, -, hes⟩ := exists_map_of_forall heach
  exact ⟨es, hes⟩

theorem inside_of_mem_requestBody :
    ∀ change ∈ changesAt "requestBody" cs, Inside InContent change := by
  intro change hchange
  obtain ⟨c, hc, hkey, rfl⟩ := mem_changesAt hchange
  cases h c hc with
  | requestBody hmedia => exact ⟨_, hmedia, rfl⟩
  | _ => exact absurd hkey (by simp)

theorem inside_of_mem_responses :
    ∀ change ∈ changesAt "responses" cs, Inside InStatus change := by
  intro change hchange
  obtain ⟨c, hc, hkey, rfl⟩ := mem_changesAt hchange
  cases h c hc with
  | response hmedia => exact ⟨_, hmedia, rfl⟩
  | _ => exact absurd hkey (by simp)

theorem changesAt_eq_nil {k : String} (hk : k ∉ ["parameters", "requestBody", "responses"]) :
    changesAt k cs = [] := by
  refine List.eq_nil_iff_forall_not_mem.mpr fun change hchange => ?_
  obtain ⟨c, hc, rfl, -⟩ := mem_changesAt hchange
  cases h c hc with
  | _ => exact hk (by simp)

theorem get?_applyAll_placing (target : Fields) (k : String) :
    get? (applyAll cs target) k = valueAfter (changesAt k cs) (get? target k) := by
  by_cases hk : k ∈ ["parameters", "requestBody", "responses"]
  · refine get?_applyAll (Fields.takes_of_ne fun hp => ?_) cs
    rw [hp] at hk
    exact absurd hk (by decide)
  · rw [changesAt_eq_nil h hk, get?_applyAll_of_none (changesAt_eq_nil h hk)]
    rfl

end Changes

end Metadata
end ApiSync
