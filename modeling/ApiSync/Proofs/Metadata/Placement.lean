import Mathlib.Data.List.Basic
import ApiSync.Proofs.Metadata.Placing
import ApiSync.Proofs.Metadata.Writing
/-!
# The last example for a place wins

Each example that is used goes to one place of an operation: the first parameter with a name, the
body under a content type, or a response under a status and a content type.  Placing examples is
the series of the changes that each of them makes at the end of a path, and any two of these paths
are equal or apart.  So under its name each place holds the last of the examples that go there, and
everything that no example is put into stays as it was.  Examples that lead to the parent of all
mappings are left out: what they write there is found everywhere.
-/

namespace ApiSync
namespace Metadata

open Fields (get? assign)

/-! ## Examples that are used -/

inductive Destination where
  | parameter (name : Value)
  | requestBody (contentType : String)
  | response (status contentType : String)
  | schema

/-- The keys that lead to the destination, as far as an example chooses them. -/
def Destination.keys : Destination → List String
  | .parameter _ | .schema => []
  | .requestBody contentType => [contentType]
  | .response status contentType => [status, contentType]

/-- An example for parameters names one, and an example for responses has a status. -/
def destination? (entry : Fields) (placement : String) : Option Destination :=
  if placement = "parameter" then
    ((get? entry "parameter_name").filter Value.truthy).map .parameter
  else if placement = "requestBody" then some (.requestBody (contentTypeOf entry))
  else if placement = "response" then
    ((get? entry "status_code").filter fun status => !status.isNull).map fun status =>
      .response status.display (contentTypeOf entry)
  else if placement = "schema" then some .schema
  else none

/-- An example without `methods` is for every method, and one that has them for those listed
there, letter case aside. -/
def isForMethod (entry : Fields) (method : String) : Bool :=
  (get? entry "methods").all fun listed =>
    (itemsOf (some listed)).any fun m => Text.lowerCased m.display = Text.lowerCased method

structure UsedExample where
  entry : Fields
  name : String
  destination : Destination

/-- An example is used if it is a mapping with a destination and a name, for the method. -/
def used? (method : String) : Value → Option UsedExample
  | .map entry =>
    match get? entry "placement", get? entry "name" with
    | some (.str placement), some (.str name) =>
      if name ≠ "" && isForMethod entry method then
        (destination? entry placement).map fun destination => ⟨entry, name, destination⟩
      else none
    | _, _ => none
  | _ => none

def usedExamples (examples : Option Value) (method : String) : List UsedExample :=
  (itemsOf examples).filterMap (used? method)

/-- No example leads to the parent of all mappings, of which it would become an entry that every
mapping answers with. -/
def KeepApart (examples : Option Value) (method : String) : Prop :=
  ∀ e ∈ usedExamples examples method, Ambient.parentName ∉ e.destination.keys

/-! ## Places -/

/-- A mapping that examples are put into. -/
inductive Place where
  | parameter (index : Nat)
  | requestBody (contentType : String)
  | response (status contentType : String)
deriving DecidableEq

/-- Where the examples of a body or a response stand in it. -/
def mediaPath (contentType name : String) : List String :=
  ["content", contentType, "examples", name]

theorem not_mem_mediaPath {contentType name : String}
    (h : Ambient.parentName ∉ [name, contentType]) :
    Ambient.parentName ∉ mediaPath contentType name := by
  simp only [mediaPath, List.mem_cons, List.not_mem_nil, or_false, not_or] at h ⊢
  exact ⟨by decide, h.2, by decide, h.1⟩

/-- What a place holds under a name. -/
def exampleAt (operation : Fields) (name : String) : Place → Option Value
  | .parameter i => reach (listAt operation "parameters")[i]? ["examples", name]
  | .requestBody contentType =>
    reach (some (.map operation)) ("requestBody" :: mediaPath contentType name)
  | .response status contentType =>
    reach (some (.map operation)) ("responses" :: status :: mediaPath contentType name)

namespace UsedExample

def built (e : UsedExample) : Value := .map (exampleObject e.entry)

/-- Among the parameters, an example is for the first one with the name. -/
def place? (e : UsedExample) (operation : Fields) : Option Place :=
  match e.destination with
  | .parameter name =>
    ((listAt operation "parameters").findIdx? (isNamed name)).map .parameter
  | .requestBody contentType => some (.requestBody contentType)
  | .response status contentType => some (.response status contentType)
  | .schema => none

/-- The example goes to a response under the status. -/
def describes (status : String) (e : UsedExample) : Bool :=
  match e.destination with
  | .response found _ => found = status
  | _ => false

def isSchema (e : UsedExample) : Bool :=
  match e.destination with
  | .schema => true
  | _ => false

/-- The example as one for parameters. -/
def parameter? (e : UsedExample) : Option ParameterExample :=
  match e.destination with
  | .parameter name => some ⟨name, e.name, exampleObject e.entry⟩
  | _ => none

/-- The example put under its name into the mapping of a place. -/
def put (e : UsedExample) : Write := ⟨["examples", e.name], fun _ => e.built⟩

/-- What the example changes of an operation. -/
def writes (e : UsedExample) : List Write :=
  match e.destination with
  | .parameter name =>
    [⟨["parameters"], ParameterExample.change ⟨name, e.name, exampleObject e.entry⟩⟩]
  | .requestBody contentType =>
    [⟨"requestBody" :: mediaPath contentType e.name, fun _ => e.built⟩]
  | .response status contentType =>
    [⟨["responses", status, "description"], fun current => current.getD (.str "Response")⟩,
      ⟨"responses" :: status :: mediaPath contentType e.name, fun _ => e.built⟩]
  | .schema =>
    [⟨["x-schema-examples"], fun current => .list (itemsOf current ++ [.map e.entry])⟩]

end UsedExample

/-! ## Placing as a series of changes -/

theorem excludesMethod_eq (entry : Fields) (method : String) :
    excludesMethod entry method = !isForMethod entry method := by
  unfold excludesMethod isForMethod
  cases get? entry "methods" with
  | none => rfl
  | some listed =>
    cases listed with
    | list ms => rfl
    | _ => rfl

theorem writeTo_onMap (path : List String) (change : Fields → Fields) (v : Option Value) :
    writeTo path (onMap change) v = .map (withinPath (mapOf v) path change) := by
  induction path generalizing v with
  | nil => rfl
  | cons k rest ih =>
    rw [writeTo, withinPath, within_eq, ih]
    rfl

theorem onMap_addExample (name : String) (built : Fields) :
    onMap (addExample name built) = writeTo ["examples", name] fun _ => .map built := by
  funext v
  rw [onMap, addExample, within_eq]
  rfl

theorem writeTo_addExample (path : List String) (name : String) (built : Fields)
    (fields : Fields) : writeTo (path ++ ["examples", name]) (fun _ => .map built)
      (some (.map fields)) = .map (withinPath fields path (addExample name built)) := by
  rw [writeTo_append, ← onMap_addExample, writeTo_onMap]
  rfl

/-- A response gets its description before the example. -/
theorem writeTo_response (status contentType name : String) (built target : Fields) :
    writeTo ("responses" :: status :: mediaPath contentType name) (fun _ => .map built)
        (some (writeTo ["responses", status, "description"]
          (fun current => current.getD (.str "Response")) (some (.map target)))) =
      .map (withinPath target ["responses", status] fun response =>
        mediaChange contentType name built (describing.apply response)) := by
  have hinside : (fun v => writeTo (mediaPath contentType name) (fun _ => .map built)
      (some (writeTo ["description"] (fun current => current.getD (.str "Response")) v))) =
      onMap fun response => mediaChange contentType name built (describing.apply response) :=
    funext fun v => writeTo_addExample ["content", contentType] name built _
  show writeTo (["responses", status] ++ mediaPath contentType name) _
    (some (writeTo (["responses", status] ++ ["description"]) _ _)) = _
  rw [writeTo_append, writeTo_append, writeTo_writeTo, hinside, writeTo_onMap]
  rfl

theorem map_placeExample (target entry : Fields) (placement name : String) :
    some (.map (placeExample target entry placement name)) =
      writeAll ((destination? entry placement).toList.flatMap fun d =>
        UsedExample.writes ⟨entry, name, d⟩) (some (.map target)) := by
  have hset (k : String) (v : Value) (hk : k ≠ Ambient.parentName) :
      assign target k v = Fields.set target k v := Fields.assign_eq_set (fun hp => absurd hp hk) v
  unfold placeExample destination?
  dsimp only
  by_cases hparameter : placement = "parameter"
  · simp only [if_pos hparameter]
    cases get? entry "parameter_name" with
    | none => rfl
    | some parameter =>
      cases htruthy : parameter.truthy with
      | false =>
        simp only [Option.filter_some, htruthy]
        rfl
      | true =>
        simp only [Option.filter_some, htruthy]
        exact congrArg (fun fields => some (Value.map fields)) (hset _ _ (by decide)).symm
  simp only [if_neg hparameter]
  by_cases hbody : placement = "requestBody"
  · simp only [if_pos hbody]
    exact congrArg some (writeTo_addExample ["requestBody", "content", contentTypeOf entry] name
      (exampleObject entry) target).symm
  simp only [if_neg hbody]
  by_cases hresponse : placement = "response"
  · simp only [if_pos hresponse, ← describing_apply]
    have hplaced (status : Value) := congrArg some
      (writeTo_response status.display (contentTypeOf entry) name (exampleObject entry) target).symm
    cases get? entry "status_code" with
    | none => rfl
    | some status =>
      cases status with
      | null => rfl
      | _ => exact hplaced _
  simp only [if_neg hresponse]
  by_cases hschema : placement = "schema"
  · simp only [if_pos hschema]
    exact congrArg (fun fields => some (Value.map fields)) (hset _ _ (by decide)).symm
  · simp only [if_neg hschema]
    rfl

theorem map_useNamed (target entry : Fields) (placement name method : String) :
    some (.map (if placement = "" || name = "" || excludesMethod entry method then target
      else placeExample target entry placement name)) =
      writeAll ((if name ≠ "" && isForMethod entry method then
        (destination? entry placement).map fun d => UsedExample.mk entry name d
        else none).toList.flatMap UsedExample.writes) (some (.map target)) := by
  rw [excludesMethod_eq]
  by_cases hused : (name ≠ "" && isForMethod entry method) = true
  · rw [if_pos hused]
    rw [Bool.and_eq_true, decide_eq_true_eq] at hused
    by_cases hempty : placement = ""
    · subst hempty
      rfl
    · have hplaced : ¬(placement = "" || name = "" || !isForMethod entry method) = true := by
        simp [hempty, hused]
      rw [if_neg hplaced, map_placeExample, Option.toList_map, List.flatMap_map]
  · have hskipped : (placement = "" || name = "" || !isForMethod entry method) = true := by
      by_cases hname : name = "" <;> simp_all
    rw [if_neg hused, if_pos hskipped]
    rfl

theorem map_useExample (method : String) (target : Fields) (v : Value) :
    some (.map (useExample method target v)) =
      writeAll ((used? method v).toList.flatMap UsedExample.writes) (some (.map target)) := by
  cases v with
  | map entry =>
    unfold useExample used?
    dsimp only
    cases get? entry "placement" with
    | none => rfl
    | some p =>
      cases p with
      | str placement =>
        cases get? entry "name" with
        | none => rfl
        | some n =>
          cases n with
          | str name => exact map_useNamed target entry placement name method
          | _ => rfl
      | _ => rfl
  | _ => rfl

/-- Placing examples is the series of the changes of those that are used. -/
theorem map_withExamples (target : Fields) (examples : Option Value) (method : String) :
    some (.map (withExamples target (itemsOf examples) method)) =
      writeAll ((usedExamples examples method).flatMap UsedExample.writes)
        (some (.map target)) := by
  rw [usedExamples, withExamples]
  generalize itemsOf examples = items
  induction items generalizing target with
  | nil => rfl
  | cons v items ih =>
    have hsplit : (v :: items).filterMap (used? method) =
        (used? method v).toList ++ items.filterMap (used? method) := by
      rw [List.filterMap_cons]
      cases used? method v <;> rfl
    rw [List.foldl_cons, ih, map_useExample, hsplit, List.flatMap_append, writeAll_append]

/-! ## Paths that are written -/

inductive IsWritten : List String → Prop
  | parameters : IsWritten ["parameters"]
  | schemas : IsWritten ["x-schema-examples"]
  | description (status : String) : IsWritten ["responses", status, "description"]
  | requestBody (contentType name : String) :
      IsWritten ("requestBody" :: mediaPath contentType name)
  | response (status contentType name : String) :
      IsWritten ("responses" :: status :: mediaPath contentType name)

theorem IsWritten.eq_or_apart {p q : List String} (hp : IsWritten p) (hq : IsWritten q) :
    p = q ∨ Apart p q := by
  by_cases h : p.length = q.length
  · exact eq_or_apart_of_length_eq h
  · refine .inr ?_
    cases hp <;> cases hq <;> simp_all [Apart, mediaPath, List.cons_prefix_cons]

theorem UsedExample.isWritten {e : UsedExample} {w : Write} (h : w ∈ e.writes) :
    IsWritten w.path := by
  obtain ⟨entry, name, destination⟩ := e
  cases destination with
  | parameter parameter =>
    obtain rfl := List.mem_singleton.mp h
    exact .parameters
  | requestBody contentType =>
    obtain rfl := List.mem_singleton.mp h
    exact .requestBody contentType name
  | response status contentType =>
    rcases List.mem_cons.mp h with rfl | h
    · exact .description status
    · obtain rfl := List.mem_singleton.mp h
      exact .response status contentType name
  | schema =>
    obtain rfl := List.mem_singleton.mp h
    exact .schemas

/-- What the example makes of what stands at the end of a path. -/
def UsedExample.changesAt (e : UsedExample) (path : List String) : List (Option Value → Value) :=
  (e.writes.filter (·.path = path)).map Write.change

/-- After all changes, each path that may be written holds what its own changes come to. -/
theorem reach_writes {path : List String} (hpath : IsWritten path)
    (hplain : Ambient.parentName ∉ path) (es : List UsedExample) (v : Option Value) :
    reach (writeAll (es.flatMap UsedExample.writes) v) path =
      valueAfter (es.flatMap (·.changesAt path)) (reach v path) := by
  have hws : ∀ w ∈ es.flatMap UsedExample.writes, w.path = path ∨ Apart w.path path := by
    intro w hw
    obtain ⟨e, -, hwrite⟩ := List.mem_flatMap.mp hw
    exact (UsedExample.isWritten hwrite).eq_or_apart hpath
  rw [reach_writeAll hplain hws, List.filter_flatMap, List.map_flatMap]
  rfl

/-- A path at which no example changes anything holds what it held. -/
theorem reach_writes_of_none {path : List String} (hpath : IsWritten path)
    {es : List UsedExample} (hnone : ∀ e ∈ es, e.changesAt path = []) (v : Option Value) :
    reach (writeAll (es.flatMap UsedExample.writes) v) path = reach v path := by
  refine (WritesOnly.run _ v).elsewhere path fun p hp => ?_
  obtain ⟨w, hw, rfl⟩ := List.mem_map.mp hp
  obtain ⟨e, he, hwrite⟩ := List.mem_flatMap.mp hw
  refine ((UsedExample.isWritten hwrite).eq_or_apart hpath).resolve_left fun heq => ?_
  have hmem : w ∈ e.writes.filter (·.path = path) :=
    List.mem_filter.mpr ⟨hwrite, decide_eq_true heq⟩
  rw [List.map_eq_nil_iff.mp (hnone e he)] at hmem
  exact absurd hmem List.not_mem_nil

theorem flatMap_if {α β : Type} (p : α → Bool) (g : α → β) (xs : List α) :
    (xs.flatMap fun x => if p x then [g x] else []) = (xs.filter p).map g := by
  induction xs with
  | nil => rfl
  | cons x xs ih =>
    rw [List.flatMap_cons, ih, List.filter_cons]
    split <;> rfl

theorem filter_ne_nil_iff_any {α : Type} {p : α → Bool} {xs : List α} :
    xs.filter p ≠ [] ↔ xs.any p = true := by
  simp [List.filter_eq_nil_iff, List.any_eq_true]

/-- The example goes to the place under the name. -/
def UsedExample.isAt (e : UsedExample) (operation : Fields) (name : String)
    (place : Place) : Bool :=
  e.name = name && e.place? operation = some place

section Media

variable (operation : Fields) (contentType name : String)

theorem changesAt_requestBody (e : UsedExample) :
    e.changesAt ("requestBody" :: mediaPath contentType name) =
      if e.isAt operation name (.requestBody contentType) then [fun _ => e.built] else [] := by
  obtain ⟨entry, name', destination⟩ := e
  cases destination <;>
    simp [UsedExample.changesAt, UsedExample.writes, UsedExample.isAt, UsedExample.place?,
      mediaPath, List.filter_cons, apply_ite (List.map Write.change), and_comm]

theorem changesAt_response (status : String) (e : UsedExample) :
    e.changesAt ("responses" :: status :: mediaPath contentType name) =
      if e.isAt operation name (.response status contentType) then [fun _ => e.built] else [] := by
  obtain ⟨entry, name', destination⟩ := e
  cases destination <;>
    simp [UsedExample.changesAt, UsedExample.writes, UsedExample.isAt, UsedExample.place?,
      mediaPath, List.filter_cons, apply_ite (List.map Write.change), and_comm, and_left_comm]

/-- An example in a body or a response is the last one that goes there, or what was there. -/
theorem last_of_changesAt {path : List String} (hpath : IsWritten path)
    (hplain : Ambient.parentName ∉ path) {goes : UsedExample → Bool}
    (hchanges : ∀ e : UsedExample, e.changesAt path = if goes e then [fun _ => e.built] else [])
    (es : List UsedExample) (v : Option Value) :
    reach (writeAll (es.flatMap UsedExample.writes) v) path =
      ((es.filter goes).getLast?.map UsedExample.built).or (reach v path) := by
  rw [reach_writes hpath hplain, funext hchanges, flatMap_if, valueAfter_put]

end Media

theorem changesAt_description (status : String) (e : UsedExample) :
    e.changesAt ["responses", status, "description"] =
      if e.describes status then [fun current => current.getD (.str "Response")] else [] := by
  obtain ⟨entry, name, destination⟩ := e
  cases destination <;>
    simp [UsedExample.changesAt, UsedExample.writes, UsedExample.describes, mediaPath,
      List.filter_cons, apply_ite (List.map Write.change)]

theorem changesAt_schemas (e : UsedExample) :
    e.changesAt ["x-schema-examples"] =
      if e.isSchema then [fun current => .list (itemsOf current ++ [.map e.entry])] else [] := by
  obtain ⟨entry, name, destination⟩ := e
  cases destination <;>
    simp [UsedExample.changesAt, UsedExample.writes, UsedExample.isSchema, mediaPath]

theorem changesAt_parameters (e : UsedExample) :
    e.changesAt ["parameters"] = e.parameter?.toList.map ParameterExample.change := by
  obtain ⟨entry, name, destination⟩ := e
  cases destination <;>
    simp [UsedExample.changesAt, UsedExample.writes, UsedExample.parameter?, mediaPath]

section After

variable (es : List UsedExample) (v : Option Value)

/-- A response that gets an example and had no description gets one. -/
theorem description_after {status : String} (hstatus : status ≠ Ambient.parentName)
    (hdescribes : es.any (·.describes status) = true) :
    reach (writeAll (es.flatMap UsedExample.writes) v) ["responses", status, "description"] =
      (reach v ["responses", status, "description"]).or (some (.str "Response")) := by
  have hplain : Ambient.parentName ∉ ["responses", status, "description"] := by
    simp only [List.mem_cons, List.not_mem_nil, or_false, not_or]
    exact ⟨by decide, hstatus.symm, by decide⟩
  have hne := filter_ne_nil_iff_any.mpr hdescribes
  rw [reach_writes (.description status) hplain, funext (changesAt_description status), flatMap_if]
  refine valueAfter_fill (by simpa using hne) (fun g hg => ?_) _
  obtain ⟨e, -, rfl⟩ := List.mem_map.mp hg
  rfl

theorem schemas_after :
    reach (writeAll (es.flatMap UsedExample.writes) v) ["x-schema-examples"] =
      if es.any (·.isSchema) then
        some (.list (itemsOf (reach v ["x-schema-examples"]) ++
          (es.filter (·.isSchema)).map fun e => .map e.entry))
      else reach v ["x-schema-examples"] := by
  rw [reach_writes .schemas (by decide), funext changesAt_schemas, flatMap_if]
  by_cases hany : es.any (·.isSchema) = true
  · have hne := filter_ne_nil_iff_any.mpr hany
    rw [if_pos hany, valueAfter_append (fun e : UsedExample => .map e.entry) hne]
  · have hnone : es.filter (·.isSchema) = [] := by rwa [← filter_ne_nil_iff_any, not_not] at hany
    rw [if_neg hany, hnone]
    rfl

theorem parameters_after :
    reach (writeAll (es.flatMap UsedExample.writes) v) ["parameters"] =
      valueAfter ((es.filterMap (·.parameter?)).map ParameterExample.change)
        (reach v ["parameters"]) := by
  rw [reach_writes .parameters (by decide), funext changesAt_parameters,
    List.filterMap_eq_flatMap_toList, List.map_flatMap]

end After

/-! ## One parameter -/

def ParameterExample.write (p : ParameterExample) : Write :=
  ⟨["examples", p.name], fun _ => .map p.built⟩

theorem some_addAll {ps : List ParameterExample} {item : Value}
    (h : ∀ p ∈ ps, p.isFor item = true) :
    some (addAll ps item) = writeAll (ps.map ParameterExample.write) (some item) := by
  cases item with
  | map fields =>
    show some (Value.map (compose (ps.map ParameterExample.add) fields)) = _
    clear h
    induction ps generalizing fields with
    | nil => rfl
    | cons p ps ih =>
      have hstep : p.write.apply (some (.map fields)) = .map (p.add fields) :=
        (congrFun (onMap_addExample p.name p.built) (some (.map fields))).symm
      rw [List.map_cons, List.map_cons, writeAll_cons, hstep]
      exact ih (p.add fields)
  | _ =>
    cases ps with
    | nil => rfl
    | cons p ps => exact absurd (h p List.mem_cons_self) Bool.false_ne_true

/-- An item gets the examples that find it first. -/
theorem getElem?_putAll (ps : List ParameterExample) (items : List Value) (i : Nat) :
    (putAll ps items)[i]? = writeAll
      ((ps.filter fun p => items.findIdx? p.isFor = some i).map ParameterExample.write)
        items[i]? := by
  induction items generalizing ps i with
  | nil =>
    have hnone : ps.filter (fun p => ([] : List Value).findIdx? p.isFor = some i) = [] :=
      List.filter_eq_nil_iff.mpr fun p _ h => nomatch of_decide_eq_true h
    rw [putAll_nil, hnone]
    rfl
  | cons v items ih =>
    rw [putAll_cons]
    cases i with
    | zero =>
      have hfirst (p : ParameterExample) :
          decide ((v :: items).findIdx? p.isFor = some 0) = p.isFor v := by
        rw [List.findIdx?_cons]
        cases p.isFor v <;> simp
      simp only [hfirst, List.getElem?_cons_zero]
      exact some_addAll fun p hp => (List.mem_filter.mp hp).2
    | succ i =>
      have hlater (p : ParameterExample) : decide ((v :: items).findIdx? p.isFor = some (i + 1)) =
          (decide (items.findIdx? p.isFor = some i) && !p.isFor v) := by
        rw [List.findIdx?_cons]
        cases p.isFor v <;> simp
      simp only [hlater, List.getElem?_cons_succ, ih, List.filter_filter]

theorem writes_filter_parameters (operation : Fields) (i : Nat) (es : List UsedExample) :
    ((es.filterMap (·.parameter?)).filter fun p =>
        (listAt operation "parameters").findIdx? p.isFor = some i).map ParameterExample.write =
      (es.filter fun e => e.place? operation = some (.parameter i)).map UsedExample.put := by
  induction es with
  | nil => rfl
  | cons e es ih =>
    cases hd : e.destination with
    | parameter parameter =>
      have hparameter : e.parameter? = some ⟨parameter, e.name, exampleObject e.entry⟩ := by
        rw [UsedExample.parameter?, hd]
      have hplace : e.place? operation =
          ((listAt operation "parameters").findIdx? (isNamed parameter)).map .parameter := by
        rw [UsedExample.place?, hd]
      have hfor : ParameterExample.isFor ⟨parameter, e.name, exampleObject e.entry⟩ =
          isNamed parameter := rfl
      have hput : ParameterExample.write ⟨parameter, e.name, exampleObject e.entry⟩ = e.put := rfl
      by_cases hfind : (listAt operation "parameters").findIdx? (isNamed parameter) = some i <;>
        simp [hparameter, hplace, hfor, hfind, hput, ih]
    | _ =>
      have hparameter : e.parameter? = none := by rw [UsedExample.parameter?, hd]
      have hplace : e.place? operation ≠ some (.parameter i) := by
        simp [UsedExample.place?, hd]
      simp [hparameter, hplace, ih]

section Item

variable (operation : Fields) (es : List UsedExample) (i : Nat)

/-- The changes of the examples that go to an item. -/
def itemWrites : List Write :=
  (es.filter fun e => e.place? operation = some (.parameter i)).map UsedExample.put

theorem getElem?_parameters :
    (putAll (es.filterMap (·.parameter?)) (listAt operation "parameters"))[i]? =
      writeAll (itemWrites operation es i) (listAt operation "parameters")[i]? := by
  rw [getElem?_putAll, writes_filter_parameters, itemWrites]

theorem last_of_itemWrites {name : String} (hname : name ≠ Ambient.parentName)
    (v : Option Value) : reach (writeAll (itemWrites operation es i) v) ["examples", name] =
      ((es.filter (·.isAt operation name (.parameter i))).getLast?.map UsedExample.built).or
        (reach v ["examples", name]) := by
  have hplain : Ambient.parentName ∉ ["examples", name] := by
    simp only [List.mem_cons, List.not_mem_nil, or_false, not_or]
    exact ⟨by decide, hname.symm⟩
  have hpaths : ∀ w ∈ itemWrites operation es i,
      w.path = ["examples", name] ∨ Apart w.path ["examples", name] := by
    intro w hw
    obtain ⟨e, -, rfl⟩ := List.mem_map.mp hw
    exact eq_or_apart_of_length_eq rfl
  have hchanges : ((itemWrites operation es i).filter (·.path = ["examples", name])).map
      Write.change = (es.filter (·.isAt operation name (.parameter i))).map fun e _ => e.built := by
    rw [itemWrites, List.filter_map, List.map_map, List.filter_filter]
    refine congrArg (List.map fun (e : UsedExample) _ => e.built) (List.filter_congr fun e _ => ?_)
    simp [UsedExample.put, UsedExample.isAt]
  rw [reach_writeAll hplain hpaths, hchanges, valueAfter_put]

end Item

/-! ## The store of examples -/

/-- The keys on the way to a place that documents choose. -/
def Place.keys : Place → List String
  | .parameter _ => []
  | .requestBody contentType => [contentType]
  | .response status contentType => [status, contentType]

/-- The paths that an example writes in an operation. -/
def UsedExample.paths (e : UsedExample) : List (List String) :=
  match e.destination with
  | .parameter _ => [["parameters"]]
  | .requestBody contentType => ["requestBody" :: mediaPath contentType e.name]
  | .response status contentType => [["responses", status, "description"],
      "responses" :: status :: mediaPath contentType e.name]
  | .schema => [["x-schema-examples"]]

/-- The destination of an example leads where its place is. -/
theorem UsedExample.keys_of_isAt {e : UsedExample} {operation : Fields} {name : String}
    {place : Place} (h : e.isAt operation name place = true) :
    place.keys = e.destination.keys := by
  obtain ⟨entry, name', destination⟩ := e
  have hplace := of_decide_eq_true (Bool.and_eq_true_iff.mp h).2
  cases destination with
  | parameter parameter =>
    obtain ⟨i, -, rfl⟩ := Option.map_eq_some_iff.mp hplace
    rfl
  | requestBody contentType =>
    cases hplace
    rfl
  | response status contentType =>
    cases hplace
    rfl
  | schema => cases hplace

theorem UsedExample.mem_keys_of_describes {e : UsedExample} {status : String}
    (h : e.describes status = true) : status ∈ e.destination.keys := by
  obtain ⟨entry, name, destination⟩ := e
  cases destination with
  | response found contentType =>
    rw [← of_decide_eq_true h]
    exact List.mem_cons_self
  | _ => cases h

theorem UsedExample.map_path_writes (e : UsedExample) : e.writes.map Write.path = e.paths := by
  unfold writes paths
  cases e.destination <;> rfl

/-- What an operation holds after examples were placed. -/
structure LastWins (operation : Fields) (es : List UsedExample) (after : Fields) : Prop where
  /-- Each place holds the last example for it under its name, or what it held. -/
  last : ∀ place name, name ≠ Ambient.parentName →
    exampleAt after name place =
      ((es.filter (·.isAt operation name place)).getLast?.map UsedExample.built).or
        (exampleAt operation name place)
  description : ∀ status, es.any (·.describes status) = true →
    reach (some (.map after)) ["responses", status, "description"] =
      (reach (some (.map operation)) ["responses", status, "description"]).or
        (some (.str "Response"))
  /-- Examples for schemas are appended in order to the list that is there. -/
  schemas : get? after "x-schema-examples" =
    if es.any (·.isSchema) then
      some (.list (listAt operation "x-schema-examples" ++
        (es.filter (·.isSchema)).map fun e => .map e.entry))
    else get? operation "x-schema-examples"
  /-- An example that names a parameter makes a list of the parameters, which gets no new item. -/
  parameters : get? after "parameters" =
    if es.any (·.parameter?.isSome) then some (.list (listAt after "parameters"))
    else get? operation "parameters"
  length_parameters :
    (listAt after "parameters").length = (listAt operation "parameters").length
  /-- Of an item, nothing but the examples that go there is written. -/
  items : ∀ i : Nat, WritesOnly
    ((es.filter fun e => e.place? operation = some (.parameter i)).map
      fun e => ["examples", e.name])
    (listAt operation "parameters")[i]? (listAt after "parameters")[i]?
  /-- Of the rest, nothing but what is said above is written. -/
  rest : WritesOnly (es.flatMap UsedExample.paths) (some (.map operation)) (some (.map after))

theorem parameters_eq_nil {es : List UsedExample}
    (hany : ¬es.any (·.parameter?.isSome) = true) :
    es.filterMap (·.parameter?) = [] := by
  refine List.filterMap_eq_nil_iff.mpr fun e he => ?_
  rw [← Option.not_isSome_iff_eq_none]
  exact fun hsome => hany (List.any_eq_true.mpr ⟨e, he, hsome⟩)

/-- No example is at a place whose way leads to the parent of all mappings. -/
theorem UsedExample.isAt_eq_false {e : UsedExample}
    (hkeep : Ambient.parentName ∉ e.destination.keys) {place : Place}
    (hparent : Ambient.parentName ∈ place.keys) (operation : Fields) (name : String) :
    e.isAt operation name place = false := by
  rw [← Bool.not_eq_true]
  intro hat
  rw [e.keys_of_isAt hat] at hparent
  exact hkeep hparent

theorem filter_isAt_of_parent {es : List UsedExample}
    (hkeep : ∀ e ∈ es, Ambient.parentName ∉ e.destination.keys) {place : Place}
    (hparent : Ambient.parentName ∈ place.keys) (operation : Fields) (name : String) :
    es.filter (·.isAt operation name place) = [] := by
  refine List.filter_eq_nil_iff.mpr fun e he => ?_
  rw [e.isAt_eq_false (hkeep e he) hparent]
  exact Bool.false_ne_true

section Placed

variable {operation after : Fields} {es : List UsedExample}
  (h : some (.map after) = writeAll (es.flatMap UsedExample.writes) (some (.map operation)))
include h

theorem get?_parameters : get? after "parameters" =
    if es.any (·.parameter?.isSome) then
      some (.list (putAll (es.filterMap (·.parameter?)) (listAt operation "parameters")))
    else get? operation "parameters" := by
  have hafter := parameters_after es (some (.map operation))
  rw [← h, reach_key, reach_key] at hafter
  rw [hafter]
  by_cases hany : es.any (·.parameter?.isSome) = true
  · have hne : es.filterMap (·.parameter?) ≠ [] := by
      obtain ⟨e, he, hsome⟩ := List.any_eq_true.mp hany
      obtain ⟨p, hp⟩ := Option.isSome_iff_exists.mp hsome
      exact List.ne_nil_of_mem (List.mem_filterMap.mpr ⟨e, he, hp⟩)
    rw [if_pos hany]
    exact valueAfter_change_of_ne_nil hne _
  · rw [if_neg hany, parameters_eq_nil hany]
    rfl

theorem listAt_parameters : listAt after "parameters" =
    putAll (es.filterMap (·.parameter?)) (listAt operation "parameters") := by
  rw [listAt, get?_parameters h]
  split
  · rfl
  · next hany =>
    rw [parameters_eq_nil hany]
    rfl

theorem getElem?_listAt_parameters (i : Nat) : (listAt after "parameters")[i]? =
    writeAll (itemWrites operation es i) (listAt operation "parameters")[i]? := by
  rw [listAt_parameters h, getElem?_parameters]

variable (hkeep : ∀ e ∈ es, Ambient.parentName ∉ e.destination.keys)
include hkeep

/-- A place holds what it held if its way leads to the parent. -/
theorem exampleAt_of_parent {place : Place} (hparent : Ambient.parentName ∈ place.keys)
    (name : String) : exampleAt after name place = exampleAt operation name place := by
  cases place with
  | parameter i => exact absurd hparent List.not_mem_nil
  | requestBody contentType =>
    rw [exampleAt, exampleAt, h]
    refine reach_writes_of_none (.requestBody contentType name) (fun e he => ?_) _
    rw [changesAt_requestBody operation, UsedExample.isAt_eq_false (hkeep e he) hparent]
    rfl
  | response status contentType =>
    rw [exampleAt, exampleAt, h]
    refine reach_writes_of_none (.response status contentType name) (fun e he => ?_) _
    rw [changesAt_response operation, UsedExample.isAt_eq_false (hkeep e he) hparent]
    rfl

theorem exampleAt_after (place : Place) {name : String} (hname : name ≠ Ambient.parentName) :
    exampleAt after name place =
      ((es.filter (·.isAt operation name place)).getLast?.map UsedExample.built).or
        (exampleAt operation name place) := by
  by_cases hparent : Ambient.parentName ∈ place.keys
  · rw [filter_isAt_of_parent hkeep hparent]
    exact exampleAt_of_parent h hkeep hparent name
  cases place with
  | parameter i =>
    rw [exampleAt, exampleAt, getElem?_listAt_parameters h]
    exact last_of_itemWrites operation es i hname _
  | requestBody contentType =>
    rw [exampleAt, exampleAt, h]
    have hmedia := not_mem_mediaPath (List.not_mem_cons_of_ne_of_not_mem hname.symm hparent)
    have hpath : Ambient.parentName ∉ "requestBody" :: mediaPath contentType name :=
      List.not_mem_cons_of_ne_of_not_mem (by decide) hmedia
    exact last_of_changesAt (.requestBody contentType name) hpath
      (changesAt_requestBody operation contentType name) es _
  | response status contentType =>
    rw [exampleAt, exampleAt, h]
    obtain ⟨hstatus, hcontentType⟩ := List.ne_and_not_mem_of_not_mem_cons hparent
    have hmedia := not_mem_mediaPath (List.not_mem_cons_of_ne_of_not_mem hname.symm hcontentType)
    have hpath : Ambient.parentName ∉ "responses" :: status :: mediaPath contentType name :=
      List.not_mem_cons_of_ne_of_not_mem (by decide)
        (List.not_mem_cons_of_ne_of_not_mem hstatus hmedia)
    exact last_of_changesAt (.response status contentType name) hpath
      (changesAt_response operation contentType name status) es _

theorem lastWins : LastWins operation es after where
  last place name hname := exampleAt_after h hkeep place hname
  description status hdescribes := by
    obtain ⟨e, he, hdescribed⟩ := List.any_eq_true.mp hdescribes
    have hstatus : status ≠ Ambient.parentName := fun heq =>
      hkeep e he (heq ▸ e.mem_keys_of_describes hdescribed)
    rw [h]
    exact description_after es _ hstatus hdescribes
  schemas := by
    have hafter := schemas_after es (some (.map operation))
    rwa [← h, reach_key, reach_key] at hafter
  parameters := by rw [listAt_parameters h, get?_parameters h]
  length_parameters := by rw [listAt_parameters h, length_putAll]
  items i := by
    have hrun := WritesOnly.run (itemWrites operation es i) (listAt operation "parameters")[i]?
    rwa [← getElem?_listAt_parameters h, itemWrites, List.map_map] at hrun
  rest := by
    have hrun := WritesOnly.run (es.flatMap UsedExample.writes) (some (.map operation))
    rwa [← h, List.map_flatMap, funext UsedExample.map_path_writes] at hrun

end Placed

/-! ## Examples that can be placed -/

/-- The texts that an example has to have: those of the methods that it lists and, if it goes to a
response, that of the status. -/
structure HasTexts (method : String) (entry : Fields) : Prop where
  methods : ∀ m ∈ listAt entry "methods", m.hasText = true
  status : get? entry "placement" = some (.str "response") → isForMethod entry method = true →
    ∀ status, get? entry "status_code" = some status → status.hasText = true

/-- The value is a mapping with a placement and a name, which is all that is asked of an example
before its texts are needed. -/
structure IsExample (v : Value) (entry : Fields) : Prop where
  map : v = .map entry
  placement : (get? entry "placement").any Value.truthy = true
  name : ∃ name, get? entry "name" = some (.str name) ∧ name ≠ ""

theorem methodsHaveText_iff {entry : Fields} :
    methodsHaveText entry = true ↔ ∀ m ∈ listAt entry "methods", m.hasText = true :=
  List.all_eq_true

theorem lacksStatusText_eq_false_iff {entry : Fields} {placement : Value} :
    lacksStatusText entry placement = false ↔ (placement = .str "response" →
      ∀ status, get? entry "status_code" = some status → status.hasText = true) := by
  have hplacement : placement.asStr? = some "response" ↔ placement = .str "response" := by
    cases placement <;> simp [Value.asStr?]
  rw [lacksStatusText, Bool.and_eq_false_iff, Bool.not_eq_false', decide_eq_false_iff_not,
    hplacement, Option.all_eq_true, ← imp_iff_not_or]

theorem hasTexts_iff {method : String} {entry : Fields} {placement : Value}
    (h : get? entry "placement" = some placement) :
    HasTexts method entry ↔ (methodsHaveText entry
      && (excludesMethod entry method || !lacksStatusText entry placement)) = true := by
  rw [Bool.and_eq_true, Bool.or_eq_true, Bool.not_eq_true', methodsHaveText_iff,
    lacksStatusText_eq_false_iff, excludesMethod_eq, Bool.not_eq_true']
  constructor
  · intro htexts
    refine ⟨htexts.methods, ?_⟩
    cases hfor : isForMethod entry method with
    | false => exact .inl rfl
    | true => exact .inr fun hp => htexts.status (h.trans (congrArg some hp)) hfor
  · rintro ⟨hmethods, hstatus⟩
    refine ⟨hmethods, fun hp hfor => ?_⟩
    rw [h] at hp
    exact hstatus.resolve_left (by simp [hfor]) (Option.some.inj hp)

/-- An example stands in the way of the others exactly if it lacks a text that it has to have. -/
theorem isPlaceable_iff {method : String} {v : Value} :
    isPlaceable method v = true ↔ ∀ entry, IsExample v entry → HasTexts method entry := by
  cases v with
  | map entry =>
    have hentry : (∀ e, IsExample (.map entry) e → HasTexts method e) ↔
        (IsExample (.map entry) entry → HasTexts method entry) := by
      refine ⟨fun h => h entry, fun h e he => ?_⟩
      cases he.map
      exact h he
    rw [hentry, isPlaceable]
    split
    · next placement name hplacement hname =>
      have hexample : IsExample (.map entry) entry ↔ placement.truthy = true ∧ name ≠ "" := by
        refine ⟨fun h => ?_, fun h => ⟨rfl, by rw [hplacement]; exact h.1, name, hname, h.2⟩⟩
        obtain ⟨found, hfound, hne⟩ := h.name
        rw [hname] at hfound
        cases hfound
        exact ⟨by simpa [hplacement] using h.placement, hne⟩
      rw [hexample, hasTexts_iff hplacement]
      cases placement.truthy <;> by_cases hempty : name = "" <;> simp [hempty]
    · next hother =>
      refine iff_of_true rfl fun h => ?_
      obtain ⟨found, hfound, -⟩ := h.name
      obtain ⟨placement, hplacement, -⟩ := (Option.any_eq_true _ _).mp h.placement
      exact absurd hfound (hother placement found hplacement)
  | _ =>
    refine iff_of_true rfl fun entry h => ?_
    cases h.map

/-- Examples that keep apart from the parent of all mappings are placed exactly if each has the texts
that it has to have, and then the last one for a place and a name wins. -/
theorem placeExamples_last_wins (operation : Fields) (examples : Option Value) (method : String)
    (hkeep : KeepApart examples method) :
    ((∃ after, placeExamples operation examples method = .ok after) ↔
        ∀ v ∈ itemsOf examples, ∀ entry, IsExample v entry → HasTexts method entry) ∧
      ∀ after, placeExamples operation examples method = .ok after →
        LastWins operation (usedExamples examples method) after := by
  have hplaceable : (itemsOf examples).all (isPlaceable method) = true ↔
      ∀ v ∈ itemsOf examples, ∀ entry, IsExample v entry → HasTexts method entry :=
    List.all_eq_true.trans (forall₂_congr fun _ _ => isPlaceable_iff)
  rw [← hplaceable, placeExamples]
  split
  · next hall =>
    refine ⟨iff_of_true ⟨_, rfl⟩ hall, fun after hafter => ?_⟩
    cases hafter
    exact lastWins (map_withExamples operation examples method) hkeep
  · next hnot => exact ⟨iff_of_false (fun ⟨_, h⟩ => nomatch h) hnot, fun _ h => nomatch h⟩

/-- Two examples of one name for a response. -/
def repeatedExamples : Value :=
  .list [.map [("placement", .str "response"), ("name", .str "a"), ("status_code", .str "200"),
      ("value", .str "old")],
    .map [("placement", .str "response"), ("name", .str "a"), ("status_code", .str "200"),
      ("value", .str "new")]]

theorem repeatedExamples_last_wins :
    KeepApart (some repeatedExamples) "get" ∧
      ∃ after, placeExamples [] (some repeatedExamples) "get" = .ok after ∧
        LastWins [] (usedExamples (some repeatedExamples) "get") after ∧
        exampleAt after "a" (.response "200" "application/json") =
          some (.map [("value", .str "new")]) := by
  have hkeep : KeepApart (some repeatedExamples) "get" := by
    unfold KeepApart
    decide
  obtain ⟨-, hwins⟩ := placeExamples_last_wins [] (some repeatedExamples) "get" hkeep
  exact ⟨hkeep, _, rfl, hwins _ rfl, by rfl⟩

def mappedParameters : Fields := [("parameters", .map [("id", .map [("in", .str "path")])])]

def mappedSchemas : Fields := [("x-schema-examples", .map [("old", .str "0")])]

def exampleForId : Value :=
  .map [("placement", .str "parameter"), ("name", .str "seven"), ("parameter_name", .str "id"),
    ("value", .str "7")]

def exampleForSchemas : Value :=
  .map [("placement", .str "schema"), ("name", .str "new"), ("value", .str "1")]

def exampleForGet : Value :=
  .map [("placement", .str "requestBody"), ("name", .str "empty"), ("value", .str ""),
    ("methods", .str "get")]

/-- Parameters and examples for schemas that are no list give way to one, even if no parameter has
the name, and an example with `methods` that are no list is for no method. -/
theorem not_unchanged_of_mappedParameters :
    (∃ after, placeExamples mappedParameters (some (.list [exampleForId])) "get" = .ok after ∧
        get? after "parameters" ≠ get? mappedParameters "parameters") ∧
      (∃ after, placeExamples mappedSchemas (some (.list [exampleForSchemas])) "get" = .ok after ∧
        reach (some (.map after)) ["x-schema-examples", "old"] ≠
          reach (some (.map mappedSchemas)) ["x-schema-examples", "old"]) ∧
      ∃ after, placeExamples [] (some (.list [exampleForGet])) "get" = .ok after ∧
        exampleAt after "empty" (.requestBody "application/json") = none := by
  refine ⟨⟨[("parameters", .list [])], rfl, ?_⟩, ⟨_, rfl, ?_⟩, ⟨[], rfl, rfl⟩⟩
  · intro h
    cases h
  · have hold : reach (some (.map mappedSchemas)) ["x-schema-examples", "old"] =
        some (.str "0") := rfl
    rw [hold]
    intro h
    cases h

end Metadata
end ApiSync
