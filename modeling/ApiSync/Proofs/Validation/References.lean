import Mathlib.Data.List.Basic
import ApiSync.Proofs.Fields
import ApiSync.Proofs.Text
import ApiSync.Validation
/-!
# Which references to missing schemas are found

An operation holds schemas in the contents of its responses and of its request body and in its
parameters, and a schema refers to components directly or from somewhere inside.  The findings on
references are those of the schemas that refer to a missing component directly, one for each of
them.  So they leave nothing out exactly if some schema does so or if no reference dangles at any
depth.
-/

namespace ApiSync
namespace Validation

open Text

/-! ## Where an operation refers to schemas -/

/-- A place for a schema in the metadata of an operation. -/
inductive Place where
  | response (status type : String)
  | body (type : String)
  | parameter (index : Nat)
  | parameterContent (index : Nat) (type : String)

/-- The contents of a response, the request body or a parameter hold the schema under the media
type. -/
def InContent (owner : Value) (type : String) (schema : Value) : Prop :=
  ∃ media, (type, media) ∈ mapOf (owner.field? "content") ∧ media.field? "schema" = some schema

inductive Holds (metadata : Fields) : Place → Value → Prop
  | response {status type : String} {response schema : Value}
      (hr : (status, response) ∈ mapOf (Fields.get? metadata "responses"))
      (hs : InContent response type schema) : Holds metadata (.response status type) schema
  | body {type : String} {body schema : Value} (hb : Fields.get? metadata "requestBody" = some body)
      (hs : InContent body type schema) : Holds metadata (.body type) schema
  | parameter {index : Nat} {parameter schema : Value}
      (hp : (listOf (Fields.get? metadata "parameters"))[index]? = some parameter)
      (hs : parameter.field? "schema" = some schema) : Holds metadata (.parameter index) schema
  | parameterContent {index : Nat} {type : String} {parameter schema : Value}
      (hp : (listOf (Fields.get? metadata "parameters"))[index]? = some parameter)
      (hs : InContent parameter type schema) :
      Holds metadata (.parameterContent index type) schema

/-- The schemas inside a schema, itself included. -/
inductive Inside : Value → Value → Prop
  | here (schema : Value) : Inside schema schema
  | items {schema part inner : Value} (h : schema.field? "items" = some part)
      (hin : Inside inner part) : Inside inner schema
  | property {schema part inner : Value} {name : String}
      (h : (name, part) ∈ mapOf (schema.field? "properties")) (hin : Inside inner part) :
      Inside inner schema
  | member {schema part inner : Value} {key : String} (hkey : key ∈ ["allOf", "oneOf", "anyOf"])
      (h : part ∈ listOf (schema.field? key)) (hin : Inside inner part) : Inside inner schema
  | additional {schema part inner : Value} (h : schema.field? "additionalProperties" = some part)
      (hin : Inside inner part) : Inside inner schema

/-- The schema is a reference to the component. -/
def RefersTo (schema : Value) (name : String) : Prop :=
  schema.field? "$ref" = some (.str (Schema.refStart ++ name))

/-- Somewhere inside a schema of the operation there is a reference to the component. -/
def Mentions (metadata : Fields) (name : String) : Prop :=
  ∃ place schema inner, Holds metadata place schema ∧ Inside inner schema ∧ RefersTo inner name

/-! ## What is checked -/

/-- The places that are looked at: contents of parameters are not. -/
def Place.isChecked : Place → Bool
  | .parameterContent _ _ => false
  | _ => true

/-- What a reference is taken for: the name behind the last stroke. -/
def lastPart (name : String) : String := ((splitText '/' name).getLast?).getD ""

def mediaField (owner type : String) : String := s!"{owner}.content.{type}.schema"

def Place.field : Place → String
  | .response status type => mediaField s!"responses.{status}" type
  | .body type => mediaField "requestBody" type
  | .parameter index => s!"parameters[{index}].schema"
  | .parameterContent index type => mediaField s!"parameters[{index}]" type

/-- The finding on a reference to a missing component at a place. -/
def Place.finding (metadata : Fields) (place : Place) (name : String) : Finding :=
  match place with
  | .parameter index =>
    let parameter := mapOf (listOf (Fields.get? metadata "parameters"))[index]?
    ⟨.error, s!"Unknown schema reference in parameter '{parameterName parameter index}': {name}",
      place.field⟩
  | _ => ⟨.error, s!"Unknown schema reference: {name}", place.field⟩

theorem getLast?_splitText_refStart (name : String) :
    (splitText '/' (Schema.refStart ++ name)).getLast? = some (lastPart name) := by
  have hstart : Schema.refStart.toList = "#/components/schemas".toList ++ ['/'] := by
    decide
  have hsplit : splitAt '/' (Schema.refStart ++ name).toList =
      splitAt '/' "#/components/schemas".toList ++ splitAt '/' name.toList := by
    rw [String.toList_append, hstart, List.append_assoc, List.singleton_append,
      splitAt_append_cons]
  have hlast : (splitText '/' name).getLast? = some (lastPart name) := by
    have hne : splitText '/' name ≠ [] := fun h => splitAt_ne_nil _ _ (List.map_eq_nil_iff.mp h)
    rw [lastPart, List.getLast?_eq_some_getLast hne, Option.getD_some]
  have happend : splitText '/' (Schema.refStart ++ name) =
      (splitAt '/' "#/components/schemas".toList).map String.ofList ++ splitText '/' name := by
    rw [splitText, hsplit, List.map_append, splitText]
  rw [happend, List.getLast?_append, hlast, Option.some_or]

theorem referenced?_eq_some {schema : Value} {last : String} :
    referenced? (some schema) = some last ↔
      ∃ name, RefersTo schema name ∧ lastPart name = last := by
  rw [referenced?, Option.bind_some, Option.bind_eq_some_iff]
  constructor
  · rintro ⟨v, hv, h⟩
    obtain ⟨ref, hstr, h⟩ := Option.bind_eq_some_iff.mp h
    split at h
    · next hprefix =>
      obtain ⟨name, rfl⟩ := hasPrefix_iff.mp hprefix
      rw [getLast?_splitText_refStart] at h
      refine ⟨name, ?_, Option.some.inj h⟩
      cases v with
      | str s =>
        obtain rfl : s = Schema.refStart ++ name := Option.some.inj hstr
        exact hv
      | _ => cases hstr
    · cases h
  · rintro ⟨name, href, rfl⟩
    refine ⟨_, href, ?_⟩
    show (if hasPrefix (Schema.refStart ++ name) Schema.refStart = true then _ else _) = _
    rw [if_pos (hasPrefix_iff.mpr ⟨name, rfl⟩), getLast?_splitText_refStart]

/-- A reference to a missing component, and what it is taken for. -/
theorem dangling?_eq_some {available : List String} {schema : Option Value} {last : String} :
    dangling? available schema = some last ↔
      ∃ s name, schema = some s ∧ RefersTo s name ∧ lastPart name = last ∧ last ∉ available := by
  rw [dangling?, Option.filter_eq_some_iff]
  cases schema with
  | none => simp [referenced?]
  | some s => simp [referenced?_eq_some, ← exists_and_right, and_assoc]

theorem mem_numbered {α : Type} {vs : List α} {index : Nat} {v : α} :
    (index, v) ∈ numbered vs ↔ vs[index]? = some v := by
  rw [numbered, List.mem_iff_getElem?]
  constructor
  · rintro ⟨i, h⟩
    obtain ⟨hi, hv⟩ := List.getElem?_zip_eq_some.mp h
    obtain ⟨hlt, rfl⟩ := List.getElem?_eq_some_iff.mp hi
    rwa [List.getElem_range]
  · intro h
    refine ⟨index, List.getElem?_zip_eq_some.mpr ⟨?_, h⟩⟩
    rw [List.getElem?_range (List.getElem?_eq_some_iff.mp h).1]

theorem mem_mediaFindings {available : List String} {owner : Value} {place : String}
    {f : Finding} :
    f ∈ mediaFindings available place (mapOf (owner.field? "content")) ↔
      ∃ type schema name, InContent owner type schema ∧ RefersTo schema name ∧
        lastPart name ∉ available ∧
        f = ⟨.error, s!"Unknown schema reference: {lastPart name}", mediaField place type⟩ := by
  rw [mediaFindings, List.mem_filterMap]
  constructor
  · rintro ⟨⟨type, media⟩, hmedia, h⟩
    dsimp only at h
    split at h
    · obtain ⟨last, hlast, rfl⟩ := Option.map_eq_some_iff.mp h
      obtain ⟨schema, name, hschema, href, rfl, hmissing⟩ := dangling?_eq_some.mp hlast
      exact ⟨type, schema, name, ⟨media, hmedia, hschema⟩, href, hmissing, rfl⟩
    · cases h
  · rintro ⟨type, schema, name, ⟨media, hmedia, hschema⟩, href, hmissing, rfl⟩
    refine ⟨(type, media), hmedia, ?_⟩
    have hmap : media.isMap = true := by
      cases media with
      | map _ => rfl
      | _ => cases hschema
    dsimp only
    rw [if_pos hmap, dangling?_eq_some.mpr ⟨schema, name, hschema, href, rfl, hmissing⟩]
    rfl

theorem mem_parameterReferences {metadata : Fields} {available : List String} {f : Finding} :
    f ∈ (numbered (listOf (Fields.get? metadata "parameters"))).filterMap
        (parameterReference? available) ↔
      ∃ index schema name, Holds metadata (.parameter index) schema ∧ RefersTo schema name ∧
        lastPart name ∉ available ∧
        f = (Place.parameter index).finding metadata (lastPart name) := by
  rw [List.mem_filterMap]
  constructor
  · rintro ⟨⟨index, parameter⟩, hmem, h⟩
    have hp := mem_numbered.mp hmem
    cases parameter with
    | map p =>
      obtain ⟨last, hlast, rfl⟩ := Option.map_eq_some_iff.mp h
      obtain ⟨schema, name, hschema, href, rfl, hmissing⟩ := dangling?_eq_some.mp hlast
      refine ⟨index, schema, name, .parameter hp hschema, href, hmissing, ?_⟩
      rw [Place.finding, hp]
      rfl
    | _ => cases h
  · rintro ⟨index, schema, name, hholds, href, hmissing, rfl⟩
    cases hholds with
    | @parameter _ parameter _ hp hschema =>
      refine ⟨(index, parameter), mem_numbered.mpr hp, ?_⟩
      cases parameter with
      | map p =>
        have hlast : dangling? available (Fields.get? p "schema") = some (lastPart name) :=
          dangling?_eq_some.mpr ⟨schema, name, hschema, href, rfl, hmissing⟩
        rw [Place.finding, hp, parameterReference?, hlast]
        rfl
      | _ => cases hschema

/-- The findings are those on direct references at the places that are checked. -/
theorem mem_references {metadata : Fields} {available : List String} {f : Finding} :
    f ∈ references metadata available ↔ ∃ place schema name, place.isChecked = true ∧
      Holds metadata place schema ∧ RefersTo schema name ∧ lastPart name ∉ available ∧
        f = place.finding metadata (lastPart name) := by
  rw [references, List.mem_append, List.mem_append, List.mem_flatMap, mem_parameterReferences]
  constructor
  · rintro ((⟨⟨status, response⟩, hr, h⟩ | h) | ⟨index, schema, name, hholds, hrest⟩)
    · obtain ⟨type, schema, name, hcontent, hrest⟩ := mem_mediaFindings.mp h
      exact ⟨.response status type, schema, name, rfl, .response hr hcontent, hrest⟩
    · cases hb : Fields.get? metadata "requestBody" with
      | none =>
        rw [hb] at h
        cases h
      | some body =>
        rw [hb] at h
        obtain ⟨type, schema, name, hcontent, hrest⟩ := mem_mediaFindings.mp h
        exact ⟨.body type, schema, name, rfl, .body hb hcontent, hrest⟩
    · exact ⟨.parameter index, schema, name, rfl, hholds, hrest⟩
  · rintro ⟨place, schema, name, hchecked, hholds, hrest⟩
    cases hholds with
    | response hr hcontent =>
      exact .inl (.inl ⟨_, hr, mem_mediaFindings.mpr ⟨_, schema, name, hcontent, hrest⟩⟩)
    | body hb hcontent =>
      rw [hb]
      exact .inl (.inr (mem_mediaFindings.mpr ⟨_, schema, name, hcontent, hrest⟩))
    | parameter hp hschema => exact .inr ⟨_, schema, name, .parameter hp hschema, hrest⟩
    | parameterContent hp hcontent => cases hchecked

/-! ## What the findings leave out -/

/-- A schema at a place that is checked is a reference to the component. -/
def DirectlyMentions (metadata : Fields) (name : String) : Prop :=
  ∃ place schema, place.isChecked = true ∧ Holds metadata place schema ∧ RefersTo schema name

/-- Without findings no reference of the operation dangles, and each finding is on one that
does. -/
structure CatchesDangling (metadata : Fields) (available : List String) : Prop where
  complete : references metadata available = [] → ∀ name, Mentions metadata name → name ∈ available
  sound : ∀ f ∈ references metadata available, ∃ place schema inner name,
    Holds metadata place schema ∧ Inside inner schema ∧ RefersTo inner name ∧ name ∉ available ∧
      f = place.finding metadata (lastPart name)

theorem references_eq_nil_iff {metadata : Fields} {available : List String} :
    references metadata available = [] ↔
      ∀ name, DirectlyMentions metadata name → lastPart name ∈ available := by
  rw [List.eq_nil_iff_forall_not_mem]
  constructor
  · rintro h name ⟨place, schema, hchecked, hholds, href⟩
    by_contra hmissing
    exact h _ (mem_references.mpr ⟨place, schema, name, hchecked, hholds, href, hmissing, rfl⟩)
  · intro h f hf
    obtain ⟨place, schema, name, hchecked, hholds, href, hmissing, -⟩ := mem_references.mp hf
    exact hmissing (h name ⟨place, schema, hchecked, hholds, href⟩)

theorem lastPart_of_not_mem {name : String} (h : '/' ∉ name.toList) : lastPart name = name := by
  rw [lastPart, splitText, splitAt_of_not_mem h]
  exact String.ofList_toList

/-- Among names of components, which have no stroke in them, the findings catch every reference
that dangles exactly if some schema dangles as a whole or nothing dangles at any depth. -/
theorem catchesDangling_iff (metadata : Fields) (available : List String)
    (hnames : ∀ name ∈ available, '/' ∉ name.toList) :
    CatchesDangling metadata available ↔
      (∃ name, DirectlyMentions metadata name ∧ lastPart name ∉ available) ∨
        ∀ name, Mentions metadata name → name ∈ available := by
  constructor
  · intro h
    by_cases hdirect : ∃ name, DirectlyMentions metadata name ∧ lastPart name ∉ available
    · exact .inl hdirect
    · refine .inr (h.complete (references_eq_nil_iff.mpr fun name hname => ?_))
      by_contra hmissing
      exact hdirect ⟨name, hname, hmissing⟩
  · intro h
    constructor
    · intro hnil
      rcases h with ⟨name, hname, hmissing⟩ | hall
      · exact absurd (references_eq_nil_iff.mp hnil name hname) hmissing
      · exact hall
    · intro f hf
      obtain ⟨place, schema, name, -, hholds, href, hmissing, rfl⟩ := mem_references.mp hf
      refine ⟨place, schema, schema, name, hholds, .here schema, href, fun hname => ?_, rfl⟩
      rw [lastPart_of_not_mem (hnames name hname)] at hmissing
      exact hmissing hname

section Example

def contentOf (schema : Value) : Value :=
  .map [("content", .map [("application/json", .map [("schema", schema)])])]

/-- A response with a list of a component that is missing. -/
def listed : Fields :=
  [("responses", .map [("200", contentOf
    (.map [("type", .str "array"), ("items", .map (Schema.refFields "Missing"))]))])]

theorem not_catchesDangling_of_items : ¬CatchesDangling listed ["User"] := by
  intro h
  have hnil : references listed ["User"] = [] := by rfl
  have hmentions : Mentions listed "Missing" :=
    ⟨.response "200" "application/json", _, _,
      .response List.mem_cons_self ⟨_, List.mem_cons_self, rfl⟩, .items rfl (.here _), rfl⟩
  exact absurd (h.complete hnil "Missing" hmentions) (by decide)

/-- A request body of a missing component, and a list of another one. -/
def posting : Fields :=
  ("requestBody", contentOf (.map (Schema.refFields "Draft"))) :: listed

theorem catchesDangling_of_direct :
    (∀ name ∈ ["User"], '/' ∉ name.toList) ∧ CatchesDangling posting ["User"] ∧
      (references posting ["User"]).map Finding.message = ["Unknown schema reference: Draft"] := by
  have hnames : ∀ name ∈ ["User"], '/' ∉ name.toList := by decide
  refine ⟨hnames, (catchesDangling_iff posting ["User"] hnames).mpr (.inl ?_), by rfl⟩
  exact ⟨"Draft", ⟨.body "application/json", _, rfl,
    .body rfl ⟨_, List.mem_cons_self, rfl⟩, rfl⟩, by decide⟩

end Example

end Validation
end ApiSync
