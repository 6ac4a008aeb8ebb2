import ApiSync.Proofs.Metadata.Agreement
import ApiSync.Proofs.Metadata.Placement
/-!
# Merging decorators again

Merged metadata into which the same decorators are merged again stays as it is: what the
decorators replace is there already, responses absorb what is laid over them a second time, and
placed examples settle.  Parameters of the decorators take the place of those they brought along
the first time, unless their name is a list or a mapping.  Such a name is never found again, so
the parameter is listed once more with each merge.  An example that cannot be placed ends the first
merge.
-/

namespace ApiSync
namespace Metadata

open Fields (WellFormed Takes get? has keys)
open Value (fieldsAt)

/-! ## Parameters that stay -/

/-- A parameter below stays if it is a mapping and its name does not come again on top. -/
def stays (above : List Value) (item : Value) : Bool :=
  item.isMap && !isOverridden "name" above item

theorem mergeLists_of_ne_nil {above : Option Value} (h : itemsOf above ≠ [])
    (below : Option Value) : mergeLists below above (some "name") =
      (itemsOf below).filter (stays (itemsOf above)) ++ itemsOf above := by
  unfold mergeLists
  dsimp only
  rw [if_neg h]
  split
  · next hbelow => rw [hbelow]; rfl
  · rfl

theorem mergeLists_of_nil {above : Option Value} (h : itemsOf above = [])
    (below : Option Value) : mergeLists below above (some "name") = itemsOf below := by
  unfold mergeLists
  dsimp only
  rw [if_pos h]

theorem stays_congr (above : List Value) {v w : Value}
    (h : keyOf? "name" v = keyOf? "name" w) : stays above v = stays above w := by
  have hmap (u : Value) : u.isMap = (keyOf? "name" u).isSome := by
    cases u <;> rfl
  rw [stays, stays, isOverridden, isOverridden, hmap, hmap, h]

/-- A name is no list and no mapping. -/
def Plain (name : Option Value) : Prop :=
  ∀ v, name = some v → v.asList? = none ∧ v.asMap? = none

/-- No parameter is named by a list or a mapping. -/
def PlainNames (parameters : Option Value) : Prop :=
  ∀ p ∈ itemsOf parameters, Plain (p.field? "name")

theorem sameKey_self {name : Option Value} (h : Plain name) : sameKey name name = true := by
  cases name with
  | none => rfl
  | some v =>
    cases v with
    | null => rfl
    | list vs => cases (h _ rfl).1
    | map fields => cases (h _ rfl).2
    | _ => simp [sameKey]

theorem plain_of_sameKey {name other : Option Value} (h : sameKey name other = true) :
    Plain name := by
  intro v hv
  subst hv
  cases v with
  | list vs => cases other <;> cases h
  | map fields => cases other <;> cases h
  | _ => exact ⟨rfl, rfl⟩

/-- No parameter stays below its own list, if the names are plain. -/
theorem stays_self_iff (parameters : Option Value) :
    (∀ p ∈ itemsOf parameters, stays (itemsOf parameters) p = false) ↔ PlainNames parameters := by
  refine forall₂_congr fun p hp => ?_
  cases p with
  | map fields =>
    have hkey : stays (itemsOf parameters) (.map fields) = false ↔
        isOverridden "name" (itemsOf parameters) (.map fields) = true := by
      simp [stays, Value.isMap]
    rw [hkey, isOverridden, List.any_eq_true]
    constructor
    · rintro ⟨other, -, hother⟩
      split at hother
      · next a b ha hb =>
        obtain rfl : get? fields "name" = a := Option.some.inj ha
        exact plain_of_sameKey hother
      · cases hother
    · exact fun hplain => ⟨.map fields, hp, sameKey_self hplain⟩
  | _ =>
    refine iff_of_true rfl fun v hv => ?_
    cases hv

/-! ## Parameters with examples -/

/-- The parameters after a merge, with examples. -/
def parametersAfter (es : List ParameterExample) (below above : Option Value) : Option Value :=
  valueAfter (es.map ParameterExample.change) (parametersOver below above)

section Parameters

variable {es : List ParameterExample} {below above : Option Value}

theorem isSet_of_itemsOf {v : Option Value} (h : itemsOf v ≠ []) : isSet v = true := by
  cases v with
  | none => exact absurd rfl h
  | some w =>
    cases w with
    | list vs => exact decide_eq_true h
    | _ => exact absurd rfl h

/-- Parameters of the block that are there again come in front of those of the decorators. -/
theorem parametersAfter_of_ne_nil (h : itemsOf above ≠ []) (es : List ParameterExample)
    (below : Option Value) : parametersAfter es below above = some (.list
      (putAll es ((itemsOf below).filter (stays (itemsOf above)) ++ itemsOf above))) := by
  rw [parametersAfter, parametersOver, isSet_of_itemsOf h, Bool.or_true, if_pos rfl,
    mergeLists_of_ne_nil h, valueAfter_change]

theorem parametersOver_list_of_nil (h : itemsOf above = []) (items : List Value) :
    parametersOver (some (.list items)) above = some (.list items) := by
  rw [parametersOver]
  split
  · rw [mergeLists_of_nil h]; rfl
  · rfl

theorem parametersAfter_again_of_nil (hbelow : ItemsWellFormed below) (h : itemsOf above = []) :
    parametersAfter es (parametersAfter es below above) above = parametersAfter es below above := by
  have hlist (items : List Value) (hitems : ∀ v ∈ items, v.WellFormed) :
      parametersAfter es (some (.list (putAll es items))) above =
        some (.list (putAll es items)) := by
    rw [parametersAfter, parametersOver_list_of_nil h, valueAfter_change, putAll_putAll es hitems]
  have hitems := mem_itemsOf hbelow
  by_cases hset : (isSet below || isSet above) = true
  · have hover : parametersOver below above = some (.list (itemsOf below)) := by
      rw [parametersOver, if_pos hset, mergeLists_of_nil h]
    have hfirst : parametersAfter es below above = some (.list (putAll es (itemsOf below))) := by
      rw [parametersAfter, hover, valueAfter_change]
    rw [hfirst, hlist _ hitems]
  · have hover : parametersOver below above = below := if_neg hset
    by_cases hnone : es = []
    · subst hnone
      have hfirst : parametersAfter [] below above = below := hover
      rw [hfirst, hfirst]
    · have hfirst : parametersAfter es below above = some (.list (putAll es (itemsOf below))) := by
        rw [parametersAfter, hover, valueAfter_change_of_ne_nil hnone]
      rw [hfirst, hlist _ hitems]

/-- What stays of parameters that were merged before: those of the block, and those of the
decorators whose names are not found again. -/
theorem filter_stays_putAll (es : List ParameterExample) {kept tops : List Value}
    (h : ∀ v ∈ kept, stays tops v = true) :
    (putAll es (kept ++ tops)).filter (stays tops) = putAll es kept ++
      (putAll (es.filter fun e => !kept.any e.isFor) tops).filter (stays tops) := by
  have hkept : ∀ v ∈ putAll es kept, stays tops v = true :=
    (forall_mem_putAll (fun v w hkey => by rw [stays_congr tops hkey]) es kept).mpr h
  rw [putAll_append, List.filter_append, List.filter_eq_self.mpr hkept]

/-- None of the decorators' own parameters stay, if their names are plain. -/
theorem filter_stays_self_iff (es : List ParameterExample) (parameters : Option Value) :
    (putAll es (itemsOf parameters)).filter (stays (itemsOf parameters)) = [] ↔
      PlainNames parameters := by
  have hkeys (v w : Value) (hkey : keyOf? "name" v = keyOf? "name" w) :
      ¬stays (itemsOf parameters) v = true ↔ ¬stays (itemsOf parameters) w = true := by
    rw [stays_congr _ hkey]
  rw [List.filter_eq_nil_iff, forall_mem_putAll hkeys, ← stays_self_iff]
  simp only [Bool.not_eq_true]

/-- The second merge drops what the decorators brought along the first time, but for the
parameters whose names are not found again. -/
theorem exists_kept (h : itemsOf above ≠ []) (es : List ParameterExample) (below : Option Value) :
    ∃ kept, (∀ v ∈ kept, v ∈ itemsOf below) ∧
      parametersAfter es below above = some (.list (putAll es (kept ++ itemsOf above))) ∧
      parametersAfter es (parametersAfter es below above) above =
        some (.list (putAll es (putAll es kept ++ (putAll (es.filter fun e => !kept.any e.isFor)
          (itemsOf above)).filter (stays (itemsOf above)) ++ itemsOf above))) := by
  refine ⟨(itemsOf below).filter (stays (itemsOf above)),
    fun v hv => (List.mem_filter.mp hv).1, parametersAfter_of_ne_nil h es below, ?_⟩
  rw [← filter_stays_putAll es fun v hv => (List.mem_filter.mp hv).2, parametersAfter_of_ne_nil h,
    parametersAfter_of_ne_nil h es below]
  rfl

theorem parametersAfter_again_of_ne_nil (hbelow : ItemsWellFormed below)
    (h : itemsOf above ≠ []) (hplain : PlainNames above) :
    parametersAfter es (parametersAfter es below above) above = parametersAfter es below above := by
  obtain ⟨kept, hkept, hfirst, hsecond⟩ := exists_kept h es below
  have hwell : ∀ v ∈ kept, v.WellFormed := fun v hv => mem_itemsOf hbelow v (hkept v hv)
  rw [hsecond, hfirst, (filter_stays_self_iff _ above).mpr hplain, List.append_nil,
    putAll_append es (putAll es kept), putAll_putAll es hwell, putAll_append es kept]
  simp only [any_isFor_putAll]

theorem parametersAfter_again (hbelow : ItemsWellFormed below) (hplain : PlainNames above) :
    parametersAfter es (parametersAfter es below above) above = parametersAfter es below above := by
  by_cases h : itemsOf above = []
  · exact parametersAfter_again_of_nil hbelow h
  · exact parametersAfter_again_of_ne_nil hbelow h hplain

/-- Where the second merge leaves the parameters as they are, no name is lost. -/
theorem plainNames_of_same
    (h : Value.sameOption (parametersAfter es (parametersAfter es below above) above)
      (parametersAfter es below above) = true) : PlainNames above := by
  by_cases hnil : itemsOf above = []
  · intro p hp
    rw [hnil] at hp
    cases hp
  · obtain ⟨kept, -, hfirst, hsecond⟩ := exists_kept hnil es below
    rw [hsecond, hfirst, Value.sameOption, Value.same] at h
    have hlength := Value.length_eq_of_sameList h
    simp only [length_putAll, List.length_append] at hlength
    rw [← filter_stays_self_iff (es.filter fun e => !kept.any e.isFor), ← List.length_eq_zero_iff]
    omega

end Parameters

/-! ## The body and the responses -/

section Settled

variable {hs : List (Option Value → Value)} {method : String} {below above : Option Value}

/-- A body is taken as a whole or not at all. -/
theorem bodyOver_cases (method : String) (above : Option Value) :
    (∃ v, ∀ below, bodyOver method below above = v) ∨
      ∀ below, bodyOver method below above = below := by
  by_cases hmap : ∃ body, above = some (.map body)
  · obtain ⟨body, rfl⟩ := hmap
    by_cases h : (body ≠ [] && appliesTo method body) = true
    · exact Or.inl ⟨_, fun below => by rw [bodyOver_map, if_pos h]⟩
    · exact Or.inr fun below => by rw [bodyOver_map, if_neg h]
  · exact Or.inr (bodyOver_of_not_map (fun body hbody => hmap ⟨body, hbody⟩) method)

theorem body_again (hfamily : ∀ h ∈ hs, Inside InContent h) (hbelow : ItemsWellFormed below) :
    valueAfter hs (bodyOver method (valueAfter hs (bodyOver method below above)) above) =
      valueAfter hs (bodyOver method below above) := by
  rcases bodyOver_cases method above with ⟨v, hv⟩ | hkeep
  · rw [hv, hv]
  · rw [hkeep, hkeep]
    exact settlingAt_inside settling_inContent hs hfamily below none hbelow
      (fun _ hw => nomatch hw) rfl

/-- Over a mapping, responses are laid whether either side says anything or not. -/
theorem responsesOver_map (method : String) (base : Fields) (above : Option Value) :
    responsesOver method (some (.map base)) above =
      some (.map (overlay base (incoming method (mapOf above)))) := by
  rcases responsesOver_cases method (some (.map base)) above with h | ⟨h, hnil⟩
  · exact h
  · rw [h, hnil]
    show _ = some (Value.map (overlay base []))
    rw [overlay]

theorem wellFormed_incoming {entries : Fields} (h : WellFormed entries) (method : String) :
    WellFormed (incoming method entries) := by
  obtain ⟨hkeys, hentries⟩ := Fields.wellFormed_iff.mp h
  refine Fields.wellFormed_iff.mpr ⟨hkeys.sublist (keys_incoming_sublist method _), fun e he => ?_⟩
  obtain ⟨d, hd, hsome⟩ := List.mem_filterMap.mp he
  obtain ⟨w, hw, rfl⟩ := Option.map_eq_some_iff.mp hsome
  have hwell := hentries d hd
  show w.WellFormed
  generalize d.2 = v at hw hwell
  cases v with
  | map response =>
    rw [incoming?] at hw
    split at hw
    · obtain rfl := Option.some.inj hw
      exact Fields.WellFormed.erase hwell "methods"
    · cases hw
  | _ => cases hw

/-- Changes inside an entry leave a mapping there. -/
theorem exists_map_valueAfter {family : (Fields → Fields) → Prop}
    (hfamily : ∀ h ∈ hs, Inside family h) {v : Option Value}
    (h : hs ≠ [] ∨ ∃ base, v = some (.map base)) :
    ∃ inner, valueAfter hs v = some (.map inner) := by
  obtain ⟨changes, -, rfl⟩ := exists_map_of_forall hfamily
  by_cases hnone : changes = []
  · subst hnone
    exact h.resolve_left fun hne => hne rfl
  · exact ⟨_, valueAfter_onMap changes hnone v⟩

theorem responses_again (hfamily : ∀ h ∈ hs, Inside InStatus h) (hbelow : ItemsWellFormed below)
    (habove : ItemsWellFormed above) :
    valueAfter hs (responsesOver method (valueAfter hs (responsesOver method below above)) above) =
      valueAfter hs (responsesOver method below above) := by
  have hsettled := settlingAt_inside settling_inStatus hs hfamily
  have hincoming : WellFormed (incoming method (mapOf above)) :=
    wellFormed_incoming (wellFormed_mapOf habove) method
  rcases responsesOver_cases method below above with hlaid | ⟨hkept, hnil⟩
  · have hwell : WellFormed (overlay (mapOf below) (incoming method (mapOf above))) :=
      wellFormed_overlay _ (wellFormed_mapOf hbelow) (Fields.wellFormed_iff.mp hincoming).2
    have habsorbed := overlay_overlay hincoming (mapOf below)
    rw [hlaid]
    -- What comes in the second time is absorbed by the responses before the examples.
    generalize overlay (mapOf below) (incoming method (mapOf above)) = united at hwell habsorbed
    obtain ⟨inner, hinner⟩ := exists_map_valueAfter hfamily (Or.inr ⟨united, rfl⟩)
    have hagain := hsettled (some (.map united)) (some (.map (incoming method (mapOf above))))
      (fun w hw => Option.some.inj hw ▸ hwell) (fun w hw => Option.some.inj hw ▸ hincoming)
      (congrArg (fun fields => some (Value.map fields)) habsorbed)
    rw [hinner] at hagain ⊢
    rw [responsesOver_map]
    exact hagain
  · rw [hkept]
    by_cases hnone : hs = []
    · subst hnone
      exact hkept
    · obtain ⟨inner, hinner⟩ := exists_map_valueAfter hfamily (v := below) (Or.inl hnone)
      have hagain := hsettled.twice hbelow
      rw [hinner] at hagain ⊢
      rw [responsesOver_map, hnil]
      show valueAfter hs (some (.map (overlay inner []))) = _
      rw [overlay]
      exact hagain

end Settled

/-! ## The whole merge -/

/-- The fields that decorators replace, and those that they leave alone. -/
theorem fieldOver_again {k : String} (hk : k ∉ ["parameters", "requestBody", "responses"])
    (method : String) (below above : Option Value) :
    fieldOver method k (fieldOver method k below above) above = fieldOver method k below above := by
  by_cases hreplaced : k ∈ replacedFields
  · rw [fieldOver_of_replaced _ _ _ hreplaced, fieldOver_of_replaced _ _ _ hreplaced]
    cases above <;> simp
  · have hother : k ∉ replacedFields ++ ["parameters", "requestBody", "responses"] :=
      fun hmem => (List.mem_append.mp hmem).elim hreplaced hk
    rw [fieldOver_of_other _ _ _ hother]

section Placed

variable {decorators : Fields} (hne : decorators ≠ []) {method : String} {cs : List EntryChange}
  (hcs : ∀ c ∈ cs, Placing c)
  (hplace : ∀ target,
    withExamples target (itemsOf (get? decorators "x-examples")) method = applyAll cs target)
include hne hcs hplace

/-- Each field of merged metadata follows its rule, and the examples are placed on top. -/
theorem get?_merge_placing (block : Fields) (path k : String) :
    get? (merge block (some decorators) path method).fields k =
      if k = "x-response-headers" then (get? decorators k).or (get? block k)
      else valueAfter (changesAt k cs) (fieldOver method k (get? block k) (get? decorators k)) := by
  rw [merge_of_ne_nil hne, get?_copyField, hplace, get?_applyAll_placing hcs, get?_unplaced]
  by_cases hk : k = "x-response-headers"
  · subst hk
    rw [if_pos rfl, if_pos rfl, changesAt_eq_nil hcs (by decide),
      fieldOver_of_other _ _ _ (by decide)]
    rfl
  · rw [if_neg hk, if_neg (Ne.symm hk)]

theorem get?_parameters_merge {es : List ParameterExample}
    (hes : changesAt "parameters" cs = es.map ParameterExample.change) (block : Fields)
    (path : String) : get? (merge block (some decorators) path method).fields "parameters" =
      parametersAfter es (get? block "parameters") (get? decorators "parameters") := by
  rw [get?_merge_placing hne hcs hplace, if_neg (by decide), fieldOver_parameters, hes]
  rfl

/-- The second merge leaves every field as it is, if the names of parameters are plain. -/
theorem get?_merge_again (hd : WellFormed decorators)
    (hplain : PlainNames (get? decorators "parameters")) {block : Fields} (hb : WellFormed block)
    (path k : String) :
    get? (merge (merge block (some decorators) path method).fields (some decorators) path
        method).fields k =
      get? (merge block (some decorators) path method).fields k := by
  have hget (lower : Fields) := get?_merge_placing hne hcs hplace lower path k
  by_cases hparameter : k = "parameters"
  · subst hparameter
    obtain ⟨es, hes⟩ := exists_parameterExamples hcs
    rw [get?_parameters_merge hne hcs hplace hes, get?_parameters_merge hne hcs hplace hes]
    exact parametersAfter_again (itemsWellFormed_get? hb _) hplain
  by_cases hbody : k = "requestBody"
  · subst hbody
    rw [hget, if_neg (by decide), fieldOver_requestBody, hget, if_neg (by decide),
      fieldOver_requestBody]
    exact body_again (inside_of_mem_requestBody hcs) (itemsWellFormed_get? hb _)
  by_cases hresponse : k = "responses"
  · subst hresponse
    rw [hget, if_neg (by decide), fieldOver_responses, hget, if_neg (by decide),
      fieldOver_responses]
    exact responses_again (inside_of_mem_responses hcs) (itemsWellFormed_get? hb _)
      (itemsWellFormed_get? hd _)
  have hk : k ∉ ["parameters", "requestBody", "responses"] := by
    simp [hparameter, hbody, hresponse]
  by_cases hheaders : k = "x-response-headers"
  · rw [hget, if_pos hheaders, hget, if_pos hheaders]
    cases get? decorators k <;> simp
  · rw [hget, if_neg hheaders, hget, if_neg hheaders, changesAt_eq_nil hcs hk]
    exact fieldOver_again hk method _ _

end Placed

/-- Where the examples can be placed, the second merge changes nothing if no parameter of the
decorators is named by a list or a mapping; else that parameter is listed once more. -/
theorem same_merge_merge_iff {block decorators : Fields} (hb : WellFormed block)
    (hd : WellFormed decorators) (hschema : NoSchemaExamples (get? decorators "x-examples"))
    (path method : String) :
    Value.same
        (.map (merge (merge block (some decorators) path method).fields (some decorators) path
          method).fields)
        (.map (merge block (some decorators) path method).fields) = true ↔
      PlainNames (get? decorators "parameters") := by
  by_cases hne : decorators = []
  · subst hne
    exact iff_of_true (Value.same_self _ hb) fun p hp => absurd hp List.not_mem_nil
  obtain ⟨cs, hcs, hplace⟩ := placesBy_withExamples hschema method
  have hwell {lower : Fields} (hl : WellFormed lower) :
      WellFormed (merge lower (some decorators) path method).fields :=
    wellFormed_merge hl (fun d hsome => Option.some.inj hsome ▸ hd) path method
  have hmerged := hwell hb
  constructor
  · intro hsame
    obtain ⟨es, hes⟩ := exists_parameterExamples hcs
    have hoption := Value.sameOption_of_same_map (hwell hmerged) hsame "parameters"
    rw [get?_parameters_merge hne hcs hplace hes, get?_parameters_merge hne hcs hplace hes]
      at hoption
    exact plainNames_of_same hoption
  · intro hplain
    exact Value.same_of_get? (hwell hmerged) (Fields.wellFormed_iff.mp hmerged).1
      (get?_merge_again hne hcs hplace hd hplain hb path)

/-- Merging the decorators works, and so does merging them again into the result, which stays the
same mapping. -/
def Settles (block decorators : Fields) (path method : String) : Prop :=
  ∃ first again, resolve block (some decorators) path method = .ok first ∧
    resolve first.fields (some decorators) path method = .ok again ∧
    Value.same (.map again.fields) (.map first.fields) = true

theorem isResolvable_iff {decorators : Fields} {method : String} :
    isResolvable (some decorators) method = true ↔
      ∀ v ∈ itemsOf (get? decorators "x-examples"), ∀ entry,
        IsExample v entry → HasTexts method entry :=
  List.all_eq_true.trans (forall₂_congr fun _ _ => isPlaceable_iff)

theorem settles_iff {block decorators : Fields} {path method : String} :
    Settles block decorators path method ↔
      isResolvable (some decorators) method = true ∧ Value.same
        (.map (merge (merge block (some decorators) path method).fields (some decorators) path
          method).fields)
        (.map (merge block (some decorators) path method).fields) = true := by
  unfold Settles resolve
  by_cases hr : isResolvable (some decorators) method = true
  · simp only [if_pos hr]
    refine ⟨fun ⟨first, again, hfirst, hagain, hsame⟩ => ?_, fun h => ⟨_, _, rfl, rfl, h.2⟩⟩
    cases hfirst
    cases hagain
    exact ⟨hr, hsame⟩
  · simp only [if_neg hr]
    exact iff_of_false (fun ⟨_, _, hfirst, _⟩ => nomatch hfirst) fun h => hr h.1

/-- Decorators without examples for schemas, which each merge adds once more, and without examples
that lead to the parent of all mappings, whose entries the next merge would find. -/
structure Remergeable (decorators : Fields) (method : String) : Prop where
  wellFormed : WellFormed decorators
  schema : NoSchemaExamples (get? decorators "x-examples")
  apart : KeepApart (get? decorators "x-examples") method

/-- Merging the same decorators again settles exactly if no parameter of theirs is named by a list
or a mapping and each of their examples has the texts that placing it takes. -/
theorem merge_again_same_iff {block decorators : Fields} {method : String}
    (hb : WellFormed block) (hd : Remergeable decorators method) (path : String) :
    Settles block decorators path method ↔
      PlainNames (get? decorators "parameters") ∧
        ∀ v ∈ itemsOf (get? decorators "x-examples"), ∀ entry,
          IsExample v entry → HasTexts method entry := by
  rw [settles_iff, isResolvable_iff, same_merge_merge_iff hb hd.wellFormed hd.schema, and_comm]

/-- A block and decorators that place an example at each of the three places. -/
def plainBlock : Fields :=
  [("parameters", .list [.map [("name", .str "id")], .map [("name", .str "page")]]),
    ("responses", .map [("200", .map [("description", .str "OK")])])]

def exampleDecorators : Fields :=
  [("parameters", .list [.map [("name", .str "page"), ("in", .str "query")]]),
    ("responses", .map [("404", .map [("methods", .list [.str "get"])])]),
    ("x-examples", .list
      [.map [("placement", .str "parameter"), ("name", .str "first"),
          ("parameter_name", .str "id")],
        .map [("placement", .str "requestBody"), ("name", .str "empty"), ("value", .map [])],
        .map [("placement", .str "response"), ("name", .str "missing"),
          ("status_code", .str "404")]])]

theorem merge_again_same_of_plainNames :
    WellFormed plainBlock ∧ Remergeable exampleDecorators "get" ∧
      Settles plainBlock exampleDecorators "/items" "get" := by
  have hb : WellFormed plainBlock := by
    simp [plainBlock, WellFormed, Value.WellFormed, Value.WellFormedEntries,
      Value.WellFormedItems, keys]
  have hd : Remergeable exampleDecorators "get" := by
    constructor
    case wellFormed =>
      simp [exampleDecorators, WellFormed, Value.WellFormed, Value.WellFormedEntries,
        Value.WellFormedItems, keys]
    case schema =>
      simp [NoSchemaExamples, exampleDecorators, itemsOf, get?, Value.asList?, Value.field?,
        Value.asMap?]
    case apart =>
      unfold KeepApart
      decide
  have hplain : PlainNames (get? exampleDecorators "parameters") := by
    simp [PlainNames, Plain, exampleDecorators, itemsOf, get?, Value.asList?, Value.field?,
      Value.asMap?]
  have htexts := isResolvable_iff.mp
    (show isResolvable (some exampleDecorators) "get" = true by decide)
  exact ⟨hb, hd, (merge_again_same_iff hb hd "/items").mpr ⟨hplain, htexts⟩⟩

/-- A parameter that is named by a list. -/
def listNamed : Fields := [("parameters", .list [.map [("name", .list [.str "id"])]])]

theorem not_merge_again_same_of_listNamed : ¬Settles [] listNamed "/items" "get" := by
  rw [settles_iff]
  decide

/-- An example for a response that a mapping without a text names. -/
def unnamable : Fields :=
  [("x-examples", .list [.map [("placement", .str "response"), ("name", .str "a"),
    ("status_code", .map [("toString", .null)])]])]

example : ¬Settles [] unnamable "/items" "get" := by
  rw [settles_iff]
  decide

end Metadata
end ApiSync
