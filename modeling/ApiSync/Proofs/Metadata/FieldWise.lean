import ApiSync.Proofs.Metadata.Overlay
/-!
# The merge of metadata, field by field

Each field of merged metadata depends on what the block and the decorators hold under the same
key, by one of four rules: the decorators win, lists are merged by name, a body is taken as a
whole where it is meant for the method, and responses are laid over each other status by status.
Every other field is the block's.

Responses are put in by assignment, which writes no entry for the parent of a mapping: a status
of that name is lost unless the block has one too, and it is the only one that is.
-/

namespace ApiSync
namespace Metadata

open Fields (WellFormed Takes get? has keys)
open Value (fieldsAt)

/-! ## Rules -/

/-- Lists are merged by name if either side says anything. -/
def parametersOver (below above : Option Value) : Option Value :=
  if isSet below || isSet above then some (.list (mergeLists below above (some "name")))
  else below

/-- A body that is not empty and meant for the method, without its list of methods. -/
def bodyOver (method : String) (below above : Option Value) : Option Value :=
  match above with
  | some (.map body) =>
    if body ≠ [] && appliesTo method body then some (.map (withoutMethods body)) else below
  | _ => below

/-- A response that is meant for the method, without its list of methods, laid over a response
below or in the place of anything else. -/
def responseOver (method : String) (below above : Option Value) : Option Value :=
  match above with
  | some (.map response) =>
    if appliesTo method response then
      match below with
      | some (.map base) => some (.map (overlay base (withoutMethods response)))
      | _ => some (.map (withoutMethods response))
    else below
  | _ => below

/-- All responses, if either side says anything. -/
def responsesOver (method : String) (below above : Option Value) : Option Value :=
  if isSet below || isSet above then some (.map (mergeResponses below above method)) else below

/-- The rule for a field, examples and headers of responses aside. -/
def fieldOver (method k : String) (below above : Option Value) : Option Value :=
  if k ∈ replacedFields then above.or below
  else if k = "parameters" then parametersOver below above
  else if k = "requestBody" then bodyOver method below above
  else if k = "responses" then responsesOver method below above
  else below

theorem bodyOver_map (method : String) (below : Option Value) (body : Fields) :
    bodyOver method below (some (.map body)) =
      if body ≠ [] && appliesTo method body then some (.map (withoutMethods body)) else below := rfl

theorem bodyOver_of_not_map {above : Option Value} (h : ∀ body, above ≠ some (.map body))
    (method : String) (below : Option Value) : bodyOver method below above = below := by
  unfold bodyOver
  split
  · next body => exact absurd rfl (h body)
  · rfl

section Rules

variable (method : String) (below above : Option Value)

theorem fieldOver_of_replaced {k : String} (h : k ∈ replacedFields) :
    fieldOver method k below above = above.or below := if_pos h

theorem fieldOver_parameters :
    fieldOver method "parameters" below above = parametersOver below above := by
  simp [fieldOver, replacedFields]

theorem fieldOver_requestBody :
    fieldOver method "requestBody" below above = bodyOver method below above := by
  simp [fieldOver, replacedFields]

theorem fieldOver_responses :
    fieldOver method "responses" below above = responsesOver method below above := by
  simp [fieldOver, replacedFields]

theorem fieldOver_of_other {k : String}
    (h : k ∉ replacedFields ++ ["parameters", "requestBody", "responses"]) :
    fieldOver method k below above = below := by
  simp only [List.mem_append, List.mem_cons, List.not_mem_nil, not_or, or_false] at h
  rw [fieldOver, if_neg h.1, if_neg h.2.1, if_neg h.2.2.1, if_neg h.2.2.2]

end Rules

/-! ## Stages of the merge -/

theorem get?_copyField (decorators merged : Fields) (field k : String) :
    get? (copyField decorators merged field) k =
      if field = k then (get? decorators k).or (get? merged k) else get? merged k := by
  unfold copyField
  split
  · next v hv =>
    rw [Fields.get?_set]
    by_cases hk : field = k
    · rw [if_pos hk, if_pos hk, ← hk, hv, Option.some_or]
    · rw [if_neg hk, if_neg hk]
  · next hnone =>
    by_cases hk : field = k
    · rw [if_pos hk, ← hk, hnone, Option.none_or]
    · rw [if_neg hk]

theorem get?_copyFields (decorators : Fields) (names : List String) (merged : Fields)
    (k : String) : get? (names.foldl (copyField decorators) merged) k =
      if k ∈ names then (get? decorators k).or (get? merged k) else get? merged k := by
  induction names generalizing merged with
  | nil => rfl
  | cons name rest ih =>
    rw [List.foldl_cons, ih, get?_copyField]
    by_cases hk : name = k
    · subst hk
      rw [if_pos rfl, if_pos List.mem_cons_self]
      cases get? decorators name <;> simp
    · simp only [List.mem_cons, if_neg hk, Ne.symm hk, false_or]

theorem get?_mergeParameters (merged decorators : Fields) (k : String) :
    get? (mergeParameters merged decorators) k =
      if k = "parameters" then
        parametersOver (get? merged "parameters") (get? decorators "parameters")
      else get? merged k := by
  unfold mergeParameters parametersOver
  dsimp only
  by_cases hk : k = "parameters"
  · subst hk
    rw [if_pos rfl]
    split
    · rw [Fields.get?_set, if_pos rfl]
    · rfl
  · rw [if_neg hk]
    split
    · rw [Fields.get?_set, if_neg (Ne.symm hk)]
    · rfl

theorem get?_mergeRequestBody (method : String) (merged decorators : Fields) (k : String) :
    get? (mergeRequestBody method merged decorators) k =
      if k = "requestBody" then
        bodyOver method (get? merged "requestBody") (get? decorators "requestBody")
      else get? merged k := by
  unfold mergeRequestBody
  split
  · next body hbody =>
    rw [hbody, bodyOver_map]
    by_cases hk : k = "requestBody"
    · subst hk
      rw [if_pos rfl]
      split
      · rw [Fields.get?_set, if_pos rfl]
      · rfl
    · rw [if_neg hk]
      split
      · rw [Fields.get?_set, if_neg (Ne.symm hk)]
      · rfl
  · next hother =>
    rw [bodyOver_of_not_map hother]
    split
    · next hk => rw [hk]
    · rfl

theorem get?_mergeAllResponses (method : String) (merged decorators : Fields) (k : String) :
    get? (mergeAllResponses method merged decorators) k =
      if k = "responses" then
        responsesOver method (get? merged "responses") (get? decorators "responses")
      else get? merged k := by
  unfold mergeAllResponses responsesOver
  dsimp only
  by_cases hk : k = "responses"
  · subst hk
    rw [if_pos rfl]
    split
    · rw [Fields.get?_set, if_pos rfl]
    · rfl
  · rw [if_neg hk]
    split
    · rw [Fields.get?_set, if_neg (Ne.symm hk)]
    · rfl

/-- The metadata before examples are placed. -/
def unplaced (method : String) (block decorators : Fields) : Fields :=
  mergeAllResponses method (mergeRequestBody method (mergeParameters
    (replacedFields.foldl (copyField decorators) block) decorators) decorators) decorators

theorem merge_of_ne_nil {decorators : Fields} (h : decorators ≠ []) (block : Fields)
    (path method : String) : (merge block (some decorators) path method).fields =
      copyField decorators (withExamples (unplaced method block decorators)
        (itemsOf (get? decorators "x-examples")) method) "x-response-headers" := by
  cases decorators with
  | nil => exact absurd rfl h
  | cons e rest => rfl

theorem get?_unplaced (method : String) (block decorators : Fields) (k : String) :
    get? (unplaced method block decorators) k =
      fieldOver method k (get? block k) (get? decorators k) := by
  have hcopied (name : String) (h : name ∉ replacedFields) :
      get? (replacedFields.foldl (copyField decorators) block) name = get? block name := by
    rw [get?_copyFields, if_neg h]
  unfold unplaced
  rw [get?_mergeAllResponses, get?_mergeRequestBody, get?_mergeRequestBody,
    get?_mergeParameters, get?_mergeParameters, get?_mergeParameters]
  by_cases hresponses : k = "responses"
  · subst hresponses
    rw [if_pos rfl, if_neg (by decide), if_neg (by decide), hcopied _ (by decide),
      fieldOver_responses]
  rw [if_neg hresponses]
  by_cases hbody : k = "requestBody"
  · subst hbody
    rw [if_pos rfl, if_neg (by decide), hcopied _ (by decide), fieldOver_requestBody]
  rw [if_neg hbody]
  by_cases hparameters : k = "parameters"
  · subst hparameters
    rw [if_pos rfl, hcopied _ (by decide), fieldOver_parameters]
  · rw [if_neg hparameters, get?_copyFields]
    split
    · next hk => rw [fieldOver_of_replaced _ _ _ hk]
    · next hk =>
      rw [fieldOver_of_other]
      simp [hk, hparameters, hbody, hresponses]

/-- Without examples the headers of responses follow the decorators as well. -/
theorem get?_merge {decorators : Fields} (hne : decorators ≠ [])
    (hx : has decorators "x-examples" = false) (block : Fields) (path method k : String) :
    get? (merge block (some decorators) path method).fields k =
      if k = "x-response-headers" then (get? decorators k).or (get? block k)
      else fieldOver method k (get? block k) (get? decorators k) := by
  have hnone : get? decorators "x-examples" = none := by
    rw [Fields.has_eq_isSome] at hx
    exact Option.not_isSome_iff_eq_none.mp (by simp [hx])
  rw [merge_of_ne_nil hne, hnone, get?_copyField]
  show (if "x-response-headers" = k then
    (get? decorators k).or (get? (unplaced method block decorators) k)
    else get? (unplaced method block decorators) k) = _
  rw [get?_unplaced]
  by_cases hk : k = "x-response-headers"
  · subst hk
    rw [if_pos rfl, if_pos rfl, fieldOver_of_other _ _ _ (by decide)]
  · rw [if_neg hk, if_neg (Ne.symm hk)]

/-! ## Responses -/

/-- What a response on top brings along. -/
def incoming? (method : String) : Value → Option Value
  | .map response =>
    if appliesTo method response then some (.map (withoutMethods response)) else none
  | _ => none

def incoming (method : String) (above : Fields) : Fields :=
  above.filterMap fun e => (incoming? method e.2).map (Prod.mk e.1)

theorem incoming_cons (method k : String) (v : Value) (rest : Fields) :
    incoming method ((k, v) :: rest) =
      ((incoming? method v).map fun w => (k, w)).toList ++ incoming method rest := by
  unfold incoming
  rw [List.filterMap_cons]
  cases incoming? method v <;> rfl

theorem addResponse_eq (method : String) (acc : Fields) (status : String) (v : Value) :
    addResponse method acc status v =
      overlay acc ((incoming? method v).map fun w => (status, w)).toList := by
  cases v with
  | map response =>
    rw [addResponse, incoming?]
    split
    · show _ = overlay acc [(status, .map (withoutMethods response))]
      rw [overlay, overlay]
      split
      · next base hbase => rw [hbase, overlayValue]
      · next hother =>
        rcases overlayValue_map (get? acc status) (withoutMethods response) with h | ⟨base, h, -⟩
        · rw [h]
        · exact absurd h (hother base)
    · rfl
  | _ => rfl

theorem overlay_append (lower upper base : Fields) :
    overlay base (lower ++ upper) = overlay (overlay base lower) upper := by
  induction lower generalizing base with
  | nil => rw [List.nil_append, overlay]
  | cons e rest ih =>
    obtain ⟨k, v⟩ := e
    rw [List.cons_append, overlay, overlay, ih]

/-- Merging responses lays over each other what is meant for the method. -/
theorem foldl_addResponse (method : String) (above start : Fields) :
    above.foldl (fun acc e => addResponse method acc e.1 e.2) start =
      overlay start (incoming method above) := by
  induction above generalizing start with
  | nil => rfl
  | cons e rest ih =>
    obtain ⟨k, v⟩ := e
    rw [List.foldl_cons, ih, incoming_cons, overlay_append, addResponse_eq]

theorem mergeResponses_eq (below above : Option Value) (method : String) :
    mergeResponses below above method =
      overlay (mapOf below) (incoming method (mapOf above)) := foldl_addResponse method _ _

theorem keys_incoming_sublist (method : String) (above : Fields) :
    (keys (incoming method above)).Sublist (keys above) := by
  induction above with
  | nil => exact List.Sublist.refl _
  | cons e rest ih =>
    obtain ⟨k, v⟩ := e
    rw [incoming_cons]
    cases incoming? method v with
    | none => exact ih.cons k
    | some w => exact ih.cons_cons k

theorem get?_incoming {above : Fields} (hd : (keys above).Nodup) (method status : String) :
    get? (incoming method above) status = (get? above status).bind (incoming? method) := by
  induction above with
  | nil => rfl
  | cons e rest ih =>
    obtain ⟨k, v⟩ := e
    obtain ⟨hnew, hd⟩ := List.nodup_cons.mp hd
    rw [incoming_cons, Fields.get?_cons]
    by_cases hk : k = status
    · have hrest : get? (incoming method rest) status = none := by
        rw [ih hd, Fields.get?_eq_none_iff.mpr (hk ▸ hnew), Option.bind_none]
      rw [if_pos hk, Option.bind_some]
      cases incoming? method v with
      | none => exact hrest
      | some w => exact (Fields.get?_cons (k, w) _ status).trans (if_pos hk)
    · rw [if_neg hk, ← ih hd]
      cases incoming? method v with
      | none => rfl
      | some w => exact (Fields.get?_cons (k, w) _ status).trans (if_neg hk)

theorem responseOver_map (method : String) (below : Option Value) (response : Fields) :
    responseOver method below (some (.map response)) =
      if appliesTo method response then
        some (overlayValue below (.map (withoutMethods response))) else below := by
  cases below with
  | none => rfl
  | some v => cases v <;> rfl

theorem responseOver_eq (method : String) (below above : Option Value) :
    responseOver method below above = laid below (above.bind (incoming? method)) := by
  cases above with
  | none => rfl
  | some v =>
    cases v with
    | map response =>
      rw [Option.bind_some, incoming?, responseOver_map]
      split <;> rfl
    | _ => rfl

/-- A response that is none, or not meant for the method, leaves what is below. -/
theorem responseOver_of_not_applies {method : String} {above : Option Value}
    (h : ∀ response, above = some (.map response) → ¬appliesTo method response = true)
    (below : Option Value) : responseOver method below above = below := by
  unfold responseOver
  split
  · next response => rw [if_neg (h response rfl)]
  · rfl

theorem mapOf_of_not_isSet {v : Option Value} (h : isSet v = false) : mapOf v = [] := by
  cases v with
  | none => rfl
  | some w =>
    cases w with
    | map inner =>
      show inner = []
      simpa [isSet] using h
    | _ => rfl

/-- Responses are laid over each other where either side says anything, and else there is nothing
to lay. -/
theorem responsesOver_cases (method : String) (below above : Option Value) :
    responsesOver method below above =
        some (.map (overlay (mapOf below) (incoming method (mapOf above)))) ∨
      responsesOver method below above = below ∧ mapOf above = [] := by
  unfold responsesOver
  split
  · rw [mergeResponses_eq]
    exact Or.inl rfl
  · next hunset =>
    rw [Bool.or_eq_true, not_or, Bool.not_eq_true, Bool.not_eq_true] at hunset
    exact Or.inr ⟨rfl, mapOf_of_not_isSet hunset.2⟩

theorem mapOf_responsesOver (method : String) (below above : Option Value) :
    mapOf (responsesOver method below above) =
      overlay (mapOf below) (incoming method (mapOf above)) := by
  rcases responsesOver_cases method below above with h | ⟨h, hnil⟩
  · rw [h]
    rfl
  · rw [h, hnil]
    show mapOf below = overlay (mapOf below) []
    rw [overlay]

section Responses

variable {method : String} {block decorators merged : Fields}

/-- The responses after the merge, also where neither side says anything. -/
theorem fieldsAt_responses
    (h : get? merged "responses" =
      responsesOver method (get? block "responses") (get? decorators "responses")) :
    fieldsAt merged "responses" =
      overlay (fieldsAt block "responses") (incoming method (fieldsAt decorators "responses")) := by
  show mapOf (get? merged "responses") = _
  rw [h, mapOf_responsesOver]
  rfl

theorem get?_responses (hd : WellFormed (fieldsAt decorators "responses")) {status : String}
    (ht : Takes (fieldsAt block "responses") status)
    (h : get? merged "responses" =
      responsesOver method (get? block "responses") (get? decorators "responses")) :
    get? (fieldsAt merged "responses") status =
      responseOver method (get? (fieldsAt block "responses") status)
        (get? (fieldsAt decorators "responses") status) := by
  have hkeys := (Fields.wellFormed_iff.mp hd).1
  rw [fieldsAt_responses h, get?_overlay (hkeys.sublist (keys_incoming_sublist method _)) ht,
    get?_incoming hkeys, responseOver_eq]

end Responses

theorem wellFormed_fieldsAt {fields : Fields} (h : WellFormed fields) (k : String) :
    WellFormed (fieldsAt fields k) := wellFormed_mapOf (itemsWellFormed_get? h k)

/-! ## The whole merge -/

/-- The fields that decorators decide if they have them. -/
def decidedFields : List String :=
  ["summary", "description", "operationId", "deprecated", "externalDocs", "tags", "security",
    "x-response-headers"]

/-- What merged metadata says, field by field. -/
structure FieldWise (method : String) (block decorators merged : Fields) : Prop where
  decided : ∀ k ∈ decidedFields, get? merged k = (get? decorators k).or (get? block k)
  parameters : get? merged "parameters" =
    parametersOver (get? block "parameters") (get? decorators "parameters")
  requestBody : get? merged "requestBody" =
    bodyOver method (get? block "requestBody") (get? decorators "requestBody")
  response : ∀ status, get? (fieldsAt merged "responses") status =
    responseOver method (get? (fieldsAt block "responses") status)
      (get? (fieldsAt decorators "responses") status)
  /-- The block keeps its other fields, and the decorators bring no other. -/
  others : ∀ k, k ∉ decidedFields ++ ["parameters", "requestBody", "responses"] →
    get? merged k = get? block k

/-- A response of the decorators that is meant for the method and stands under the name of the
parent has one to be laid over. -/
def ParentStatusKept (method : String) (block decorators : Fields) : Prop :=
  ∀ response, get? (fieldsAt decorators "responses") Ambient.parentName = some (.map response) →
    appliesTo method response = true →
    has (fieldsAt block "responses") Ambient.parentName = true

/-- Merged metadata follows the rules field by field, unless a response under the name of the
parent is lost. -/
theorem fieldWise_iff_parentStatusKept {decorators : Fields} (hd : WellFormed decorators)
    (hne : decorators ≠ []) (hx : has decorators "x-examples" = false) (block : Fields)
    (path method : String) :
    FieldWise method block decorators (merge block (some decorators) path method).fields ↔
      ParentStatusKept method block decorators := by
  have hget := get?_merge hne hx block path method
  have hresponses := hget "responses"
  rw [if_neg (by decide), fieldOver_responses] at hresponses
  constructor
  · intro h response hresponse happlies
    refine Decidable.byContradiction fun hhas => ?_
    have ht : ¬Takes (fieldsAt block "responses") Ambient.parentName := fun ht => hhas (ht rfl)
    have hlost := h.response Ambient.parentName
    rw [fieldsAt_responses hresponses, get?_overlay_of_not_takes ht, Fields.get?_of_not_takes ht,
      hresponse, responseOver_map, if_pos happlies] at hlost
    cases hlost
  · intro hkept
    refine ⟨fun k hk => ?_, ?_, ?_, fun status => ?_, fun k hk => ?_⟩
    · rw [hget]
      split
      · rfl
      · next hheaders =>
        have hreplaced : k ∈ replacedFields := by
          simpa [decidedFields, replacedFields, hheaders] using hk
        rw [fieldOver_of_replaced _ _ _ hreplaced]
    · rw [hget, if_neg (by decide), fieldOver_parameters]
    · rw [hget, if_neg (by decide), fieldOver_requestBody]
    · by_cases ht : Takes (fieldsAt block "responses") status
      · exact get?_responses (wellFormed_fieldsAt hd _) ht hresponses
      · have hparent : status = Ambient.parentName :=
          Decidable.byContradiction fun hne => ht (Fields.takes_of_ne hne)
        rw [fieldsAt_responses hresponses, get?_overlay_of_not_takes ht]
        subst hparent
        refine (responseOver_of_not_applies (fun response hresponse => ?_) _).symm
        exact fun happlies => ht fun _ => hkept response hresponse happlies
    · have hother : k ≠ "x-response-headers" ∧
          k ∉ replacedFields ++ ["parameters", "requestBody", "responses"] := by
        simp only [decidedFields, replacedFields, List.mem_append, List.mem_cons,
          List.not_mem_nil, not_or, or_false] at hk ⊢
        simp [hk]
      rw [hget, if_neg hother.1, fieldOver_of_other _ _ _ hother.2]

/-- A block and decorators that meet in a response, in the parameters and in the summary. -/
def sharedBlock : Fields :=
  [("summary", .str "Old"), ("parameters", .list [.map [("name", .str "id")]]),
    ("responses", .map [("200", .map [("description", .str "OK")]), ("__proto__", .null)])]

def sharedDecorators : Fields :=
  [("summary", .null), ("parameters", .list [.map [("name", .str "limit")]]),
    ("requestBody", .map [("methods", .list [.str "post"])]),
    ("responses", .map [("200", .map [("methods", .list [.str "get"]), ("headers", .map [])]),
      ("__proto__", .map [("description", .str "Kept")])])]

theorem fieldWise_of_shared :
    WellFormed sharedDecorators ∧ sharedDecorators ≠ [] ∧
      has sharedDecorators "x-examples" = false ∧
      FieldWise "get" sharedBlock sharedDecorators
        (merge sharedBlock (some sharedDecorators) "/items" "get").fields := by
  have hd : WellFormed sharedDecorators := by
    simp [sharedDecorators, WellFormed, Value.WellFormed, Value.WellFormedEntries,
      Value.WellFormedItems, keys]
  have hne : sharedDecorators ≠ [] := List.cons_ne_nil _ _
  have hx : has sharedDecorators "x-examples" = false := by decide
  exact ⟨hd, hne, hx, (fieldWise_iff_parentStatusKept hd hne hx sharedBlock "/items" "get").mpr
    fun _ _ _ => by decide⟩

/-- A response under the name of the parent, with none to be laid over. -/
def parentDecorators : Fields :=
  [("responses", .map [("__proto__", .map [("description", .str "Kept")])])]

def plainResponses : Fields :=
  [("responses", .map [("200", .map [("description", .str "OK")])])]

theorem not_fieldWise_of_parentStatus :
    ¬FieldWise "get" plainResponses parentDecorators
      (merge plainResponses (some parentDecorators) "/items" "get").fields := by
  intro h
  have hlost : (none : Option Value) = some (.map [("description", .str "Kept")]) :=
    h.response "__proto__"
  cases hlost

end Metadata
end ApiSync
