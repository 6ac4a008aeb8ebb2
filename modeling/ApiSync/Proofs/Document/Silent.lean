import Mathlib.Data.List.Induction
import ApiSync.Proofs.Document.Resyncing
import ApiSync.Proofs.Metadata.WellFormed
/-!
# Merges that report no change

Both merges make room before they know whether they will write: a section that is no mapping
becomes an empty one.  As soon as an operation or a component is in place, so are the sections
around it, and a merge that reports nothing leaves the document as it is.  What remains are the
merges with nothing to look for in a document without the section, and these change it without a
word.
-/

namespace ApiSync

namespace Fields

/-- A mapping stands under the key. -/
def HoldsMap (fields : Fields) (key : String) : Prop :=
  get? fields key = some (.map (Value.fieldsAt fields key))

theorem holdsMap_of_get? {fields inner : Fields} {key : String}
    (h : get? fields key = some (.map inner)) : HoldsMap fields key := by
  rw [HoldsMap, Value.fieldsAt_of_get? h, h]

theorem holdsMap_of_fieldsAt {fields : Fields} {key : String}
    (h : Value.fieldsAt fields key ≠ []) : HoldsMap fields key :=
  Value.get?_of_fieldsAt_ne_nil h

end Fields

namespace Value

theorem exists_of_sameFields {a b : Fields} (h : sameFields a b = true) {k : String} {v : Value}
    (hv : Fields.get? a k = some v) : ∃ w, Fields.get? b k = some w ∧ same v w = true := by
  induction a with
  | nil => cases hv
  | cons e rest ih =>
    obtain ⟨key, u⟩ := e
    rw [sameFields, Bool.and_eq_true] at h
    rw [Fields.get?_cons] at hv
    by_cases hk : key = k
    · obtain rfl : u = v := by simpa [hk] using hv
      have hfirst := h.1
      rw [hk] at hfirst
      cases hb : Fields.get? b k with
      | none => rw [hb] at hfirst; cases hfirst
      | some w => rw [hb] at hfirst; exact ⟨w, rfl, hfirst⟩
    · rw [if_neg hk] at hv
      exact ih h.2 hv

theorem eq_map_of_same {a : Fields} {w : Value} (h : same (.map a) w = true) :
    ∃ b, w = .map b ∧ sameFields a b = true := by
  cases w with
  | map b =>
    rw [same, Bool.and_eq_true] at h
    exact ⟨b, rfl, h.2⟩
  | _ => cases h

/-- What is deeply equal to a mapping with a mapping in it is one itself. -/
theorem exists_map_of_sameFields {a b inner : Fields} (h : sameFields a b = true) {k : String}
    (hv : Fields.get? a k = some (.map inner)) :
    ∃ other, Fields.get? b k = some (.map other) ∧ sameFields inner other = true := by
  obtain ⟨w, hw, hsame⟩ := exists_of_sameFields h hv
  obtain ⟨other, rfl, hinner⟩ := eq_map_of_same hsame
  exact ⟨other, hw, hinner⟩

end Value

namespace Document

variable {document components : Fields} {endpoints : List Endpoint} {excluded : List String}

/-! ## Operations -/

namespace OperationMerge

/-- Nothing has failed and no operation has changed. -/
structure Silent (m : OperationMerge) : Prop where
  failure : m.failure = none
  diffs : m.diffs = []

/-- A step without a change has found the operation in place, and with it all that is around. -/
theorem add_of_silent {m : OperationMerge} {e : Endpoint} (h : (m.add e).Silent) :
    m.Silent ∧ (m.add e).paths = m.paths ∧ Fields.HoldsMap m.paths e.path := by
  cases add_cases m e with
  | stopped hfailure heq =>
    rw [heq] at h
    exact absurd h.failure hfailure
  | unresolved _ _ heq =>
    rw [heq] at h
    cases h.failure
  | held hf hholds heq =>
    rw [heq] at h ⊢
    have hentry : ∃ v, operationIn m.paths e.path e.method = some v :=
      Option.ne_none_iff_exists'.mp (get?_ne_none_of_holds hholds)
    obtain ⟨v, hv⟩ := hentry
    have hmap := map_of_operationIn hv
    exact ⟨⟨hf, h.diffs⟩, Fields.assign_of_get? hmap, hmap⟩
  | refused _ _ _ heq =>
    rw [heq] at h
    cases h.failure
  | changed _ _ _ heq =>
    rw [heq] at h
    exact absurd h.diffs (by simp [change])

theorem foldl_add_of_silent {es : List Endpoint} {m : OperationMerge}
    (h : (es.foldl add m).Silent) :
    (es.foldl add m).paths = m.paths ∧ ∀ e ∈ es, Fields.HoldsMap m.paths e.path := by
  -- The last step is silent first, and the ones before it follow.
  induction es using List.reverseRecOn with
  | nil => exact ⟨rfl, fun _ he => absurd he List.not_mem_nil⟩
  | append_singleton es e ih =>
    rw [List.foldl_append, List.foldl_cons, List.foldl_nil] at h ⊢
    obtain ⟨hbefore, hpaths, hmap⟩ := add_of_silent h
    obtain ⟨hkept, hmaps⟩ := ih hbefore
    rw [hkept] at hpaths hmap
    refine ⟨hpaths, fun d hd => ?_⟩
    rcases List.mem_append.mp hd with hd | hd
    · exact hmaps d hd
    · rw [List.mem_singleton.mp hd]
      exact hmap

end OperationMerge

/-- A merge without a change leaves the document alone exactly if there was an endpoint to look
for or a section of paths to look into. -/
theorem same_merged_iff (hw : Fields.WellFormed document)
    (h : (mergeOperations document endpoints).Silent) :
    Value.same (.map ((mergeOperations document endpoints).document document)) (.map document) =
        true ↔ endpoints ≠ [] ∨ Fields.HoldsMap document "paths" := by
  obtain ⟨hpaths, hmaps⟩ := OperationMerge.foldl_add_of_silent h
  have hafter : (mergeOperations document endpoints).document document =
      Fields.set document "paths" (.map (Value.fieldsAt document "paths")) := by
    rw [OperationMerge.document, mergeOperations, hpaths]
    rfl
  rw [hafter]
  constructor
  · intro hsame
    right
    obtain ⟨_, hmap, hfields⟩ := Value.eq_map_of_same hsame
    obtain rfl := Value.map.inj hmap
    obtain ⟨inner, hinner, -⟩ := Value.exists_map_of_sameFields hfields
      (by rw [Fields.get?_set, if_pos rfl])
    exact Fields.holdsMap_of_get? hinner
  · intro hcase
    have hsection : Fields.HoldsMap document "paths" := by
      rcases hcase with hne | hsection
      · obtain ⟨e, rest, rfl⟩ := List.exists_cons_of_ne_nil hne
        have hentry := hmaps e List.mem_cons_self
        apply Fields.holdsMap_of_fieldsAt
        intro hnil
        rw [Fields.HoldsMap, show (OperationMerge.start document).paths = [] from hnil] at hentry
        cases hentry
      · exact hsection
    rw [Fields.set_of_get? hsection]
    exact Value.same_self _ hw

/-! ## Components -/

/-- The document holds a mapping of schemas. -/
def HoldsSchemas (document : Fields) : Prop :=
  Fields.HoldsMap document "components" ∧
    Fields.HoldsMap (Value.fieldsAt document "components") "schemas"

theorem holdsSchemas_of_ne_nil (h : schemas document ≠ []) : HoldsSchemas document := by
  have hholder : Value.fieldsAt document "components" ≠ [] := by
    intro hnil
    rw [schemas, hnil] at h
    exact h rfl
  exact ⟨Fields.holdsMap_of_fieldsAt hholder, Fields.holdsMap_of_fieldsAt h⟩

theorem document_of_holdsSchemas (h : HoldsSchemas document) :
    ComponentSync.document ⟨schemas document, [], [], [], none⟩ document = document := by
  rw [ComponentSync.document]
  show Fields.set document "components"
    (.map (Fields.set _ "schemas" (.map (schemas document)))) = _
  rw [schemas, Fields.set_of_get? h.2, Fields.set_of_get? h.1]

theorem holdsSchemas_of_same
    (h : Value.same (.map (ComponentSync.document ⟨schemas document, [], [], [], none⟩ document))
      (.map document) = true) : HoldsSchemas document := by
  obtain ⟨_, hmap, hfields⟩ := Value.eq_map_of_same h
  obtain rfl := Value.map.inj hmap
  rw [ComponentSync.document] at hfields
  obtain ⟨holder, hholder, hin⟩ := Value.exists_map_of_sameFields hfields
    (by rw [Fields.get?_set, if_pos rfl])
  obtain ⟨inner, hinner, -⟩ := Value.exists_map_of_sameFields hin
    (by rw [Fields.get?_set, if_pos rfl])
  refine ⟨Fields.holdsMap_of_get? hholder, ?_⟩
  rw [Value.fieldsAt_of_get? hholder]
  exact Fields.holdsMap_of_get? hinner

/-- A synchronisation that reports no change has not moved. -/
theorem settled_of_unchanged (hne : ¬(components = [] ∧ excluded = []))
    (hf : (syncComponents document components excluded).sync.failure = none)
    (hc : (syncComponents document components excluded).sync.changed = false) :
    (syncComponents document components excluded).document =
        ComponentSync.document ⟨schemas document, [], [], [], none⟩ document ∧
      (∀ c ∈ components, (Found.inFields (schemas document) c.1).holds c.2 = true) ∧
      ∀ name ∈ excluded, Fields.answers (schemas document) name = false := by
  have hrun := syncComponents_of_nonempty document hne
  rw [hrun] at hf hc
  obtain ⟨hstart, hholds, hanswers⟩ := settled_of_idle (ComponentSync.idle_of_unchanged hf hc)
  rw [hrun, hstart]
  exact ⟨rfl, hholds, hanswers⟩

theorem same_synced_iff (hw : Fields.WellFormed document)
    (hf : (syncComponents document components excluded).sync.failure = none)
    (hc : (syncComponents document components excluded).sync.changed = false) :
    Value.same (.map (syncComponents document components excluded).document) (.map document) =
        true ↔ components ≠ [] ∨ excluded = [] ∨ HoldsSchemas document := by
  by_cases hempty : components = [] ∧ excluded = []
  · obtain ⟨rfl, rfl⟩ := hempty
    exact iff_of_true (Value.same_self _ hw) (.inr (.inl rfl))
  · obtain ⟨hafter, hholds, -⟩ := settled_of_unchanged hempty hf hc
    rw [hafter]
    constructor
    · intro hsame
      exact .inr (.inr (holdsSchemas_of_same hsame))
    · intro hcase
      have hsection : HoldsSchemas document := by
        by_cases hnil : components = []
        · have hexcluded : excluded ≠ [] := fun hnone => hempty ⟨hnil, hnone⟩
          exact (hcase.resolve_left fun hne => hne hnil).resolve_left hexcluded
        · -- The first component is found, so there is a mapping that it is found in.
          obtain ⟨c, rest, rfl⟩ := List.exists_cons_of_ne_nil hnil
          have hfound := get?_ne_none_of_holds (hholds c List.mem_cons_self)
          apply holdsSchemas_of_ne_nil
          intro hnone
          rw [hnone] at hfound
          exact hfound rfl
      rw [document_of_holdsSchemas hsection]
      exact Value.same_self _ hw

/-- With no component to write, excluded names that the document lacks are passed over. -/
theorem silent_of_absent {excluded : List String} (hne : excluded ≠ [])
    (hx : ∀ name ∈ excluded, Ambient.isAmbient name = false)
    (habsent : ∀ name ∈ excluded, Fields.get? (schemas document) name = none) :
    (syncComponents document [] excluded).sync.failure = none ∧
      (syncComponents document [] excluded).sync.changed = false := by
  have hsettled : SchemasSettled [] excluded (schemas document) :=
    ⟨fun _ hc => absurd hc List.not_mem_nil, habsent⟩
  rw [syncComponents_of_nonempty document fun h => hne h.2,
    syncRun_of_settled (fun _ hc => absurd hc List.not_mem_nil) hx hsettled]
  exact ⟨rfl, rfl⟩

theorem get?_schemas_of_not_holdsSchemas (h : ¬HoldsSchemas document) (name : String) :
    Fields.get? (schemas document) name = none := by
  have hnil : schemas document = [] := by
    by_contra hne
    exact h (holdsSchemas_of_ne_nil hne)
  rw [hnil]
  rfl

/-! ## Both merges -/

/-- Each merge that ends without a failure and reports no change leaves a document that is deeply
equal to the one it was given. -/
structure ReportsAllChanges (document : Fields) (endpoints : List Endpoint) (components : Fields)
    (excluded : List String) : Prop where
  operations : (mergeOperations document endpoints).failure = none →
    (mergeOperations document endpoints).changed = false →
    Value.same (.map ((mergeOperations document endpoints).document document))
      (.map document) = true
  components : (syncComponents document components excluded).sync.failure = none →
    (syncComponents document components excluded).sync.changed = false →
    Value.same (.map (syncComponents document components excluded).document)
      (.map document) = true

section Example

def emptySchemas : Fields := [("components", .map [("schemas", .map [])])]

end Example

end Document
end ApiSync
