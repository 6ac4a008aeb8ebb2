import ApiSync.Proofs.Document.Silent
import ApiSync.Proofs.Text.Order
/-!
# What synchronising the components does to a document

`SyncEffect` is the contract of the synchronisation: the schemas hold every component that is not
excluded and none of the excluded names, everything else stays, and the names that are reported
are those whose schema had to be written or taken away.  A name can be in the document, among the
components and among the excluded names at once; it is then written first and removed after that,
and reported on both occasions.
-/

namespace ApiSync
namespace Document

/-- The document after its components have been brought in line. -/
def synced (document components : Fields) (excluded : List String) : Fields :=
  (syncComponents document components excluded).document

/-- The components whose schema differs from the one that the document holds. -/
def driftedComponents (document components : Fields) : Fields :=
  components.filter fun c => !Value.sameOption (Fields.get? (schemas document) c.1) (some c.2)

structure SyncEffect (document components : Fields) (excluded : List String) : Prop where
  completes : (syncComponents document components excluded).sync.failure = none
  section_held : HoldsSchemas (synced document components excluded)
  written : ∀ c ∈ components, c.1 ∉ excluded →
    Value.sameOption (Fields.get? (schemas (synced document components excluded)) c.1)
      (some c.2) = true
  absent : ∀ name ∈ excluded,
    Fields.get? (schemas (synced document components excluded)) name = none
  others : ∀ name, name ∉ Fields.keys components → name ∉ excluded →
    Fields.get? (schemas (synced document components excluded)) name =
      Fields.get? (schemas document) name
  siblings : ∀ key, key ≠ "schemas" →
    Fields.get? (Value.fieldsAt (synced document components excluded) "components") key =
      Fields.get? (Value.fieldsAt document "components") key
  sections : ∀ key, key ≠ "components" →
    Fields.get? (synced document components excluded) key = Fields.get? document key
  updated : (syncComponents document components excluded).sync.updated =
    Fields.keys (driftedComponents document components)
  mem_removed : ∀ name, name ∈ (syncComponents document components excluded).sync.removed ↔
    name ∈ excluded ∧ (name ∈ Fields.keys (schemas document) ∨ name ∈ Fields.keys components)
  ascending : (syncComponents document components excluded).sync.removed.Pairwise
    fun a b => Text.nameLe a b = true ∧ a ≠ b

namespace ComponentSync

variable {s : ComponentSync} {name : String}

/-! ## What the steps report -/

theorem updated_write (v : Value) (hf : s.failure = none) (h : Ambient.isAmbient name = false) :
    (s.write (name, v)).updated = s.updated ++
      if Value.sameOption (Fields.get? s.schemas name) (some v) then [] else [name] := by
  cases hs : Value.sameOption (Fields.get? s.schemas name) (some v) with
  | true => rw [write_of_same v h hs, if_pos rfl, List.append_nil]
  | false =>
    obtain ⟨events, heq⟩ := write_of_not_same v hf h hs
    rw [heq, if_neg Bool.false_ne_true]

/-- Removing updates nothing. -/
theorem updated_remove (s : ComponentSync) (name : String) :
    (s.remove name).updated = s.updated := by
  cases remove_cases s name with
  | stopped _ heq | absent _ heq | refused _ _ heq | erased _ _ _ heq => rw [heq]

theorem removed_remove (hf : s.failure = none) (h : Ambient.isAmbient name = false) :
    (s.remove name).removed = s.removed ++
      if name ∈ Fields.keys s.schemas then [name] else [] := by
  by_cases hmem : name ∈ Fields.keys s.schemas
  · obtain ⟨events, heq⟩ := remove_of_present hf h fun hnone =>
      Fields.get?_eq_none_iff.mp hnone hmem
    rw [heq, if_pos hmem]
  · rw [remove_of_absent h (Fields.get?_eq_none_iff.mpr hmem), if_neg hmem, List.append_nil]

theorem mem_keys_remove (hf : s.failure = none) (h : Ambient.isAmbient name = false)
    {k : String} :
    k ∈ Fields.keys (s.remove name).schemas ↔ k ≠ name ∧ k ∈ Fields.keys s.schemas := by
  rw [← not_iff_not, ← Fields.get?_eq_none_iff, get?_remove hf h]
  by_cases hk : name = k
  · simp [hk]
  · rw [if_neg hk, Fields.get?_eq_none_iff]
    simp [Ne.symm hk]

/-! ## What a run reports -/

/-- With distinct names the schema found for a component is the one at the start of the run. -/
theorem updated_foldl_write {components : Fields} (hf : s.failure = none)
    (h : ∀ c ∈ components, Ambient.isAmbient c.1 = false)
    (hd : (Fields.keys components).Nodup) :
    (components.foldl write s).updated = s.updated ++ Fields.keys (components.filter fun c =>
      !Value.sameOption (Fields.get? s.schemas c.1) (some c.2)) := by
  induction components generalizing s with
  | nil => exact (List.append_nil _).symm
  | cons c rest ih =>
    obtain ⟨name, v⟩ := c
    have hname := h (name, v) List.mem_cons_self
    have hd' : name ∉ Fields.keys rest ∧ (Fields.keys rest).Nodup := List.nodup_cons.mp hd
    have hkept : (rest.filter fun c =>
        !Value.sameOption (Fields.get? (s.write (name, v)).schemas c.1) (some c.2)) =
          rest.filter fun c => !Value.sameOption (Fields.get? s.schemas c.1) (some c.2) := by
      refine List.filter_congr fun c hc => ?_
      have hne : name ≠ c.1 := fun heq => hd'.1 (heq ▸ List.mem_map_of_mem hc)
      rw [get?_write_of_ne v hf hname hne]
    rw [List.foldl_cons, ih (write_failure v hf hname)
      (fun d hd => h d (List.mem_cons_of_mem _ hd)) hd'.2, hkept, updated_write v hf hname,
      List.append_assoc]
    congr 1
    cases hs : Value.sameOption (Fields.get? s.schemas name) (some v) <;> simp [Fields.keys, hs]

theorem updated_foldl_remove (names : List String) (s : ComponentSync) :
    (names.foldl remove s).updated = s.updated := by
  induction names generalizing s with
  | nil => rfl
  | cons n rest ih => rw [List.foldl_cons, ih, updated_remove]

/-- The names that a run removes come in its order, each of them once, and they are those that
the schemas held. -/
theorem removed_foldl_remove {names : List String} (hf : s.failure = none)
    (h : ∀ n ∈ names, Ambient.isAmbient n = false) :
    ∃ gone, (names.foldl remove s).removed = s.removed ++ gone ∧ gone.Sublist names ∧ gone.Nodup ∧
      ∀ k, k ∈ gone ↔ k ∈ names ∧ k ∈ Fields.keys s.schemas := by
  induction names generalizing s with
  | nil => exact ⟨[], (List.append_nil _).symm, .slnil, List.nodup_nil, by simp⟩
  | cons n rest ih =>
    have hn := h n List.mem_cons_self
    obtain ⟨gone, hgone, hsub, hnodup, hmem⟩ := ih (remove_failure hf hn) fun k hk =>
      h k (List.mem_cons_of_mem n hk)
    have hmem' : ∀ k, k ∈ gone ↔ k ∈ rest ∧ k ≠ n ∧ k ∈ Fields.keys s.schemas := fun k => by
      rw [hmem, mem_keys_remove hf hn]
    rw [List.foldl_cons, hgone, removed_remove hf hn, List.append_assoc]
    by_cases hheld : n ∈ Fields.keys s.schemas
    · rw [if_pos hheld]
      refine ⟨n :: gone, rfl, hsub.cons_cons n, List.nodup_cons.mpr ⟨fun hin => ?_, hnodup⟩, ?_⟩
      · exact ((hmem' n).mp hin).2.1 rfl
      · intro k
        by_cases hk : k = n
        · simp [hk, hheld]
        · simp [hk, hmem']
    · rw [if_neg hheld]
      refine ⟨gone, rfl, hsub.cons n, hnodup, fun k => ?_⟩
      by_cases hk : k = n
      · simp [hk, hheld, hmem']
      · simp [hk, hmem']

end ComponentSync

variable {components : Fields} {excluded : List String}

/-! ## The document -/

theorem synced_eq (document : Fields) (hne : ¬(components = [] ∧ excluded = [])) :
    synced document components excluded =
      (syncRun document components excluded).document document := by
  rw [synced, syncComponents_of_nonempty document hne]

theorem get?_components_document (s : ComponentSync) (start : Fields) :
    Fields.get? (s.document start) "components" =
      some (.map (Fields.set (Value.fieldsAt start "components") "schemas" (.map s.schemas))) := by
  rw [ComponentSync.document, Fields.get?_set, if_pos rfl]

theorem fieldsAt_components_document (s : ComponentSync) (start : Fields) :
    Value.fieldsAt (s.document start) "components" =
      Fields.set (Value.fieldsAt start "components") "schemas" (.map s.schemas) :=
  Value.fieldsAt_of_get? (get?_components_document s start)

theorem holdsSchemas_document (s : ComponentSync) (start : Fields) :
    HoldsSchemas (s.document start) := by
  refine ⟨Fields.holdsMap_of_get? (get?_components_document s start), ?_⟩
  rw [fieldsAt_components_document]
  exact Fields.holdsMap_of_get? (by rw [Fields.get?_set, if_pos rfl])

/-- A look-up in the schemas after the run: nothing under an excluded name, and under the others
what the writing left. -/
theorem get?_syncRun (hc : ∀ c ∈ components, Ambient.isAmbient c.1 = false)
    (hx : ∀ name ∈ excluded, Ambient.isAmbient name = false) (document : Fields) (k : String) :
    Fields.get? (syncRun document components excluded).schemas k =
      if k ∈ excluded then none
      else Fields.get? (components.foldl ComponentSync.write
        ⟨schemas document, [], [], [], none⟩).schemas k := by
  rw [syncRun, ComponentSync.get?_foldl_remove (ComponentSync.foldl_write_failure rfl hc)
    fun n hn => hx n (mem_sortNames.mp hn)]
  simp only [mem_sortNames]

/-- After the writing the schemas hold what they held and the components. -/
theorem mem_keys_foldl_write (hc : ∀ c ∈ components, Ambient.isAmbient c.1 = false)
    (hw : (Value.map components).WellFormed) (document : Fields) (k : String) :
    k ∈ Fields.keys (components.foldl ComponentSync.write
        ⟨schemas document, [], [], [], none⟩).schemas ↔
      k ∈ Fields.keys (schemas document) ∨ k ∈ Fields.keys components := by
  rw [Value.WellFormed] at hw
  by_cases hk : k ∈ Fields.keys components
  · obtain ⟨c, hmem, rfl⟩ := List.mem_map.mp hk
    have hsame := ComponentSync.sameOption_get?_foldl_write
      (s := ⟨schemas document, [], [], [], none⟩) rfl hc hw.1 hw.2 c hmem
    refine iff_of_true (Decidable.byContradiction fun hnot => ?_) (Or.inr hk)
    rw [Fields.get?_eq_none_iff.mpr hnot] at hsame
    exact Bool.false_ne_true hsame
  · rw [← not_iff_not, ← Fields.get?_eq_none_iff,
      ComponentSync.get?_foldl_write_of_not_mem rfl hc hk, Fields.get?_eq_none_iff]
    simp [hk]

/-! ## The contract -/

/-- The synchronisation keeps its contract for every document, whatever stands where it expects
the components and their schemas. -/
theorem syncEffect_of_plain_names (document components : Fields) (excluded : List String)
    (hw : (Value.map components).WellFormed)
    (hc : ∀ c ∈ components, Ambient.isAmbient c.1 = false)
    (hx : ∀ name ∈ excluded, Ambient.isAmbient name = false)
    (hne : ¬(components = [] ∧ excluded = [])) : SyncEffect document components excluded := by
  have hrun := syncComponents_of_nonempty document hne
  have hafter := synced_eq document hne
  have hread : schemas (synced document components excluded) =
      (syncRun document components excluded).schemas := by
    rw [hafter, ComponentSync.schemas_document]
  have hwritten := ComponentSync.foldl_write_failure
    (s := ⟨schemas document, [], [], [], none⟩) rfl hc
  have hx' : ∀ n ∈ Text.sortNames excluded, Ambient.isAmbient n = false :=
    fun n hn => hx n (mem_sortNames.mp hn)
  have hkeys : (Fields.keys components).Nodup ∧ Value.WellFormedEntries components := by
    rw [Value.WellFormed] at hw
    exact hw
  obtain ⟨gone, hgone, hsub, hnodup, hmem⟩ :=
    ComponentSync.removed_foldl_remove hwritten hx'
  have hremoved : (syncRun document components excluded).removed = gone := by
    rw [syncRun, hgone, ComponentSync.removed_foldl_write, List.nil_append]
  constructor
  case completes => rw [hrun]; exact syncRun_failure hc hx document
  case section_held => rw [hafter]; exact holdsSchemas_document _ document
  case written =>
    intro c hcomponent hexcluded
    rw [hread, get?_syncRun hc hx, if_neg hexcluded]
    exact ComponentSync.sameOption_get?_foldl_write rfl hc hkeys.1 hkeys.2 c hcomponent
  case absent =>
    intro name hname
    rw [hread, get?_syncRun hc hx, if_pos hname]
  case others =>
    intro name hcomponent hexcluded
    rw [hread, get?_syncRun hc hx, if_neg hexcluded,
      ComponentSync.get?_foldl_write_of_not_mem rfl hc hcomponent]
  case siblings =>
    intro key hkey
    rw [hafter, fieldsAt_components_document, Fields.get?_set, if_neg (Ne.symm hkey)]
  case sections =>
    intro key hkey
    rw [hafter, ComponentSync.document, Fields.get?_set, if_neg (Ne.symm hkey)]
  case updated =>
    rw [hrun]
    show (syncRun document components excluded).updated = _
    rw [syncRun, ComponentSync.updated_foldl_remove,
      ComponentSync.updated_foldl_write rfl hc hkeys.1, List.nil_append, driftedComponents]
  case mem_removed =>
    intro name
    rw [hrun]
    show name ∈ (syncRun document components excluded).removed ↔ _
    rw [hremoved, hmem, mem_sortNames, mem_keys_foldl_write hc hw]
  case ascending =>
    rw [hrun]
    show (syncRun document components excluded).removed.Pairwise _
    rw [hremoved]
    exact ((Text.pairwise_sortNames excluded).sublist hsub).and hnodup

section Example

/-- Of the components one is in place, one has drifted, one is new and one is excluded. -/
def generated : Fields :=
  [("User", .map [("type", .str "object"), ("nullable", .bool true)]),
    ("Item", .map [("type", .str "object")]), ("Note", .map []), ("Draft", .map [])]

def drifting : Fields :=
  [("components", .map [("schemas", .map
    [("User", .map [("nullable", .bool true), ("type", .str "object")]),
      ("Item", .map [("type", .str "string")]), ("Secret", .null), ("Manual", .null)]),
    ("responses", .map [])])]

theorem syncEffect_of_drifting :
    (Value.map generated).WellFormed ∧ (∀ c ∈ generated, Ambient.isAmbient c.1 = false) ∧
      (∀ name ∈ ["Secret", "Draft", "Missing"], Ambient.isAmbient name = false) ∧
      ¬(generated = [] ∧ ["Secret", "Draft", "Missing"] = []) ∧
      SyncEffect drifting generated ["Secret", "Draft", "Missing"] := by
  have hw : (Value.map generated).WellFormed := by
    simp [generated, Value.WellFormed, Value.WellFormedEntries, Fields.keys]
  have hc : ∀ c ∈ generated, Ambient.isAmbient c.1 = false := by
    intro c hmem
    have hnames : ∀ name ∈ Fields.keys generated, Ambient.isAmbient name = false := by decide
    exact hnames c.1 (List.mem_map_of_mem hmem)
  have hx : ∀ name ∈ ["Secret", "Draft", "Missing"], Ambient.isAmbient name = false := by decide
  have hne : ¬(generated = [] ∧ ["Secret", "Draft", "Missing"] = []) := by simp
  exact ⟨hw, hc, hx, hne, syncEffect_of_plain_names drifting generated _ hw hc hx hne⟩

end Example

end Document
end ApiSync
