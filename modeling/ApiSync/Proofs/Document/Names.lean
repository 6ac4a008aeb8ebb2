import ApiSync.Document.Orphans
import ApiSync.Proofs.Document.Inherited
import ApiSync.Proofs.Document.Settling
import ApiSync.Proofs.Text.Order
/-!
# Names that a document does not hold

Looking for orphans and removing excluded schemas ask for names in the components and in the
schemas.  A name that is not there is not found, unless it is one that every mapping answers to.
-/

namespace ApiSync

namespace Document

/-! ## Orphans -/

/-- A schema of the name is reported if no component is generated for it. -/
def ReportsUngenerated (name : String) : Prop :=
  ∀ (document components : Fields) (endpoints : List Endpoint),
    name ∈ Fields.keys (schemas document) → name ∉ Fields.keys components →
      s!"Component present only in swagger (no model class): {name}" ∈
        orphans document endpoints (some components)

/-- A document with one schema. -/
def schemaOnly (name : String) : Fields :=
  [("components", .map [("schemas", .map [(name, .map [])])])]

theorem orphans_schemaOnly {name : String} (h : Ambient.isAmbient name = true) :
    orphans (schemaOnly name) [] (some []) = [] := by
  have hanswers : Fields.answers ([] : Fields) name = true := by
    rw [Fields.answers, h, Bool.or_true]
  show componentOrphans (schemaOnly name) [] = []
  have hkeys : Fields.keys (schemas (schemaOnly name)) = [name] := rfl
  rw [componentOrphans, hkeys]
  simp only [List.filterMap_cons, hanswers, if_true, List.filterMap_nil]

theorem reportsUngenerated_iff (name : String) :
    ReportsUngenerated name ↔ Ambient.isAmbient name = false := by
  constructor
  · intro hreports
    refine Bool.eq_false_iff.mpr fun hambient => ?_
    have hreported := hreports (schemaOnly name) [] [] List.mem_cons_self List.not_mem_nil
    rw [orphans_schemaOnly hambient] at hreported
    exact absurd hreported List.not_mem_nil
  · intro hambient document components endpoints hmem hnot
    have hanswers : Fields.answers components name = false := by
      rw [Fields.answers_eq_has hambient, Bool.eq_false_iff]
      exact fun hhas => hnot (Fields.mem_keys_iff_has.mpr hhas)
    refine List.mem_append_right _ (List.mem_filterMap.mpr ⟨name, hmem, ?_⟩)
    rw [hanswers, if_neg Bool.false_ne_true]

/-! ## Steps of a synchronisation -/

namespace ComponentSync

variable {s : ComponentSync} {name : String}

theorem get?_remove_eq_none (h : Fields.get? s.schemas name = none) (other : String) :
    Fields.get? (s.remove other).schemas name = none := by
  cases remove_cases s other with
  | stopped _ heq | absent _ heq | refused _ _ heq => rw [heq]; exact h
  | erased _ _ _ heq => rw [heq, Fields.get?_erase, h, ite_self]

/-- Only the name of the parent is reported as removed without being there. -/
theorem not_mem_removed_remove (hname : name ≠ Ambient.parentName)
    (h : Fields.get? s.schemas name = none) (hr : name ∉ s.removed) (other : String) :
    name ∉ (s.remove other).removed := by
  cases remove_cases s other with
  | stopped _ heq | absent _ heq | refused _ _ heq => rw [heq]; exact hr
  | erased _ hanswers hwritten heq =>
    rw [heq, List.mem_append, List.mem_singleton, not_or]
    refine ⟨hr, ?_⟩
    rintro rfl
    have hhas : Fields.has s.schemas name = false := by
      rw [Fields.has_eq_isSome, h]
      rfl
    -- A name without an entry is answered to only if it is inherited, and then it is a function.
    rw [Fields.answers, hhas, Bool.false_or] at hanswers
    rw [inFields_of_function h hanswers hname] at hwritten
    cases hwritten

/-! ## Runs -/

theorem not_mem_removed_foldl_remove (hname : name ≠ Ambient.parentName) (names : List String)
    (h : Fields.get? s.schemas name = none) (hr : name ∉ s.removed) :
    name ∉ (names.foldl remove s).removed := by
  induction names generalizing s with
  | nil => exact hr
  | cons other names ih =>
    exact ih (get?_remove_eq_none h other) (not_mem_removed_remove hname h hr other)

/-- A name that is not there may be left out of the names to remove. -/
theorem foldl_remove_filter (hambient : Ambient.isAmbient name = false) (names : List String)
    (h : Fields.get? s.schemas name = none) :
    names.foldl remove s = (names.filter (· ≠ name)).foldl remove s := by
  induction names generalizing s with
  | nil => rfl
  | cons other names ih =>
    by_cases hother : other = name
    · subst hother
      rw [List.foldl_cons, remove_of_absent hambient h, List.filter_cons_of_neg (by simp)]
      exact ih h
    · rw [List.filter_cons_of_pos (by simpa using hother), List.foldl_cons, List.foldl_cons]
      exact ih (get?_remove_eq_none h other)

end ComponentSync

/-! ## Excluded names -/

theorem syncRun_nil (document : Fields) :
    syncRun document [] [] = ⟨schemas document, [], [], [], none⟩ := by
  rw [syncRun, Text.sortNames_nil]
  rfl

theorem sync_syncComponents (document components : Fields) (excluded : List String) :
    (syncComponents document components excluded).sync = syncRun document components excluded := by
  by_cases hempty : components = [] ∧ excluded = []
  · rw [hempty.1, hempty.2, syncRun_nil]
    rfl
  · rw [syncComponents_of_nonempty document hempty]

/-- The schemas once the components are written, where the excluded names are looked for. -/
def writtenSchemas (document components : Fields) : Fields :=
  (syncComponents document components []).sync.schemas

/-- Excluding the name where the schemas do not hold it is the same as not excluding it. -/
def PassesOverAbsent (name : String) : Prop :=
  ∀ (document components : Fields) (excluded : List String),
    name ∉ Fields.keys (writtenSchemas document components) →
      (syncComponents document components excluded).sync =
        (syncComponents document components (excluded.filter (· ≠ name))).sync

/-- The name is reported as removed only where the schemas held it. -/
def RemovesOnlyHeld (name : String) : Prop :=
  ∀ (document components : Fields) (excluded : List String),
    name ∈ (syncComponents document components excluded).sync.removed →
      name ∈ Fields.keys (writtenSchemas document components)

theorem syncRun_eq (document components : Fields) (excluded : List String) :
    syncRun document components excluded =
      (Text.sortNames excluded).foldl ComponentSync.remove (syncRun document components []) := by
  rw [syncRun, syncRun, Text.sortNames_nil, List.foldl_nil]

theorem get?_schemas_syncRun {document components : Fields} {name : String}
    (h : name ∉ Fields.keys (writtenSchemas document components)) :
    Fields.get? (syncRun document components []).schemas name = none := by
  rw [writtenSchemas, sync_syncComponents] at h
  exact Fields.get?_eq_none_iff.mpr h

theorem removed_syncRun (document components : Fields) :
    (syncRun document components []).removed = [] := by
  rw [syncRun, Text.sortNames_nil, List.foldl_nil, ComponentSync.removed_foldl_write]

theorem not_mem_writtenSchemas (name : String) : name ∉ Fields.keys (writtenSchemas [] []) := by
  rw [writtenSchemas, sync_syncComponents, syncRun_nil]
  exact List.not_mem_nil

/-- Excluding an inherited name stops the run, or the name of the parent is reported. -/
theorem syncRun_of_ambient {name : String} (h : Ambient.isAmbient name = true) :
    (syncRun [] [] [name]).failure = some .unwritable ∧ name ≠ Ambient.parentName ∨
      (syncRun [] [] [name]).removed = [name] ∧ name = Ambient.parentName := by
  have hsort : Text.sortNames [name] = [name] := List.mergeSort_singleton name
  have hanswers : Fields.answers ([] : Fields) name = true := by
    rw [Fields.answers, h, Bool.or_true]
  have hrun : syncRun [] [] [name] =
      ComponentSync.remove ⟨schemas [], [], [], [], none⟩ name := by
    rw [syncRun, hsort]
    rfl
  have hnone : schemas [] = [] := rfl
  rw [hrun, hnone, ComponentSync.remove, hanswers]
  by_cases hparent : name = Ambient.parentName
  · right
    subst hparent
    exact ⟨rfl, rfl⟩
  · left
    rw [inFields_of_function rfl h hparent]
    exact ⟨rfl, hparent⟩

theorem passesOverAbsent_iff (name : String) :
    PassesOverAbsent name ↔ Ambient.isAmbient name = false := by
  constructor
  · intro hpasses
    refine Bool.eq_false_iff.mpr fun hambient => ?_
    have hsame := hpasses [] [] [name] (not_mem_writtenSchemas name)
    have hleft : [name].filter (· ≠ name) = [] := by simp
    rw [sync_syncComponents, sync_syncComponents, hleft, syncRun_nil] at hsame
    rcases syncRun_of_ambient hambient with ⟨hfailure, -⟩ | ⟨hremoved, -⟩
    · rw [hsame] at hfailure
      cases hfailure
    · rw [hsame] at hremoved
      cases hremoved
  · intro hambient document components excluded habsent
    rw [sync_syncComponents, sync_syncComponents, syncRun_eq,
      syncRun_eq _ _ (excluded.filter _), Text.sortNames_filter]
    exact ComponentSync.foldl_remove_filter hambient _ (get?_schemas_syncRun habsent)

theorem removesOnlyHeld_iff (name : String) :
    RemovesOnlyHeld name ↔ name ≠ Ambient.parentName := by
  constructor
  · rintro hheld rfl
    have hambient : Ambient.isAmbient Ambient.parentName = true := by decide
    refine not_mem_writtenSchemas Ambient.parentName (hheld [] [] [Ambient.parentName] ?_)
    rw [sync_syncComponents]
    rcases syncRun_of_ambient hambient with ⟨-, hne⟩ | ⟨hremoved, -⟩
    · exact absurd rfl hne
    · rw [hremoved]
      exact List.mem_singleton_self _
  · intro hname document components excluded hmem
    refine Classical.byContradiction fun habsent => ?_
    rw [sync_syncComponents, syncRun_eq] at hmem
    refine ComponentSync.not_mem_removed_foldl_remove hname _ (get?_schemas_syncRun habsent) ?_ hmem
    rw [removed_syncRun]
    exact List.not_mem_nil

end Document
end ApiSync
