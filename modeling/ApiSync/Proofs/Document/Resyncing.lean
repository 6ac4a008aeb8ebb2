import ApiSync.Proofs.Document.Inherited
import ApiSync.Proofs.Document.Settling
/-!
# When a second synchronisation has nothing to do

A step of a synchronisation either leaves everything as it is or shows in what is reported.  So a
second run is silent exactly if the first one has put every component in place and no excluded
name is found any more, and for every document this takes components and excluded names that are
disjoint and that no mapping answers to by itself.
-/

namespace ApiSync
namespace Document

/-- A second synchronisation with the same components. -/
def resync (document components : Fields) (excluded : List String) : ComponentResult :=
  syncComponents (syncComponents document components excluded).document components excluded

/-- Two synchronisations end without a failure, and the second one changes nothing. -/
structure Resettles (document components : Fields) (excluded : List String) : Prop where
  first : (syncComponents document components excluded).sync.failure = none
  second : (resync document components excluded).sync.failure = none
  unchanged : (resync document components excluded).sync.changed = false

/-- No generated component is excluded. -/
def Disjoint (components : Fields) (excluded : List String) : Prop :=
  ∀ name ∈ excluded, name ∉ Fields.keys components

namespace ComponentSync

/-- Nothing has failed and nothing has been written or removed. -/
structure Idle (s : ComponentSync) : Prop where
  failure : s.failure = none
  updated : s.updated = []
  removed : s.removed = []

theorem idle_of_unchanged {s : ComponentSync} (hf : s.failure = none) (h : s.changed = false) :
    s.Idle := by
  rw [changed, Bool.or_eq_false_iff] at h
  exact ⟨hf, by simpa using h.1, by simpa using h.2⟩

theorem write_of_idle {s : ComponentSync} {c : String × Value} (h : (s.write c).Idle) :
    s.write c = s ∧ (Found.inFields s.schemas c.1).holds c.2 = true := by
  cases write_cases s c.1 c.2 with
  | stopped hfailure heq => exact absurd (heq ▸ h.failure) hfailure
  | held hholds heq => exact ⟨heq, hholds⟩
  | refused _ _ heq =>
    rw [heq] at h
    cases h.failure
  | put _ _ _ heq =>
    rw [heq] at h
    exact absurd h.updated (by simp)

theorem remove_of_idle {s : ComponentSync} {name : String} (h : (s.remove name).Idle) :
    s.remove name = s ∧ Fields.answers s.schemas name = false := by
  cases remove_cases s name with
  | stopped hfailure heq => exact absurd (heq ▸ h.failure) hfailure
  | absent hanswers heq => exact ⟨heq, hanswers⟩
  | refused _ _ heq =>
    rw [heq] at h
    cases h.failure
  | erased _ _ _ heq =>
    rw [heq] at h
    exact absurd h.removed (by simp)

/-- A run that ends idle has not moved, and each of its steps found what it looked for. -/
theorem foldl_of_idle {α : Type} {f : ComponentSync → α → ComponentSync}
    {F : ComponentSync → α → Prop} (hstep : ∀ s x, (f s x).Idle → f s x = s ∧ F s x)
    {xs : List α} {s : ComponentSync} (h : (xs.foldl f s).Idle) :
    xs.foldl f s = s ∧ ∀ x ∈ xs, F s x := by
  induction xs generalizing s with
  | nil => exact ⟨rfl, fun _ hx => absurd hx List.not_mem_nil⟩
  | cons x rest ih =>
    rw [List.foldl_cons] at h ⊢
    obtain ⟨hsame, hrest⟩ := ih h
    rw [hsame] at h ⊢
    obtain ⟨hx, hF⟩ := hstep s x h
    rw [hx] at hrest
    exact ⟨hx, List.forall_mem_cons.mpr ⟨hF, hrest⟩⟩

/-! ## Names that every mapping answers to -/

/-- The schemas have no entry of their own under such a name. -/
def NoAmbient (schemas : Fields) : Prop :=
  ∀ name, Ambient.isAmbient name = true → Fields.get? schemas name = none

theorem noAmbient_write {s : ComponentSync} (h : NoAmbient s.schemas) (c : String × Value) :
    NoAmbient (s.write c).schemas := by
  cases write_cases s c.1 c.2 with
  | stopped _ heq | held _ heq | refused _ _ heq => rw [heq]; exact h
  | put _ _ hwritten heq =>
    intro k hk
    rw [heq]
    show Fields.get? (Fields.assign s.schemas c.1 c.2) k = none
    cases hname : Ambient.isAmbient c.1 with
    | false =>
      have hne : c.1 ≠ k := fun hsame => by
        rw [hsame, hk] at hname
        cases hname
      rw [Fields.get?_assign_of_ne _ hne]
      exact h k hk
    | true =>
      -- Only the name of the parent can be written without an entry, and it gets none.
      have hnone := h c.1 hname
      have hparent : c.1 = Ambient.parentName := by
        refine Decidable.byContradiction fun hne => ?_
        rw [inFields_of_function hnone hname hne] at hwritten
        cases hwritten
      have hhas : Fields.has s.schemas Ambient.parentName = false := by
        rw [Fields.has_eq_isSome, ← hparent, hnone]
        rfl
      rw [hparent, Fields.assign_parent hhas]
      exact h k hk

theorem noAmbient_remove {s : ComponentSync} (h : NoAmbient s.schemas) (name : String) :
    NoAmbient (s.remove name).schemas := by
  cases remove_cases s name with
  | stopped _ heq | absent _ heq | refused _ _ heq => rw [heq]; exact h
  | erased _ _ _ heq =>
    intro k hk
    rw [heq, Fields.get?_erase, h k hk, ite_self]

theorem schemas_document (s : ComponentSync) (start : Fields) :
    Document.schemas (s.document start) = s.schemas := by
  rw [Document.schemas, document, Value.fieldsAt_set, if_pos rfl, Value.fieldsAt_set, if_pos rfl]

end ComponentSync

open ComponentSync

variable {components : Fields} {excluded : List String}

theorem noAmbient_syncRun : NoAmbient (syncRun [] components excluded).schemas := by
  rw [syncRun]
  refine List.foldlRecOn (motive := fun s : ComponentSync => NoAmbient s.schemas) _ _ ?_
    fun s hs name _ => noAmbient_remove hs name
  refine List.foldlRecOn (motive := fun s : ComponentSync => NoAmbient s.schemas) _ _ ?_
    fun s hs c _ => noAmbient_write hs c
  exact fun _ _ => rfl

/-- A synchronisation that changes nothing has not moved: it finds all components and none of the
excluded names. -/
theorem settled_of_idle {document : Fields} (h : (syncRun document components excluded).Idle) :
    syncRun document components excluded = ⟨schemas document, [], [], [], none⟩ ∧
      (∀ c ∈ components, (Found.inFields (schemas document) c.1).holds c.2 = true) ∧
      ∀ name ∈ excluded, Fields.answers (schemas document) name = false := by
  rw [syncRun] at h ⊢
  obtain ⟨hremoved, hanswers⟩ := foldl_of_idle
    (F := fun s name => Fields.answers s.schemas name = false) (fun _ _ => remove_of_idle) h
  rw [hremoved] at h ⊢
  obtain ⟨hwritten, hholds⟩ := foldl_of_idle
    (F := fun s c => (Found.inFields s.schemas c.1).holds c.2 = true) (fun _ _ => write_of_idle) h
  rw [hwritten] at hanswers
  exact ⟨hwritten, hholds, fun name hname => hanswers name (mem_sortNames.mpr hname)⟩

theorem resettles_of_disjoint (hw : (Value.map components).WellFormed)
    (hc : ∀ c ∈ components, Ambient.isAmbient c.1 = false)
    (hx : ∀ name ∈ excluded, Ambient.isAmbient name = false)
    (hdisjoint : Disjoint components excluded) (document : Fields) :
    Resettles document components excluded := by
  by_cases hempty : components = [] ∧ excluded = []
  · obtain ⟨rfl, rfl⟩ := hempty
    exact ⟨rfl, rfl, rfl⟩
  · have hfirst := syncComponents_of_nonempty document hempty
    have hsettled : SchemasSettled components excluded
        (schemas (syncComponents document components excluded).document) := by
      rw [hfirst, schemas_document]
      exact syncRun_settled hc hx hw hdisjoint document
    have hsecond := syncComponents_of_nonempty
      (syncComponents document components excluded).document hempty
    have hidle := syncRun_of_settled hc hx hsettled
    refine ⟨?_, ?_, ?_⟩
    · rw [hfirst]
      exact syncRun_failure hc hx document
    · rw [resync, hsecond, hidle]
    · rw [resync, hsecond, hidle]
      rfl

theorem idle_of_resettles {document : Fields} (hempty : ¬(components = [] ∧ excluded = []))
    (h : Resettles document components excluded) :
    (syncRun (syncComponents document components excluded).document components excluded).Idle := by
  have hsecond := syncComponents_of_nonempty
    (syncComponents document components excluded).document hempty
  have hfailure := h.second
  have hunchanged := h.unchanged
  rw [resync, hsecond] at hfailure hunchanged
  exact idle_of_unchanged hfailure hunchanged

/-- In the empty document nothing stands under a name that every mapping answers to, so it shows
what components and excluded names have to be like. -/
theorem disjoint_of_resettles_nil (h : Resettles [] components excluded) :
    Disjoint components excluded ∧ (∀ c ∈ components, Ambient.isAmbient c.1 = false) ∧
      ∀ name ∈ excluded, Ambient.isAmbient name = false := by
  by_cases hempty : components = [] ∧ excluded = []
  · obtain ⟨rfl, rfl⟩ := hempty
    exact ⟨fun _ h => absurd h List.not_mem_nil, fun _ h => absurd h List.not_mem_nil,
      fun _ h => absurd h List.not_mem_nil⟩
  obtain ⟨-, hholds, hanswers⟩ := settled_of_idle (idle_of_resettles hempty h)
  have hschemas : schemas (syncComponents [] components excluded).document =
      (syncRun [] components excluded).schemas := by
    rw [syncComponents_of_nonempty [] hempty, schemas_document]
  rw [hschemas] at hholds hanswers
  have hfound := fun c hmem => get?_ne_none_of_holds (hholds c hmem)
  have hno : ∀ name ∈ excluded,
      Fields.get? (syncRun [] components excluded).schemas name = none ∧
        Ambient.isAmbient name = false := by
    intro name hname
    have hanswer := hanswers name hname
    rw [Fields.answers, Bool.or_eq_false_iff, Fields.has_eq_isSome] at hanswer
    exact ⟨Option.not_isSome_iff_eq_none.mp (Bool.eq_false_iff.mp hanswer.1), hanswer.2⟩
  refine ⟨fun name hname hkey => ?_, fun c hmem => ?_, fun name hname => (hno name hname).2⟩
  · obtain ⟨c, hmem, rfl⟩ := List.mem_map.mp hkey
    exact hfound c hmem (hno c.1 hname).1
  · refine Bool.eq_false_iff.mpr fun hambient => ?_
    exact hfound c hmem (noAmbient_syncRun c.1 hambient)

/-- Whatever the document holds, a second synchronisation is silent exactly for components and
excluded names that are disjoint and that no mapping answers to by itself. -/
theorem resettles_iff_disjoint (hw : (Value.map components).WellFormed) :
    (∀ document, Resettles document components excluded) ↔
      Disjoint components excluded ∧ (∀ c ∈ components, Ambient.isAmbient c.1 = false) ∧
        ∀ name ∈ excluded, Ambient.isAmbient name = false :=
  ⟨fun h => disjoint_of_resettles_nil (h []),
    fun ⟨hdisjoint, hc, hx⟩ => resettles_of_disjoint hw hc hx hdisjoint⟩

end Document
end ApiSync
