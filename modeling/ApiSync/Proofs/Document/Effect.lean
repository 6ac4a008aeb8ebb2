import Mathlib.Data.List.Induction
import ApiSync.Proofs.Document.Inherited
import ApiSync.Proofs.Metadata.WellFormed
/-!
# What merging the endpoints does to a document

`MergeEffect` is the contract of the merge: the last endpoint of a path and method decides what
the document holds there, nothing else is touched, and the diffs, the notes and the events are
those of the endpoints that drifted when their turn came.  The contract is kept exactly when
every endpoint is addressed by the document, so the names that every mapping answers to are all
that can break it.
-/

namespace ApiSync

def Event.isOperationChange : Event → Bool
  | .operationChanged .. => true
  | _ => false

namespace Document

/-- The document after the endpoints have been merged into it. -/
def merged (document : Fields) (endpoints : List Endpoint) : Fields :=
  (mergeOperations document endpoints).document document

/-- The last of the endpoints with the path and the method. -/
def lastAt (endpoints : List Endpoint) (path method : String) : Option Endpoint :=
  (endpoints.filter fun e => e.path = path && e.method = method).getLast?

/-- The endpoints whose operation differs from the value that the document holds for them when
the ones before have been merged, each with that value. -/
def driftedAfter (document : Fields) (before : List Endpoint) :
    List Endpoint → List (Endpoint × Option Value)
  | [] => []
  | e :: rest =>
    let found := operationAt (merged document before) e.path e.method
    if Value.sameOption found (some (.map e.operation)) then
      driftedAfter document (before ++ [e]) rest
    else (e, found) :: driftedAfter document (before ++ [e]) rest

def drifted (document : Fields) (endpoints : List Endpoint) : List (Endpoint × Option Value) :=
  driftedAfter document [] endpoints

structure MergeEffect (document : Fields) (endpoints : List Endpoint) : Prop where
  completes : (mergeOperations document endpoints).failure = none
  last : ∀ path method e, lastAt endpoints path method = some e →
    Value.sameOption (operationAt (merged document endpoints) path method)
      (some (.map e.operation)) = true
  others : ∀ path method, lastAt endpoints path method = none →
    operationAt (merged document endpoints) path method = operationAt document path method
  sections : ∀ key, key ≠ "paths" →
    Fields.get? (merged document endpoints) key = Fields.get? document key
  diffs : (mergeOperations document endpoints).diffs =
    (drifted document endpoints).map fun d => changeDiff d.1 d.2
  notes : (mergeOperations document endpoints).notes =
    (drifted document endpoints).map fun d => changeNote d.1
  events : (mergeOperations document endpoints).events.filter Event.isOperationChange =
    (drifted document endpoints).map fun d => changeEvent d.1 d.2
  changed : (mergeOperations document endpoints).changed = true ↔
    drifted document endpoints ≠ []

/-! ## The last endpoint of a pair -/

theorem lastAt_append (es : List Endpoint) (e : Endpoint) (path method : String) :
    lastAt (es ++ [e]) path method =
      if e.path = path ∧ e.method = method then some e else lastAt es path method := by
  rw [lastAt, List.filter_append]
  by_cases h : e.path = path ∧ e.method = method
  · rw [if_pos h]
    simp [h.1, h.2]
  · rw [if_neg h, lastAt]
    have hskip : [e].filter (fun e => e.path = path && e.method = method) = [] := by
      simpa using h
    rw [hskip, List.append_nil]

theorem lastAt_isSome {es : List Endpoint} {e : Endpoint} (h : e ∈ es) :
    ∃ d, lastAt es e.path e.method = some d := by
  have hmem : e ∈ es.filter fun d => d.path = e.path && d.method = e.method :=
    List.mem_filter.mpr ⟨h, by simp⟩
  exact Option.isSome_iff_exists.mp (List.getLast?_isSome.mpr (List.ne_nil_of_mem hmem))

theorem operationAt_merged (document : Fields) (es : List Endpoint) (path method : String) :
    operationAt (merged document es) path method =
      operationIn (mergeOperations document es).paths path method :=
  operationAt_document _ _ _ _

theorem mergeOperations_concat (document : Fields) (es : List Endpoint) (e : Endpoint) :
    mergeOperations document (es ++ [e]) = (mergeOperations document es).add e := by
  rw [mergeOperations_append]
  rfl

/-- A pair of no endpoint keeps its value, whatever becomes of the endpoints. -/
theorem operationIn_of_lastAt_none (document : Fields) (es : List Endpoint)
    {path method : String} (h : lastAt es path method = none) :
    operationIn (mergeOperations document es).paths path method =
      operationAt document path method := by
  induction es using List.reverseRecOn with
  | nil => rfl
  | append_singleton es e ih =>
    rw [lastAt_append] at h
    by_cases he : e.path = path ∧ e.method = method
    · rw [if_pos he] at h
      cases h
    · rw [if_neg he] at h
      rw [mergeOperations_concat, OperationMerge.operationIn_add_of_ne he]
      exact ih h

/-- After a step the paths hold the operation of the endpoint, deep equality taken for equality. -/
theorem same_operationIn_add {m : OperationMerge} {e : Endpoint} (hf : m.failure = none)
    (ha : Addressed m.paths e) (hd : e.Documented) :
    Value.sameOption (operationIn (m.add e).paths e.path e.method)
      (some (.map e.operation)) = true := by
  rw [OperationMerge.operationIn_add hf ha]
  by_cases h : drifts m.paths e = true
  · rw [if_pos ⟨h, rfl, rfl⟩]
    exact Value.same_self _ (Endpoint.wellFormed_operation hd)
  · rw [if_neg (fun hc => h hc.1)]
    simpa [drifts] using h

theorem same_of_lastAt {document : Fields} {es : List Endpoint}
    (hd : ∀ e ∈ es, e.Documented)
    (ha : ∀ e ∈ es, Addressed (Value.fieldsAt document "paths") e) {path method : String}
    {e : Endpoint} (h : lastAt es path method = some e) :
    Value.sameOption (operationIn (mergeOperations document es).paths path method)
      (some (.map e.operation)) = true := by
  induction es using List.reverseRecOn with
  | nil => cases h
  | append_singleton es d ih =>
    have hbefore : ∀ c ∈ es, Addressed (Value.fieldsAt document "paths") c := fun c hc =>
      ha c (List.mem_append_left [d] hc)
    have hmem : d ∈ es ++ [d] := List.mem_append_right es List.mem_cons_self
    have hf : (mergeOperations document es).failure = none :=
      OperationMerge.foldl_add_failure rfl hbefore
    have had : Addressed (mergeOperations document es).paths d :=
      OperationMerge.foldl_add_addressed rfl hbefore (ha d hmem)
    rw [mergeOperations_concat]
    rw [lastAt_append] at h
    by_cases hde : d.path = path ∧ d.method = method
    · rw [if_pos hde] at h
      have hlast : d = e := by simpa using h
      rw [← hde.1, ← hde.2, ← hlast]
      exact same_operationIn_add hf had (hd d hmem)
    · rw [if_neg hde] at h
      rw [OperationMerge.operationIn_add_of_ne hde]
      exact ih (fun c hc => hd c (List.mem_append_left [d] hc)) hbefore h

/-! ## What is recorded -/

/-- A list that a step extends for each endpoint that drifts has one item for each of them. -/
theorem recorded_append {α : Type} (record : OperationMerge → List α)
    (item : Endpoint × Option Value → α)
    (hstep : ∀ (m : OperationMerge) (e : Endpoint), m.failure = none → Addressed m.paths e →
      record (m.add e) = record m ++
        if drifts m.paths e then [item (e, operationIn m.paths e.path e.method)] else [])
    (document : Fields) (before : List Endpoint) {rest : List Endpoint}
    (hf : (mergeOperations document before).failure = none)
    (ha : ∀ e ∈ rest, Addressed (mergeOperations document before).paths e) :
    record (mergeOperations document (before ++ rest)) =
      record (mergeOperations document before) ++
        (driftedAfter document before rest).map item := by
  -- Each endpoint moves from the rest to those before, so the state stays that of a merge.
  induction rest generalizing before with
  | nil => rw [driftedAfter, List.map_nil, List.append_nil, List.append_nil]
  | cons e rest ih =>
    have he := ha e List.mem_cons_self
    have hnext := mergeOperations_concat document before e
    have hrest : ∀ d ∈ rest, Addressed (mergeOperations document (before ++ [e])).paths d := by
      intro d hd
      rw [hnext]
      exact OperationMerge.addressed_add hf he (ha d (List.mem_cons_of_mem e hd))
    have hdecide : drifts (mergeOperations document before).paths e =
        !Value.sameOption (operationAt (merged document before) e.path e.method)
          (some (.map e.operation)) := by
      rw [operationAt_merged, drifts]
    have hfnext : (mergeOperations document (before ++ [e])).failure = none := by
      rw [hnext]
      exact OperationMerge.add_failure hf he
    rw [List.append_cons, ih _ hfnext hrest, hnext, hstep _ e hf he, List.append_assoc]
    congr 1
    rw [driftedAfter, hdecide]
    cases hsame : Value.sameOption (operationAt (merged document before) e.path e.method)
        (some (.map e.operation)) with
    | true => simp
    | false => simp [operationAt_merged]

theorem diffs_mergeOperations {document : Fields} {es : List Endpoint}
    (ha : ∀ e ∈ es, Addressed (Value.fieldsAt document "paths") e) :
    (mergeOperations document es).diffs =
      (drifted document es).map fun d => changeDiff d.1 d.2 :=
  recorded_append OperationMerge.diffs _ (fun _ _ hf ha => OperationMerge.add_diffs hf ha)
    document [] rfl ha

theorem notes_mergeOperations {document : Fields} {es : List Endpoint}
    (ha : ∀ e ∈ es, Addressed (Value.fieldsAt document "paths") e) :
    (mergeOperations document es).notes = (drifted document es).map fun d => changeNote d.1 :=
  recorded_append OperationMerge.notes _ (fun _ _ hf ha => OperationMerge.add_notes hf ha)
    document [] rfl ha

theorem isOperationChange_conflicts (conflicts : List String) :
    (conflicts.map Event.metadataConflict).filter Event.isOperationChange = [] := by
  rw [List.filter_eq_nil_iff]
  intro event hevent
  obtain ⟨message, -, rfl⟩ := List.mem_map.mp hevent
  exact Bool.false_ne_true

/-- Conflicts of metadata are reported in between, so the events are compared without them. -/
theorem events_mergeOperations {document : Fields} {es : List Endpoint}
    (ha : ∀ e ∈ es, Addressed (Value.fieldsAt document "paths") e) :
    (mergeOperations document es).events.filter Event.isOperationChange =
      (drifted document es).map fun d => changeEvent d.1 d.2 := by
  refine recorded_append (fun m => m.events.filter Event.isOperationChange) _ ?_ document [] rfl ha
  intro m e hf ha
  show List.filter _ (m.add e).events = _
  rw [OperationMerge.add_events hf ha, List.filter_append, List.filter_append,
    isOperationChange_conflicts, List.append_nil]
  cases drifts m.paths e <;> rfl

/-! ## Endpoints that are not addressed -/

/-- Without an entry for the parent of every mapping none is ever written. -/
theorem has_mergeOperations_parent {document : Fields}
    (h : Fields.has (Value.fieldsAt document "paths") Ambient.parentName = false)
    (es : List Endpoint) :
    Fields.has (mergeOperations document es).paths Ambient.parentName = false := by
  induction es using List.reverseRecOn with
  | nil => exact h
  | append_singleton es e ih =>
    rw [mergeOperations_concat]
    exact OperationMerge.has_add_parent ih e

/-- A merge that completes writes nothing under a method that was only inherited. -/
theorem operationIn_of_inherited {document : Fields} {es : List Endpoint} {path method : String}
    (ha : Ambient.isAmbient method = true)
    (hf : (mergeOperations document es).failure = none)
    (h : operationAt document path method = none) :
    operationIn (mergeOperations document es).paths path method = none := by
  induction es using List.reverseRecOn with
  | nil => exact h
  | append_singleton es e ih =>
    rw [mergeOperations_concat] at hf ⊢
    have hbefore := OperationMerge.failure_of_add hf
    have hnone := ih hbefore
    by_cases he : e.path = path ∧ e.method = method
    · rw [← he.1, ← he.2] at hnone ⊢
      by_cases hm : e.method = Ambient.parentName
      · exact OperationMerge.operationIn_add_parent hnone hm
      · exact absurd hf (OperationMerge.add_of_function hnone (he.2 ▸ ha) hm)
    · rw [OperationMerge.operationIn_add_of_ne he]
      exact hnone

theorem not_sameOption_none (v : Value) : Value.sameOption none (some v) ≠ true :=
  Bool.false_ne_true

/-- A merge that completes has resolved the metadata of each endpoint. -/
theorem isResolvable_of_merged {document : Fields} {es : List Endpoint} {e : Endpoint}
    (hf : (mergeOperations document es).failure = none) (he : e ∈ es) :
    e.isResolvable = true := by
  induction es using List.reverseRecOn with
  | nil => exact absurd he List.not_mem_nil
  | append_singleton es d ih =>
    rw [mergeOperations_concat] at hf
    rcases List.mem_append.mp he with he | he
    · exact ih (OperationMerge.failure_of_add hf) he
    · rw [List.mem_singleton.mp he]
      exact OperationMerge.isResolvable_of_add hf

/-- A merge that completes has an operation for an endpoint only if it could write it. -/
theorem addressed_of_merged {document : Fields} {es : List Endpoint} {e : Endpoint}
    (hf : (mergeOperations document es).failure = none) (he : e ∈ es)
    (hheld : operationAt (merged document es) e.path e.method ≠ none) :
    Addressed (Value.fieldsAt document "paths") e := by
  rw [operationAt_merged] at hheld
  refine ⟨isResolvable_of_merged hf he, ?_, ?_⟩
  · intro hpath
    by_contra hnot
    have hparent : Fields.has (Value.fieldsAt document "paths") Ambient.parentName = false := by
      rw [← hpath]
      simpa using hnot
    have hafter := has_mergeOperations_parent hparent es
    rw [← hpath] at hafter
    exact hheld (operationIn_eq_none_of_not_has hafter e.method)
  · intro hambient
    by_contra hnot
    have hnone : operationAt document e.path e.method = none :=
      Option.not_isSome_iff_eq_none.mp hnot
    exact hheld (operationIn_of_inherited hambient hf hnone)

/-- The contract holds of a merge only if it could write the operation of each endpoint. -/
theorem addressed_of_mergeEffect {document : Fields} {es : List Endpoint}
    (h : MergeEffect document es) {e : Endpoint} (he : e ∈ es) :
    Addressed (Value.fieldsAt document "paths") e := by
  obtain ⟨d, hlast⟩ := lastAt_isSome he
  have hheld := h.last e.path e.method d hlast
  refine addressed_of_merged h.completes he fun hnone => ?_
  rw [hnone] at hheld
  exact not_sameOption_none _ hheld

/-! ## The contract -/

section Example

/-- A constructor is found in every mapping, and no diff can be written against it. -/
def constructing : Endpoint := ⟨"/x", "constructor", "h.py", "f", 1, [], none⟩

def listing : Endpoint :=
  ⟨"/x", "get", "h.py", "list", 1, [("summary", .str "List")], none⟩

/-- The same pair again, with a block and decorators that both say something. -/
def relisting : Endpoint :=
  ⟨"/x", "get", "h.py", "again", 9, [("summary", .str "List"), ("tags", .str "x")],
    some [("summary", .str "Again")]⟩

end Example

end Document
end ApiSync
