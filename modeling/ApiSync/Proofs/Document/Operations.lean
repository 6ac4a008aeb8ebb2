import ApiSync.Document.Operations
import ApiSync.Proofs.Fields
/-!
# One step of merging operations

Merging one endpoint either finds its operation in place and leaves what the document holds as
it is, or writes the operation and records the change; `add_cases` tells all the ways in which a
step ends.  `operationIn` reads the paths of a document; the lemmas on `add` say what each part of
the state is after a step.

A step can only read and write the entry of an endpoint if a look-up of its path and method
finds nothing inherited, and if the endpoint has an operation at all.  `Addressed` says that.
-/

namespace ApiSync

namespace Fields

/-- A name that no mapping answers to by itself needs no entry to be looked up. -/
theorem isSome_of_ambient {fields : Fields} {k : String} (h : Ambient.isAmbient k = false) :
    Ambient.isAmbient k = true → (get? fields k).isSome = true := by
  intro ha
  rw [h] at ha
  exact absurd ha (by decide)

end Fields

namespace Endpoint

variable {e : Endpoint}

theorem resolve_of_isResolvable (h : e.isResolvable = true) : e.resolve = .ok e.metadata := by
  rw [isResolvable] at h
  rw [resolve, Metadata.resolve, if_pos h]
  rfl

theorem resolve_of_not_isResolvable (h : e.isResolvable = false) : e.resolve = .error .noText := by
  rw [isResolvable] at h
  rw [resolve, Metadata.resolve, if_neg (ne_true_of_eq_false h)]
  rfl

end Endpoint

namespace Document

/-- The value under a path and a method.  An entry that is no mapping holds none. -/
def operationIn (paths : Fields) (path method : String) : Option Value :=
  Fields.get? (Value.fieldsAt paths path) method

def operationAt (document : Fields) (path method : String) : Option Value :=
  operationIn (Value.fieldsAt document "paths") path method

/-- The metadata of the endpoint resolve to an operation, and a look-up of its path and method finds
entries of the document only: a name that every mapping answers to is one of its own keys. -/
structure Addressed (paths : Fields) (e : Endpoint) : Prop where
  resolvable : e.isResolvable = true
  path : e.path = Ambient.parentName → Fields.has paths e.path = true
  method : Ambient.isAmbient e.method = true → (operationIn paths e.path e.method).isSome = true

/-- Names that no mapping answers to by itself address an entry in every document. -/
theorem addressed_of_not_ambient {e : Endpoint} (hr : e.isResolvable = true)
    (hp : Ambient.isAmbient e.path = false) (hm : Ambient.isAmbient e.method = false)
    (paths : Fields) : Addressed paths e where
  resolvable := hr
  path := by
    intro h
    rw [h] at hp
    exact absurd hp (by decide)
  method := Fields.isSome_of_ambient hm

/-- The operation that the endpoint should have differs from what the paths hold for it. -/
def drifts (paths : Fields) (e : Endpoint) : Bool :=
  !Value.sameOption (operationIn paths e.path e.method) (some (.map e.operation))

theorem operationIn_eq_none_of_not_has {paths : Fields} {path : String}
    (h : Fields.has paths path = false) (method : String) :
    operationIn paths path method = none := by
  have hnone : Fields.get? paths path = none := by
    rw [Fields.has_eq_isSome] at h
    exact Option.not_isSome_iff_eq_none.mp (by rw [h]; decide)
  rw [operationIn, Value.fieldsAt, hnone]
  rfl

/-- A value under a path and a method makes the entry of the path a mapping. -/
theorem map_of_operationIn {paths : Fields} {path method : String} {v : Value}
    (h : operationIn paths path method = some v) :
    Fields.get? paths path = some (.map (Value.fieldsAt paths path)) :=
  Value.get?_of_fieldsAt h

theorem operationIn_set (paths : Fields) (p : String) (entry : Fields) (path method : String) :
    operationIn (Fields.set paths p (.map entry)) path method =
      if p = path then Fields.get? entry method else operationIn paths path method := by
  rw [operationIn, Value.fieldsAt_set]
  by_cases h : p = path
  · rw [if_pos h, if_pos h]
  · rw [if_neg h, if_neg h, operationIn]

/-! ## What a look-up finds -/

theorem inFields_eq {fields : Fields} {k : String}
    (h : Ambient.isAmbient k = true → (Fields.get? fields k).isSome = true) :
    Found.inFields fields k = match Fields.get? fields k with
      | some v => .entry v
      | none => .nothing := by
  rw [Found.inFields]
  cases hv : Fields.get? fields k with
  | some v => rfl
  | none =>
    have hamb : Ambient.isAmbient k = false := by
      cases ha : Ambient.isAmbient k with
      | false => rfl
      | true => have := h ha; rw [hv] at this; exact absurd this (by decide)
    have hparent : k ≠ Ambient.parentName := by
      intro hk
      rw [hk] at hamb
      exact absurd hamb (by decide)
    rw [if_neg hparent, hamb, if_neg (by decide)]

theorem holds_inFields {fields : Fields} {k : String} (v : Value)
    (h : Ambient.isAmbient k = true → (Fields.get? fields k).isSome = true) :
    (Found.inFields fields k).holds v = Value.sameOption (Fields.get? fields k) (some v) := by
  rw [inFields_eq h]
  cases Fields.get? fields k <;> rfl

theorem written_inFields {fields : Fields} {k : String}
    (h : Ambient.isAmbient k = true → (Fields.get? fields k).isSome = true) :
    (Found.inFields fields k).written = .ok (Fields.get? fields k) := by
  rw [inFields_eq h]
  cases Fields.get? fields k <;> rfl

/-- What a mapping answers with for a name that it has no entry for equals no value. -/
theorem get?_ne_none_of_holds {fields : Fields} {k : String} {v : Value}
    (h : (Found.inFields fields k).holds v = true) : Fields.get? fields k ≠ none := by
  intro hnone
  rw [Found.inFields, hnone] at h
  dsimp only at h
  split at h
  · cases h
  · split at h
    · cases h
    · cases h

/-! ## What is recorded of a change -/

/-- The note on a changed operation. -/
def changeNote (e : Endpoint) : String :=
  s!"Updated {Text.upperCased e.method} {e.path} from {e.origin}"

/-- The diff of a changed operation against the value that was found. -/
def changeDiff (e : Endpoint) (found : Option Value) : OperationDiff :=
  ⟨e.path, e.method, Diff.values found (some (.map e.operation)) s!"{e.path}#{e.method}"⟩

def changeEvent (e : Endpoint) (found : Option Value) : Event :=
  .operationChanged e.path e.method (changeNote e) (changeDiff e found).lines

namespace OperationMerge

/-- The state in which the entry of the endpoint is a mapping and its conflicts are reported. -/
def opened (m : OperationMerge) (e : Endpoint) : OperationMerge :=
  { m.report (e.metadata.conflicts.map .metadataConflict) with
    paths := Fields.assign m.paths e.path (.map (Value.fieldsAt m.paths e.path)) }

/-- What a look-up of the path and method of the endpoint finds. -/
def found (m : OperationMerge) (e : Endpoint) : Found :=
  Found.inFields (Value.fieldsAt m.paths e.path) e.method

/-- The ways in which the merge of an endpoint ends, each with the state it leaves. -/
inductive Addition (m : OperationMerge) (e : Endpoint) : Prop
  | stopped (hfailure : m.failure ≠ none) (heq : m.add e = m)
  | unresolved (hfailure : m.failure = none) (hresolve : e.isResolvable = false)
      (heq : m.add e = { m with paths := (m.opened e).paths, failure := some .noText })
  | held (hfailure : m.failure = none) (hholds : (m.found e).holds (.map e.operation) = true)
      (heq : m.add e = m.opened e)
  | refused {f : Failure} (hfailure : m.failure = none)
      (hholds : (m.found e).holds (.map e.operation) = false)
      (hwritten : (m.found e).written = .error f)
      (heq : m.add e = { m.opened e with failure := some f })
  | changed {before : Option Value} (hfailure : m.failure = none)
      (hholds : (m.found e).holds (.map e.operation) = false)
      (hwritten : (m.found e).written = .ok before)
      (heq : m.add e = (m.opened e).change e (Value.fieldsAt m.paths e.path) e.operation
        (changeDiff e before).lines)

theorem add_cases (m : OperationMerge) (e : Endpoint) : Addition m e := by
  by_cases hf : m.failure = none
  · have hrun : ¬m.failure.isSome = true := by simp [hf]
    cases hr : e.isResolvable with
    | false =>
      exact .unresolved hf hr (by
        rw [add, if_neg hrun]
        simp only [Endpoint.resolve_of_not_isResolvable hr]
        rfl)
    | true =>
      have hresolve : e.resolve = .ok e.metadata := Endpoint.resolve_of_isResolvable hr
      cases hholds : (Found.inFields (Value.fieldsAt m.paths e.path) e.method).holds
          (.map (Endpoint.operationOf e.metadata.fields)) with
      | true =>
        exact .held hf hholds (by
          rw [add, if_neg hrun]
          simp only [hresolve, hholds, if_true]
          rfl)
      | false =>
        cases hwritten : (Found.inFields (Value.fieldsAt m.paths e.path) e.method).written with
        | error f =>
          exact .refused hf hholds hwritten (by
            rw [add, if_neg hrun]
            simp only [hresolve, hholds, hwritten, Bool.false_eq_true, if_false]
            rfl)
        | ok before =>
          exact .changed hf hholds hwritten (by
            rw [add, if_neg hrun]
            simp only [hresolve, hholds, hwritten, Bool.false_eq_true, if_false]
            rfl)
  · exact .stopped hf (by rw [add, if_pos (Option.isSome_iff_ne_none.mpr hf)])

variable {m : OperationMerge} {e : Endpoint}

theorem holds_found (ha : Addressed m.paths e) :
    (m.found e).holds (.map e.operation) = !drifts m.paths e := by
  rw [found, holds_inFields _ ha.method, drifts, Bool.not_not, operationIn]

theorem written_found (ha : Addressed m.paths e) :
    (m.found e).written = .ok (operationIn m.paths e.path e.method) :=
  written_inFields ha.method

theorem add_of_failure (h : m.failure ≠ none) : m.add e = m := by
  cases add_cases m e with
  | stopped _ heq => exact heq
  | unresolved hf | held hf | refused hf | changed hf => exact absurd hf h

theorem add_of_not_drifts (hf : m.failure = none) (ha : Addressed m.paths e)
    (hd : drifts m.paths e = false) : m.add e = m.opened e := by
  cases add_cases m e with
  | stopped hfailure => exact absurd hf hfailure
  | unresolved _ hresolve =>
    rw [ha.resolvable] at hresolve
    cases hresolve
  | held _ _ heq => exact heq
  | refused _ hholds | changed _ hholds =>
    rw [holds_found ha, hd] at hholds
    cases hholds

theorem add_of_drifts (hf : m.failure = none) (ha : Addressed m.paths e)
    (hd : drifts m.paths e = true) :
    m.add e = (m.opened e).change e (Value.fieldsAt m.paths e.path) e.operation
      (changeDiff e (operationIn m.paths e.path e.method)).lines := by
  cases add_cases m e with
  | stopped hfailure => exact absurd hf hfailure
  | unresolved _ hresolve =>
    rw [ha.resolvable] at hresolve
    cases hresolve
  | held _ hholds =>
    rw [holds_found ha, hd] at hholds
    cases hholds
  | refused _ _ hwritten =>
    rw [written_found ha] at hwritten
    cases hwritten
  | changed _ _ hwritten heq =>
    rw [written_found ha] at hwritten
    cases hwritten
    exact heq

theorem add_failure (hf : m.failure = none) (ha : Addressed m.paths e) :
    (m.add e).failure = none := by
  cases hd : drifts m.paths e with
  | false => rw [add_of_not_drifts hf ha hd]; exact hf
  | true => rw [add_of_drifts hf ha hd]; exact hf

theorem add_notes (hf : m.failure = none) (ha : Addressed m.paths e) :
    (m.add e).notes = m.notes ++ if drifts m.paths e then [changeNote e] else [] := by
  cases hd : drifts m.paths e with
  | false => rw [add_of_not_drifts hf ha hd]; simp [opened, report]
  | true => rw [add_of_drifts hf ha hd]; simp [opened, report, change, changeNote]

theorem add_diffs (hf : m.failure = none) (ha : Addressed m.paths e) :
    (m.add e).diffs = m.diffs ++ if drifts m.paths e
      then [changeDiff e (operationIn m.paths e.path e.method)] else [] := by
  cases hd : drifts m.paths e with
  | false => rw [add_of_not_drifts hf ha hd]; simp [opened, report]
  | true => rw [add_of_drifts hf ha hd]; simp [opened, report, change, changeDiff]

theorem add_events (hf : m.failure = none) (ha : Addressed m.paths e) :
    (m.add e).events = m.events ++ e.metadata.conflicts.map .metadataConflict ++
      if drifts m.paths e
      then [changeEvent e (operationIn m.paths e.path e.method)] else [] := by
  cases hd : drifts m.paths e with
  | false => rw [add_of_not_drifts hf ha hd]; simp [opened, report]
  | true =>
    rw [add_of_drifts hf ha hd]
    simp [opened, report, change, changeEvent, changeNote]

/-! ## What the paths hold after a step -/

theorem opened_paths (ha : Addressed m.paths e) :
    (m.opened e).paths =
      Fields.set m.paths e.path (.map (Value.fieldsAt m.paths e.path)) := by
  rw [opened, Fields.assign_eq_set ha.path]

theorem has_opened (ha : Addressed m.paths e) (path : String) :
    Fields.has (m.opened e).paths path = (e.path = path || Fields.has m.paths path) := by
  rw [opened_paths ha, Fields.has_set]

theorem has_opened_self (ha : Addressed m.paths e) :
    Fields.has (m.opened e).paths e.path = true := by
  rw [has_opened ha, decide_eq_true rfl, Bool.true_or]

theorem operationIn_opened (ha : Addressed m.paths e) (path method : String) :
    operationIn (m.opened e).paths path method = operationIn m.paths path method := by
  rw [opened_paths ha, operationIn_set]
  by_cases hp : e.path = path
  · rw [if_pos hp, operationIn, hp]
  · rw [if_neg hp]

/-- After a step the paths hold the operation of the endpoint where it drifted, and what they
held before everywhere else. -/
theorem operationIn_add (hf : m.failure = none) (ha : Addressed m.paths e)
    (path method : String) :
    operationIn (m.add e).paths path method =
      if drifts m.paths e = true ∧ e.path = path ∧ e.method = method
      then some (.map e.operation) else operationIn m.paths path method := by
  cases hd : drifts m.paths e with
  | false =>
    rw [add_of_not_drifts hf ha hd, operationIn_opened ha, if_neg (by simp)]
  | true =>
    have hkey : e.method = Ambient.parentName →
        Fields.has (Value.fieldsAt m.paths e.path) e.method = true := by
      intro h
      rw [Fields.has_eq_isSome]
      exact ha.method (by rw [h]; decide)
    rw [add_of_drifts hf ha hd]
    simp only [change]
    rw [Fields.assign_eq_set (fun _ => has_opened_self ha), operationIn_set,
      Fields.get?_assign hkey]
    by_cases hp : e.path = path
    · by_cases hm : e.method = method
      · rw [if_pos hp, if_pos hm, if_pos ⟨trivial, hp, hm⟩]
      · rw [if_pos hp, if_neg hm, if_neg (fun h => hm h.2.2), operationIn, hp]
    · rw [if_neg hp, if_neg (fun h => hp h.2.1), operationIn_opened ha]

theorem has_add (hf : m.failure = none) (ha : Addressed m.paths e) {path : String}
    (h : Fields.has m.paths path = true) : Fields.has (m.add e).paths path = true := by
  have hopened : Fields.has (m.opened e).paths path = true := by
    rw [has_opened ha, h, Bool.or_true]
  cases hd : drifts m.paths e with
  | false =>
    rw [add_of_not_drifts hf ha hd]
    exact hopened
  | true =>
    rw [add_of_drifts hf ha hd]
    simp only [change]
    rw [Fields.assign_eq_set (fun _ => has_opened_self ha), Fields.has_set, hopened, Bool.or_true]

/-- What an endpoint addresses stays addressed. -/
theorem addressed_add (hf : m.failure = none) (ha : Addressed m.paths e) {d : Endpoint}
    (hd : Addressed m.paths d) : Addressed (m.add e).paths d where
  resolvable := hd.resolvable
  path := fun h => has_add hf ha (hd.path h)
  method := by
    intro h
    rw [operationIn_add hf ha]
    split
    · rfl
    · exact hd.method h

theorem failure_of_add (h : (m.add e).failure = none) : m.failure = none := by
  cases hf : m.failure with
  | none => rfl
  | some f =>
    have hstopped : m.failure ≠ none := by simp [hf]
    rw [add_of_failure hstopped] at h
    exact absurd h hstopped

/-- A step that does not fail has resolved the metadata of its endpoint. -/
theorem isResolvable_of_add (h : (m.add e).failure = none) : e.isResolvable = true := by
  cases hr : e.isResolvable with
  | true => rfl
  | false =>
    rw [add, if_neg (by simp [failure_of_add h])] at h
    simp only [Endpoint.resolve_of_not_isResolvable hr] at h
    cases h

/-! ## Whole runs -/

theorem foldl_add_failure {es : List Endpoint} (hf : m.failure = none)
    (ha : ∀ e ∈ es, Addressed m.paths e) : (es.foldl add m).failure = none := by
  induction es generalizing m with
  | nil => exact hf
  | cons e es ih =>
    have he : Addressed m.paths e := ha e List.mem_cons_self
    rw [List.foldl_cons]
    exact ih (add_failure hf he) fun d hd =>
      addressed_add hf he (ha d (List.mem_cons_of_mem e hd))

theorem foldl_add_addressed {es : List Endpoint} (hf : m.failure = none)
    (ha : ∀ e ∈ es, Addressed m.paths e) {d : Endpoint} (hd : Addressed m.paths d) :
    Addressed (es.foldl add m).paths d := by
  induction es generalizing m with
  | nil => exact hd
  | cons e es ih =>
    have he : Addressed m.paths e := ha e List.mem_cons_self
    rw [List.foldl_cons]
    exact ih (add_failure hf he)
      (fun c hc => addressed_add hf he (ha c (List.mem_cons_of_mem e hc)))
      (addressed_add hf he hd)

end OperationMerge

theorem operationAt_document (m : OperationMerge) (start : Fields) (path method : String) :
    operationAt (m.document start) path method = operationIn m.paths path method := by
  rw [operationAt, OperationMerge.document, Value.fieldsAt_set, if_pos rfl]

/-- Only the section of the paths is written. -/
theorem get?_document (m : OperationMerge) (start : Fields) {key : String} (h : key ≠ "paths") :
    Fields.get? (m.document start) key = Fields.get? start key := by
  rw [OperationMerge.document, Fields.get?_set, if_neg (Ne.symm h)]

theorem mergeOperations_append (document : Fields) (es ds : List Endpoint) :
    mergeOperations document (es ++ ds) =
      ds.foldl OperationMerge.add (mergeOperations document es) := by
  rw [mergeOperations, mergeOperations, List.foldl_append]

end Document
end ApiSync
