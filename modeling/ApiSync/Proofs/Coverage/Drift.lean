import ApiSync.Coverage
import ApiSync.Proofs.Document.Effect
import ApiSync.Proofs.Metadata.Placement
/-!
# Coverage and merge see the same differences

Coverage reads the document as it was loaded, and a merge compares while it writes.  With at most
one endpoint for a path and a method no step of the merge touches what a later one compares, so
both find the same endpoints to differ, and the merged document covers all of them.  They come
apart only at names that every mapping answers to, and where a text is missing that one of them
needs.
-/

namespace ApiSync

/-- No two endpoints have the same path and method. -/
def Endpoint.Distinct (endpoints : List Endpoint) : Prop :=
  endpoints.Pairwise fun a b => ¬(a.path = b.path ∧ a.method = b.method)

namespace Coverage

open Document

/-! ## Records -/

theorem existing_eq {document : Fields} {path method : String}
    (h : Ambient.isAmbient method = true → (operationAt document path method).isSome = true) :
    existing document path method = match operationAt document path method with
      | some v => .entry v
      | none => .nothing := by
  rw [operationAt, operationIn, Value.fieldsAt] at h ⊢
  rw [existing]
  cases hp : Fields.get? (Value.fieldsAt document "paths") path with
  | none => rfl
  | some w =>
    rw [hp] at h
    cases w with
    | map entry => exact inFields_eq h
    | _ => rfl

theorem operationAt_of_holds {document : Fields} {path method : String} {v : Value}
    (h : (existing document path method).holds v = true) :
    operationAt document path method ≠ none := by
  rw [existing] at h
  split at h
  · next entry hentry =>
    rw [operationAt, operationIn, Value.fieldsAt_of_get? hentry]
    exact get?_ne_none_of_holds h
  · cases h

theorem matchesDocument_iff {document : Fields} {e : Endpoint}
    (h : Addressed (Value.fieldsAt document "paths") e) :
    (recordOf document e).matchesDocument =
      Value.sameOption (operationAt document e.path e.method) (some (.map e.operation)) := by
  show (existing document e.path e.method).holds (.map e.operation) = _
  rw [existing_eq h.method]
  cases operationAt document e.path e.method <;> rfl

/-- A record that matches is one of an operation in the document. -/
theorem inDocument_of_matches {document : Fields} {e : Endpoint}
    (h : (recordOf document e).matchesDocument = true) :
    (recordOf document e).inDocument = true := by
  change (existing document e.path e.method).holds (.map e.operation) = true at h
  show (!(existing document e.path e.method).isNothing) = true
  cases hfound : existing document e.path e.method with
  | nothing => rw [hfound] at h; cases h
  | _ => rfl

/-! ## Drift -/

variable {document : Fields} {endpoints : List Endpoint}

theorem isResolvable_of_isCountable {e : Endpoint} (h : isCountable e = true) :
    e.isResolvable = true := by
  rw [isCountable, Bool.and_eq_true] at h
  exact h.1

theorem lastAt_eq_none {es : List Endpoint} {e : Endpoint}
    (h : ∀ d ∈ es, ¬(d.path = e.path ∧ d.method = e.method)) :
    lastAt es e.path e.method = none := by
  have hnil : (es.filter fun d => d.path = e.path && d.method = e.method) = [] := by
    rw [List.filter_eq_nil_iff]
    intro d hd
    simpa using h d hd
  rw [lastAt, hnil]
  rfl

/-- Of distinct endpoints those drift that differ from the document as it was. -/
theorem driftedAfter_of_distinct (before : List Endpoint) {rest : List Endpoint}
    (h : Endpoint.Distinct (before ++ rest)) :
    (driftedAfter document before rest).map (·.1) =
      rest.filter fun e => !Value.sameOption (operationAt document e.path e.method)
        (some (.map e.operation)) := by
  induction rest generalizing before with
  | nil => rfl
  | cons e rest ih =>
    have hbefore : ∀ d ∈ before, ¬(d.path = e.path ∧ d.method = e.method) := fun d hd =>
      (List.pairwise_append.mp h).2.2 d hd e List.mem_cons_self
    have hfound : operationAt (merged document before) e.path e.method =
        operationAt document e.path e.method := by
      rw [operationAt_merged]
      exact operationIn_of_lastAt_none document before (lastAt_eq_none hbefore)
    have hrest := ih (before ++ [e]) (by simpa using h)
    rw [driftedAfter, hfound, List.filter_cons]
    cases Value.sameOption (operationAt document e.path e.method) (some (.map e.operation)) with
    | true => simpa using hrest
    | false => simpa using hrest

theorem lastAt_of_distinct (h : Endpoint.Distinct endpoints) {e : Endpoint} (he : e ∈ endpoints) :
    lastAt endpoints e.path e.method = some e := by
  obtain ⟨front, back, rfl⟩ := List.append_of_mem he
  have hback : ∀ d ∈ back, ¬(d.path = e.path ∧ d.method = e.method) := by
    intro d hd hsame
    have hpair := (List.pairwise_cons.mp (List.pairwise_append.mp h).2.1).1 d hd
    exact hpair ⟨hsame.1.symm, hsame.2.symm⟩
  have hnil : (back.filter fun d => d.path = e.path && d.method = e.method) = [] := by
    rw [List.filter_eq_nil_iff]
    intro d hd
    simpa using hback d hd
  rw [lastAt, List.filter_append, List.filter_cons, hnil]
  simp

/-! ## Agreement -/

/-- The records that do not match are those of the diffs of a merge, in the same order, and the
merge changes nothing exactly if all of them match. -/
structure ShowsDrift (m : OperationMerge) (r : Result) : Prop where
  drift : (r.records.filter fun record => !record.matchesDocument).map
      (fun record => (record.path, record.method)) = m.diffs.map fun d => (d.path, d.method)
  unchanged : m.changed = false ↔ ∀ record ∈ r.records, record.matchesDocument = true

/-- Coverage and merge come to an end and agree on a document and some endpoints, whatever else
coverage is about. -/
structure Agrees (document : Fields) (endpoints : List Endpoint) : Prop where
  completes : (mergeOperations document endpoints).failure = none
  before : ∀ ignored components, ∃ r, measure endpoints ignored document components = .ok r ∧
    ShowsDrift (mergeOperations document endpoints) r
  after : ∀ ignored components, ∃ r,
    measure endpoints ignored (merged document endpoints) components = .ok r ∧
      ∀ record ∈ r.records, record.inDocument = true ∧ record.matchesDocument = true

/-- Where the path or the method of an endpoint is the name of the parent of all mappings, the
document has an entry of that name, so that no look-up reaches the parent, and no example of the
decorators does. -/
structure LeavesParent (paths : Fields) (e : Endpoint) : Prop where
  path : e.path = Ambient.parentName → Fields.has paths e.path = true
  method : e.method = Ambient.parentName → (operationIn paths e.path e.method).isSome = true
  examples : Metadata.KeepApart (e.decorators.bind (Fields.get? · "x-examples")) e.method

/-- The endpoints whose records differ are those of the diffs, in the same order. -/
theorem drift_of_addressed (hdistinct : Endpoint.Distinct endpoints)
    (ha : ∀ e ∈ endpoints, Addressed (Value.fieldsAt document "paths") e) :
    ((endpoints.map (recordOf document)).filter fun r => !r.matchesDocument).map
        (fun r => (r.path, r.method)) =
      (mergeOperations document endpoints).diffs.map fun d => (d.path, d.method) := by
  have hdrifted : (drifted document endpoints).map (·.1) =
      endpoints.filter fun e => !(recordOf document e).matchesDocument := by
    rw [drifted, driftedAfter_of_distinct [] hdistinct]
    apply List.filter_congr
    intro e he
    rw [matchesDocument_iff (ha e he)]
  calc ((endpoints.map (recordOf document)).filter fun r => !r.matchesDocument).map
        (fun r => (r.path, r.method))
      = (endpoints.filter fun e => !(recordOf document e).matchesDocument).map
          (fun e => (e.path, e.method)) := by
        rw [List.filter_map, List.map_map]
        rfl
    _ = ((drifted document endpoints).map (·.1)).map (fun e => (e.path, e.method)) := by
        rw [hdrifted]
    _ = (mergeOperations document endpoints).diffs.map fun d => (d.path, d.method) := by
        rw [diffs_mergeOperations ha, List.map_map, List.map_map]
        rfl

/-- No operation changes exactly if all records match. -/
theorem unchanged_of_drift {records : List Record}
    (h : (records.filter fun r => !r.matchesDocument).map (fun r => (r.path, r.method)) =
      (mergeOperations document endpoints).diffs.map fun d => (d.path, d.method)) :
    (mergeOperations document endpoints).changed = false ↔
      ∀ r ∈ records, r.matchesDocument = true := by
  have hnil : (mergeOperations document endpoints).diffs = [] ↔
      (records.filter fun r => !r.matchesDocument) = [] := by
    rw [← List.map_eq_nil_iff (f := fun d => (d.path, d.method)), ← h, List.map_eq_nil_iff]
  have hchanged : (mergeOperations document endpoints).changed = false ↔
      (mergeOperations document endpoints).diffs = [] := by
    simp [OperationMerge.changed]
  rw [hchanged, hnil, List.filter_eq_nil_iff]
  simp

theorem addressed_merged
    (ha : ∀ e ∈ endpoints, Addressed (Value.fieldsAt document "paths") e) {e : Endpoint}
    (he : e ∈ endpoints) :
    Addressed (Value.fieldsAt (merged document endpoints) "paths") e := by
  have hpaths : Value.fieldsAt (merged document endpoints) "paths" =
      (mergeOperations document endpoints).paths := by
    rw [merged, OperationMerge.document, Value.fieldsAt_set, if_pos rfl]
  rw [hpaths]
  exact OperationMerge.foldl_add_addressed rfl ha (ha e he)

/-- For distinct endpoints, coverage and merge agree exactly if each endpoint can be counted and an
inherited name is its method only where the document holds an operation under that name. -/
theorem agrees_iff_addressed (document : Fields) (endpoints : List Endpoint)
    (hd : ∀ e ∈ endpoints, e.Documented) (hdistinct : Endpoint.Distinct endpoints)
    (hparent : ∀ e ∈ endpoints, LeavesParent (Value.fieldsAt document "paths") e) :
    Agrees document endpoints ↔ ∀ e ∈ endpoints, isCountable e = true ∧
      (Ambient.isAmbient e.method = true →
        (operationAt document e.path e.method).isSome = true) := by
  constructor
  · intro h e he
    obtain ⟨r, hr, hcovered⟩ := h.after [] none
    obtain ⟨hcountable, rfl⟩ := measure_eq_ok_iff.mp hr
    have hmatches := (hcovered _ (List.mem_map_of_mem he)).2
    have ha := addressed_of_merged h.completes he (operationAt_of_holds hmatches)
    exact ⟨hcountable e he, ha.method⟩
  · intro h
    have hcountable : ∀ e ∈ endpoints, isCountable e = true := fun e he => (h e he).1
    have ha : ∀ e ∈ endpoints, Addressed (Value.fieldsAt document "paths") e := fun e he =>
      ⟨isResolvable_of_isCountable (hcountable e he), (hparent e he).path, (h e he).2⟩
    have hdrift := drift_of_addressed hdistinct ha
    refine ⟨OperationMerge.foldl_add_failure rfl ha,
      fun _ _ => ⟨_, measure_eq_ok_iff.mpr ⟨hcountable, rfl⟩, hdrift, unchanged_of_drift hdrift⟩,
      fun _ _ => ⟨_, measure_eq_ok_iff.mpr ⟨hcountable, rfl⟩, ?_⟩⟩
    intro record hrecord
    obtain ⟨e, he, rfl⟩ := List.mem_map.mp hrecord
    have hmatches : (recordOf (merged document endpoints) e).matchesDocument = true := by
      rw [matchesDocument_iff (addressed_merged ha he), operationAt_merged]
      exact same_of_lastAt hd ha (lastAt_of_distinct hdistinct he)
    exact ⟨inDocument_of_matches hmatches, hmatches⟩

section Example

/-- A constructor is found in every mapping: the record does not match, but the merge stops before
it has a diff. -/
theorem not_agrees_of_constructor : ¬Agrees [] [constructing] := by
  intro h
  have hstopped : (mergeOperations [] [constructing]).failure = some .unwritable := by decide
  rw [h.completes] at hstopped
  cases hstopped

/-- A path that is no mapping, an operation in place and one that differs. -/
def partly : Fields :=
  [("paths", .map [("/x", .map [("get", .map listing.operation), ("post", .null)]),
    ("/y", .list [])])]

def handlers : List Endpoint :=
  [listing, ⟨"/x", "post", "h.py", "create", 9, [], none⟩,
    ⟨"/y", "get", "h.py", "show", 20, [("tags", .str "y")], none⟩]

theorem leavesParent_handlers (paths : Fields) : ∀ e ∈ handlers, LeavesParent paths e := by
  have hplain : ∀ e ∈ handlers, e.path ≠ Ambient.parentName ∧ e.method ≠ Ambient.parentName ∧
      e.decorators = none := by decide
  intro e he
  obtain ⟨hpath, hmethod, hnone⟩ := hplain e he
  refine ⟨fun h => absurd h hpath, fun h => absurd h hmethod, ?_⟩
  rw [hnone]
  exact fun _ h => absurd h List.not_mem_nil

theorem agrees_on_partly :
    (∀ e ∈ handlers, e.Documented) ∧ Endpoint.Distinct handlers ∧
      (∀ e ∈ handlers, LeavesParent (Value.fieldsAt partly "paths") e) ∧
      Agrees partly handlers := by
  have hd : ∀ e ∈ handlers, e.Documented := by
    intro e he
    have hcases : e = listing ∨ e = ⟨"/x", "post", "h.py", "create", 9, [], none⟩ ∨
        e = ⟨"/y", "get", "h.py", "show", 20, [("tags", .str "y")], none⟩ := by
      simpa [handlers] using he
    have hnone : ∀ d : Fields, (none : Option Fields) = some d → Fields.WellFormed d :=
      fun _ hd => nomatch hd
    rcases hcases with rfl | rfl | rfl
    · exact ⟨by simp [listing, Fields.WellFormed, Value.WellFormed, Value.WellFormedEntries,
        Fields.keys], hnone⟩
    · exact ⟨Fields.wellFormed_nil, hnone⟩
    · exact ⟨by simp [Fields.WellFormed, Value.WellFormed, Value.WellFormedEntries,
        Fields.keys], hnone⟩
  have hdistinct : Endpoint.Distinct handlers := by
    unfold Endpoint.Distinct handlers
    decide
  have hparent := leavesParent_handlers (Value.fieldsAt partly "paths")
  have haddressed : ∀ e ∈ handlers, isCountable e = true ∧
      (Ambient.isAmbient e.method = true →
        (operationAt partly e.path e.method).isSome = true) := by decide
  exact ⟨hd, hdistinct, hparent,
    (agrees_iff_addressed partly handlers hd hdistinct hparent).mpr haddressed⟩

/-- A tag that cannot be written as text. -/
def mistagged : Endpoint :=
  ⟨"/x", "get", "h.py", "show", 1, [("tags", .list [.map [("toString", .num (.ofNat 1))]])], none⟩

example : measure [mistagged] [] [] none = .error .noText := by rfl

end Example

end Coverage
end ApiSync
