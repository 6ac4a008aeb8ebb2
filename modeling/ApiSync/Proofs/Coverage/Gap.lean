import Mathlib.Data.List.Nodup
import ApiSync.Proofs.Coverage.Counts
import ApiSync.Proofs.Coverage.Drift
/-!
# Orphans and coverage describe the same gap

Coverage looks at the document as it was loaded, and orphans are looked for after the merge.  A
merge writes only under the paths and methods of endpoints, which are no orphans, so it leaves the
list of orphans as it was before, in the same order.  If methods are in lower case and hold
mappings, that list is the one of the operations which coverage finds in the document only, and
each other operation belongs to exactly one endpoint.
-/

namespace ApiSync

namespace Document

/-! ## A merge keeps the orphans -/

def orphansIn (endpoints : List Endpoint) (paths : Fields) : List String :=
  paths.flatMap fun e => pathOrphans endpoints e.1 e.2

theorem lowerCased_of_isHttpMethod {method : String} (h : isHttpMethod method = true) :
    Text.lowerCased method = method := by
  have hall : ∀ m ∈ httpMethods, Text.lowerCased m = m := by decide
  exact hall method (by simpa [isHttpMethod] using h)

theorem isAmbient_of_isHttpMethod {method : String} (h : isHttpMethod method = true) :
    Ambient.isAmbient method = false := by
  have hall : ∀ m ∈ httpMethods, Ambient.isAmbient m = false := by decide
  exact hall method (by simpa [isHttpMethod] using h)

theorem hasPair_iff {endpoints : List Endpoint} {path method : String} :
    hasPair endpoints path method = true ↔ ∃ e ∈ endpoints, e.path = path ∧ e.method = method := by
  simp [hasPair]

variable {endpoints : List Endpoint}

/-- The report of a method that no endpoint implements. -/
def orphan? (endpoints : List Endpoint) (path method : String) : Option String :=
  let lower := Text.lowerCased method
  if !isHttpMethod lower || hasPair endpoints path lower then none
  else some s!"Path present only in swagger (no handler): {Text.upperCased method} {path}"

theorem pathOrphans_map (path : String) (methods : Fields) :
    pathOrphans endpoints path (.map methods) =
      (Fields.keys methods).filterMap (orphan? endpoints path) := rfl

/-- A method that an endpoint implements is no orphan. -/
theorem pathOrphans_assign {path method : String} (hm : Text.lowerCased method = method)
    (h : hasPair endpoints path method = true) (methods : Fields) (v : Value) :
    pathOrphans endpoints path (.map (Fields.assign methods method v)) =
      pathOrphans endpoints path (.map methods) := by
  have hnone : orphan? endpoints path method = none := by
    rw [orphan?, hm, h, Bool.or_true]
    rfl
  rw [pathOrphans_map, pathOrphans_map, Fields.keys, Fields.keys, List.filterMap_map,
    List.filterMap_map, List.filterMap_eq_flatMap_toList, List.filterMap_eq_flatMap_toList]
  refine Fields.flatMap_assign _ ?_
  dsimp only [Function.comp]
  rw [hnone]
  cases Fields.get? methods method <;> rfl

/-- An entry that is no mapping has no orphans, so an empty mapping can take its place. -/
theorem orphansIn_assign {paths entry : Fields} {path : String}
    (h : pathOrphans endpoints path (.map entry) =
      pathOrphans endpoints path (.map (Value.fieldsAt paths path))) :
    orphansIn endpoints (Fields.assign paths path (.map entry)) = orphansIn endpoints paths := by
  refine Fields.flatMap_assign _ ?_
  dsimp only
  rw [h, Value.fieldsAt]
  cases Fields.get? paths path with
  | none => rfl
  | some w => cases w <;> rfl

theorem fieldsAt_opened (m : OperationMerge) (e : Endpoint) :
    Value.fieldsAt (m.opened e).paths e.path = Value.fieldsAt m.paths e.path := by
  rw [OperationMerge.opened, Fields.assign]
  split
  · rfl
  · exact Value.fieldsAt_of_get? (by rw [Fields.get?_set, if_pos rfl])

theorem orphansIn_opened (m : OperationMerge) (e : Endpoint) :
    orphansIn endpoints (m.opened e).paths = orphansIn endpoints m.paths :=
  orphansIn_assign rfl

theorem orphansIn_add {e : Endpoint} (he : e ∈ endpoints) (hm : isHttpMethod e.method = true)
    (m : OperationMerge) : orphansIn endpoints (m.add e).paths = orphansIn endpoints m.paths := by
  rcases OperationMerge.add_paths m e with hpaths | hpaths | hpaths
  · rw [hpaths]
  · rw [hpaths, orphansIn_opened]
  · rw [hpaths, orphansIn_assign, orphansIn_opened]
    rw [fieldsAt_opened]
    exact pathOrphans_assign (lowerCased_of_isHttpMethod hm) (hasPair_iff.mpr ⟨e, he, rfl, rfl⟩) _ _

theorem orphansIn_foldl_add {es : List Endpoint} (hs : es ⊆ endpoints)
    (hm : ∀ e ∈ es, isHttpMethod e.method = true) (m : OperationMerge) :
    orphansIn endpoints (es.foldl OperationMerge.add m).paths = orphansIn endpoints m.paths := by
  induction es generalizing m with
  | nil => rfl
  | cons e es ih =>
    rw [List.foldl_cons, ih (fun d hd => hs (List.mem_cons_of_mem e hd))
      (fun d hd => hm d (List.mem_cons_of_mem e hd))]
    exact orphansIn_add (hs List.mem_cons_self) (hm e List.mem_cons_self) m

theorem orphansIn_merged (document : Fields)
    (hm : ∀ e ∈ endpoints, isHttpMethod e.method = true) :
    orphansIn endpoints (Value.fieldsAt (merged document endpoints) "paths") =
      orphansIn endpoints (Value.fieldsAt document "paths") := by
  rw [merged, OperationMerge.document, Value.fieldsAt_set, if_pos rfl]
  exact orphansIn_foldl_add (List.Subset.refl _) hm _

theorem OperationMerge.add_failure_of_plain {m : OperationMerge} {e : Endpoint}
    (hf : m.failure = none) (hr : e.isResolvable = true)
    (hm : Ambient.isAmbient e.method = false) : (m.add e).failure = none := by
  cases add_cases m e with
  | stopped _ heq | held _ _ heq | changed _ _ _ heq => rw [heq]; exact hf
  | unresolved _ hresolve =>
    rw [hr] at hresolve
    cases hresolve
  | refused _ _ hwritten =>
    rw [found, written_inFields (Fields.isSome_of_ambient hm)] at hwritten
    cases hwritten

/-- A look-up of a method never finds anything inherited, so no step fails. -/
theorem mergeOperations_completes (document : Fields)
    (hr : ∀ e ∈ endpoints, e.isResolvable = true)
    (hm : ∀ e ∈ endpoints, isHttpMethod e.method = true) :
    (mergeOperations document endpoints).failure = none := by
  induction endpoints using List.reverseRecOn with
  | nil => rfl
  | append_singleton es e ih =>
    have hbefore := ih (fun d hd => hr d (List.mem_append_left [e] hd))
      fun d hd => hm d (List.mem_append_left [e] hd)
    have hlast : e ∈ es ++ [e] := List.mem_append_right es List.mem_cons_self
    rw [mergeOperations_concat]
    exact OperationMerge.add_failure_of_plain hbefore (hr e hlast)
      (isAmbient_of_isHttpMethod (hm e hlast))

end Document

namespace Coverage

open Document

/-! ## Documents with methods in lower case -/

/-- A key that is a method up to letter case is in lower case and holds a mapping. -/
def TidyMethods (methods : Fields) : Prop :=
  ∀ e ∈ methods, isHttpMethod (Text.lowerCased e.1) = true →
    Text.lowerCased e.1 = e.1 ∧ e.2.isMap = true

def Tidy (document : Fields) : Prop :=
  ∀ path methods, (path, Value.map methods) ∈ Value.fieldsAt document "paths" →
    TidyMethods methods

theorem isHttpMethod_lowerCased {methods : Fields} (h : TidyMethods methods) {method : String}
    (hm : method ∈ Fields.keys methods) :
    isHttpMethod (Text.lowerCased method) = isHttpMethod method := by
  obtain ⟨e, he, rfl⟩ := List.mem_map.mp hm
  rw [Bool.eq_iff_iff]
  constructor
  · intro hlower
    rwa [(h e he hlower).1] at hlower
  · intro hplain
    rwa [lowerCased_of_isHttpMethod hplain]

theorem pathOperations_of_tidy {methods : Fields} (h : TidyMethods methods) (path : String) :
    pathOperations path (.map methods) =
      ((Fields.keys methods).filter isHttpMethod).map (OperationRef.mk path) := by
  rw [Fields.keys, List.filter_map, List.map_map, ← List.filterMap_eq_map, List.filterMap_filter]
  refine List.filterMap_congr fun e he => ?_
  have hlower := isHttpMethod_lowerCased h (List.mem_map_of_mem he)
  dsimp only [Function.comp]
  by_cases hplain : isHttpMethod e.1 = true
  · have hentry := h e he (hlower.trans hplain)
    rw [if_pos hplain, hentry.1, hplain, hentry.2]
    rfl
  · rw [if_neg hplain, hlower, Bool.eq_false_iff.mpr hplain]
    rfl

/-- The text of an orphan. -/
def OperationRef.orphanText (op : OperationRef) : String :=
  s!"Path present only in swagger (no handler): {Text.upperCased op.method} {op.path}"

theorem orphan?_of_lowerCased {method : String}
    (h : isHttpMethod (Text.lowerCased method) = isHttpMethod method)
    (endpoints : List Endpoint) (path : String) :
    orphan? endpoints path method =
      if !hasPair endpoints path method && isHttpMethod method
      then some (OperationRef.mk path method).orphanText else none := by
  rw [orphan?, h]
  by_cases hplain : isHttpMethod method = true
  · rw [lowerCased_of_isHttpMethod hplain, hplain]
    cases hasPair endpoints path method <;> rfl
  · rw [Bool.eq_false_iff.mpr hplain, Bool.and_false]
    rfl

theorem pathOrphans_of_tidy {methods : Fields} (h : TidyMethods methods)
    (endpoints : List Endpoint) (path : String) :
    pathOrphans endpoints path (.map methods) =
      ((pathOperations path (.map methods)).filter fun op =>
        !hasPair endpoints op.path op.method).map OperationRef.orphanText := by
  rw [pathOperations_of_tidy h, List.filter_map, List.map_map, List.filter_filter,
    ← List.filterMap_eq_map, List.filterMap_filter, pathOrphans_map]
  exact List.filterMap_congr fun method hm =>
    orphan?_of_lowerCased (isHttpMethod_lowerCased h hm) endpoints path

/-- The orphans of a tidy document are the operations that no endpoint implements. -/
theorem orphansIn_of_tidy {document : Fields} (h : Tidy document) (endpoints : List Endpoint) :
    orphansIn endpoints (Value.fieldsAt document "paths") =
      ((operations document).filter fun op => !hasPair endpoints op.path op.method).map
        OperationRef.orphanText := by
  rw [operations, List.filter_flatMap, List.map_flatMap]
  refine List.flatMap_congr fun e he => ?_
  obtain ⟨path, entry⟩ := e
  cases entry with
  | map methods => exact pathOrphans_of_tidy (h path methods he) endpoints path
  | _ => rfl

/-! ## Counting -/

theorem mem_operations {document : Fields} (h : Tidy document) {op : OperationRef} :
    op ∈ operations document ↔ isHttpMethod op.method = true ∧
      ∃ methods, (op.path, Value.map methods) ∈ Value.fieldsAt document "paths" ∧
        op.method ∈ Fields.keys methods := by
  rw [operations, List.mem_flatMap]
  constructor
  · rintro ⟨⟨path, entry⟩, he, hop⟩
    cases entry with
    | map methods =>
      rw [pathOperations_of_tidy (h path methods he)] at hop
      obtain ⟨method, hm, rfl⟩ := List.mem_map.mp hop
      have hfilter := List.mem_filter.mp hm
      exact ⟨hfilter.2, methods, he, hfilter.1⟩
    | _ => cases hop
  · rintro ⟨hhttp, methods, he, hm⟩
    refine ⟨(op.path, .map methods), he, ?_⟩
    rw [pathOperations_of_tidy (h _ methods he)]
    exact List.mem_map_of_mem (List.mem_filter.mpr ⟨hm, hhttp⟩)

theorem path_of_mem_pathOperations {path : String} {entry : Value} {op : OperationRef}
    (h : op ∈ pathOperations path entry) : op.path = path := by
  cases entry with
  | map methods =>
    obtain ⟨e, -, he⟩ := List.mem_filterMap.mp h
    dsimp only at he
    split at he
    · rw [← Option.some.inj he]
    · cases he
  | _ => cases h

theorem wellFormed_paths {document : Fields} (h : Fields.WellFormed document) :
    Fields.WellFormed (Value.fieldsAt document "paths") :=
  Metadata.wellFormed_mapOf (Metadata.itemsWellFormed_get? h "paths")

theorem nodup_operations {document : Fields} (hw : Fields.WellFormed document)
    (h : Tidy document) : (operations document).Nodup := by
  have hpaths := wellFormed_paths hw
  have hdistinct : (Value.fieldsAt document "paths").Pairwise fun a b => a.1 ≠ b.1 :=
    List.pairwise_map.mp (Fields.wellFormed_iff.mp hpaths).1
  rw [operations, List.nodup_flatMap]
  constructor
  · rintro ⟨path, entry⟩ he
    cases entry with
    | map methods =>
      have hentry : Fields.WellFormed methods := (Fields.wellFormed_iff.mp hpaths).2 _ he
      rw [pathOperations_of_tidy (h path methods he)]
      refine List.Nodup.map ?_ ((Fields.wellFormed_iff.mp hentry).1.filter _)
      exact fun a b hab => congrArg OperationRef.method hab
    | _ => exact List.nodup_nil
  · refine hdistinct.imp fun {a b} hne op hopa hopb => hne ?_
    rw [← path_of_mem_pathOperations hopa, path_of_mem_pathOperations hopb]

/-- The endpoint as it stands in a list of operations. -/
def refOf (e : Endpoint) : OperationRef := ⟨e.path, e.method⟩

theorem nodup_refs {endpoints : List Endpoint} (h : Endpoint.Distinct endpoints) :
    (endpoints.map refOf).Nodup := by
  refine List.pairwise_map.mpr (h.imp fun {a b} hne hsame => hne ?_)
  exact ⟨congrArg OperationRef.path hsame, congrArg OperationRef.method hsame⟩

theorem hasPair_eq_mem {endpoints : List Endpoint} {op : OperationRef} :
    hasPair endpoints op.path op.method = decide (op ∈ endpoints.map refOf) := by
  rw [Bool.eq_iff_iff, hasPair_iff, decide_eq_true_iff, List.mem_map]
  constructor
  · rintro ⟨e, he, hp, hm⟩
    exact ⟨e, he, by rw [refOf, hp, hm]⟩
  · rintro ⟨e, he, rfl⟩
    exact ⟨e, he, rfl, rfl⟩

/-- An endpoint is in the document exactly if the document has an operation for it. -/
theorem inDocument_iff {document : Fields} (hw : Fields.WellFormed document) (h : Tidy document)
    {e : Endpoint} (hm : isHttpMethod e.method = true) :
    (recordOf document e).inDocument = true ↔ refOf e ∈ operations document := by
  have hpaths := wellFormed_paths hw
  have hplain := isAmbient_of_isHttpMethod hm
  have hheld : (recordOf document e).inDocument =
      (operationAt document e.path e.method).isSome := by
    show (!(existing document e.path e.method).isNothing) = _
    rw [existing_eq fun ha => absurd ha (by rw [hplain]; exact Bool.false_ne_true)]
    cases operationAt document e.path e.method <;> rfl
  rw [hheld, mem_operations h, Option.isSome_iff_exists]
  constructor
  · rintro ⟨v, hv⟩
    refine ⟨hm, _, Fields.mem_of_get? (map_of_operationIn hv), ?_⟩
    exact List.mem_map_of_mem (Fields.mem_of_get? hv)
  · rintro ⟨-, methods, he, hkey⟩
    have hentry : Fields.get? (Value.fieldsAt document "paths") e.path = some (.map methods) :=
      Fields.get?_of_mem (Fields.wellFormed_iff.mp hpaths).1 he
    have hfound : operationAt document e.path e.method = Fields.get? methods e.method := by
      rw [operationAt, operationIn, Value.fieldsAt_of_get? hentry]
    rw [hfound]
    exact Option.ne_none_iff_exists'.mp fun hnone => Fields.get?_eq_none_iff.mp hnone hkey

/-- Of two lists without repetition, the members of the one that are in the other and those that
are not make up the one. -/
theorem countP_mem_add_length_filter {α : Type} [DecidableEq α] {as bs : List α}
    (ha : as.Nodup) (hb : bs.Nodup) :
    bs.countP (· ∈ as) + (as.filter (· ∉ bs)).length = as.length := by
  have hperm : (bs.filter (· ∈ as)).Perm (as.filter (· ∈ bs)) := by
    refine (List.perm_ext_iff_of_nodup (hb.filter _) (ha.filter _)).mpr fun a => ?_
    simp only [List.mem_filter, decide_eq_true_eq]
    exact and_comm
  rw [List.countP_eq_length_filter, hperm.length_eq,
    List.length_eq_length_filter_add (l := as) (· ∈ bs)]
  simp only [decide_not]

/-! ## The gap -/

/-- Merge and coverage come to an end.  After the merge the orphans among the operations are those
that coverage found in the document only, and each operation that coverage found belongs to an
endpoint or is one of these. -/
structure SameGap (document : Fields) (endpoints : List Endpoint) : Prop where
  completes : (mergeOperations document endpoints).failure = none
  measured : ∀ ignored components, ∃ r, measure endpoints ignored document components = .ok r ∧
    (∀ generated, Document.orphans (merged document endpoints) endpoints generated =
      r.documentOnly.map OperationRef.orphanText ++
        (generated.map (componentOrphans (merged document endpoints))).getD []) ∧
    r.summary.handlersInDocument + r.summary.documentOnly = r.summary.documentOperations

/-- A document with methods in lower case, and distinct endpoints of plain methods for it, none of
which reaches the parent of all mappings. -/
structure Comparable (document : Fields) (endpoints : List Endpoint) : Prop where
  wellFormed : Fields.WellFormed document
  tidy : Tidy document
  methods : ∀ e ∈ endpoints, isHttpMethod e.method = true
  distinct : Endpoint.Distinct endpoints
  parent : ∀ e ∈ endpoints, LeavesParent (Value.fieldsAt document "paths") e

variable {document : Fields} {endpoints : List Endpoint}

theorem orphans_merged (h : Comparable document endpoints) (generated : Option Fields) :
    Document.orphans (merged document endpoints) endpoints generated =
      ((operations document).filter fun op => !hasPair endpoints op.path op.method).map
          OperationRef.orphanText ++
        (generated.map (componentOrphans (merged document endpoints))).getD [] := by
  show orphansIn endpoints _ ++ _ = _
  rw [orphansIn_merged document h.methods, orphansIn_of_tidy h.tidy]

theorem handlersInDocument_add_documentOnly (h : Comparable document endpoints) :
    (Tally.ofRecords (endpoints.map (recordOf document))).inDocument +
        ((operations document).filter fun op => !hasPair endpoints op.path op.method).length =
      (operations document).length := by
  have hin : (endpoints.map (recordOf document)).countP (·.inDocument) =
      (endpoints.map refOf).countP (· ∈ operations document) := by
    rw [List.countP_map, List.countP_map]
    refine List.countP_congr fun e he => ?_
    exact (inDocument_iff h.wellFormed h.tidy (h.methods e he)).trans decide_eq_true_iff.symm
  have honly : ((operations document).filter fun op => !hasPair endpoints op.path op.method) =
      (operations document).filter (· ∉ endpoints.map refOf) := by
    simp only [hasPair_eq_mem, decide_not]
  rw [Tally.inDocument_ofRecords, hin, honly]
  exact countP_mem_add_length_filter (nodup_operations h.wellFormed h.tidy)
    (nodup_refs h.distinct)

/-- Orphans and coverage describe the same gap exactly if every endpoint can be counted. -/
theorem sameGap_iff_countable (document : Fields) (endpoints : List Endpoint)
    (h : Comparable document endpoints) :
    SameGap document endpoints ↔ ∀ e ∈ endpoints, isCountable e = true := by
  constructor
  · intro hgap
    obtain ⟨r, hr, -⟩ := hgap.measured [] none
    exact (measure_eq_ok_iff.mp hr).1
  · intro hcountable
    refine ⟨mergeOperations_completes document
      (fun e he => isResolvable_of_isCountable (hcountable e he)) h.methods, fun _ _ => ?_⟩
    exact ⟨_, measure_eq_ok_iff.mpr ⟨hcountable, rfl⟩, orphans_merged h,
      handlersInDocument_add_documentOnly h⟩

section Example

/-- Two paths with operations of their own, one that is no mapping, and a key that is no method. -/
def gapped : Fields :=
  [("paths", .map [("/x", .map [("summary", .str "X"), ("get", .map []), ("post", .map [])]),
    ("/y", .null), ("/z", .map [("delete", .map [])])])]

theorem sameGap_of_gapped :
    Comparable gapped handlers ∧ SameGap gapped handlers ∧
      (compute handlers [] gapped none).documentOnly = [⟨"/z", "delete"⟩] := by
  have hcomparable : Comparable gapped handlers := by
    constructor
    case wellFormed =>
      simp [gapped, Fields.WellFormed, Value.WellFormed, Value.WellFormedEntries, Fields.keys]
    case tidy =>
      intro path methods h
      have hentries : (path, Value.map methods) =
          ("/x", .map [("summary", .str "X"), ("get", .map []), ("post", .map [])]) ∨
          (path, Value.map methods) = ("/z", .map [("delete", .map [])]) := by
        simpa [gapped, Value.fieldsAt, Fields.get?, Value.asMap?] using h
      rcases hentries with h | h <;> cases h <;> unfold TidyMethods <;> decide
    case methods => decide
    case distinct =>
      unfold Endpoint.Distinct handlers
      decide
    case parent => exact leavesParent_handlers _
  have hgap := (sameGap_iff_countable gapped handlers hcomparable).mpr (by decide)
  exact ⟨hcomparable, hgap, by rfl⟩

/-- The merge writes the operation with the tag, which coverage cannot count. -/
theorem not_sameGap_of_mistagged : ¬SameGap [] [mistagged] := by
  intro h
  obtain ⟨r, hr, -⟩ := h.measured [] none
  have hthrown : measure [mistagged] [] [] none = .error .noText := by rfl
  rw [hthrown] at hr
  cases hr

end Example

end Coverage
end ApiSync
