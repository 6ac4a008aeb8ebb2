import ApiSync.Proofs.Document.Components
/-!
# A document that has been brought in line stays as it is

A pass writes the component schemas and then the operations.  `Settled` is what it leaves
behind: each schema and each operation in place, in some order of keys, and no excluded schema.
A pass over a settled document changes nothing, so a second pass never has anything to do,
whatever the document held at first.
-/

namespace ApiSync

/-- Each endpoint has an operation, and those with the same path and method have the same one, the
order of keys aside. -/
structure Endpoint.Agree (endpoints : List Endpoint) : Prop where
  resolvable : ∀ e ∈ endpoints, e.isResolvable = true
  same : ∀ a ∈ endpoints, ∀ b ∈ endpoints, a.path = b.path → a.method = b.method →
    Value.same (.map a.operation) (.map b.operation) = true

/-- Neither the path nor the method is a name that every mapping answers to. -/
def Endpoint.IsPlain (e : Endpoint) : Prop :=
  Ambient.isAmbient e.path = false ∧ Ambient.isAmbient e.method = false

namespace Document

/-- Of all that a pass looks up by name, nothing is a name that every mapping answers to. -/
structure PlainNames (components : Fields) (excluded : List String) (endpoints : List Endpoint) :
    Prop where
  components : ∀ c ∈ components, Ambient.isAmbient c.1 = false
  excluded : ∀ name ∈ excluded, Ambient.isAmbient name = false
  endpoints : ∀ e ∈ endpoints, e.IsPlain

/-- The results of both halves of a pass. -/
structure Pass where
  components : ComponentResult
  operations : OperationMerge

/-- Brings the components in line and then the operations. -/
def pass (document components : Fields) (excluded : List String) (endpoints : List Endpoint) :
    Pass :=
  let synced := syncComponents document components excluded
  ⟨synced, mergeOperations synced.document endpoints⟩

namespace Pass

def document (p : Pass) : Fields := p.operations.document p.components.document

def Completes (p : Pass) : Prop :=
  p.components.sync.failure = none ∧ p.operations.failure = none

/-- Nothing was written or removed, conflicts of metadata are all there is to report, and the
document is still the given one. -/
structure ChangesNothing (p : Pass) (document : Fields) : Prop where
  completes : p.Completes
  components_changed : p.components.sync.changed = false
  updated : p.components.sync.updated = []
  removed : p.components.sync.removed = []
  component_events : p.components.sync.events = []
  component_document : p.components.document = document
  operations_changed : p.operations.changed = false
  notes : p.operations.notes = []
  diffs : p.operations.diffs = []
  operation_events : ∀ event ∈ p.operations.events, ∃ message, event = .metadataConflict message
  document : p.document = document

end Pass

/-! ## What a pass leaves behind -/

/-- The paths hold the operation of the endpoint. -/
def Holds (paths : Fields) (e : Endpoint) : Prop :=
  Value.sameOption (operationIn paths e.path e.method) (some (.map e.operation)) = true

/-- The schemas hold each component and none of the excluded names. -/
structure SchemasSettled (components : Fields) (excluded : List String) (schemas : Fields) :
    Prop where
  held : ∀ c ∈ components, Value.sameOption (Fields.get? schemas c.1) (some c.2) = true
  absent : ∀ name ∈ excluded, Fields.get? schemas name = none

structure Settled (components : Fields) (excluded : List String) (endpoints : List Endpoint)
    (document : Fields) : Prop where
  components : (components = [] ∧ excluded = []) ∨
    ∃ holder schemas, Fields.get? document "components" = some (.map holder) ∧
      Fields.get? holder "schemas" = some (.map schemas) ∧
      SchemasSettled components excluded schemas
  operations : ∃ paths, Fields.get? document "paths" = some (.map paths) ∧
    ∀ e ∈ endpoints, Holds paths e

theorem PlainNames.addressed {components : Fields} {excluded : List String}
    {endpoints : List Endpoint} (hp : PlainNames components excluded endpoints)
    (hagree : Endpoint.Agree endpoints) {e : Endpoint} (he : e ∈ endpoints) (paths : Fields) :
    Addressed paths e :=
  addressed_of_not_ambient (hagree.resolvable e he) (hp.endpoints e he).1 (hp.endpoints e he).2
    paths

theorem holds_iff_not_drifts {paths : Fields} {e : Endpoint} :
    Holds paths e ↔ drifts paths e = false := by
  rw [Holds, drifts, Bool.not_eq_false']

/-- The step for an endpoint puts its operation in place and keeps those of endpoints that
agree with it. -/
theorem holds_add {m : OperationMerge} {a b : Endpoint} (hf : m.failure = none)
    (ha : Addressed m.paths a) (hb : a = b ∨ Holds m.paths b)
    (hsame : a.path = b.path → a.method = b.method →
      Value.same (.map a.operation) (.map b.operation) = true) :
    Holds (m.add a).paths b := by
  rw [Holds, OperationMerge.operationIn_add hf ha]
  split
  · next h => exact hsame h.2.1 h.2.2
  · next h =>
    rcases hb with rfl | hb
    · have hd : drifts m.paths a = false := by simpa using h
      exact holds_iff_not_drifts.mpr hd
    · exact hb

theorem holds_foldl_add {all : List Endpoint} (haddressed : ∀ e ∈ all, ∀ paths, Addressed paths e)
    (hagree : Endpoint.Agree all) {es : List Endpoint} (hes : ∀ e ∈ es, e ∈ all)
    {m : OperationMerge} (hf : m.failure = none) :
    ∀ b ∈ all, b ∈ es ∨ Holds m.paths b → Holds (es.foldl OperationMerge.add m).paths b := by
  induction es generalizing m with
  | nil =>
    intro b _ hb
    exact hb.resolve_left List.not_mem_nil
  | cons a es ih =>
    intro b hball hb
    have haall := hes a List.mem_cons_self
    have ha := haddressed a haall m.paths
    rw [List.foldl_cons]
    refine ih (fun e he => hes e (List.mem_cons_of_mem a he)) (OperationMerge.add_failure hf ha)
      b hball ?_
    by_cases hmem : b ∈ es
    · exact Or.inl hmem
    · have hcase : a = b ∨ Holds m.paths b :=
        hb.imp_left fun h => ((List.mem_cons.mp h).resolve_right hmem).symm
      exact Or.inr (holds_add hf ha hcase (hagree.same a haall b hball))

section Components

variable {components : Fields} {excluded : List String}

/-- The state at the end of a synchronisation that has something to do. -/
def syncRun (document components : Fields) (excluded : List String) : ComponentSync :=
  (Text.sortNames excluded).foldl ComponentSync.remove
    (components.foldl ComponentSync.write ⟨schemas document, [], [], [], none⟩)

theorem syncComponents_of_nonempty (document : Fields)
    (h : ¬(components = [] ∧ excluded = [])) :
    syncComponents document components excluded =
      ⟨(syncRun document components excluded).document document,
        syncRun document components excluded⟩ := by
  have hb : (decide (components = []) && decide (excluded = [])) = false := by
    rw [Bool.eq_false_iff]
    simpa using h
  rw [syncComponents]
  simp only [hb, Bool.false_eq_true, if_false]
  rfl

theorem syncRun_failure (hc : ∀ c ∈ components, Ambient.isAmbient c.1 = false)
    (hx : ∀ name ∈ excluded, Ambient.isAmbient name = false) (document : Fields) :
    (syncRun document components excluded).failure = none :=
  ComponentSync.foldl_remove_failure (ComponentSync.foldl_write_failure rfl hc) fun n hn =>
    hx n (mem_sortNames.mp hn)

theorem syncRun_settled (hc : ∀ c ∈ components, Ambient.isAmbient c.1 = false)
    (hx : ∀ name ∈ excluded, Ambient.isAmbient name = false)
    (hw : (Value.map components).WellFormed)
    (hdisjoint : ∀ name ∈ excluded, name ∉ Fields.keys components) (document : Fields) :
    SchemasSettled components excluded (syncRun document components excluded).schemas := by
  rw [Value.WellFormed] at hw
  have hwritten := ComponentSync.foldl_write_failure
    (s := ⟨schemas document, [], [], [], none⟩) rfl hc
  have hx' : ∀ n ∈ Text.sortNames excluded, Ambient.isAmbient n = false :=
    fun n hn => hx n (mem_sortNames.mp hn)
  constructor
  · intro c hmem
    have hnot : c.1 ∉ Text.sortNames excluded := fun h =>
      hdisjoint c.1 (mem_sortNames.mp h) (List.mem_map_of_mem hmem)
    rw [syncRun, ComponentSync.get?_foldl_remove hwritten hx', if_neg hnot]
    exact ComponentSync.sameOption_get?_foldl_write rfl hc hw.1 hw.2 c hmem
  · intro name hname
    rw [syncRun, ComponentSync.get?_foldl_remove hwritten hx', if_pos (mem_sortNames.mpr hname)]

/-- On settled schemas neither writing nor removing does anything. -/
theorem syncRun_of_settled (hc : ∀ c ∈ components, Ambient.isAmbient c.1 = false)
    (hx : ∀ name ∈ excluded, Ambient.isAmbient name = false) {document : Fields}
    (hs : SchemasSettled components excluded (schemas document)) :
    syncRun document components excluded = ⟨schemas document, [], [], [], none⟩ := by
  have hwrite : components.foldl ComponentSync.write ⟨schemas document, [], [], [], none⟩ =
      ⟨schemas document, [], [], [], none⟩ :=
    foldl_eq_self fun c hmem => ComponentSync.write_of_same c.2 (hc c hmem) (hs.held c hmem)
  rw [syncRun, hwrite]
  exact foldl_eq_self fun n hn => ComponentSync.remove_of_absent
    (hx n (mem_sortNames.mp hn)) (hs.absent n (mem_sortNames.mp hn))

end Components

theorem schemas_of_get? {document holder inner : Fields}
    (h : Fields.get? document "components" = some (.map holder))
    (hs : Fields.get? holder "schemas" = some (.map inner)) : schemas document = inner := by
  rw [schemas, Value.fieldsAt_of_get? h, Value.fieldsAt_of_get? hs]

/-- A pass over any document leaves a settled one. -/
theorem settled_pass {components : Fields} {excluded : List String} {endpoints : List Endpoint}
    (hp : PlainNames components excluded endpoints) (hw : (Value.map components).WellFormed)
    (hdisjoint : ∀ name ∈ excluded, name ∉ Fields.keys components)
    (hagree : Endpoint.Agree endpoints) (document : Fields) :
    Settled components excluded endpoints (pass document components excluded endpoints).document
    where
  components := by
    by_cases hempty : components = [] ∧ excluded = []
    · exact Or.inl hempty
    · right
      refine ⟨Fields.set (Value.fieldsAt document "components") "schemas"
        (.map (syncRun document components excluded).schemas), _, ?_, ?_,
        syncRun_settled hp.components hp.excluded hw hdisjoint document⟩
      · rw [Pass.document, get?_document _ _ (by decide), pass,
          syncComponents_of_nonempty document hempty, ComponentSync.document, Fields.get?_set,
          if_pos rfl]
      · rw [Fields.get?_set, if_pos rfl]
  operations := by
    refine ⟨(pass document components excluded endpoints).operations.paths, ?_, fun e hmem => ?_⟩
    · rw [Pass.document, OperationMerge.document, Fields.get?_set, if_pos rfl]
    · exact holds_foldl_add (fun _ he => hp.addressed hagree he) hagree (fun _ h => h) rfl e hmem (Or.inl hmem)

/-! ## A pass over a settled document -/

/-- Where the operation is in place a step only reports the conflicts. -/
theorem add_of_holds {m : OperationMerge} {e : Endpoint} (hf : m.failure = none)
    (ha : Addressed m.paths e) (hh : Holds m.paths e) :
    m.add e = m.report (e.metadata.conflicts.map .metadataConflict) := by
  rw [OperationMerge.add_of_not_drifts hf ha (holds_iff_not_drifts.mp hh), OperationMerge.opened]
  have hentry : ∃ v, operationIn m.paths e.path e.method = some v := by
    cases hv : operationIn m.paths e.path e.method with
    | none =>
      rw [Holds, hv] at hh
      exact absurd hh (by simp [Value.sameOption])
    | some v => exact ⟨v, rfl⟩
  obtain ⟨v, hv⟩ := hentry
  rw [Fields.assign_of_get? (map_of_operationIn hv)]
  rfl

theorem foldl_add_of_holds {es : List Endpoint} {m : OperationMerge} (hf : m.failure = none)
    (ha : ∀ e ∈ es, Addressed m.paths e) (hh : ∀ e ∈ es, Holds m.paths e) :
    es.foldl OperationMerge.add m =
      m.report (es.flatMap fun e => e.metadata.conflicts.map .metadataConflict) := by
  induction es generalizing m with
  | nil => simp [OperationMerge.report]
  | cons e es ih =>
    rw [List.foldl_cons, add_of_holds hf (ha e List.mem_cons_self) (hh e List.mem_cons_self),
      ih (m := m.report _) hf (fun d hd => ha d (List.mem_cons_of_mem e hd))
        (fun d hd => hh d (List.mem_cons_of_mem e hd)),
      List.flatMap_cons]
    simp [OperationMerge.report, List.append_assoc]

theorem syncComponents_of_settled {components : Fields} {excluded : List String}
    {endpoints : List Endpoint} (hp : PlainNames components excluded endpoints) {document : Fields}
    (hs : Settled components excluded endpoints document) :
    syncComponents document components excluded =
      ⟨document, ⟨schemas document, [], [], [], none⟩⟩ := by
  by_cases hempty : components = [] ∧ excluded = []
  · rw [hempty.1, hempty.2]
    rfl
  · obtain ⟨holder, inner, hsection, hschemas, hsettled⟩ := hs.components.resolve_left hempty
    have hread := schemas_of_get? hsection hschemas
    rw [syncComponents_of_nonempty document hempty,
      syncRun_of_settled hp.components hp.excluded (by rw [hread]; exact hsettled)]
    have hkeep : ComponentSync.document ⟨schemas document, [], [], [], none⟩ document =
        document := by
      simp only [ComponentSync.document]
      rw [Value.fieldsAt_of_get? hsection, hread, Fields.set_of_get? hschemas,
        Fields.set_of_get? hsection]
    rw [hkeep]

/-- A pass over a settled document finds nothing to do. -/
theorem pass_of_settled {components : Fields} {excluded : List String}
    {endpoints : List Endpoint} (hp : PlainNames components excluded endpoints)
    (hagree : Endpoint.Agree endpoints) {document : Fields}
    (hs : Settled components excluded endpoints document) :
    (pass document components excluded endpoints).ChangesNothing document := by
  obtain ⟨paths, hpaths, hholds⟩ := hs.operations
  have hsync := syncComponents_of_settled hp hs
  have hstart : (OperationMerge.start document).paths = paths := Value.fieldsAt_of_get? hpaths
  have hmerge : mergeOperations document endpoints = (OperationMerge.start document).report
      (endpoints.flatMap fun e => e.metadata.conflicts.map .metadataConflict) :=
    foldl_add_of_holds rfl (fun _ he => hp.addressed hagree he _) (by rw [hstart]; exact hholds)
  have hpass : pass document components excluded endpoints =
      ⟨⟨document, ⟨schemas document, [], [], [], none⟩⟩, (OperationMerge.start document).report
        (endpoints.flatMap fun e => e.metadata.conflicts.map .metadataConflict)⟩ := by
    rw [pass, hsync, hmerge]
  rw [hpass]
  constructor
  case operation_events =>
    intro event hevent
    simp only [OperationMerge.report, OperationMerge.start, List.nil_append, List.mem_flatMap,
      List.mem_map] at hevent
    obtain ⟨e, -, message, -, rfl⟩ := hevent
    exact ⟨message, rfl⟩
  case document =>
    rw [Pass.document, OperationMerge.document]
    exact Fields.set_of_get? (by rw [hpaths, ← hstart]; rfl)
  all_goals first | rfl | exact ⟨rfl, rfl⟩

/-! ## The second pass -/

section Example

/-- Two endpoints that agree, though their blocks differ in order and in the form of the tags. -/
def tagged : Endpoint :=
  ⟨"/items", "get", "items.py", "list", 8, [("tags", .str "items"), ("summary", .str "List")],
    none⟩

def retagged : Endpoint :=
  ⟨"/items", "get", "more.py", "list", 3,
    [("summary", .str "List"), ("tags", .list [.str "items"])], none⟩

def itemSchema : Fields := [("Item", .map [("type", .str "object")])]

/-- A document in need of repair: its paths are no mapping, and it holds an excluded schema. -/
def unrepaired : Fields :=
  [("paths", .list []), ("components", .map [("schemas", .map [("Secret", .null)])])]

end Example

end Document
end ApiSync
