import ApiSync.Endpoint
import ApiSync.Proofs.Equality
/-!
# Merging metadata keeps it well formed

Every way of writing a mapping keeps its keys distinct, so the metadata merged from a block and
its decorators is well formed when both of them are, and so is the operation picked from it.
The lemmas follow the definitions of the merge from the inside out.
-/

namespace ApiSync

namespace Fields

/-- A mapping whose keys are distinct, at every depth. -/
def WellFormed (fields : Fields) : Prop := (Value.map fields).WellFormed

theorem wellFormed_iff {fields : Fields} :
    WellFormed fields ↔ (keys fields).Nodup ∧ ∀ e ∈ fields, e.2.WellFormed := by
  rw [WellFormed, Value.WellFormed, Value.wellFormedEntries_iff]

theorem wellFormed_nil : WellFormed [] :=
  wellFormed_iff.mpr ⟨List.nodup_nil, fun _ h => absurd h List.not_mem_nil⟩

theorem WellFormed.get? {fields : Fields} (h : WellFormed fields) {k : String} {v : Value}
    (hv : get? fields k = some v) : v.WellFormed :=
  (wellFormed_iff.mp h).2 (k, v) (mem_of_get? hv)

theorem WellFormed.sublist {fields others : Fields} (h : WellFormed fields)
    (hs : others.Sublist fields) : WellFormed others := by
  have hf := wellFormed_iff.mp h
  exact wellFormed_iff.mpr ⟨hf.1.sublist (hs.map _), fun e he => hf.2 e (hs.subset he)⟩

theorem WellFormed.set {fields : Fields} (h : WellFormed fields) (k : String) {v : Value}
    (hv : v.WellFormed) : WellFormed (set fields k v) := by
  have hf := wellFormed_iff.mp h
  exact wellFormed_iff.mpr ⟨nodup_keys_set hf.1 k v, Each.set hf.2 k hv⟩

theorem WellFormed.assign {fields : Fields} (h : WellFormed fields) (k : String) {v : Value}
    (hv : v.WellFormed) : WellFormed (assign fields k v) := by
  rw [Fields.assign]
  split
  · exact h
  · exact h.set k hv

theorem WellFormed.erase {fields : Fields} (h : WellFormed fields) (k : String) :
    WellFormed (erase fields k) := h.sublist List.filter_sublist

theorem WellFormed.setAll {fields upper : Fields} (h : WellFormed fields)
    (hu : ∀ e ∈ upper, e.2.WellFormed) : WellFormed (setAll fields upper) := by
  rw [Fields.setAll]
  induction upper generalizing fields with
  | nil => exact h
  | cons e rest ih =>
    exact ih (h.set e.1 (hu e List.mem_cons_self)) fun d hd => hu d (List.mem_cons_of_mem e hd)

end Fields

namespace Value

theorem WellFormed.items {v : Value} (h : v.WellFormed) {items : List Value}
    (hi : v.asList? = some items) : ∀ w ∈ items, w.WellFormed := by
  cases v with
  | list vs =>
    have he : vs = items := by simpa [asList?] using hi
    rw [WellFormed, wellFormedItems_iff] at h
    exact he ▸ h
  | _ => simp [asList?] at hi

theorem wellFormed_list {items : List Value} (h : ∀ w ∈ items, w.WellFormed) :
    (Value.list items).WellFormed := by
  rw [WellFormed]
  exact wellFormedItems_iff.mpr h

theorem wellFormed_positioned {members : List Value} (h : ∀ v ∈ members, v.WellFormed) :
    Fields.WellFormed (entries.positioned members) :=
  Fields.WellFormed.setAll Fields.wellFormed_nil fun e he => h e.2 (List.of_mem_zip he).2

theorem wellFormed_letters (c : Char) : ∀ v ∈ entries.letters c, v.WellFormed := by
  intro v hv
  rw [entries.letters] at hv
  split at hv
  · rw [List.mem_singleton.mp hv]
    trivial
  · rcases List.mem_cons.mp hv with rfl | hv
    · trivial
    · rw [List.mem_singleton.mp hv]
      trivial

theorem WellFormed.entries {v : Value} (h : v.WellFormed) : Fields.WellFormed v.entries := by
  cases v with
  | map fields => exact h
  | list items => exact wellFormed_positioned (h.items rfl)
  | str s =>
    refine wellFormed_positioned fun v hv => ?_
    obtain ⟨c, -, hc⟩ := List.mem_flatMap.mp hv
    exact wellFormed_letters c v hc
  | _ => exact Fields.wellFormed_nil

end Value

namespace Metadata

open Fields (WellFormed)

/-- Every item of an optional list is well formed. -/
def ItemsWellFormed (v : Option Value) : Prop := ∀ w, v = some w → w.WellFormed

theorem itemsWellFormed_get? {fields : Fields} (h : WellFormed fields) (k : String) :
    ItemsWellFormed (Fields.get? fields k) := fun _ hw => h.get? hw

theorem mem_itemsOf {v : Option Value} (h : ItemsWellFormed v) :
    ∀ w ∈ itemsOf v, w.WellFormed := by
  intro w hw
  cases v with
  | none => exact absurd hw List.not_mem_nil
  | some u =>
    cases hi : u.asList? with
    | none => simp [itemsOf, hi] at hw
    | some items =>
      refine (h u rfl).items hi w ?_
      simpa [itemsOf, hi] using hw

/-! ## Overlays -/

mutual

theorem wellFormed_overlay (upper : Fields) {base : Fields} (hb : WellFormed base)
    (hu : ∀ e ∈ upper, e.2.WellFormed) : WellFormed (overlay base upper) := by
  cases upper with
  | nil => exact hb
  | cons e rest =>
    obtain ⟨k, v⟩ := e
    rw [overlay]
    refine wellFormed_overlay rest (hb.assign k ?_) fun d hd => hu d (List.mem_cons_of_mem _ hd)
    exact wellFormed_overlayValue v (itemsWellFormed_get? hb k) (hu (k, v) List.mem_cons_self)

theorem wellFormed_overlayValue (v : Value) {current : Option Value}
    (hc : ItemsWellFormed current) (hv : v.WellFormed) : (overlayValue current v).WellFormed := by
  cases v with
  | map upper =>
    cases current with
    | none => exact hv
    | some w =>
      cases w with
      | map base =>
        rw [overlayValue]
        exact wellFormed_overlay upper (hc (.map base) rfl) (Fields.wellFormed_iff.mp hv).2
      | _ => exact hv
  | _ => exact hv

end

theorem wellFormed_mergeLists {base upper : Option Value} (hb : ItemsWellFormed base)
    (hu : ItemsWellFormed upper) (uniqueBy : Option String) :
    (Value.list (mergeLists base upper uniqueBy)).WellFormed := by
  have hbelow := mem_itemsOf hb
  have habove := mem_itemsOf hu
  refine Value.wellFormed_list fun w hw => ?_
  unfold mergeLists at hw
  dsimp only at hw
  split at hw
  · exact hbelow w hw
  · split at hw
    · exact habove w hw
    · split at hw
      · exact habove w hw
      · exact habove w hw
      · rcases List.mem_append.mp hw with h | h
        · exact hbelow w ((List.mem_filter.mp h).1)
        · exact habove w h

theorem wellFormed_addResponse (method : String) {acc : Fields} (ha : WellFormed acc)
    (status : String) {v : Value} (hv : v.WellFormed) :
    WellFormed (addResponse method acc status v) := by
  cases v with
  | map response =>
    have hin : WellFormed (withoutMethods response) := WellFormed.erase hv "methods"
    rw [addResponse]
    split
    · split
      · next existing hget =>
        exact ha.assign status
          (wellFormed_overlay _ (ha.get? hget) (Fields.wellFormed_iff.mp hin).2)
      · exact ha.assign status hin
    · exact ha
  | _ => exact ha

theorem wellFormed_mapOf {v : Option Value} (h : ItemsWellFormed v) :
    WellFormed ((v.bind Value.asMap?).getD []) := by
  cases v with
  | none => exact Fields.wellFormed_nil
  | some w =>
    cases w with
    | map fields => exact h (.map fields) rfl
    | _ => exact Fields.wellFormed_nil

theorem wellFormed_mergeResponses {base upper : Option Value} (hb : ItemsWellFormed base)
    (hu : ItemsWellFormed upper) (method : String) :
    WellFormed (mergeResponses base upper method) := by
  have hstart := wellFormed_mapOf hb
  have habove := (Fields.wellFormed_iff.mp (wellFormed_mapOf hu)).2
  unfold mergeResponses
  generalize (upper.bind Value.asMap?).getD [] = entries at habove
  generalize (base.bind Value.asMap?).getD [] = acc at hstart
  induction entries generalizing acc with
  | nil => exact hstart
  | cons e rest ih =>
    exact ih (fun d hd => habove d (List.mem_cons_of_mem e hd)) _
      (wellFormed_addResponse method hstart e.1 (habove e List.mem_cons_self))

/-! ## Examples -/

/-- A change of mappings that keeps them well formed. -/
def Keeps (change : Fields → Fields) : Prop :=
  ∀ fields, WellFormed fields → WellFormed (change fields)

theorem keeps_assign (k : String) {v : Value} (hv : v.WellFormed) :
    Keeps fun fields => Fields.assign fields k v := fun _ h => h.assign k hv

theorem keeps_within {change : Fields → Fields} (h : Keeps change) (k : String) :
    Keeps fun fields => within fields k change := by
  intro fields hf
  show WellFormed (within fields k change)
  unfold within
  split
  · next inner hget => exact hf.assign k (h inner (hf.get? hget))
  · exact hf.assign k (h [] Fields.wellFormed_nil)

theorem keeps_withinPath {change : Fields → Fields} (h : Keeps change) (path : List String) :
    Keeps fun fields => withinPath fields path change := by
  induction path with
  | nil => exact h
  | cons k rest ih => exact keeps_within ih k

theorem wellFormed_firstHeld {entry : Fields} (h : WellFormed entry) (keys : List String) :
    ∀ e ∈ firstHeld entry keys, e.2.WellFormed := by
  intro e he
  unfold firstHeld at he
  split at he
  · next key _ =>
    rw [List.mem_singleton.mp he]
    show ((Fields.get? entry key).getD .null).WellFormed
    cases hv : Fields.get? entry key with
    | none => trivial
    | some v => exact h.get? hv
  · exact absurd he List.not_mem_nil

theorem wellFormed_exampleObject {entry : Fields} (h : WellFormed entry) :
    WellFormed (exampleObject entry) := by
  have hstart : ∀ e ∈ firstHeld entry ["value", "externalValue", "$ref"] ++ held entry "summary"
      ++ held entry "description", e.2.WellFormed := by
    intro e he
    rcases List.mem_append.mp he with he | he
    · rcases List.mem_append.mp he with he | he
      · exact wellFormed_firstHeld h _ e he
      · exact wellFormed_firstHeld h _ e he
    · exact wellFormed_firstHeld h _ e he
  exact (Fields.wellFormed_nil.setAll hstart).setAll fun e he =>
    (Fields.wellFormed_iff.mp h).2 e (List.mem_filter.mp he).1

theorem keeps_addExample (name : String) {built : Fields} (h : WellFormed built) :
    Keeps (addExample name built) := keeps_within (keeps_assign name h) "examples"

theorem wellFormed_changeFirst {change : Fields → Fields} (h : Keeps change) (test : Value → Bool)
    {items : List Value} (hi : ∀ v ∈ items, v.WellFormed) :
    ∀ v ∈ changeFirst test change items, v.WellFormed := by
  induction items with
  | nil => exact fun v hv => absurd hv List.not_mem_nil
  | cons w rest ih =>
    have hw := hi w List.mem_cons_self
    have hrest : ∀ v ∈ rest, v.WellFormed := fun v hv => hi v (List.mem_cons_of_mem w hv)
    intro v hv
    unfold changeFirst at hv
    split at hv
    · rcases List.mem_cons.mp hv with he | hr
      · rw [he]
        cases w with
        | map fields => exact h fields hw
        | _ => exact hw
      · exact hrest v hr
    · rcases List.mem_cons.mp hv with he | hr
      · exact he ▸ hw
      · exact ih hrest v hr

theorem keeps_placeExample {entry : Fields} (h : WellFormed entry) (placement name : String) :
    Keeps fun target => placeExample target entry placement name := by
  have hadd := keeps_addExample name (wellFormed_exampleObject h)
  intro target ht
  show WellFormed (placeExample target entry placement name)
  unfold placeExample
  dsimp only
  split
  · split
    · exact ht
    · split
      · exact ht
      · refine ht.set "parameters" (Value.wellFormed_list (wellFormed_changeFirst hadd _ ?_))
        exact mem_itemsOf (itemsWellFormed_get? ht "parameters")
  · split
    · exact keeps_withinPath hadd _ target ht
    · split
      · split
        · exact ht
        · exact ht
        · refine keeps_withinPath (fun response hr => ?_) _ target ht
          refine keeps_withinPath hadd _ _ ?_
          split
          · exact hr
          · exact hr.set "description" (v := .str "Response") trivial
      · split
        · refine ht.set "x-schema-examples" (Value.wellFormed_list fun v hv => ?_)
          rcases List.mem_append.mp hv with hv | hv
          · exact mem_itemsOf (itemsWellFormed_get? ht "x-schema-examples") v hv
          · rw [List.mem_singleton.mp hv]
            exact h
        · exact ht

theorem wellFormed_useExample (method : String) {target : Fields} (ht : WellFormed target)
    {entry : Value} (h : entry.WellFormed) : WellFormed (useExample method target entry) := by
  unfold useExample
  split
  · next fields =>
    split
    · split
      · exact ht
      · have hf : WellFormed fields := h
        exact keeps_placeExample hf _ _ target ht
    · exact ht
  · exact ht

theorem wellFormed_withExamples {target : Fields} (ht : WellFormed target)
    {examples : Option Value} (he : ItemsWellFormed examples) (method : String) :
    WellFormed (withExamples target (itemsOf examples) method) := by
  have hitems := mem_itemsOf he
  unfold withExamples
  generalize itemsOf examples = items at hitems
  induction items generalizing target with
  | nil => exact ht
  | cons v rest ih =>
    exact ih (wellFormed_useExample method ht (hitems v List.mem_cons_self)) fun w hw =>
      hitems w (List.mem_cons_of_mem v hw)

/-! ## The whole merge -/

theorem wellFormed_copyField {decorators merged : Fields} (hd : WellFormed decorators)
    (hm : WellFormed merged) (field : String) : WellFormed (copyField decorators merged field) := by
  unfold copyField
  split
  · next v hv => exact hm.set field (hd.get? hv)
  · exact hm

theorem wellFormed_mergeParameters {merged decorators : Fields} (hm : WellFormed merged)
    (hd : WellFormed decorators) : WellFormed (mergeParameters merged decorators) := by
  unfold mergeParameters
  dsimp only
  split
  · exact hm.set "parameters" (wellFormed_mergeLists (itemsWellFormed_get? hm _)
      (itemsWellFormed_get? hd _) _)
  · exact hm

theorem wellFormed_mergeRequestBody (method : String) {merged decorators : Fields}
    (hm : WellFormed merged) (hd : WellFormed decorators) :
    WellFormed (mergeRequestBody method merged decorators) := by
  unfold mergeRequestBody
  split
  · next body hbody =>
    split
    · exact hm.set "requestBody" (WellFormed.erase (hd.get? hbody) "methods")
    · exact hm
  · exact hm

theorem wellFormed_mergeAllResponses (method : String) {merged decorators : Fields}
    (hm : WellFormed merged) (hd : WellFormed decorators) :
    WellFormed (mergeAllResponses method merged decorators) := by
  unfold mergeAllResponses
  dsimp only
  split
  · exact hm.set "responses" (wellFormed_mergeResponses (itemsWellFormed_get? hm _)
      (itemsWellFormed_get? hd _) method)
  · exact hm

theorem wellFormed_copyFields {decorators : Fields} (hd : WellFormed decorators)
    (fields : List String) {merged : Fields} (hm : WellFormed merged) :
    WellFormed (fields.foldl (copyField decorators) merged) := by
  induction fields generalizing merged with
  | nil => exact hm
  | cons field rest ih => exact ih (wellFormed_copyField hd hm field)

theorem wellFormed_merge {block : Fields} (hb : WellFormed block) {decorators : Option Fields}
    (hd : ∀ d, decorators = some d → WellFormed d) (path method : String) :
    WellFormed (merge block decorators path method).fields := by
  unfold merge
  split
  · exact hb
  · exact hb
  · next d _ =>
    have hd' := hd d rfl
    have hcopied := wellFormed_copyFields hd' replacedFields hb
    have hparameters := wellFormed_mergeParameters hcopied hd'
    have hbody := wellFormed_mergeRequestBody method hparameters hd'
    have hresponses := wellFormed_mergeAllResponses method hbody hd'
    exact wellFormed_copyField hd' (wellFormed_withExamples hresponses
      (itemsWellFormed_get? hd' "x-examples") method) "x-response-headers"

end Metadata

namespace Endpoint

open Fields (WellFormed)

/-- The block and the decorators of the endpoint repeat no key at any depth. -/
structure Documented (e : Endpoint) : Prop where
  block : WellFormed e.block
  decorators : ∀ d, e.decorators = some d → WellFormed d

theorem wellFormed_pickFields {metadata : Fields} (h : WellFormed metadata) (keys : List String)
    {picked : Fields} (hp : WellFormed picked) :
    WellFormed (keys.foldl (pickField metadata) picked) := by
  induction keys generalizing picked with
  | nil => exact hp
  | cons k rest ih =>
    refine ih ?_
    unfold pickField
    split
    · next v hv => exact hp.set k (h.get? hv)
    · exact hp

theorem wellFormed_defaultResponses : defaultResponses.WellFormed := by
  simp [defaultResponses, Value.WellFormed, Value.WellFormedEntries, Fields.keys]

theorem wellFormed_operationOf {metadata : Fields} (h : WellFormed metadata) :
    WellFormed (operationOf metadata) := by
  have hpicked := wellFormed_pickFields h operationFields Fields.wellFormed_nil
  have hdefault : WellFormed (if Fields.has (operationFields.foldl (pickField metadata) [])
      "responses" then operationFields.foldl (pickField metadata) []
      else Fields.set (operationFields.foldl (pickField metadata) []) "responses"
        defaultResponses) := by
    split
    · exact hpicked
    · exact hpicked.set "responses" wellFormed_defaultResponses
  unfold operationOf
  dsimp only
  split
  · exact hdefault.set "tags" (Value.wellFormed_list fun v hv => by
      rw [List.mem_singleton.mp hv]; trivial)
  · exact hdefault

theorem wellFormed_operation {e : Endpoint} (h : e.Documented) : WellFormed e.operation :=
  wellFormed_operationOf (Metadata.wellFormed_merge h.block h.decorators e.path e.method)

end Endpoint
end ApiSync
