import ApiSync.Proofs.Metadata.Overlay
/-!
# Changes that are made again after an overlay

A series of changes settles if it can be made again without effect, even after entries that the
mapping already held were laid over it once more.  The changes considered here act on one entry
each, so a series acts on every entry by itself, and it settles if it does so key by key.  A change
inside the mapping at a key settles if the change itself does, which carries the property through
mappings of any depth.
-/

namespace ApiSync
namespace Metadata

open Fields (WellFormed Takes get? keys has assign)
open Value (fieldsAt)

/-! ## Changes of one entry -/

/-- A change of the entry at a key, which is made if it is not there. -/
structure EntryChange where
  key : String
  change : Option Value → Value

def EntryChange.apply (c : EntryChange) (fields : Fields) : Fields :=
  assign fields c.key (c.change (get? fields c.key))

def applyAll (cs : List EntryChange) (fields : Fields) : Fields :=
  cs.foldl (fun acc c => c.apply acc) fields

/-- What the changes do to the entry at a key, in their order. -/
def changesAt (k : String) (cs : List EntryChange) : List (Option Value → Value) :=
  (cs.filter (·.key = k)).map (·.change)

def valueAfter (hs : List (Option Value → Value)) (v : Option Value) : Option Value :=
  hs.foldl (fun acc h => some (h acc)) v

theorem applyAll_cons (c : EntryChange) (cs : List EntryChange) (fields : Fields) :
    applyAll (c :: cs) fields = applyAll cs (c.apply fields) := rfl

theorem changesAt_cons_self (c : EntryChange) (cs : List EntryChange) :
    changesAt c.key (c :: cs) = c.change :: changesAt c.key cs := by
  simp [changesAt]

theorem changesAt_cons_of_ne {c : EntryChange} {k : String} (h : c.key ≠ k)
    (cs : List EntryChange) : changesAt k (c :: cs) = changesAt k cs := by
  simp [changesAt, h]

theorem mem_changesAt {k : String} {cs : List EntryChange} {h : Option Value → Value}
    (hmem : h ∈ changesAt k cs) : ∃ c ∈ cs, c.key = k ∧ c.change = h := by
  obtain ⟨c, hc, rfl⟩ := List.mem_map.mp hmem
  obtain ⟨hcs, hkey⟩ := List.mem_filter.mp hc
  exact ⟨c, hcs, of_decide_eq_true hkey, rfl⟩

theorem takes_applyAll (cs : List EntryChange) (fields : Fields) (k : String) :
    Takes (applyAll cs fields) k ↔ Takes fields k := by
  induction cs generalizing fields with
  | nil => exact Iff.rfl
  | cons c cs ih => rw [applyAll_cons, ih, EntryChange.apply, Fields.takes_assign]

/-- A series of changes acts on each entry by itself. -/
theorem get?_applyAll {fields : Fields} {k : String} (ht : Takes fields k)
    (cs : List EntryChange) :
    get? (applyAll cs fields) k = valueAfter (changesAt k cs) (get? fields k) := by
  induction cs generalizing fields with
  | nil => rfl
  | cons c cs ih =>
    have ht' : Takes (c.apply fields) k := (Fields.takes_assign fields c.key _).mpr ht
    rw [applyAll_cons, ih ht', EntryChange.apply]
    by_cases hk : c.key = k
    · subst hk
      rw [Fields.get?_assign_self ht, changesAt_cons_self]
      rfl
    · rw [Fields.get?_assign_of_ne _ hk, changesAt_cons_of_ne hk]

theorem get?_applyAll_of_not_takes {fields : Fields} {k : String} (ht : ¬Takes fields k)
    (cs : List EntryChange) : get? (applyAll cs fields) k = get? fields k := by
  have hafter : ¬Takes (applyAll cs fields) k := fun h => ht ((takes_applyAll cs fields k).mp h)
  rw [Fields.get?_of_not_takes ht, Fields.get?_of_not_takes hafter]

theorem get?_applyAll_of_none {k : String} {cs : List EntryChange} (h : changesAt k cs = [])
    (fields : Fields) : get? (applyAll cs fields) k = get? fields k := by
  by_cases ht : Takes fields k
  · rw [get?_applyAll ht, h]
    rfl
  · exact get?_applyAll_of_not_takes ht cs

/-- A key that is changed has an entry, and one that had an entry keeps it. -/
theorem isSome_valueAfter {hs : List (Option Value → Value)} {v : Option Value}
    (h : hs ≠ [] ∨ v.isSome = true) : (valueAfter hs v).isSome = true := by
  induction hs generalizing v with
  | nil => exact h.resolve_left fun hne => hne rfl
  | cons h hs ih => exact ih (Or.inr rfl)

theorem has_applyAll {fields : Fields} {k : String} (ht : Takes fields k) {cs : List EntryChange}
    (h : changesAt k cs ≠ [] ∨ has fields k = true) : has (applyAll cs fields) k = true := by
  rw [Fields.has_eq_isSome] at h ⊢
  rw [get?_applyAll ht]
  exact isSome_valueAfter h

theorem keys_applyAll_of_has {fields : Fields} {cs : List EntryChange}
    (h : ∀ c ∈ cs, Takes fields c.key → has fields c.key = true) :
    keys (applyAll cs fields) = keys fields := by
  induction cs generalizing fields with
  | nil => rfl
  | cons c cs ih =>
    rw [applyAll_cons, ih, EntryChange.apply, Fields.keys_assign_of (h c List.mem_cons_self)]
    intro d hd ht
    rw [EntryChange.apply, Fields.takes_assign] at ht
    exact Fields.has_assign_of_has _ (h d (List.mem_cons_of_mem c hd) ht)

theorem nodup_keys_applyAll {fields : Fields} (h : (keys fields).Nodup)
    (cs : List EntryChange) : (keys (applyAll cs fields)).Nodup := by
  induction cs generalizing fields with
  | nil => exact h
  | cons c cs ih => exact ih (Fields.nodup_keys_assign h c.key _)

theorem changesAt_ne_nil {c : EntryChange} {cs : List EntryChange} (h : c ∈ cs) :
    changesAt c.key cs ≠ [] :=
  List.ne_nil_of_mem (List.mem_map_of_mem (List.mem_filter.mpr ⟨h, decide_eq_true rfl⟩))

/-! ## Changes after an overlay -/

section Absorbed

variable {fields upper : Fields} (hd : (keys upper).Nodup) (h : overlay fields upper = fields)
include hd h

/-- What a mapping held before it was changed has a place in it afterwards. -/
theorem keys_overlay_applyAll (cs : List EntryChange) :
    keys (overlay (applyAll cs fields) upper) = keys (applyAll cs fields) := by
  refine keys_overlay_of_has fun k hk ht => ?_
  rw [takes_applyAll] at ht
  obtain ⟨e, he, rfl⟩ := List.mem_map.mp hk
  have hget := get?_of_overlay_eq_self hd h (Fields.get?_of_mem hd he) ht
  exact has_applyAll ht (Or.inr (Fields.has_of_get? hget))

/-- So has every entry that was changed. -/
theorem keys_applyAll_overlay (cs : List EntryChange) :
    keys (applyAll cs (overlay (applyAll cs fields) upper)) = keys (applyAll cs fields) := by
  rw [keys_applyAll_of_has fun c hc ht => ?_, keys_overlay_applyAll hd h]
  rw [takes_overlay, takes_applyAll] at ht
  rw [← Fields.mem_keys_iff_has, keys_overlay_applyAll hd h, Fields.mem_keys_iff_has]
  exact has_applyAll ht (Or.inl (changesAt_ne_nil hc))

end Absorbed

/-! ## Families of changes -/

/-- A change of mappings for each member of the list, one after the other. -/
def compose (changes : List (Fields → Fields)) (fields : Fields) : Fields :=
  changes.foldl (fun acc change => change acc) fields

/-- The changes of an entry come to the same again after what it already held is laid over it. -/
def SettledAt (hs : List (Option Value → Value)) : Prop :=
  ∀ v u, ItemsWellFormed v → ItemsWellFormed u → laid v u = v →
    valueAfter hs (laid (valueAfter hs v) u) = valueAfter hs v

/-- The same for changes of a mapping. -/
def Settled (changes : List (Fields → Fields)) : Prop :=
  ∀ fields upper, WellFormed fields → WellFormed upper → overlay fields upper = fields →
    compose changes (overlay (compose changes fields) upper) = compose changes fields

/-- Any changes of an entry that belong to the family settle. -/
def SettlingAt (family : (Option Value → Value) → Prop) : Prop :=
  ∀ hs, (∀ h ∈ hs, family h) → SettledAt hs

/-- Any changes of a mapping that belong to the family settle. -/
def Settling (family : (Fields → Fields) → Prop) : Prop :=
  ∀ changes, (∀ change ∈ changes, family change) → Settled changes

/-- Changes that settle can be made twice. -/
theorem SettledAt.twice {hs : List (Option Value → Value)} (h : SettledAt hs) {v : Option Value}
    (hv : ItemsWellFormed v) : valueAfter hs (valueAfter hs v) = valueAfter hs v :=
  h v none hv (fun _ hw => nomatch hw) rfl

theorem Settled.twice {changes : List (Fields → Fields)} (h : Settled changes) {fields : Fields}
    (hf : WellFormed fields) :
    compose changes (compose changes fields) = compose changes fields := by
  have hagain := h fields [] hf Fields.wellFormed_nil (by rw [overlay])
  rwa [overlay] at hagain

/-- What all members of a list are images of. -/
theorem exists_map_of_forall {α β : Type} {P : α → Prop} {g : α → β} {ys : List β}
    (h : ∀ y ∈ ys, ∃ x, P x ∧ y = g x) : ∃ xs : List α, (∀ x ∈ xs, P x) ∧ ys = xs.map g := by
  induction ys with
  | nil => exact ⟨[], fun _ hx => absurd hx List.not_mem_nil, rfl⟩
  | cons y ys ih =>
    obtain ⟨x, hx, rfl⟩ := h y List.mem_cons_self
    obtain ⟨xs, hxs, rfl⟩ := ih fun z hz => h z (List.mem_cons_of_mem _ hz)
    exact ⟨x :: xs, List.forall_mem_cons.mpr ⟨hx, hxs⟩, rfl⟩

/-- Changes of one entry, of the family that belongs to its key. -/
def Entrywise (family : String → (Option Value → Value) → Prop) (change : Fields → Fields) : Prop :=
  ∃ c : EntryChange, family c.key c.change ∧ change = c.apply

/-- Changes of entries settle if they do key by key. -/
theorem settling_entrywise {family : String → (Option Value → Value) → Prop}
    (h : ∀ k, SettlingAt (family k)) : Settling (Entrywise family) := by
  intro changes hchanges fields upper hf hu habsorbed
  obtain ⟨cs, hcs, rfl⟩ := exists_map_of_forall hchanges
  have hcompose (acc : Fields) : compose (cs.map EntryChange.apply) acc = applyAll cs acc := by
    rw [compose, List.foldl_map, applyAll]
  have hd := (Fields.wellFormed_iff.mp hu).1
  rw [hcompose, hcompose]
  -- The second round meets every key it writes to, so both results have the keys in one order.
  have hkeys := keys_applyAll_overlay hd habsorbed cs
  have hnodup : (keys (applyAll cs (overlay (applyAll cs fields) upper))).Nodup := by
    rw [hkeys]
    exact nodup_keys_applyAll (Fields.wellFormed_iff.mp hf).1 cs
  refine Fields.eq_of_keys_of_get? hkeys hnodup fun k => ?_
  have htakes : Takes (overlay (applyAll cs fields) upper) k ↔ Takes fields k := by
    rw [takes_overlay, takes_applyAll]
  by_cases ht : Takes fields k
  · have hfamily : ∀ g ∈ changesAt k cs, family k g := by
      intro g hg
      obtain ⟨c, hc, rfl, rfl⟩ := mem_changesAt hg
      exact hcs c hc
    have ht' : Takes (applyAll cs fields) k := (takes_applyAll cs fields k).mpr ht
    rw [get?_applyAll (htakes.mpr ht), get?_overlay hd ht', get?_applyAll ht]
    refine h k _ hfamily _ _ (itemsWellFormed_get? hf k) (itemsWellFormed_get? hu k) ?_
    rw [← get?_overlay hd ht, habsorbed]
  · have ht' : ¬Takes (applyAll cs fields) k := fun hno => ht ((takes_applyAll cs fields k).mp hno)
    rw [get?_applyAll_of_not_takes (fun hno => ht (htakes.mp hno)), get?_overlay_of_not_takes ht']

/-! ## Families for one entry -/

/-- Changes the mapping that an entry holds. -/
def onMap (change : Fields → Fields) (v : Option Value) : Value := .map (change (mapOf v))

/-- Replaces the entry, whatever it held. -/
def Replacing (h : Option Value → Value) : Prop := ∃ v : Value, h = fun _ => v

/-- Fills in the entry if it is not there. -/
def Filling (h : Option Value → Value) : Prop :=
  ∃ v : Value, h = fun current => current.getD v

/-- Changes the mapping at the entry by a change of the family. -/
def Inside (family : (Fields → Fields) → Prop) (h : Option Value → Value) : Prop :=
  ∃ change, family change ∧ h = onMap change

/-- Several changes of the family made at once. -/
def Composed (family : (Fields → Fields) → Prop) (change : Fields → Fields) : Prop :=
  ∃ changes, (∀ c ∈ changes, family c) ∧ change = compose changes

theorem settlingAt_replacing : SettlingAt Replacing := by
  intro hs hmem v u _ _ habsorbed
  cases hs with
  | nil => exact habsorbed
  | cons h rest =>
    obtain ⟨w, rfl⟩ := hmem h List.mem_cons_self
    rfl

/-- An entry that is there is not filled in. -/
theorem valueAfter_filling {hs : List (Option Value → Value)} (h : ∀ g ∈ hs, Filling g)
    (v : Value) : valueAfter hs (some v) = some v := by
  induction hs with
  | nil => rfl
  | cons g rest ih =>
    obtain ⟨w, rfl⟩ := h g List.mem_cons_self
    exact ih fun f hf => h f (List.mem_cons_of_mem _ hf)

theorem settlingAt_filling : SettlingAt Filling := by
  intro hs hmem v u _ _ habsorbed
  cases v with
  | some x => rw [valueAfter_filling hmem, habsorbed, valueAfter_filling hmem]
  | none =>
    cases u with
    | some y => cases habsorbed
    | none =>
      show valueAfter hs (valueAfter hs none) = valueAfter hs none
      cases hs with
      | nil => rfl
      | cons g rest =>
        have hrest : ∀ f ∈ rest, Filling f := fun f hf => hmem f (List.mem_cons_of_mem g hf)
        have hfirst : valueAfter (g :: rest) none = some (g none) := valueAfter_filling hrest _
        rw [hfirst, valueAfter_filling hmem]

theorem valueAfter_onMap (changes : List (Fields → Fields)) (hne : changes ≠ [])
    (v : Option Value) :
    valueAfter (changes.map onMap) v = some (.map (compose changes (mapOf v))) := by
  induction changes generalizing v with
  | nil => exact absurd rfl hne
  | cons change rest ih =>
    cases rest with
    | nil => rfl
    | cons next rest => exact ih (List.cons_ne_nil _ _) (some (onMap change v))

/-- Only a mapping absorbs a mapping. -/
theorem exists_of_laid_map {v : Option Value} {upper : Fields}
    (h : laid v (some (.map upper)) = v) :
    ∃ base, v = some (.map base) ∧ overlay base upper = base := by
  cases v with
  | none => cases h
  | some w =>
    cases w with
    | map base => exact ⟨base, rfl, Value.map.inj (Option.some.inj h)⟩
    | _ => cases h

theorem settlingAt_inside {family : (Fields → Fields) → Prop} (h : Settling family) :
    SettlingAt (Inside family) := by
  intro hs hmem v u hv hu habsorbed
  obtain ⟨changes, hchanges, rfl⟩ := exists_map_of_forall hmem
  by_cases hne : changes = []
  · subst hne
    exact habsorbed
  rw [valueAfter_onMap changes hne, valueAfter_onMap changes hne]
  refine congrArg (fun fields => some (Value.map fields)) ?_
  have hsettled := h changes hchanges
  cases u with
  | none => exact hsettled.twice (wellFormed_mapOf hv)
  | some w =>
    by_cases hw : w.isMap = true
    · obtain ⟨upper, rfl⟩ := Value.exists_of_isMap hw
      obtain ⟨base, rfl, hbase⟩ := exists_of_laid_map habsorbed
      exact hsettled base upper (hv _ rfl) (hu _ rfl) hbase
    · have hother : w.isMap = false := Bool.not_eq_true _ ▸ hw
      rw [laid, overlayValue_of_not_map hother] at habsorbed
      rw [laid, overlayValue_of_not_map hother, habsorbed]

theorem compose_flatten (groups : List (List (Fields → Fields))) (fields : Fields) :
    compose (groups.map compose) fields = compose groups.flatten fields := by
  rw [compose, List.foldl_map, compose, List.foldl_flatten]
  rfl

theorem settling_composed {family : (Fields → Fields) → Prop} (h : Settling family) :
    Settling (Composed family) := by
  intro changes hchanges fields upper hf hu habsorbed
  obtain ⟨groups, hgroups, rfl⟩ := exists_map_of_forall hchanges
  rw [compose_flatten, compose_flatten]
  refine h groups.flatten (fun c hc => ?_) fields upper hf hu habsorbed
  obtain ⟨group, hgroup, hc⟩ := List.mem_flatten.mp hc
  exact hgroups group hgroup c hc

end Metadata
end ApiSync
