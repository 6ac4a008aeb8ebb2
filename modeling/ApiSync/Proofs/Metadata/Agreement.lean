import Mathlib.Data.List.Perm.Subperm
import ApiSync.Proofs.Metadata.FieldWise
/-!
# Deep equality of merged values

Deeply equal mappings hold deeply equal values under the same keys.  So a value stays deeply equal
to what it was when something deeply equal is laid over it, and so does a response, whether the one
on top is meant for the method or not.
-/

namespace ApiSync

namespace Value

theorem sameFields_iff {a b : Fields} :
    sameFields a b = true ↔
      ∀ e ∈ a, ∃ w, Fields.get? b e.1 = some w ∧ same e.2 w = true := by
  induction a with
  | nil => exact iff_of_true rfl fun _ he => absurd he List.not_mem_nil
  | cons e rest ih =>
    obtain ⟨k, v⟩ := e
    rw [sameFields, Bool.and_eq_true, ih, List.forall_mem_cons]
    refine and_congr_left fun _ => ?_
    cases Fields.get? b k with
    | none => simp
    | some w => simp

/-- Deeply equal mappings hold deeply equal values under the same keys. -/
theorem exists_of_same_map {a b : Fields} (ha : a.WellFormed)
    (h : same (.map a) (.map b) = true) {k : String} {w : Value} (hw : Fields.get? b k = some w) :
    ∃ v, Fields.get? a k = some v ∧ same v w = true := by
  have hf := Fields.wellFormed_iff.mp ha
  rw [same, Bool.and_eq_true, decide_eq_true_eq, sameFields_iff] at h
  obtain ⟨hlength, hentries⟩ := h
  have hsub : Fields.keys a ⊆ Fields.keys b := by
    intro key hkey
    obtain ⟨e, he, rfl⟩ := List.mem_map.mp hkey
    obtain ⟨u, hu, -⟩ := hentries e he
    exact List.mem_map.mpr ⟨(e.1, u), Fields.mem_of_get? hu, rfl⟩
  have hkeys : (Fields.keys b).length = (Fields.keys a).length := by
    rw [Fields.keys, Fields.keys, List.length_map, List.length_map, hlength]
  have hperm : (Fields.keys a).Perm (Fields.keys b) :=
    (List.subperm_of_subset hf.1 hsub).perm_of_length_le (Nat.le_of_eq hkeys)
  have hkey : k ∈ Fields.keys a := hperm.mem_iff.mpr (List.mem_map_of_mem (Fields.mem_of_get? hw))
  obtain ⟨e, he, rfl⟩ := List.mem_map.mp hkey
  obtain ⟨u, hu, hsame⟩ := hentries e he
  obtain rfl : u = w := Option.some.inj (hu.symm.trans hw)
  exact ⟨e.2, Fields.get?_of_mem hf.1 he, hsame⟩

/-- Deeply equal mappings agree under each key. -/
theorem sameOption_of_same_map {a b : Fields} (ha : a.WellFormed)
    (h : same (.map a) (.map b) = true) (k : String) :
    sameOption (Fields.get? a k) (Fields.get? b k) = true := by
  cases hb : Fields.get? b k with
  | some w =>
    obtain ⟨v, hv, hsame⟩ := exists_of_same_map ha h hb
    rw [hv]
    exact hsame
  | none =>
    rw [same, Bool.and_eq_true, sameFields_iff] at h
    cases hv : Fields.get? a k with
    | none => rfl
    | some v =>
      obtain ⟨w, hw, -⟩ := h.2 (k, v) (Fields.mem_of_get? hv)
      rw [hb] at hw
      cases hw

theorem length_eq_of_sameList {vs ws : List Value} (h : sameList vs ws = true) :
    vs.length = ws.length := by
  induction vs generalizing ws with
  | nil =>
    cases ws with
    | nil => rfl
    | cons w ws => cases h
  | cons v vs ih =>
    cases ws with
    | nil => cases h
    | cons w ws =>
      rw [sameList, Bool.and_eq_true] at h
      rw [List.length_cons, List.length_cons, ih h.2]

end Value

namespace Metadata

open Fields (WellFormed Takes get? keys)
open Value (same)

/-! ## Laying the same over the same -/

/-- A mapping stays deeply equal if what is laid over it does, entry by entry. -/
theorem same_map_overlay {base upper : Fields} (hb : WellFormed base) (hd : (keys upper).Nodup)
    (h : ∀ k w, get? upper k = some w →
      ∃ v, get? base k = some v ∧ same v (overlayValue (some v) w) = true) :
    same (.map base) (.map (overlay base upper)) = true := by
  have hf := Fields.wellFormed_iff.mp hb
  have hkeys : keys (overlay base upper) = keys base := by
    refine keys_overlay_of_has fun k hk _ => ?_
    obtain ⟨e, he, rfl⟩ := List.mem_map.mp hk
    obtain ⟨v, hv, -⟩ := h e.1 e.2 (Fields.get?_of_mem hd he)
    exact Fields.has_of_get? hv
  have hlength : base.length = (overlay base upper).length := by
    have := congrArg List.length hkeys
    rw [keys, keys, List.length_map, List.length_map] at this
    exact this.symm
  rw [same, decide_eq_true hlength, Bool.true_and, Value.sameFields_iff]
  intro e he
  have hbase : get? base e.1 = some e.2 := Fields.get?_of_mem hf.1 he
  have ht : Takes base e.1 := Fields.takes_of_has (Fields.has_of_get? hbase)
  rw [get?_overlay hd ht, hbase]
  cases hupper : get? upper e.1 with
  | none => exact ⟨e.2, rfl, Value.same_self e.2 (hf.2 e he)⟩
  | some w =>
    obtain ⟨v, hv, hsame⟩ := h e.1 w hupper
    obtain rfl : e.2 = v := Option.some.inj (hbase.symm.trans hv)
    exact ⟨_, rfl, hsame⟩

mutual

theorem same_overlayValue (w : Value) (hw : w.WellFormed) {v : Value} (hv : v.WellFormed)
    (h : same v w = true) : same v (overlayValue (some v) w) = true := by
  cases w with
  | map upper =>
    cases v with
    | map base =>
      rw [Value.WellFormed] at hw
      have hentries := same_overlayEntries upper hw.2
      refine same_map_overlay hv hw.1 fun k u hu => ?_
      obtain ⟨x, hx, hsame⟩ := Value.exists_of_same_map hv h hu
      have hxw : x.WellFormed := Fields.WellFormed.get? hv hx
      exact ⟨x, hx, hentries (k, u) (Fields.mem_of_get? hu) hxw hsame⟩
    | _ => cases h
  | _ => rwa [overlayValue_of_not_map rfl]

theorem same_overlayEntries (upper : Fields) (hu : Value.WellFormedEntries upper) :
    ∀ e ∈ upper, ∀ {v : Value}, v.WellFormed → same v e.2 = true →
      same v (overlayValue (some v) e.2) = true := by
  cases upper with
  | nil => exact fun _ he => absurd he List.not_mem_nil
  | cons d rest =>
    obtain ⟨k, w⟩ := d
    rw [Value.WellFormedEntries] at hu
    intro e he v hv h
    rcases List.mem_cons.mp he with rfl | hr
    · exact same_overlayValue w hu.1 hv h
    · exact same_overlayEntries rest hu.2 e hr hv h

end

/-- A response that is deeply equal to the one on top stays so, whether that one is meant for the
method or not, and with the list of methods that the block gives. -/
theorem same_responseOver {v w : Value} (hv : v.WellFormed) (hw : w.WellFormed)
    (h : same v w = true) (method : String) :
    ∃ m, responseOver method (some v) (some w) = some m ∧ same v m = true := by
  cases w with
  | map response =>
    rw [responseOver_map]
    split
    · cases v with
      | map base =>
        refine ⟨_, rfl, ?_⟩
        rw [overlayValue]
        have hkept : WellFormed (withoutMethods response) := WellFormed.erase hw "methods"
        refine same_map_overlay hv (Fields.wellFormed_iff.mp hkept).1 fun k u hu => ?_
        rw [withoutMethods, Fields.get?_erase] at hu
        split at hu
        · cases hu
        · obtain ⟨x, hx, hsame⟩ := Value.exists_of_same_map hv h hu
          have hxw : x.WellFormed := Fields.WellFormed.get? hv hx
          have huw : u.WellFormed := Fields.WellFormed.get? hw hu
          exact ⟨x, hx, same_overlayValue u huw hxw hsame⟩
      | _ => cases h
    · exact ⟨v, rfl, Value.same_self v hv⟩
  | _ => exact ⟨v, rfl, Value.same_self v hv⟩

end Metadata
end ApiSync
