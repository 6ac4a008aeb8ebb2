import ApiSync.Proofs.Fields.Assignment
/-!
# Overlays lose nothing but what is laid over

What an overlay holds under a key depends only on what both sides hold there.  From this one rule
follows what is found along every path of keys: the values on top, those below that nothing on top
reaches, and nothing else.  A mapping that already holds what is laid over it stays as it is, the
order of its entries included, so an overlay is absorbed when it is laid on a second time.

An entry for the parent is written only into a mapping that has one, and paths through that name
are left out of what is said about the values on top.
-/

namespace ApiSync

namespace Value

/-- What stands at the end of a path of keys. -/
def at? (v : Value) : List String → Option Value
  | [] => some v
  | k :: rest => (v.field? k).bind (at? · rest)

theorem at?_nil (v : Value) : at? v [] = some v := rfl

theorem at?_cons_map (fields : Fields) (k : String) (rest : List String) :
    at? (.map fields) (k :: rest) = (Fields.get? fields k).bind (at? · rest) := rfl

theorem at?_cons_of_get? {fields : Fields} {k : String} {v : Value}
    (h : Fields.get? fields k = some v) (rest : List String) :
    at? (.map fields) (k :: rest) = at? v rest := by
  rw [at?_cons_map, h, Option.bind_some]

/-- Only a mapping has anything below it. -/
theorem exists_of_at?_cons {v w : Value} {k : String} {rest : List String}
    (h : at? v (k :: rest) = some w) :
    ∃ fields u, v = .map fields ∧ Fields.get? fields k = some u ∧ at? u rest = some w := by
  cases v with
  | map fields =>
    obtain ⟨u, hu, hrest⟩ := Option.bind_eq_some_iff.mp h
    exact ⟨fields, u, rfl, hu, hrest⟩
  | _ => cases h

theorem exists_of_isMap {v : Value} (h : v.isMap = true) : ∃ fields, v = .map fields := by
  cases v with
  | map fields => exact ⟨fields, rfl⟩
  | _ => cases h

end Value

namespace Metadata

open Fields (WellFormed Takes get? keys assign)
open Value (at?)

/-! ## Key by key -/

/-- What a key holds when `above` is laid over `below`. -/
def laid (below above : Option Value) : Option Value :=
  match above with
  | none => below
  | some v => some (overlayValue below v)

/-- The mapping that an entry holds; anything else counts as an empty one. -/
def mapOf (v : Option Value) : Fields := (v.bind Value.asMap?).getD []

theorem mapOf_of_not_map {v : Option Value} (h : ∀ fields, v ≠ some (.map fields)) :
    mapOf v = [] := by
  cases v with
  | none => rfl
  | some w =>
    cases w with
    | map fields => exact absurd rfl (h fields)
    | _ => rfl

theorem overlayValue_none (v : Value) : overlayValue none v = v := by
  cases v <;> rfl

theorem overlayValue_of_not_map {v : Value} (h : v.isMap = false) (current : Option Value) :
    overlayValue current v = v := by
  cases v with
  | map upper => cases h
  | _ => rfl

/-- A mapping is laid over a mapping entry by entry and takes the place of anything else. -/
theorem overlayValue_map (current : Option Value) (upper : Fields) :
    overlayValue current (.map upper) = .map upper ∨
      ∃ base, current = some (.map base) ∧
        overlayValue current (.map upper) = .map (overlay base upper) := by
  cases current with
  | none => exact Or.inl rfl
  | some v =>
    cases v with
    | map base => exact Or.inr ⟨base, rfl, rfl⟩
    | _ => exact Or.inl rfl

theorem takes_overlay (upper base : Fields) (k : String) :
    Takes (overlay base upper) k ↔ Takes base k := by
  induction upper generalizing base with
  | nil => rw [overlay]
  | cons e rest ih =>
    obtain ⟨key, v⟩ := e
    rw [overlay, ih, Fields.takes_assign]

theorem get?_overlay_of_not_mem {upper : Fields} {k : String} (h : k ∉ keys upper)
    (base : Fields) : get? (overlay base upper) k = get? base k := by
  induction upper generalizing base with
  | nil => rw [overlay]
  | cons e rest ih =>
    obtain ⟨key, v⟩ := e
    obtain ⟨hne, hrest⟩ := List.ne_and_not_mem_of_not_mem_cons h
    rw [overlay, ih hrest, Fields.get?_assign_of_ne _ hne.symm]

theorem get?_overlay {upper base : Fields} (hd : (keys upper).Nodup) {k : String}
    (ht : Takes base k) : get? (overlay base upper) k = laid (get? base k) (get? upper k) := by
  induction upper generalizing base with
  | nil => rfl
  | cons e rest ih =>
    obtain ⟨key, v⟩ := e
    obtain ⟨hnew, hrest⟩ := List.nodup_cons.mp hd
    rw [overlay, Fields.get?_cons]
    by_cases hk : key = k
    · rw [hk] at hnew ⊢
      rw [get?_overlay_of_not_mem hnew, Fields.get?_assign_self ht, if_pos rfl, laid]
    · rw [ih hrest ((Fields.takes_assign base key _).mpr ht), Fields.get?_assign_of_ne _ hk,
        if_neg hk]

/-- A key that the mapping below does not take stays without an entry. -/
theorem get?_overlay_of_not_takes {upper base : Fields} {k : String} (ht : ¬Takes base k) :
    get? (overlay base upper) k = get? base k := by
  have hover : ¬Takes (overlay base upper) k := fun h => ht ((takes_overlay upper base k).mp h)
  rw [Fields.get?_of_not_takes ht, Fields.get?_of_not_takes hover]

/-- Laying entries over keys that are there leaves the keys in their places. -/
theorem keys_overlay_of_has {upper base : Fields}
    (h : ∀ k ∈ keys upper, Takes base k → Fields.has base k = true) :
    keys (overlay base upper) = keys base := by
  induction upper generalizing base with
  | nil => rw [overlay]
  | cons e rest ih =>
    obtain ⟨key, v⟩ := e
    rw [overlay, ih, Fields.keys_assign_of (h key List.mem_cons_self)]
    intro k hk ht
    rw [Fields.takes_assign] at ht
    exact Fields.has_assign_of_has _ (h k (List.mem_cons_of_mem _ hk) ht)

/-! ## What is already there -/

/-- A mapping that holds, under each key it takes, what comes of laying the entry over it stays
as it is. -/
theorem overlay_eq_self {upper base : Fields}
    (h : ∀ e ∈ upper, Takes base e.1 → get? base e.1 = some (overlayValue (get? base e.1) e.2)) :
    overlay base upper = base := by
  induction upper with
  | nil => rw [overlay]
  | cons e rest ih =>
    obtain ⟨k, v⟩ := e
    have hstay : assign base k (overlayValue (get? base k) v) = base := by
      by_cases ht : Takes base k
      · exact Fields.assign_of_get? (h (k, v) List.mem_cons_self ht)
      · exact Fields.assign_of_not_takes ht _
    rw [overlay, hstay, ih fun d hd => h d (List.mem_cons_of_mem _ hd)]

/-- The converse, with one entry for each key on top. -/
theorem get?_of_overlay_eq_self {upper base : Fields} (hd : (keys upper).Nodup)
    (h : overlay base upper = base) {k : String} {v : Value} (hv : get? upper k = some v)
    (ht : Takes base k) : get? base k = some (overlayValue (get? base k) v) := by
  have hget := get?_overlay hd ht
  rwa [h, hv, laid] at hget

mutual

/-- Laying a value on a second time changes nothing. -/
theorem overlayValue_overlayValue (v : Value) (hv : v.WellFormed) (current : Option Value) :
    overlayValue (some (overlayValue current v)) v = overlayValue current v := by
  cases v with
  | map upper =>
    rw [Value.WellFormed] at hv
    have hentries := overlayValue_entries upper hv.2
    have hfound (e : String × Value) (he : e ∈ upper) : get? upper e.1 = some e.2 :=
      Fields.get?_of_mem hv.1 he
    rcases overlayValue_map current upper with h | ⟨base, -, h⟩
    · rw [h, overlayValue, overlay_eq_self]
      intro e he _
      have hself := hentries e he none
      rw [overlayValue_none] at hself
      rw [hfound e he, hself]
    · rw [h, overlayValue, overlay_eq_self]
      intro e he ht
      rw [takes_overlay] at ht
      rw [get?_overlay hv.1 ht, hfound e he, laid, hentries e he]
  | _ => rfl

theorem overlayValue_entries (upper : Fields) (hu : Value.WellFormedEntries upper) :
    ∀ e ∈ upper, ∀ current,
      overlayValue (some (overlayValue current e.2)) e.2 = overlayValue current e.2 := by
  cases upper with
  | nil => exact fun _ he => absurd he List.not_mem_nil
  | cons d rest =>
    obtain ⟨k, v⟩ := d
    rw [Value.WellFormedEntries] at hu
    intro e he current
    rcases List.mem_cons.mp he with rfl | hr
    · exact overlayValue_overlayValue v hu.1 current
    · exact overlayValue_entries rest hu.2 e hr current

end

theorem overlay_overlay {upper : Fields} (h : WellFormed upper) (base : Fields) :
    overlay (overlay base upper) upper = overlay base upper :=
  Value.map.inj (overlayValue_overlayValue (.map upper) h (some (.map base)))

theorem overlay_self {fields : Fields} (h : WellFormed fields) : overlay fields fields = fields :=
  Value.map.inj (overlayValue_overlayValue (.map fields) h none)

/-! ## Along paths -/

theorem at?_overlayValue_of_above {path : List String} {w v : Value} (hw : w.WellFormed)
    (hpath : Ambient.parentName ∉ path) (hat : at? w path = some v) (hv : v.isMap = false)
    (current : Option Value) : at? (overlayValue current w) path = some v := by
  induction path generalizing w current with
  | nil =>
    obtain rfl : w = v := Option.some.inj hat
    rw [overlayValue_of_not_map hv, Value.at?_nil]
  | cons k rest ih =>
    obtain ⟨upper, u, rfl, hu, hrest⟩ := Value.exists_of_at?_cons hat
    rcases overlayValue_map current upper with h | ⟨base, -, h⟩
    · rw [h, hat]
    · have ht : Takes base k := Fields.takes_of_ne (List.ne_of_not_mem_cons hpath).symm
      have hget : get? (overlay base upper) k = some (overlayValue (get? base k) u) := by
        rw [get?_overlay (Fields.wellFormed_iff.mp hw).1 ht, hu, laid]
      have huw : u.WellFormed := Fields.WellFormed.get? hw hu
      rw [h, Value.at?_cons_of_get? hget]
      exact ih huw (List.not_mem_of_not_mem_cons hpath) hrest _

/-- On the way to the end of the path, and at the end, `v` holds mappings or nothing. -/
def OnlyMapsAlong (v : Value) (path : List String) : Prop :=
  ∀ before w, before <+: path → at? v before = some w → w.isMap = true

theorem OnlyMapsAlong.map {v : Value} {path : List String} (h : OnlyMapsAlong v path) :
    ∃ fields, v = .map fields :=
  Value.exists_of_isMap (h [] v (List.nil_prefix) rfl)

theorem OnlyMapsAlong.rest {fields : Fields} {k : String} {u : Value} {rest : List String}
    (h : OnlyMapsAlong (.map fields) (k :: rest)) (hu : get? fields k = some u) :
    OnlyMapsAlong u rest := fun before w hbefore hw =>
  h (k :: before) w (List.cons_prefix_cons.mpr ⟨rfl, hbefore⟩)
    ((Value.at?_cons_of_get? hu before).trans hw)

/-- Where mappings alone come from above, what is below is found again: the value itself if
nothing from above reaches it, and else a mapping. -/
theorem at?_overlayValue_of_below {path : List String} {c w v : Value} (hw : w.WellFormed)
    (hat : at? c path = some v) (hmaps : OnlyMapsAlong w path) :
    (at? w path = none → at? (overlayValue (some c) w) path = some v) ∧
      (v.isMap = true → ∃ fields, at? (overlayValue (some c) w) path = some (.map fields)) := by
  induction path generalizing c w with
  | nil =>
    obtain rfl : c = v := Option.some.inj hat
    obtain ⟨upper, rfl⟩ := hmaps.map
    refine ⟨fun hnone => (nomatch hnone), fun hmap => ?_⟩
    obtain ⟨base, rfl⟩ := Value.exists_of_isMap hmap
    exact ⟨overlay base upper, rfl⟩
  | cons k rest ih =>
    obtain ⟨base, u, rfl, hu, hrest⟩ := Value.exists_of_at?_cons hat
    obtain ⟨upper, rfl⟩ := hmaps.map
    have ht : Takes base k := Fields.takes_of_has (Fields.has_of_get? hu)
    have hget := get?_overlay (Fields.wellFormed_iff.mp hw).1 ht
    rw [hu] at hget
    rw [overlayValue]
    cases habove : get? upper k with
    | none =>
      rw [habove, laid] at hget
      rw [Value.at?_cons_of_get? hget]
      refine ⟨fun _ => hrest, fun hmap => ?_⟩
      obtain ⟨fields, rfl⟩ := Value.exists_of_isMap hmap
      exact ⟨fields, hrest⟩
    | some x =>
      rw [habove, laid] at hget
      rw [Value.at?_cons_of_get? hget, Value.at?_cons_of_get? habove]
      exact ih (Fields.WellFormed.get? hw habove) hrest (hmaps.rest habove)

/-- Every path of an overlay is one of its two sides. -/
theorem exists_of_at?_overlayValue {path : List String} {w v : Value} {current : Option Value}
    (hw : w.WellFormed) (hat : at? (overlayValue current w) path = some v) :
    (∃ u, at? w path = some u) ∨ ∃ c u, current = some c ∧ at? c path = some u := by
  induction path generalizing w current with
  | nil => exact Or.inl ⟨w, rfl⟩
  | cons k rest ih =>
    by_cases hmap : w.isMap = true
    · obtain ⟨upper, rfl⟩ := Value.exists_of_isMap hmap
      rcases overlayValue_map current upper with h | ⟨base, hcurrent, h⟩
      · exact Or.inl ⟨v, h ▸ hat⟩
      · rw [h] at hat
        obtain ⟨united, x, hunited, hx, hrest⟩ := Value.exists_of_at?_cons hat
        rw [← Value.map.inj hunited] at hx
        by_cases ht : Takes base k
        · rw [get?_overlay (Fields.wellFormed_iff.mp hw).1 ht] at hx
          cases habove : get? upper k with
          | none =>
            rw [habove, laid] at hx
            exact Or.inr ⟨_, v, hcurrent, (Value.at?_cons_of_get? hx rest).trans hrest⟩
          | some y =>
            rw [habove, laid] at hx
            obtain rfl := Option.some.inj hx
            rcases ih (Fields.WellFormed.get? hw habove) hrest with ⟨u, hu⟩ | ⟨c, u, hc, hu⟩
            · exact Or.inl ⟨u, (Value.at?_cons_of_get? habove rest).trans hu⟩
            · exact Or.inr ⟨_, u, hcurrent, (Value.at?_cons_of_get? hc rest).trans hu⟩
        · rw [get?_overlay_of_not_takes ht, Fields.get?_of_not_takes ht] at hx
          cases hx
    · rw [overlayValue_of_not_map (by simpa using hmap)] at hat
      exact Or.inl ⟨v, hat⟩

/-! ## The union -/

/-- A union of two mappings that loses nothing and prefers what lies on top. -/
structure LosslessUnion (base upper united : Fields) : Prop where
  /-- A value on top that is no mapping is found unchanged. -/
  above : ∀ path v, Ambient.parentName ∉ path → at? (.map upper) path = some v →
    v.isMap = false → at? (.map united) path = some v
  /-- A value below that is no mapping is found unchanged, unless the path holds anything on top
  or leads through anything on top that is no mapping. -/
  below : ∀ path v, at? (.map base) path = some v → v.isMap = false →
    at? (.map upper) path = none →
    (∀ before w, before <+: path → before ≠ path → at? (.map upper) before = some w →
      w.isMap = true) → at? (.map united) path = some v
  /-- A mapping below stays one, unless something that is no mapping stands on top there or on the
  way. -/
  mapping : ∀ path fields, at? (.map base) path = some (.map fields) →
    (∀ before w, before <+: path → at? (.map upper) before = some w → w.isMap = true) →
    ∃ others, at? (.map united) path = some (.map others)
  /-- Each path is one of the two sides. -/
  nothing_new : ∀ path v, at? (.map united) path = some v →
    (∃ u, at? (.map upper) path = some u) ∨ ∃ u, at? (.map base) path = some u

theorem losslessUnion_overlay {upper : Fields} (hu : WellFormed upper) (base : Fields) :
    LosslessUnion base upper (overlay base upper) where
  above _ _ hpath hat hv := at?_overlayValue_of_above hu hpath hat hv (some (.map base))
  below path v hat hv hnone hmaps := by
    refine (at?_overlayValue_of_below hu hat fun before w hbefore hw => ?_).1 hnone
    refine hmaps before w hbefore (fun heq => ?_) hw
    rw [heq, hnone] at hw
    cases hw
  mapping path fields hat hmaps := (at?_overlayValue_of_below hu hat hmaps).2 rfl
  nothing_new path v hat := by
    have hlaid : at? (overlayValue (some (.map base)) (.map upper)) path = some v := hat
    rcases exists_of_at?_overlayValue hu hlaid with h | ⟨c, u, hc, h⟩
    · exact Or.inl h
    · obtain rfl := Option.some.inj hc
      exact Or.inr ⟨u, h⟩

theorem same_overlay_nil {upper : Fields} (hu : WellFormed upper)
    (hparent : get? upper Ambient.parentName = none) :
    Value.same (.map (overlay [] upper)) (.map upper) = true := by
  have hf := Fields.wellFormed_iff.mp hu
  refine Value.same_of_get? (wellFormed_overlay upper Fields.wellFormed_nil hf.2) hf.1 fun k => ?_
  by_cases hk : k = Ambient.parentName
  · have ht : ¬Takes ([] : Fields) k := fun h => Bool.false_ne_true (h hk)
    rw [get?_overlay_of_not_takes ht, hk, hparent, Fields.get?_nil]
  · rw [get?_overlay hf.1 (Fields.takes_of_ne hk), Fields.get?_nil]
    cases hv : get? upper k with
    | none => rfl
    | some v => rw [laid, overlayValue_none]

/-- An overlay is the lossless union of its sides in favour of the upper one.  The empty mapping
changes nothing on either side, a mapping is absorbed by itself, and an overlay by what was laid
on top. -/
theorem overlay_lossless {base upper : Fields} (hb : WellFormed base) (hu : WellFormed upper) :
    LosslessUnion base upper (overlay base upper) ∧
      Value.same (.map (overlay base [])) (.map base) = true ∧
      (get? upper Ambient.parentName = none →
        Value.same (.map (overlay [] upper)) (.map upper) = true) ∧
      Value.same (.map (overlay base base)) (.map base) = true ∧
      Value.same (.map (overlay (overlay base upper) upper)) (.map (overlay base upper)) =
        true := by
  have hunited : WellFormed (overlay base upper) :=
    wellFormed_overlay upper hb (Fields.wellFormed_iff.mp hu).2
  refine ⟨losslessUnion_overlay hu base, ?_, same_overlay_nil hu, ?_, ?_⟩
  · rw [overlay]
    exact Value.same_self _ hb
  · rw [overlay_self hb]
    exact Value.same_self _ hb
  · rw [overlay_overlay hu]
    exact Value.same_self _ hunited

/-- A nested mapping meets a mapping, a text and nothing. -/
def layeredBase : Fields :=
  [("info", .map [("title", .str "Items"), ("contact", .map [("name", .str "Support")])]),
    ("tags", .list [.str "a"])]

def layeredUpper : Fields :=
  [("info", .map [("contact", .str "none"), ("version", .str "2")]), ("servers", .map [])]

theorem overlay_lossless_of_layers :
    WellFormed layeredBase ∧ WellFormed layeredUpper ∧
      LosslessUnion layeredBase layeredUpper
        [("info", .map [("title", .str "Items"), ("contact", .str "none"), ("version", .str "2")]),
          ("tags", .list [.str "a"]), ("servers", .map [])] := by
  have hb : WellFormed layeredBase := by
    simp [layeredBase, WellFormed, Value.WellFormed, Value.WellFormedEntries,
      Value.WellFormedItems, keys]
  have hu : WellFormed layeredUpper := by
    simp [layeredUpper, WellFormed, Value.WellFormed, Value.WellFormedEntries, keys]
  exact ⟨hb, hu, (overlay_lossless hb hu).1⟩

end Metadata
end ApiSync
