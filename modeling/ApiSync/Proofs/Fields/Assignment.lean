import ApiSync.Proofs.Equality
import ApiSync.Proofs.Metadata.WellFormed
/-!
# What assignment writes

Plain assignment writes an entry under every key but one: a mapping without an entry for its
parent does not take one.  Whether it takes a key does not change by assigning, so what a series
of assignments leaves can be said key by key, and a mapping is known by its keys in their order
and by what is read under them.
-/

namespace ApiSync
namespace Fields

variable {α : Type}

/-- Assignment to the key writes an entry. -/
def Takes (fields : List (String × α)) (k : String) : Prop :=
  k = Ambient.parentName → has fields k = true

instance (fields : List (String × α)) (k : String) : Decidable (Takes fields k) :=
  inferInstanceAs (Decidable (k = Ambient.parentName → has fields k = true))

variable {fields : List (String × α)} {k : String}

theorem takes_of_has (h : has fields k = true) : Takes fields k := fun _ => h

theorem takes_of_ne (h : k ≠ Ambient.parentName) : Takes fields k := fun hk => absurd hk h

/-- A key that is not taken has no entry. -/
theorem get?_of_not_takes (h : ¬Takes fields k) : get? fields k = none := by
  cases hv : get? fields k with
  | none => rfl
  | some v => exact absurd (takes_of_has (has_of_get? hv)) h

theorem assign_of_not_takes (h : ¬Takes fields k) (v : α) : assign fields k v = fields := by
  have hk : k = Ambient.parentName := Decidable.byContradiction fun hne => h (takes_of_ne hne)
  have hnone : has fields Ambient.parentName = false := by
    rw [has_eq_isSome, ← hk, get?_of_not_takes h]
    rfl
  rw [hk, assign_parent hnone]

theorem get?_assign_self (h : Takes fields k) (v : α) : get? (assign fields k v) k = some v := by
  rw [get?_assign h, if_pos rfl]

theorem has_assign_of_has {key : String} (v : α) (h : has fields k = true) :
    has (assign fields key v) k = true := by
  by_cases ht : Takes fields key
  · rw [assign_eq_set ht, has_set, h, Bool.or_true]
  · rw [assign_of_not_takes ht]
    exact h

theorem takes_assign (fields : List (String × α)) (key : String) (v : α) :
    Takes (assign fields key v) k ↔ Takes fields k := by
  constructor
  · intro h hk
    by_cases ht : Takes fields key
    · have hhas := h hk
      rw [assign_eq_set ht, has_set, Bool.or_eq_true, decide_eq_true_eq] at hhas
      rcases hhas with rfl | hhas
      · exact ht hk
      · exact hhas
    · rw [assign_of_not_takes ht] at h
      exact h hk
  · exact fun h hk => has_assign_of_has v (h hk)

/-- Assigning to a key that is there, or not taken, leaves the keys in their places. -/
theorem keys_assign_of (h : Takes fields k → has fields k = true) (v : α) :
    keys (assign fields k v) = keys fields := by
  by_cases ht : Takes fields k
  · rw [assign_eq_set ht, keys_set_of_has (h ht)]
  · rw [assign_of_not_takes ht]

theorem nodup_keys_assign (h : (keys fields).Nodup) (k : String) (v : α) :
    (keys (assign fields k v)).Nodup := by
  by_cases ht : Takes fields k
  · rw [assign_eq_set ht]
    exact nodup_keys_set h k v
  · rw [assign_of_not_takes ht]
    exact h

/-! ## Assigning twice, and the keys that stay -/

theorem replace_append_of_new (h : has fields k = false) (v : α) (rest : List (String × α)) :
    replace k v (fields ++ rest) = fields ++ replace k v rest := by
  induction fields with
  | nil => rfl
  | cons e fields ih =>
    obtain ⟨hne, hrest⟩ : decide (e.1 = k) = false ∧ has fields k = false := by
      simpa only [has, List.any_cons, Bool.or_eq_false_iff] using h
    rw [List.cons_append, replace, if_neg (of_decide_eq_false hne), ih hrest]
    rfl

theorem replace_replace (fields : List (String × α)) (k : String) (v w : α) :
    replace k w (replace k v fields) = replace k w fields := by
  induction fields with
  | nil => rfl
  | cons e fields ih =>
    by_cases he : e.1 = k
    · rw [replace, if_pos he, replace, if_pos rfl, replace, if_pos he]
    · rw [replace, if_neg he, replace, if_neg he, replace, if_neg he, ih]

theorem replace_place (h : has fields k = false) (v w : α) :
    replace k w (place k v fields) = place k w fields := by
  have hself (rest : List (String × α)) : replace k w ((k, v) :: rest) = (k, w) :: rest := by
    rw [replace, if_pos rfl]
  unfold place
  split
  · rw [replace_append_of_new h, hself]
  · next n _ =>
    have hfirst : has (fields.takeWhile fun e => !indexBefore n e.1) k = false := by
      rw [has, List.any_eq_false] at h ⊢
      exact fun e he => h e ((List.takeWhile_sublist _).subset he)
    rw [replace_append_of_new hfirst, hself]

theorem set_set (fields : List (String × α)) (k : String) (v w : α) :
    set (set fields k v) k w = set fields k w := by
  have hhas : has (set fields k v) k = true := by rw [has_set, decide_eq_true rfl, Bool.true_or]
  rw [set, if_pos hhas, set, set]
  split
  · exact replace_replace fields k v w
  · next h => exact replace_place (Bool.not_eq_true _ ▸ h) v w

theorem assign_assign (fields : List (String × α)) (k : String) (v w : α) :
    assign (assign fields k v) k w = assign fields k w := by
  by_cases ht : Takes fields k
  · rw [assign_eq_set ((takes_assign fields k v).mpr ht), assign_eq_set ht, assign_eq_set ht,
      set_set]
  · rw [assign_of_not_takes ht v]

theorem keys_sublist_set (fields : List (String × α)) (k : String) (v : α) :
    (keys fields).Sublist (keys (set fields k v)) := by
  rw [set]
  split
  · simp only [keys_replace, List.Sublist.refl]
  · rw [place]
    split
    · exact (List.sublist_append_left fields _).map Prod.fst
    · next n _ =>
      have hsplit : fields = fields.takeWhile (fun e => !indexBefore n e.1) ++
          fields.dropWhile (fun e => !indexBefore n e.1) := List.takeWhile_append_dropWhile.symm
      refine List.Sublist.map Prod.fst ?_
      conv => lhs; rw [hsplit]
      exact (List.sublist_cons_self _ _).append_left _

theorem keys_sublist_assign (fields : List (String × α)) (k : String) (v : α) :
    (keys fields).Sublist (keys (assign fields k v)) := by
  rw [assign]
  split
  · exact List.Sublist.refl _
  · exact keys_sublist_set fields k v

/-! ## Mappings with the same entries -/

theorem eq_of_keys_of_get? {a b : List (String × α)} (hkeys : keys a = keys b)
    (hd : (keys a).Nodup) (hget : ∀ k, get? a k = get? b k) : a = b := by
  induction a generalizing b with
  | nil =>
    cases b with
    | nil => rfl
    | cons e b => cases hkeys
  | cons d a ih =>
    cases b with
    | nil => cases hkeys
    | cons e b =>
      obtain ⟨hfirst, hrest⟩ : d.1 = e.1 ∧ keys a = keys b := List.cons.inj hkeys
      obtain ⟨hnew, hd⟩ := List.nodup_cons.mp hd
      have hvalue : d.2 = e.2 := by
        have := hget d.1
        rw [get?_cons, get?_cons, if_pos rfl, if_pos hfirst.symm] at this
        exact Option.some.inj this
      have htail : ∀ k, get? a k = get? b k := by
        intro k
        by_cases hk : d.1 = k
        · have hnone : k ∉ keys a := hk ▸ hnew
          rw [get?_eq_none_iff.mpr hnone, get?_eq_none_iff.mpr (hrest ▸ hnone)]
        · have := hget k
          rwa [get?_cons, get?_cons, if_neg hk, if_neg (hfirst ▸ hk)] at this
      rw [ih hrest hd htail, Prod.ext hfirst hvalue]

end Fields

namespace Value

/-- Mappings in which the same is read under each key are deeply equal, in whatever order their
entries stand. -/
theorem same_of_get? {a b : Fields} (ha : a.WellFormed) (hb : (Fields.keys b).Nodup)
    (h : ∀ k, Fields.get? a k = Fields.get? b k) : same (.map a) (.map b) = true := by
  have hf := Fields.wellFormed_iff.mp ha
  have hkeys : (Fields.keys a).Perm (Fields.keys b) := by
    refine (List.perm_ext_iff_of_nodup hf.1 hb).mpr fun k => ?_
    rw [← Decidable.not_iff_not, ← Fields.get?_eq_none_iff, ← Fields.get?_eq_none_iff, h]
  have hlength : a.length = b.length := by
    have := hkeys.length_eq
    rwa [Fields.keys, Fields.keys, List.length_map, List.length_map] at this
  have hfound : ∀ e ∈ a, Fields.get? b e.1 = some e.2 := fun e he => by
    rw [← h, Fields.get?_of_mem hf.1 he]
  rw [same, decide_eq_true hlength, Bool.true_and]
  exact sameFields_found a b (wellFormedEntries_iff.mpr hf.2) hfound

end Value
end ApiSync
