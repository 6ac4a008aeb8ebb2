import ApiSync.Ambient
/-!
# Reading and writing entries

A mapping is read through `Fields.get?`.  What each way of writing does is said by what a
later reading finds, and writing a value where it already stands changes nothing, the order
of the entries included.
-/

namespace ApiSync

namespace Ambient

/-- Only a name that every mapping answers to has an answer of its own. -/
theorem text?_eq_none {name : String} (h : isAmbient name = false) : text? name = none := by
  have hnot : name ∉ names := by simpa [isAmbient] using h
  obtain ⟨hconstructor, hparent, hfunction⟩ :
      name ≠ "constructor" ∧ name ≠ parentName ∧ name ∉ functionNames := by
    simpa [names] using hnot
  rw [text?, if_neg hconstructor, if_neg hparent, if_neg (by simpa using hfunction)]

end Ambient

namespace Fields

variable {α : Type}

theorem get?_nil (k : String) : get? ([] : List (String × α)) k = none := rfl

theorem get?_cons (e : String × α) (fields : List (String × α)) (k : String) :
    get? (e :: fields) k = if e.1 = k then some e.2 else get? fields k := by
  by_cases h : e.1 = k <;> simp [get?, h]

theorem has_eq_isSome (fields : List (String × α)) (k : String) :
    has fields k = (get? fields k).isSome := by
  induction fields with
  | nil => rfl
  | cons e rest ih =>
    rw [get?_cons]
    by_cases h : e.1 = k
    · rw [if_pos h]
      simp [has, h]
    · rw [if_neg h, ← ih]
      simp [has, h]

theorem has_of_get? {fields : List (String × α)} {k : String} {v : α}
    (h : get? fields k = some v) : has fields k = true := by
  rw [has_eq_isSome, h]
  rfl

theorem get?_eq_none_iff {fields : List (String × α)} {k : String} :
    get? fields k = none ↔ k ∉ keys fields := by
  induction fields with
  | nil => simp [get?_nil, keys]
  | cons e rest ih =>
    rw [get?_cons]
    by_cases h : e.1 = k
    · simp [h, keys]
    · rw [if_neg h, ih]
      simp [keys, Ne.symm h]

theorem mem_keys_iff_has {fields : List (String × α)} {k : String} :
    k ∈ keys fields ↔ has fields k = true := by
  rw [has_eq_isSome, Option.isSome_iff_ne_none, Ne, get?_eq_none_iff, Classical.not_not]

/-- With distinct keys every entry is found under its key. -/
theorem get?_of_mem {fields : List (String × α)} {e : String × α}
    (hd : (keys fields).Nodup) (he : e ∈ fields) : get? fields e.1 = some e.2 := by
  induction fields with
  | nil => simp at he
  | cons d rest ih =>
    have hd' : d.1 ∉ keys rest ∧ (keys rest).Nodup := List.nodup_cons.mp hd
    rw [get?_cons]
    rcases List.mem_cons.mp he with rfl | hr
    · rw [if_pos rfl]
    · have hne : d.1 ≠ e.1 := fun h => hd'.1 (h ▸ List.mem_map_of_mem hr)
      rw [if_neg hne]
      exact ih hd'.2 hr

theorem mem_of_get? {fields : List (String × α)} {k : String} {v : α}
    (h : get? fields k = some v) : (k, v) ∈ fields := by
  induction fields with
  | nil => simp [get?_nil] at h
  | cons e rest ih =>
    rw [get?_cons] at h
    by_cases hk : e.1 = k
    · rw [if_pos hk] at h
      have hv : e.2 = v := by simpa using h
      rw [← hk, ← hv]
      exact List.mem_cons_self
    · rw [if_neg hk] at h
      exact List.mem_cons_of_mem e (ih h)

/-- With distinct keys the order of the entries makes no difference. -/
theorem get?_perm {a b : List (String × α)} (hd : (keys a).Nodup) (h : a.Perm b) (k : String) :
    get? b k = get? a k := by
  have hkeys : (keys a).Perm (keys b) := h.map _
  cases hk : get? a k with
  | none =>
    rw [get?_eq_none_iff] at hk ⊢
    exact fun hmem => hk (hkeys.mem_iff.mpr hmem)
  | some v => exact get?_of_mem (hkeys.nodup_iff.mp hd) (h.mem_iff.mp (mem_of_get? hk))

theorem get?_map {β : Type} (g : String → α → β) (fields : List (String × α)) (k : String) :
    get? (fields.map fun e => (e.1, g e.1 e.2)) k = (get? fields k).map (g k) := by
  induction fields with
  | nil => rfl
  | cons e rest ih =>
    rw [List.map_cons, get?_cons, get?_cons, ih]
    by_cases h : e.1 = k
    · rw [if_pos h, if_pos h, ← h, Option.map_some]
    · rw [if_neg h, if_neg h]

/-! ## Writing what stands there -/

theorem replace_of_get? {fields : List (String × α)} {k : String} {v : α}
    (h : get? fields k = some v) : replace k v fields = fields := by
  induction fields with
  | nil => rfl
  | cons e rest ih =>
    rw [get?_cons] at h
    by_cases hk : e.1 = k
    · rw [if_pos hk] at h
      have hv : e.2 = v := by simpa using h
      rw [replace, if_pos hk, ← hk, ← hv]
    · rw [if_neg hk] at h
      rw [replace, if_neg hk, ih h]

theorem set_of_get? {fields : List (String × α)} {k : String} {v : α}
    (h : get? fields k = some v) : set fields k v = fields := by
  rw [set, if_pos (has_of_get? h), replace_of_get? h]

theorem assign_of_get? {fields : List (String × α)} {k : String} {v : α}
    (h : get? fields k = some v) : assign fields k v = fields := by
  rw [assign, has_of_get? h, set_of_get? h]
  simp

theorem has_set (fields : List (String × α)) (k : String) (v : α) (k' : String) :
    has (set fields k v) k' = (k = k' || has fields k') := by
  rw [has_eq_isSome, get?_set]
  by_cases hk : k = k'
  · rw [if_pos hk, decide_eq_true hk]
    rfl
  · rw [if_neg hk, decide_eq_false hk, Bool.false_or, has_eq_isSome]

/-! ## Entries after writing -/

theorem keys_replace (k : String) (v : α) (fields : List (String × α)) :
    keys (replace k v fields) = keys fields := by
  induction fields with
  | nil => rfl
  | cons e rest ih =>
    rw [replace]
    split
    · next h => simp [keys, h]
    · simpa [keys] using ih

theorem keys_set_of_has {fields : List (String × α)} {k : String} (h : has fields k = true)
    (v : α) : keys (set fields k v) = keys fields := by
  rw [set, if_pos h, keys_replace]

/-- A new key that spells no index comes last. -/
theorem keys_set_of_new {fields : List (String × α)} {k : String} (h : get? fields k = none)
    (hk : indexOf? k = none) (v : α) : keys (set fields k v) = keys fields ++ [k] := by
  have hnew : ¬has fields k = true := by rw [has_eq_isSome, h]; exact Bool.false_ne_true
  rw [set, if_neg hnew, place, hk]
  simp [keys]

theorem place_perm (k : String) (v : α) (fields : List (String × α)) :
    (place k v fields).Perm ((k, v) :: fields) := by
  unfold place
  split
  · exact List.perm_append_singleton _ _
  · refine List.perm_middle.trans (List.Perm.cons _ ?_)
    rw [List.takeWhile_append_dropWhile]

theorem mem_replace {k : String} {v : α} {fields : List (String × α)} {e : String × α}
    (h : e ∈ replace k v fields) : e = (k, v) ∨ e ∈ fields := by
  induction fields with
  | nil => exact absurd h List.not_mem_nil
  | cons d rest ih =>
    rw [replace] at h
    split at h
    · rcases List.mem_cons.mp h with rfl | hr
      · exact Or.inl rfl
      · exact Or.inr (List.mem_cons_of_mem d hr)
    · rcases List.mem_cons.mp h with rfl | hr
      · exact Or.inr List.mem_cons_self
      · exact (ih hr).imp_right (List.mem_cons_of_mem d)

theorem mem_set {fields : List (String × α)} {k : String} {v : α} {e : String × α}
    (h : e ∈ set fields k v) : e = (k, v) ∨ e ∈ fields := by
  rw [set] at h
  split at h
  · exact mem_replace h
  · exact List.mem_cons.mp ((place_perm k v fields).subset h)

theorem nodup_keys_set {fields : List (String × α)} (h : (keys fields).Nodup) (k : String)
    (v : α) : (keys (set fields k v)).Nodup := by
  rw [set]
  split
  · rw [keys_replace]
    exact h
  · next hhas =>
    rw [has_eq_isSome] at hhas
    have hk : k ∉ keys fields := get?_eq_none_iff.mp (Option.not_isSome_iff_eq_none.mp hhas)
    exact ((place_perm k v fields).map Prod.fst).nodup_iff.mpr (List.nodup_cons.mpr ⟨hk, h⟩)

/-- Every value in the mapping has the property. -/
def Each (P : α → Prop) (fields : List (String × α)) : Prop := ∀ e ∈ fields, P e.2

section Each

variable {P : α → Prop} {fields : List (String × α)} {k : String} {v : α}

theorem each_nil : Each P ([] : List (String × α)) := fun _ h => absurd h List.not_mem_nil

theorem Each.set (h : Each P fields) (k : String) (hv : P v) : Each P (set fields k v) := by
  intro e he
  rcases mem_set he with rfl | hold
  · exact hv
  · exact h e hold

theorem Each.assign (h : Each P fields) (k : String) (hv : P v) : Each P (assign fields k v) := by
  rw [Fields.assign]
  split
  · exact h
  · exact h.set k hv

theorem Each.get? (h : Each P fields) (hv : get? fields k = some v) : P v :=
  h (k, v) (mem_of_get? hv)

end Each

/-! ## Assignment and removal -/

/-- Assignment writes an entry under every name but the one that stands for the parent. -/
theorem assign_eq_set {fields : List (String × α)} {k : String}
    (h : k = Ambient.parentName → has fields k = true) (v : α) :
    assign fields k v = set fields k v := by
  by_cases hk : k = Ambient.parentName
  · simp [assign, h hk]
  · simp [assign, hk]

theorem answers_eq_has {fields : List (String × α)} {k : String}
    (h : Ambient.isAmbient k = false) : answers fields k = has fields k := by
  rw [answers, h, Bool.or_false]

theorem assign_eq_set_of_not_ambient {fields : List (String × α)} {k : String}
    (h : Ambient.isAmbient k = false) (v : α) : assign fields k v = set fields k v := by
  refine assign_eq_set (fun hk => ?_) v
  rw [hk] at h
  exact absurd h (by decide)

theorem get?_assign {fields : List (String × α)} {k : String}
    (h : k = Ambient.parentName → has fields k = true) (v : α) (k' : String) :
    get? (assign fields k v) k' = if k = k' then some v else get? fields k' := by
  rw [assign_eq_set h, get?_set]

theorem get?_assign_of_ne (fields : List (String × α)) {k k' : String} (h : k ≠ k') (v : α) :
    get? (assign fields k v) k' = get? fields k' := by
  rw [assign]
  split
  · rfl
  · rw [get?_set, if_neg h]

/-- Without an entry for the parent, assigning to it leaves the mapping as it is. -/
theorem assign_parent {fields : List (String × α)} (h : has fields Ambient.parentName = false)
    (v : α) : assign fields Ambient.parentName v = fields := by
  simp [assign, h]

theorem get?_erase (fields : List (String × α)) (k k' : String) :
    get? (erase fields k) k' = if k = k' then none else get? fields k' := by
  induction fields with
  | nil => simp [erase, get?_nil]
  | cons e rest ih =>
    by_cases he : e.1 = k
    · have hskip : erase (e :: rest) k = erase rest k := by simp [erase, he]
      rw [hskip, ih, get?_cons]
      by_cases hk : k = k'
      · rw [if_pos hk, if_pos hk]
      · rw [if_neg hk, if_neg hk, if_neg (by rw [he]; exact hk)]
    · have hkeep : erase (e :: rest) k = e :: erase rest k := by simp [erase, he]
      rw [hkeep, get?_cons, get?_cons, ih]
      by_cases hk : e.1 = k'
      · rw [if_pos hk, if_pos hk, if_neg (fun h => he (hk.trans h.symm))]
      · rw [if_neg hk, if_neg hk]

/-! ## What is gathered from the entries -/

section Gathered

variable {β : Type} {fields : List (String × α)} {k : String} {v : α}

theorem flatMap_replace (g : String × α → List β) {old : α} (h : get? fields k = some old)
    (hg : g (k, v) = g (k, old)) : (replace k v fields).flatMap g = fields.flatMap g := by
  induction fields with
  | nil => cases h
  | cons e rest ih =>
    rw [get?_cons] at h
    by_cases hk : e.1 = k
    · rw [if_pos hk] at h
      have he : e = (k, old) := Prod.ext hk (Option.some.inj h)
      rw [replace, if_pos hk, List.flatMap_cons, List.flatMap_cons, hg, he]
    · rw [if_neg hk] at h
      rw [replace, if_neg hk, List.flatMap_cons, List.flatMap_cons, ih h]

theorem flatMap_place (g : String × α → List β) (hg : g (k, v) = []) :
    (place k v fields).flatMap g = fields.flatMap g := by
  rw [place]
  split
  · rw [List.flatMap_append, List.flatMap_singleton, hg, List.append_nil]
  · rw [List.flatMap_append, List.flatMap_cons, hg, List.nil_append, ← List.flatMap_append,
      List.takeWhile_append_dropWhile]

/-- What is gathered from the entries one by one stays if the entry that is written adds what
stood there before. -/
theorem flatMap_assign (g : String × α → List β)
    (hg : g (k, v) = ((get? fields k).map fun old => g (k, old)).getD []) :
    (assign fields k v).flatMap g = fields.flatMap g := by
  rw [assign]
  split
  · rfl
  · rw [set, has_eq_isSome]
    cases hold : get? fields k with
    | some old =>
      rw [hold] at hg
      exact flatMap_replace g hold hg
    | none =>
      rw [hold] at hg
      exact flatMap_place g hg

end Gathered

end Fields

namespace Value

theorem fieldsAt_of_get? {fields inner : Fields} {k : String}
    (h : Fields.get? fields k = some (.map inner)) : fieldsAt fields k = inner := by
  simp [fieldsAt, h, asMap?]

/-- Only a mapping has entries. -/
theorem get?_of_fieldsAt_ne_nil {fields : Fields} {k : String} (h : fieldsAt fields k ≠ []) :
    Fields.get? fields k = some (.map (fieldsAt fields k)) := by
  rw [fieldsAt] at h
  cases hv : Fields.get? fields k with
  | none => exact absurd (by rw [hv]; rfl) h
  | some v =>
    cases v with
    | map inner => rw [fieldsAt_of_get? hv]
    | _ => exact absurd (by rw [hv]; rfl) h

theorem get?_of_fieldsAt {fields : Fields} {k k' : String} {v : Value}
    (h : Fields.get? (fieldsAt fields k) k' = some v) :
    Fields.get? fields k = some (.map (fieldsAt fields k)) := by
  refine get?_of_fieldsAt_ne_nil fun hnil => ?_
  rw [hnil] at h
  cases h

theorem fieldsAt_set (fields : Fields) (k : String) (inner : Fields) (k' : String) :
    fieldsAt (Fields.set fields k (.map inner)) k' =
      if k = k' then inner else fieldsAt fields k' := by
  by_cases hk : k = k'
  · rw [if_pos hk]
    exact fieldsAt_of_get? (by rw [Fields.get?_set, if_pos hk])
  · rw [if_neg hk, fieldsAt, Fields.get?_set, if_neg hk, fieldsAt]

end Value
end ApiSync
