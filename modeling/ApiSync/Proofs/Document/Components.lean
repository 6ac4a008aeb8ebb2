import ApiSync.Document.Components
import ApiSync.Proofs.Document.Operations
import ApiSync.Proofs.Equality
/-!
# Writing and removing component schemas

`write_cases` and `remove_cases` say how each of the two steps of a synchronisation can end, and all
else on the steps follows from them.  A name that no mapping answers to by itself is written if the
schema differs from the one in place, and removed if there is one.
-/

namespace ApiSync

/-- A state that every step leaves alone is where the run ends. -/
theorem foldl_eq_self {σ β : Type} {f : σ → β → σ} {s : σ} :
    ∀ {steps : List β}, (∀ b ∈ steps, f s b = s) → steps.foldl f s = s
  | [], _ => rfl
  | b :: rest, h => by
    rw [List.foldl_cons, h b List.mem_cons_self]
    exact foldl_eq_self fun c hc => h c (List.mem_cons_of_mem b hc)

namespace Document
namespace ComponentSync

/-- The ways in which the writing of a schema ends, each with the state it leaves. -/
inductive Writing (s : ComponentSync) (name : String) (v : Value) : Prop
  | stopped (hfailure : s.failure ≠ none) (heq : s.write (name, v) = s)
  | held (hholds : (Found.inFields s.schemas name).holds v = true) (heq : s.write (name, v) = s)
  | refused {f : Failure} (hholds : (Found.inFields s.schemas name).holds v = false)
      (hwritten : (Found.inFields s.schemas name).written = .error f)
      (heq : s.write (name, v) = { s with failure := some f })
  | put {before : Option Value} {events : List Event} (hfailure : s.failure = none)
      (hholds : (Found.inFields s.schemas name).holds v = false)
      (hwritten : (Found.inFields s.schemas name).written = .ok before)
      (heq : s.write (name, v) =
        { s with
          schemas := Fields.assign s.schemas name v
          updated := s.updated ++ [name]
          events := s.events ++ events })

/-- The ways in which the removal of a schema ends, each with the state it leaves. -/
inductive Removal (s : ComponentSync) (name : String) : Prop
  | stopped (hfailure : s.failure ≠ none) (heq : s.remove name = s)
  | absent (hanswers : Fields.answers s.schemas name = false) (heq : s.remove name = s)
  | refused {f : Failure} (hanswers : Fields.answers s.schemas name = true)
      (hwritten : (Found.inFields s.schemas name).written = .error f)
      (heq : s.remove name = { s with failure := some f })
  | erased {before : Option Value} {events : List Event} (hfailure : s.failure = none)
      (hanswers : Fields.answers s.schemas name = true)
      (hwritten : (Found.inFields s.schemas name).written = .ok before)
      (heq : s.remove name =
        { s with
          schemas := Fields.erase s.schemas name
          removed := s.removed ++ [name]
          events := s.events ++ events })

theorem write_cases (s : ComponentSync) (name : String) (v : Value) : Writing s name v := by
  by_cases hf : s.failure = none
  · cases hholds : (Found.inFields s.schemas name).holds v with
    | true => exact .held hholds (by simp [write, hholds])
    | false =>
      cases hwritten : (Found.inFields s.schemas name).written with
      | error f => exact .refused hholds hwritten (by simp [write, hf, hholds, hwritten])
      | ok before =>
        exact .put hf hholds hwritten (by
          simp only [write, hf, hholds, hwritten, Option.isSome_none, Bool.false_eq_true, if_false]
          rfl)
  · exact .stopped hf (by simp [write, Option.isSome_iff_ne_none.mpr hf])

theorem remove_cases (s : ComponentSync) (name : String) : Removal s name := by
  by_cases hf : s.failure = none
  · cases hanswers : Fields.answers s.schemas name with
    | false => exact .absent hanswers (by simp [remove, hanswers])
    | true =>
      cases hwritten : (Found.inFields s.schemas name).written with
      | error f => exact .refused hanswers hwritten (by simp [remove, hf, hanswers, hwritten])
      | ok before =>
        exact .erased hf hanswers hwritten (by
          simp only [remove, hf, hanswers, hwritten, Option.isSome_none, Bool.not_true,
            Bool.or_self, Bool.false_eq_true, if_false]
          rfl)
  · exact .stopped hf (by simp [remove, Option.isSome_iff_ne_none.mpr hf])

variable {s : ComponentSync} {name : String}

/-- Writing removes nothing. -/
theorem removed_write (s : ComponentSync) (component : String × Value) :
    (s.write component).removed = s.removed := by
  cases write_cases s component.1 component.2 with
  | stopped _ heq | held _ heq | refused _ _ heq | put _ _ _ heq => rw [heq]

theorem write_of_same (v : Value) (h : Ambient.isAmbient name = false)
    (hs : Value.sameOption (Fields.get? s.schemas name) (some v) = true) :
    s.write (name, v) = s := by
  rw [← holds_inFields v (Fields.isSome_of_ambient h)] at hs
  cases write_cases s name v with
  | stopped _ heq | held _ heq => exact heq
  | refused hholds | put _ hholds =>
    rw [hs] at hholds
    cases hholds

theorem write_of_not_same (v : Value) (hf : s.failure = none)
    (h : Ambient.isAmbient name = false)
    (hs : Value.sameOption (Fields.get? s.schemas name) (some v) = false) :
    ∃ events, s.write (name, v) =
      { s with
        schemas := Fields.set s.schemas name v
        updated := s.updated ++ [name]
        events := s.events ++ events } := by
  rw [← holds_inFields v (Fields.isSome_of_ambient h)] at hs
  cases write_cases s name v with
  | stopped hfailure => exact absurd hf hfailure
  | held hholds =>
    rw [hs] at hholds
    cases hholds
  | refused _ hwritten =>
    rw [written_inFields (Fields.isSome_of_ambient h)] at hwritten
    cases hwritten
  | put _ _ _ heq =>
    rw [Fields.assign_eq_set_of_not_ambient h] at heq
    exact ⟨_, heq⟩

theorem write_failure (v : Value) (hf : s.failure = none) (h : Ambient.isAmbient name = false) :
    (s.write (name, v)).failure = none := by
  cases hs : Value.sameOption (Fields.get? s.schemas name) (some v) with
  | true => rw [write_of_same v h hs]; exact hf
  | false =>
    obtain ⟨events, heq⟩ := write_of_not_same v hf h hs
    rw [heq]
    exact hf

theorem get?_write_of_ne (v : Value) (hf : s.failure = none) (h : Ambient.isAmbient name = false)
    {k : String} (hk : name ≠ k) :
    Fields.get? (s.write (name, v)).schemas k = Fields.get? s.schemas k := by
  cases hs : Value.sameOption (Fields.get? s.schemas name) (some v) with
  | true => rw [write_of_same v h hs]
  | false =>
    obtain ⟨events, heq⟩ := write_of_not_same v hf h hs
    rw [heq, Fields.get?_set, if_neg hk]

/-- After a step the schema in place is the one that was to be written, in some order of keys. -/
theorem sameOption_get?_write (v : Value) (hf : s.failure = none)
    (h : Ambient.isAmbient name = false) (hv : v.WellFormed) :
    Value.sameOption (Fields.get? (s.write (name, v)).schemas name) (some v) = true := by
  cases hs : Value.sameOption (Fields.get? s.schemas name) (some v) with
  | true => rw [write_of_same v h hs]; exact hs
  | false =>
    obtain ⟨events, heq⟩ := write_of_not_same v hf h hs
    rw [heq, Fields.get?_set, if_pos rfl]
    exact Value.same_self v hv

theorem remove_of_absent (h : Ambient.isAmbient name = false)
    (hn : Fields.get? s.schemas name = none) : s.remove name = s := by
  have hno : Fields.answers s.schemas name = false := by
    rw [Fields.answers_eq_has h, Fields.has_eq_isSome, hn]
    rfl
  cases remove_cases s name with
  | stopped _ heq | absent _ heq => exact heq
  | refused hanswers | erased _ hanswers =>
    rw [hno] at hanswers
    cases hanswers

theorem remove_of_present (hf : s.failure = none) (h : Ambient.isAmbient name = false)
    (hn : Fields.get? s.schemas name ≠ none) :
    ∃ events, s.remove name =
      { s with
        schemas := Fields.erase s.schemas name
        removed := s.removed ++ [name]
        events := s.events ++ events } := by
  cases remove_cases s name with
  | stopped hfailure => exact absurd hf hfailure
  | absent hanswers =>
    rw [Fields.answers_eq_has h, Fields.has_eq_isSome] at hanswers
    exact absurd (Option.not_isSome_iff_eq_none.mp (Bool.eq_false_iff.mp hanswers)) hn
  | refused _ hwritten =>
    rw [written_inFields (Fields.isSome_of_ambient h)] at hwritten
    cases hwritten
  | erased _ _ _ heq => exact ⟨_, heq⟩

theorem remove_failure (hf : s.failure = none) (h : Ambient.isAmbient name = false) :
    (s.remove name).failure = none := by
  by_cases hn : Fields.get? s.schemas name = none
  · rw [remove_of_absent h hn]
    exact hf
  · obtain ⟨events, heq⟩ := remove_of_present hf h hn
    rw [heq]
    exact hf

theorem get?_remove (hf : s.failure = none) (h : Ambient.isAmbient name = false) (k : String) :
    Fields.get? (s.remove name).schemas k =
      if name = k then none else Fields.get? s.schemas k := by
  by_cases hn : Fields.get? s.schemas name = none
  · rw [remove_of_absent h hn]
    by_cases hk : name = k
    · rw [if_pos hk, ← hk, hn]
    · rw [if_neg hk]
  · obtain ⟨events, heq⟩ := remove_of_present hf h hn
    rw [heq, Fields.get?_erase]

/-! ## Whole runs -/

theorem foldl_write_failure {components : Fields} (hf : s.failure = none)
    (h : ∀ c ∈ components, Ambient.isAmbient c.1 = false) :
    (components.foldl write s).failure = none := by
  induction components generalizing s with
  | nil => exact hf
  | cons c rest ih =>
    rw [List.foldl_cons]
    exact ih (write_failure c.2 hf (h c List.mem_cons_self)) fun d hd =>
      h d (List.mem_cons_of_mem c hd)

theorem get?_foldl_write_of_not_mem {components : Fields} (hf : s.failure = none)
    (h : ∀ c ∈ components, Ambient.isAmbient c.1 = false) {k : String}
    (hk : k ∉ Fields.keys components) :
    Fields.get? (components.foldl write s).schemas k = Fields.get? s.schemas k := by
  induction components generalizing s with
  | nil => rfl
  | cons c rest ih =>
    have hc := h c List.mem_cons_self
    have hne : c.1 ≠ k := fun e => hk (e ▸ List.mem_cons_self)
    rw [List.foldl_cons, ih (write_failure c.2 hf hc) (fun d hd => h d (List.mem_cons_of_mem c hd))
      (fun hr => hk (List.mem_cons_of_mem c.1 hr))]
    exact get?_write_of_ne c.2 hf hc hne

/-- With distinct names no later write undoes an earlier one. -/
theorem sameOption_get?_foldl_write {components : Fields} (hf : s.failure = none)
    (h : ∀ c ∈ components, Ambient.isAmbient c.1 = false)
    (hd : (Fields.keys components).Nodup) (hw : Value.WellFormedEntries components) :
    ∀ c ∈ components,
      Value.sameOption (Fields.get? (components.foldl write s).schemas c.1) (some c.2) = true := by
  induction components generalizing s with
  | nil => intro c hc; exact absurd hc List.not_mem_nil
  | cons c rest ih =>
    obtain ⟨name, v⟩ := c
    have hname := h (name, v) List.mem_cons_self
    have hrest : ∀ d ∈ rest, Ambient.isAmbient d.1 = false :=
      fun d hd => h d (List.mem_cons_of_mem _ hd)
    have hd' : name ∉ Fields.keys rest ∧ (Fields.keys rest).Nodup := List.nodup_cons.mp hd
    have hs := write_failure v hf hname
    rw [Value.WellFormedEntries] at hw
    intro d hmem
    rw [List.foldl_cons]
    rcases List.mem_cons.mp hmem with rfl | hr
    · rw [get?_foldl_write_of_not_mem hs hrest hd'.1]
      exact sameOption_get?_write v hf hname hw.1
    · exact ih hs hrest hd'.2 hw.2 d hr

theorem removed_foldl_write (components : Fields) (s : ComponentSync) :
    (components.foldl write s).removed = s.removed := by
  induction components generalizing s with
  | nil => rfl
  | cons component components ih => rw [List.foldl_cons, ih, removed_write]

theorem foldl_remove_failure {names : List String} (hf : s.failure = none)
    (h : ∀ n ∈ names, Ambient.isAmbient n = false) : (names.foldl remove s).failure = none := by
  induction names generalizing s with
  | nil => exact hf
  | cons n rest ih =>
    rw [List.foldl_cons]
    exact ih (remove_failure hf (h n List.mem_cons_self)) fun k hk =>
      h k (List.mem_cons_of_mem n hk)

theorem get?_foldl_remove {names : List String} (hf : s.failure = none)
    (h : ∀ n ∈ names, Ambient.isAmbient n = false) (k : String) :
    Fields.get? (names.foldl remove s).schemas k =
      if k ∈ names then none else Fields.get? s.schemas k := by
  induction names generalizing s with
  | nil => simp
  | cons n rest ih =>
    have hn := h n List.mem_cons_self
    rw [List.foldl_cons, ih (remove_failure hf hn) fun k hk => h k (List.mem_cons_of_mem n hk),
      get?_remove hf hn]
    by_cases hk : n = k
    · simp [hk]
    · simp [hk, Ne.symm hk]

end ComponentSync

theorem mem_sortNames {name : String} {names : List String} :
    name ∈ Text.sortNames names ↔ name ∈ names := by
  rw [Text.sortNames]
  exact List.mem_mergeSort

end Document
end ApiSync
