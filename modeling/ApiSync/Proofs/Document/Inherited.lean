import ApiSync.Proofs.Document.Operations
/-!
# Steps that reach for an inherited name

A step needs no assumption on its endpoint to leave the other operations alone.  If a look-up of
its method finds an inherited function, the merge stops; if the path or the method stands for
the parent of every mapping, the operation is written nowhere.
-/

namespace ApiSync

namespace Fields

variable {α : Type}

theorem has_assign_parent {fields : List (String × α)}
    (h : has fields Ambient.parentName = false) (k : String) (v : α) :
    has (assign fields k v) Ambient.parentName = false := by
  by_cases hk : k = Ambient.parentName
  · rw [hk, assign_parent h]
    exact h
  · rw [assign_eq_set (fun hp => absurd hp hk), has_set, h, decide_eq_false hk]
    rfl

end Fields

namespace Document

/-- Writing an entry that holds the same at the method changes no reading of the method. -/
theorem operationIn_assign {paths entry : Fields} {p path method : String}
    (h : p = path → Fields.get? entry method = operationIn paths path method) :
    operationIn (Fields.assign paths p (.map entry)) path method =
      operationIn paths path method := by
  rw [Fields.assign]
  split
  · rfl
  · rw [operationIn_set]
    by_cases hp : p = path
    · rw [if_pos hp]
      exact h hp
    · rw [if_neg hp]

theorem inFields_of_function {fields : Fields} {k : String} (h : Fields.get? fields k = none)
    (ha : Ambient.isAmbient k = true) (hp : k ≠ Ambient.parentName) :
    Found.inFields fields k = .function := by
  rw [Found.inFields, h]
  simp only [if_neg hp, ha, if_true]

namespace OperationMerge

variable {m : OperationMerge} {e : Endpoint}

/-- The paths after a step: untouched, with the entry made a mapping, or with the operation
written into that mapping. -/
theorem add_paths (m : OperationMerge) (e : Endpoint) :
    (m.add e).paths = m.paths ∨ (m.add e).paths = (m.opened e).paths ∨
      (m.add e).paths = Fields.assign (m.opened e).paths e.path
        (.map (Fields.assign (Value.fieldsAt m.paths e.path) e.method (.map e.operation))) := by
  cases add_cases m e with
  | stopped _ heq => exact .inl (by rw [heq])
  | unresolved _ _ heq | held _ _ heq | refused _ _ _ heq => exact .inr (.inl (by rw [heq]))
  | changed _ _ _ heq => exact .inr (.inr (by rw [heq, change]))

theorem operationIn_opened_any (m : OperationMerge) (e : Endpoint) (path method : String) :
    operationIn (m.opened e).paths path method = operationIn m.paths path method := by
  rw [opened]
  exact operationIn_assign fun h => by rw [h, operationIn]

/-- What the entry of the endpoint holds at a method stays if the assignment leaves it alone. -/
theorem operationIn_add_of_get? {path method : String}
    (h : e.path = path →
      Fields.get? (Fields.assign (Value.fieldsAt m.paths e.path) e.method (.map e.operation))
        method = operationIn m.paths path method) :
    operationIn (m.add e).paths path method = operationIn m.paths path method := by
  rcases add_paths m e with hpaths | hpaths | hpaths
  · rw [hpaths]
  · rw [hpaths, operationIn_opened_any]
  · rw [hpaths, operationIn_assign, operationIn_opened_any]
    intro hp
    rw [operationIn_opened_any]
    exact h hp

theorem operationIn_add_of_ne {path method : String}
    (h : ¬(e.path = path ∧ e.method = method)) :
    operationIn (m.add e).paths path method = operationIn m.paths path method := by
  refine operationIn_add_of_get? fun hp => ?_
  have hm : e.method ≠ method := fun hm => h ⟨hp, hm⟩
  rw [Fields.get?_assign_of_ne _ hm, operationIn, hp]

/-- An operation under the name of the parent is written nowhere. -/
theorem operationIn_add_parent
    (h : operationIn m.paths e.path e.method = none) (hm : e.method = Ambient.parentName) :
    operationIn (m.add e).paths e.path e.method = none := by
  have hhas : Fields.has (Value.fieldsAt m.paths e.path) Ambient.parentName = false := by
    have hnone : Fields.get? (Value.fieldsAt m.paths e.path) e.method = none := h
    rw [Fields.has_eq_isSome, ← hm, hnone]
    rfl
  have hsame : Fields.get? (Fields.assign (Value.fieldsAt m.paths e.path) e.method
      (.map e.operation)) e.method = operationIn m.paths e.path e.method := by
    rw [hm, Fields.assign_parent hhas, operationIn]
  rw [operationIn_add_of_get? fun _ => hsame]
  exact h

/-- A step that finds an inherited function stops the merge. -/
theorem add_of_function (h : operationIn m.paths e.path e.method = none)
    (ha : Ambient.isAmbient e.method = true) (hm : e.method ≠ Ambient.parentName) :
    (m.add e).failure ≠ none := by
  have hfound : m.found e = .function := inFields_of_function h ha hm
  cases add_cases m e with
  | stopped hfailure heq => rwa [heq]
  | unresolved _ _ heq => simp [heq]
  | held _ hholds =>
    rw [hfound] at hholds
    cases hholds
  | refused _ _ _ heq => simp [heq]
  | changed _ _ hwritten =>
    rw [hfound] at hwritten
    cases hwritten

theorem has_add_parent (h : Fields.has m.paths Ambient.parentName = false) (e : Endpoint) :
    Fields.has (m.add e).paths Ambient.parentName = false := by
  have hopened : Fields.has (m.opened e).paths Ambient.parentName = false :=
    Fields.has_assign_parent h _ _
  rcases add_paths m e with hpaths | hpaths | hpaths
  · rw [hpaths]
    exact h
  · rw [hpaths]
    exact hopened
  · rw [hpaths]
    exact Fields.has_assign_parent hopened _ _

end OperationMerge
end Document
end ApiSync
