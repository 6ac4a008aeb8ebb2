import Mathlib.Data.List.Forall2
import ApiSync.Proofs.Failing
import ApiSync.Proofs.Validation.References
/-!
# What validation says about the entries of an operation

Parameters, responses and security requirements are checked one by one.  An entry has an error of
its own exactly if it is not well formed, and taking it away takes its findings away.  The one
thing in the way of a report is a parameter with a name or a place that cannot be written as text.
-/

namespace ApiSync
namespace Validation

/-! ## Well-formed metadata -/

/-- A mapping with a name, one of the four places and something about its values; in a path it is
also required. -/
def ValidParameter (v : Value) : Prop :=
  ∃ p, v = .map p ∧ Fields.has p "name" = true ∧
    (∃ place ∈ parameterPlaces, Fields.get? p "in" = some (.str place) ∧
      (place = "path" → ∃ required,
        Fields.get? p "required" = some required ∧ required.truthy = true)) ∧
    (Fields.has p "schema" = true ∨ Fields.has p "content" = true)

def ValidResponse (v : Value) : Prop := ∃ r, v = .map r ∧ Fields.has r "description" = true

/-- The keys of a mapping are known schemes; nothing is asked of other values. -/
def ValidRequirement (schemes : List String) (v : Value) : Prop :=
  ∀ requirement, v = .map requirement → ∀ scheme ∈ Fields.keys requirement, scheme ∈ schemes

/-- What is there of parameters, responses and security requirements is well formed. -/
structure Valid (metadata : Fields) (schemes : List String) : Prop where
  parameters : ∀ listed, Fields.get? metadata "parameters" = some (.list listed) →
    ∀ v ∈ listed, ValidParameter v
  responses : ∀ entries, Fields.get? metadata "responses" = some (.map entries) →
    ∀ e ∈ entries, ValidResponse e.2
  security : ∀ listed, Fields.get? metadata "security" = some (.list listed) →
    ∀ v ∈ listed, ValidRequirement schemes v

/-- The field of an entry that is not well formed. -/
inductive Offends (metadata : Fields) (schemes : List String) : String → Prop
  | parameter {listed : List Value} {index : Nat} {v : Value} (rest : String)
      (hlisted : Fields.get? metadata "parameters" = some (.list listed))
      (hv : listed[index]? = some v) (hbad : ¬ValidParameter v) :
      Offends metadata schemes s!"parameters[{index}]{rest}"
  | response {entries : Fields} {status : String} {v : Value} (rest : String)
      (hentries : Fields.get? metadata "responses" = some (.map entries))
      (hv : (status, v) ∈ entries) (hbad : ¬ValidResponse v) :
      Offends metadata schemes s!"responses.{status}{rest}"
  | requirement {listed : List Value} {index : Nat} {requirement : Fields} {scheme : String}
      (hlisted : Fields.get? metadata "security" = some (.list listed))
      (hv : listed[index]? = some (.map requirement))
      (hscheme : scheme ∈ Fields.keys requirement) (hbad : scheme ∉ schemes) :
      Offends metadata schemes s!"security[{index}].{scheme}"

/-! ## Entries on the move -/

/-- The same error about an entry of a list in another position.  The message shows the position
only if it names the entry by it. -/
structure Renumbered (place : String) (i j : Nat) (a b : Finding) : Prop where
  severity : a.severity = .error ∧ b.severity = .error
  field : ∃ rest, a.field = s!"{place}[{i}]" ++ rest ∧ b.field = s!"{place}[{j}]" ++ rest
  message : a.message = b.message ∨ ∃ before after : String,
    a.message = before ++ s!"parameter[{i}]" ++ after ∧
      b.message = before ++ s!"parameter[{j}]" ++ after

/-- An entry of a list is gone: its own findings are, and those of the entries behind it are
renumbered. -/
def MovesUp (place : String) (position : Nat) (own found less : List Finding) : Prop :=
  ∃ kept later moved rest, found = kept ++ own ++ later ++ rest ∧ less = kept ++ moved ++ rest ∧
    List.Forall₂ (fun a b => ∃ n, position ≤ n ∧ Renumbered place (n + 1) n a b) later moved

theorem MovesUp.between {place : String} {position : Nat} {own found less : List Finding}
    (h : MovesUp place position own found less) (before after : List Finding) :
    MovesUp place position own (before ++ found ++ after) (before ++ less ++ after) := by
  obtain ⟨kept, later, moved, rest, rfl, rfl, hmoved⟩ := h
  exact ⟨before ++ kept, later, moved, rest ++ after, by simp only [List.append_assoc],
    by simp only [List.append_assoc], hmoved⟩

section Numbered

/-- Members with their positions, from some position on. -/
def numberedFrom (n : Nat) (vs : List Value) : List (Nat × Value) :=
  (List.range' n vs.length).zip vs

theorem numbered_eq (vs : List Value) : numbered vs = numberedFrom 0 vs := by
  rw [numbered, numberedFrom, List.range_eq_range']

theorem numberedFrom_cons (n : Nat) (v : Value) (vs : List Value) :
    numberedFrom n (v :: vs) = (n, v) :: numberedFrom (n + 1) vs := rfl

theorem numberedFrom_append (n : Nat) (before after : List Value) :
    numberedFrom n (before ++ after) =
      numberedFrom n before ++ numberedFrom (n + before.length) after := by
  induction before generalizing n with
  | nil => rfl
  | cons v before ih =>
    rw [List.cons_append, numberedFrom_cons, numberedFrom_cons, ih, List.cons_append,
      List.length_cons, Nat.add_assoc, Nat.add_comm 1]

variable {place : String} {g : Nat × Value → List Finding}

theorem forall₂_numberedFrom
    (hg : ∀ i j v, List.Forall₂ (Renumbered place i j) (g (i, v)) (g (j, v)))
    {position n : Nat} (hn : position ≤ n) (vs : List Value) :
    List.Forall₂ (fun a b => ∃ n, position ≤ n ∧ Renumbered place (n + 1) n a b)
      ((numberedFrom (n + 1) vs).flatMap g) ((numberedFrom n vs).flatMap g) := by
  induction vs generalizing n with
  | nil => exact .nil
  | cons v vs ih =>
    rw [numberedFrom_cons, numberedFrom_cons, List.flatMap_cons, List.flatMap_cons]
    exact List.rel_append ((hg (n + 1) n v).imp fun _ _ h => ⟨n, hn, h⟩)
      (ih (Nat.le_succ_of_le hn))

/-- What holds of the findings on each member holds of a list without one of its members. -/
theorem movesUp_numbered
    (hg : ∀ i j v, List.Forall₂ (Renumbered place i j) (g (i, v)) (g (j, v)))
    (before : List Value) (v : Value) (after : List Value) :
    MovesUp place before.length (g (before.length, v))
      ((numbered (before ++ v :: after)).flatMap g) ((numbered (before ++ after)).flatMap g) := by
  refine ⟨(numberedFrom 0 before).flatMap g, _, _, [], ?_, ?_,
    forall₂_numberedFrom hg (Nat.le_refl before.length) after⟩
  · rw [numbered_eq, numberedFrom_append, numberedFrom_cons, List.flatMap_append,
      List.flatMap_cons, Nat.zero_add, List.append_nil, List.append_assoc]
  · rw [numbered_eq, numberedFrom_append, List.flatMap_append, Nat.zero_add, List.append_nil]

end Numbered

/-! ## Parameters -/

section Parameter

variable {index : Nat} {v : Value} {p : Fields} {f : Finding}

theorem placeFindings_eq_nil_iff {name field : String} :
    placeFindings p name field = [] ↔
      ∃ place ∈ parameterPlaces, Fields.get? p "in" = some (.str place) ∧
        (place = "path" → ∃ required,
          Fields.get? p "required" = some required ∧ required.truthy = true) := by
  rw [placeFindings]
  cases hin : Fields.get? p "in" with
  | none => simp
  | some place =>
    cases place with
    | str place => simp [Value.asStr?, Option.any_eq_true]
    | _ => simp [Value.asStr?]

theorem parameterFindings_eq_nil_iff : parameterFindings (index, v) = [] ↔ ValidParameter v := by
  cases v with
  | map p =>
    have hif : ∀ (c : Prop) [Decidable c] (f : Finding), (if c then [] else [f]) = [] ↔ c := by
      intro c _ f
      split <;> simp [*]
    simp only [parameterFindings, List.append_eq_nil_iff, placeFindings_eq_nil_iff, hif,
      ValidParameter, Value.map.injEq, exists_eq_left', Bool.or_eq_true, and_assoc]
  | _ => simp [parameterFindings, ValidParameter]

section Renumbered

variable {i j : Nat} {a b rest : String} (ha : a = s!"parameters[{i}]" ++ rest)
  (hb : b = s!"parameters[{j}]" ++ rest)
include ha hb

theorem renumbered_of_message (message : String) :
    Renumbered "parameters" i j ⟨.error, message, a⟩ ⟨.error, message, b⟩ :=
  ⟨⟨rfl, rfl⟩, ⟨rest, ha, hb⟩, .inl rfl⟩

theorem renumbered_of_name (p : Fields) (before after : String) :
    Renumbered "parameters" i j ⟨.error, before ++ parameterName p i ++ after, a⟩
      ⟨.error, before ++ parameterName p j ++ after, b⟩ := by
  refine ⟨⟨rfl, rfl⟩, ⟨rest, ha, hb⟩, ?_⟩
  simp only [parameterName]
  cases Fields.get? p "name" with
  | some v => exact .inl rfl
  | none => exact .inr ⟨before, after, rfl, rfl⟩

end Renumbered

theorem renumbered_placeFindings (i j : Nat) (p : Fields) :
    List.Forall₂ (Renumbered "parameters" i j)
      (placeFindings p (parameterName p i) s!"parameters[{i}]")
      (placeFindings p (parameterName p j) s!"parameters[{j}]") := by
  simp only [placeFindings]
  cases Fields.get? p "in" with
  | none => exact .cons (renumbered_of_name rfl rfl p "Parameter '" _) .nil
  | some place =>
    refine List.rel_append ?_ ?_
    · split
      · exact .nil
      · -- The message goes on behind the name in several pieces: they count as one.
        simp only [String.append_assoc]
        exact .cons (renumbered_of_name rfl rfl p "Parameter '" _) .nil
    · split
      · exact .cons (renumbered_of_name rfl rfl p "Path parameter '" _) .nil
      · exact .nil

/-- The position of a parameter changes the field of its errors, and their messages only where it
stands for a missing name. -/
theorem renumbered_parameterFindings (i j : Nat) (v : Value) :
    List.Forall₂ (Renumbered "parameters" i j) (parameterFindings (i, v))
      (parameterFindings (j, v)) := by
  have hwhole : ∀ n : Nat, s!"parameters[{n}]" = s!"parameters[{n}]" ++ "" :=
    fun n => String.append_empty.symm
  cases v with
  | map p =>
    refine List.rel_append (List.rel_append ?_ (renumbered_placeFindings i j p)) ?_
    · split
      · exact .nil
      · exact .cons (renumbered_of_message (hwhole i) (hwhole j) _) .nil
    · split
      · exact .nil
      · exact .cons (renumbered_of_name (hwhole i) (hwhole j) p "Parameter '" _) .nil
  | _ => exact .cons (renumbered_of_message (hwhole i) (hwhole j) _) .nil

theorem error_of_mem_parameterFindings (h : f ∈ parameterFindings (index, v)) :
    f.severity = .error ∧ ∃ rest, f.field = s!"parameters[{index}]" ++ rest := by
  -- Each finding corresponds to itself in the same position.
  have hself := List.forall₂_same.mp (renumbered_parameterFindings index index v) f h
  obtain ⟨rest, hrest, -⟩ := hself.field
  exact ⟨hself.severity.1, rest, hrest⟩

end Parameter

/-! ## Responses -/

section Response

variable {status : String} {v : Value} {f : Finding}

theorem responseFinding?_eq_none_iff : responseFinding? (status, v) = none ↔ ValidResponse v := by
  cases v with
  | map r => simp [responseFinding?, ValidResponse]
  | _ => simp [responseFinding?, ValidResponse]

theorem error_of_responseFinding? (h : responseFinding? (status, v) = some f) :
    f.severity = .error ∧ ∃ rest, f.field = s!"responses.{status}" ++ rest := by
  have hwhole : s!"responses.{status}" = s!"responses.{status}" ++ "" := String.append_empty.symm
  cases v with
  | map r =>
    rw [responseFinding?] at h
    split at h
    · cases h
    · cases h
      exact ⟨rfl, ".description", rfl⟩
  | _ =>
    cases h
    exact ⟨rfl, "", hwhole⟩

def noResponses : Finding := ⟨.warning, "No responses defined for endpoint", "responses"⟩

/-- The warning about missing responses, if there are none. -/
def absence (entries : Fields) : List Finding := if entries = [] then [noResponses] else []

theorem responses_eq (metadata : Fields) :
    responses metadata = absence (mapOf (Fields.get? metadata "responses")) ++
      (mapOf (Fields.get? metadata "responses")).filterMap responseFinding? := by
  rw [responses]
  split
  · next h =>
    rw [h]
    rfl
  · next h => rw [absence, if_neg h, List.nil_append]

end Response

/-! ## Security requirements -/

section Scheme

variable {schemes : List String} {v : Value} {f : Finding}

theorem field_scheme (index : Nat) (scheme : String) :
    s!"security[{index}].{scheme}" = s!"security[{index}]" ++ ("." ++ scheme) := by
  have hdot : toString "]." = toString "]" ++ "." := by decide
  rw [hdot]
  simp only [String.append_assoc]
  rfl

/-- The finding on a scheme that a requirement names and the document does not have. -/
def unknownScheme (index : Nat) (scheme : String) : Finding :=
  ⟨.error, s!"Unknown security scheme: {scheme}", s!"security[{index}].{scheme}"⟩

theorem schemeFindings_eq (index : Nat) :
    schemeFindings schemes (index, v) =
      ((Fields.keys (v.asMap?.getD [])).filter (· ∉ schemes)).map (unknownScheme index) := by
  rw [schemeFindings]
  induction Fields.keys (v.asMap?.getD []) with
  | nil => rfl
  | cons scheme rest ih =>
    rw [List.filterMap_cons, List.filter_cons, ih]
    by_cases hknown : scheme ∈ schemes <;> simp [hknown, unknownScheme]

theorem mem_schemeFindings {index : Nat} :
    f ∈ schemeFindings schemes (index, v) ↔
      ∃ requirement, v = .map requirement ∧ ∃ scheme ∈ Fields.keys requirement,
        scheme ∉ schemes ∧ f = unknownScheme index scheme := by
  rw [schemeFindings_eq, List.mem_map]
  constructor
  · rintro ⟨scheme, hscheme, rfl⟩
    obtain ⟨hkey, hunknown⟩ := List.mem_filter.mp hscheme
    cases v with
    | map requirement => exact ⟨requirement, rfl, scheme, hkey, by simpa using hunknown, rfl⟩
    | _ => cases hkey
  · rintro ⟨requirement, rfl, scheme, hkey, hunknown, rfl⟩
    exact ⟨scheme, List.mem_filter.mpr ⟨hkey, by simpa using hunknown⟩, rfl⟩

theorem schemeFindings_append (schemes : List String) (index : Nat) (before after : Fields) :
    schemeFindings schemes (index, .map (before ++ after)) =
      schemeFindings schemes (index, .map before) ++ schemeFindings schemes (index, .map after) := by
  simp only [schemeFindings_eq, Value.asMap?, Option.getD_some, Fields.keys, List.map_append,
    List.filter_append]

theorem schemeFindings_eq_nil_iff {index : Nat} :
    schemeFindings schemes (index, v) = [] ↔ ValidRequirement schemes v := by
  simp only [List.eq_nil_iff_forall_not_mem, mem_schemeFindings, ValidRequirement]
  constructor
  · intro h requirement hv scheme hkey
    by_contra hunknown
    exact h _ ⟨requirement, hv, scheme, hkey, hunknown, rfl⟩
  · rintro h f ⟨requirement, hv, scheme, hkey, hunknown, -⟩
    exact hunknown (h requirement hv scheme hkey)

theorem renumbered_schemeFindings (schemes : List String) (i j : Nat) (v : Value) :
    List.Forall₂ (Renumbered "security" i j) (schemeFindings schemes (i, v))
      (schemeFindings schemes (j, v)) := by
  rw [schemeFindings_eq, schemeFindings_eq, List.forall₂_map_left_iff, List.forall₂_map_right_iff,
    List.forall₂_same]
  intro scheme _
  exact ⟨⟨rfl, rfl⟩, ⟨_, field_scheme i scheme, field_scheme j scheme⟩, .inl rfl⟩

end Scheme

/-! ## The three checks together -/

/-- What the checks of parameters, responses and security schemes find. -/
def structural (metadata : Fields) (schemes : List String) : Except Failure (List Finding) := do
  return (← parameters metadata) ++ responses metadata ++ securitySchemes metadata schemes

/-- What messages about parameters show has a text. -/
def ShowsTexts (metadata : Fields) : Prop :=
  ∀ listed, Fields.get? metadata "parameters" = some (.list listed) →
    ∀ p, .map p ∈ listed → ∀ shown,
      Fields.get? p "name" = some shown ∨ Fields.get? p "in" = some shown → shown.hasText = true

section Structural

variable {metadata : Fields} {schemes : List String}

theorem isShowable_iff {v : Value} :
    isShowable v = true ↔ ∀ p, v = .map p → ∀ shown,
      Fields.get? p "name" = some shown ∨ Fields.get? p "in" = some shown →
        shown.hasText = true := by
  cases v with
  | map p =>
    simp only [isShowable, Value.asMap?, Option.all_some, Bool.and_eq_true, Option.all_eq_true,
      Value.map.injEq, forall_eq', or_imp, forall_and]
  | _ => simp [isShowable, Value.asMap?]

/-- Only a list has members. -/
theorem forall_mem_listOf {v : Option Value} {P : Value → Prop} :
    (∀ w ∈ listOf v, P w) ↔ ∀ listed, v = some (.list listed) → ∀ w ∈ listed, P w := by
  cases v with
  | none => simp [listOf]
  | some v => cases v <;> simp [listOf, Value.asList?]

theorem forall_mem_mapOf {v : Option Value} {P : String × Value → Prop} :
    (∀ e ∈ mapOf v, P e) ↔ ∀ entries, v = some (.map entries) → ∀ e ∈ entries, P e := by
  cases v with
  | none => simp [mapOf]
  | some v => cases v <;> simp [mapOf, Value.asMap?]

theorem of_getElem?_listOf {v : Option Value} {i : Nat} {w : Value}
    (h : (listOf v)[i]? = some w) : ∃ listed, v = some (.list listed) ∧ listed[i]? = some w := by
  cases v with
  | none => cases h
  | some v =>
    cases v with
    | list listed => exact ⟨listed, rfl, h⟩
    | _ => cases h

theorem of_mem_mapOf {v : Option Value} {e : String × Value} (h : e ∈ mapOf v) :
    ∃ entries, v = some (.map entries) ∧ e ∈ entries := by
  cases v with
  | none => cases h
  | some v =>
    cases v with
    | map entries => exact ⟨entries, rfl, h⟩
    | _ => cases h

theorem showsTexts_iff :
    ShowsTexts metadata ↔
      (listOf (Fields.get? metadata "parameters")).all isShowable = true := by
  rw [List.all_eq_true, forall_mem_listOf]
  simp only [isShowable_iff, ShowsTexts]
  constructor
  · rintro h listed hlisted _ hmem p rfl
    exact h listed hlisted p hmem
  · intro h listed hlisted p hmem
    exact h listed hlisted _ hmem p rfl

/-- What is found among listed parameters, the entries of responses and requirements. -/
def gathered (schemes : List String) (listed : List Value) (entries : Fields)
    (requirements : List Value) : List Finding :=
  (numbered listed).flatMap parameterFindings ++
    (absence entries ++ entries.filterMap responseFinding?) ++
      (numbered requirements).flatMap (schemeFindings schemes)

theorem structural_eq {listed requirements : List Value} {entries : Fields}
    (hlisted : listOf (Fields.get? metadata "parameters") = listed)
    (hentries : mapOf (Fields.get? metadata "responses") = entries)
    (hrequirements : listOf (Fields.get? metadata "security") = requirements)
    (h : listed.all isShowable = true) :
    structural metadata schemes = .ok (gathered schemes listed entries requirements) := by
  subst hlisted hentries hrequirements
  rw [structural, parameters, if_pos h, responses_eq, securitySchemes]
  rfl

theorem showsTexts_of_structural {found : List Finding}
    (h : structural metadata schemes = .ok found) : ShowsTexts metadata := by
  rw [structural, parameters] at h
  split at h
  · next hall => exact showsTexts_iff.mpr hall
  · cases h

end Structural

/-! ## What is accepted -/

section Accepted

variable {schemes : List String}

/-- Where members have errors only, a list has none exactly if no member has a finding. -/
theorem accepts_numbered {g : Nat × Value → List Finding} {P : Value → Prop}
    (herror : ∀ i v, ∀ f ∈ g (i, v), f.severity = .error) (hnil : ∀ i v, g (i, v) = [] ↔ P v)
    {vs : List Value} :
    (∀ f ∈ (numbered vs).flatMap g, f.severity ≠ .error) ↔ ∀ v ∈ vs, P v := by
  constructor
  · intro h v hv
    obtain ⟨i, hi⟩ := List.mem_iff_getElem?.mp hv
    refine (hnil i v).mp (List.eq_nil_iff_forall_not_mem.mpr fun f hf => ?_)
    exact h f (List.mem_flatMap.mpr ⟨(i, v), mem_numbered.mpr hi, hf⟩) (herror i v f hf)
  · intro h f hf
    obtain ⟨⟨i, v⟩, hv, hf⟩ := List.mem_flatMap.mp hf
    rw [(hnil i v).mpr (h v (List.mem_of_getElem? (mem_numbered.mp hv)))] at hf
    cases hf

theorem accepts_parameters {listed : List Value} :
    (∀ f ∈ (numbered listed).flatMap parameterFindings, f.severity ≠ .error) ↔
      ∀ v ∈ listed, ValidParameter v :=
  accepts_numbered (fun _ _ _ hf => (error_of_mem_parameterFindings hf).1)
    fun _ _ => parameterFindings_eq_nil_iff

theorem accepts_security {listed : List Value} :
    (∀ f ∈ (numbered listed).flatMap (schemeFindings schemes), f.severity ≠ .error) ↔
      ∀ v ∈ listed, ValidRequirement schemes v := by
  refine accepts_numbered (fun i v f hf => ?_) fun _ _ => schemeFindings_eq_nil_iff
  obtain ⟨_, _, _, _, _, rfl⟩ := mem_schemeFindings.mp hf
  rfl

theorem accepts_responses {entries : Fields} :
    (∀ f ∈ absence entries ++ entries.filterMap responseFinding?, f.severity ≠ .error) ↔
      ∀ e ∈ entries, ValidResponse e.2 := by
  constructor
  · intro h e he
    by_contra hbad
    obtain ⟨f, hf⟩ := Option.ne_none_iff_exists'.mp (mt responseFinding?_eq_none_iff.mp hbad)
    exact h f (List.mem_append_right _ (List.mem_filterMap.mpr ⟨e, he, hf⟩))
      (error_of_responseFinding? hf).1
  · intro h f hf
    rcases List.mem_append.mp hf with habsent | hfound
    · rw [absence] at habsent
      split at habsent
      · obtain rfl := List.mem_singleton.mp habsent
        exact nofun
      · cases habsent
    · obtain ⟨e, he, hf⟩ := List.mem_filterMap.mp hfound
      rw [responseFinding?_eq_none_iff.mpr (h e he)] at hf
      cases hf

theorem accepts_gathered {metadata : Fields} :
    (∀ f ∈ gathered schemes (listOf (Fields.get? metadata "parameters"))
      (mapOf (Fields.get? metadata "responses")) (listOf (Fields.get? metadata "security")),
        f.severity ≠ .error) ↔ Valid metadata schemes := by
  rw [gathered, List.forall_mem_append, List.forall_mem_append, accepts_parameters,
    accepts_responses, accepts_security, forall_mem_listOf, forall_mem_mapOf, forall_mem_listOf]
  exact ⟨fun ⟨⟨hp, hr⟩, hs⟩ => ⟨hp, hr, hs⟩, fun h => ⟨⟨h.parameters, h.responses⟩, h.security⟩⟩

theorem offends_of_mem_gathered {metadata : Fields} {f : Finding}
    (hf : f ∈ gathered schemes (listOf (Fields.get? metadata "parameters"))
      (mapOf (Fields.get? metadata "responses")) (listOf (Fields.get? metadata "security")))
    (herror : f.severity = .error) : Offends metadata schemes f.field := by
  simp only [gathered, List.mem_append, List.mem_flatMap, List.mem_filterMap, Prod.exists,
    mem_numbered] at hf
  rcases hf with (⟨i, v, hv, hf⟩ | habsent | ⟨status, v, hv, hf⟩) | ⟨i, v, hv, hf⟩
  · obtain ⟨rest, hrest⟩ := (error_of_mem_parameterFindings hf).2
    have hbad : ¬ValidParameter v :=
      fun hvalid => List.ne_nil_of_mem hf (parameterFindings_eq_nil_iff.mpr hvalid)
    obtain ⟨listed, hlisted, hv⟩ := of_getElem?_listOf hv
    exact hrest ▸ .parameter rest hlisted hv hbad
  · rw [absence] at habsent
    split at habsent
    · obtain rfl := List.mem_singleton.mp habsent
      cases herror
    · cases habsent
  · obtain ⟨rest, hrest⟩ := (error_of_responseFinding? hf).2
    have hbad : ¬ValidResponse v := fun hvalid => by
      rw [responseFinding?_eq_none_iff.mpr hvalid] at hf
      cases hf
    obtain ⟨entries, hentries, hv⟩ := of_mem_mapOf hv
    exact hrest ▸ .response rest hentries hv hbad
  · obtain ⟨requirement, rfl, scheme, hkey, hunknown, rfl⟩ := mem_schemeFindings.mp hf
    obtain ⟨listed, hlisted, hv⟩ := of_getElem?_listOf hv
    exact .requirement hlisted hv hkey hunknown

end Accepted

/-! ## Without an entry -/

section Without

variable (schemes : List String) (listed requirements : List Value) (entries : Fields)

theorem movesUp_parameters (before : List Value) (v : Value) (after : List Value) :
    MovesUp "parameters" before.length (parameterFindings (before.length, v))
      (gathered schemes (before ++ v :: after) entries requirements)
      (gathered schemes (before ++ after) entries requirements) := by
  have hmoves := movesUp_numbered renumbered_parameterFindings before v after
  simpa only [gathered, List.nil_append, List.append_assoc] using hmoves.between [] _

theorem movesUp_requirements (before : List Value) (v : Value) (after : List Value) :
    MovesUp "security" before.length (schemeFindings schemes (before.length, v))
      (gathered schemes listed entries (before ++ v :: after))
      (gathered schemes listed entries (before ++ after)) := by
  have hmoves := movesUp_numbered (renumbered_schemeFindings schemes) before v after
  simpa only [gathered, List.append_nil] using hmoves.between _ []

/-- Without its last entry there is a warning in its place. -/
theorem gathered_without_response (before : Fields) (e : String × Value) (after : Fields) :
    ∃ kept rest, gathered schemes listed (before ++ e :: after) requirements =
        kept ++ (responseFinding? e).toList ++ rest ∧
      gathered schemes listed (before ++ after) requirements =
        kept ++ absence (before ++ after) ++ rest := by
  have hown : absence (before ++ e :: after) ++
      (before ++ e :: after).filterMap responseFinding? =
        before.filterMap responseFinding? ++ (responseFinding? e).toList ++
          after.filterMap responseFinding? := by
    rw [absence, if_neg (by simp), List.nil_append, List.filterMap_append, List.filterMap_cons]
    cases responseFinding? e <;> simp
  simp only [gathered, hown]
  -- The warning has the place of the last entry, in front of what is found about security.
  by_cases hlast : before ++ after = []
  · obtain ⟨rfl, rfl⟩ := List.append_eq_nil_iff.mp hlast
    exact ⟨(numbered listed).flatMap parameterFindings,
      (numbered requirements).flatMap (schemeFindings schemes),
      by simp only [List.filterMap_nil, List.nil_append, List.append_nil],
      by simp only [List.filterMap_nil, List.append_nil]⟩
  · rw [absence, if_neg hlast]
    exact ⟨(numbered listed).flatMap parameterFindings ++ before.filterMap responseFinding?,
      after.filterMap responseFinding? ++ (numbered requirements).flatMap (schemeFindings schemes),
      by simp only [List.append_assoc],
      by simp only [List.filterMap_append, List.nil_append, List.append_assoc]⟩

theorem gathered_without_scheme (earlier : List Value) (before : Fields) (e : String × Value)
    (after : Fields) (later : List Value) :
    ∃ kept rest, gathered schemes listed entries
          (earlier ++ .map (before ++ e :: after) :: later) =
        kept ++ schemeFindings schemes (earlier.length, .map [e]) ++ rest ∧
      gathered schemes listed entries (earlier ++ .map (before ++ after) :: later) =
        kept ++ rest := by
  have hsplit : ∀ requirement, (numbered (earlier ++ .map requirement :: later)).flatMap
      (schemeFindings schemes) =
        (numberedFrom 0 earlier).flatMap (schemeFindings schemes) ++
          (schemeFindings schemes (earlier.length, .map requirement) ++
            (numberedFrom (earlier.length + 1) later).flatMap (schemeFindings schemes)) := by
    intro requirement
    rw [numbered_eq, numberedFrom_append, numberedFrom_cons, List.flatMap_append,
      List.flatMap_cons, Nat.zero_add]
  refine ⟨(numbered listed).flatMap parameterFindings ++
      (absence entries ++ entries.filterMap responseFinding?) ++
        (numberedFrom 0 earlier).flatMap (schemeFindings schemes) ++
          schemeFindings schemes (earlier.length, .map before),
    schemeFindings schemes (earlier.length, .map after) ++
      (numberedFrom (earlier.length + 1) later).flatMap (schemeFindings schemes), ?_, ?_⟩
  · rw [gathered, hsplit, ← List.singleton_append, schemeFindings_append, schemeFindings_append]
    simp only [List.append_assoc]
  · rw [gathered, hsplit, schemeFindings_append]
    simp only [List.append_assoc]

end Without

/-! ## The checks as a whole -/

/-- The findings are errors exactly where the metadata is not well formed, and each belongs to an
entry: it names the entry, and without the entry it is gone. -/
structure Exact (metadata : Fields) (schemes : List String) (found : List Finding) : Prop where
  accepts : (∀ f ∈ found, f.severity ≠ .error) ↔ Valid metadata schemes
  named : ∀ f ∈ found, f.severity = .error → Offends metadata schemes f.field
  /-- A check of everything but references has no errors besides these. -/
  whole : ∀ endpoint, ∃ issues, check metadata endpoint ⟨none, some schemes⟩ = .ok issues ∧
    ofSeverity issues .error =
      (found.filter (·.severity = .error)).map (Finding.issue endpoint)
  parameter : ∀ before v after,
    Fields.get? metadata "parameters" = some (.list (before ++ v :: after)) →
      ∃ less, structural (Fields.set metadata "parameters" (.list (before ++ after))) schemes =
          .ok less ∧
        MovesUp "parameters" before.length (parameterFindings (before.length, v)) found less
  response : ∀ before e after,
    Fields.get? metadata "responses" = some (.map (before ++ e :: after)) →
      ∃ kept rest, found = kept ++ (responseFinding? e).toList ++ rest ∧
        structural (Fields.set metadata "responses" (.map (before ++ after))) schemes =
          .ok (kept ++ absence (before ++ after) ++ rest)
  requirement : ∀ before v after,
    Fields.get? metadata "security" = some (.list (before ++ v :: after)) →
      ∃ less, structural (Fields.set metadata "security" (.list (before ++ after))) schemes =
          .ok less ∧
        MovesUp "security" before.length (schemeFindings schemes (before.length, v)) found less
  scheme : ∀ earlier before e after later,
    Fields.get? metadata "security" =
        some (.list (earlier ++ .map (before ++ e :: after) :: later)) →
      ∃ kept rest, found = kept ++ schemeFindings schemes (earlier.length, .map [e]) ++ rest ∧
        structural (Fields.set metadata "security"
          (.list (earlier ++ .map (before ++ after) :: later))) schemes = .ok (kept ++ rest)

section Exact

variable {metadata : Fields} {schemes : List String}

theorem severity_of_mem_statusCodes {f : Finding} (h : f ∈ statusCodes metadata) :
    f.severity = .warning := by
  obtain ⟨key, -, hf⟩ := List.mem_filterMap.mp h
  rw [statusFinding?] at hf
  split at hf <;> split at hf <;> cases hf <;> rfl

/-- Without the check of references, a check has the errors of the other three: a status code is
only warned about. -/
theorem errors_of_check {found : List Finding} (h : structural metadata schemes = .ok found)
    (endpoint : String) :
    ∃ issues, check metadata endpoint ⟨none, some schemes⟩ = .ok issues ∧
      ofSeverity issues .error =
        (found.filter (·.severity = .error)).map (Finding.issue endpoint) := by
  obtain ⟨onParameters, hparameters, hfound⟩ := bind_eq_ok.mp h
  cases hfound
  refine ⟨(statusCodes metadata ++ onParameters ++ responses metadata ++
    securitySchemes metadata schemes).map (Finding.issue endpoint), ?_, ?_⟩
  · rw [check, findings, hparameters]
    rfl
  · have hcodes : (statusCodes metadata).filter (·.severity = .error) = [] := by
      refine List.filter_eq_nil_iff.mpr fun f hf => ?_
      rw [severity_of_mem_statusCodes hf]
      decide
    rw [ofSeverity, List.filter_map]
    show (List.filter (fun f : Finding => f.severity = .error) _).map _ = _
    simp only [List.filter_append, hcodes, List.nil_append]

theorem listOf_set (k : String) (listed : List Value) :
    listOf (Fields.get? (Fields.set metadata k (.list listed)) k) = listed := by
  rw [Fields.get?_set, if_pos rfl]
  rfl

theorem mapOf_set (k : String) (entries : Fields) :
    mapOf (Fields.get? (Fields.set metadata k (.map entries)) k) = entries := by
  rw [Fields.get?_set, if_pos rfl]
  rfl

theorem get?_set_ne {k k' : String} (h : k ≠ k') (v : Value) :
    Fields.get? (Fields.set metadata k v) k' = Fields.get? metadata k' := by
  rw [Fields.get?_set, if_neg h]

theorem exact_of_structural {found : List Finding} (h : structural metadata schemes = .ok found) :
    Exact metadata schemes found := by
  have hshown := showsTexts_iff.mp (showsTexts_of_structural h)
  obtain rfl := Except.ok.inj (h.symm.trans (structural_eq rfl rfl rfl hshown))
  constructor
  case accepts => exact accepts_gathered
  case named => exact fun f hf herror => offends_of_mem_gathered hf herror
  case whole => exact errors_of_check h
  case parameter =>
    intro before v after h
    have hlisted : listOf (Fields.get? metadata "parameters") = before ++ v :: after :=
      congrArg listOf h
    rw [hlisted] at hshown ⊢
    refine ⟨_, structural_eq (listOf_set _ _) (congrArg mapOf (get?_set_ne (by decide) _))
      (congrArg listOf (get?_set_ne (by decide) _)) ?_,
      movesUp_parameters schemes _ _ before v after⟩
    -- The parameters that are left still have texts to show.
    rw [List.all_append, List.all_cons, Bool.and_left_comm, Bool.and_eq_true] at hshown
    rw [List.all_append]
    exact hshown.2
  case response =>
    intro before e after h
    have hentries : mapOf (Fields.get? metadata "responses") = before ++ e :: after :=
      congrArg mapOf h
    obtain ⟨kept, rest, hfound, hless⟩ := gathered_without_response schemes
      (listOf (Fields.get? metadata "parameters")) (listOf (Fields.get? metadata "security"))
      before e after
    rw [hentries]
    refine ⟨kept, rest, hfound, (structural_eq (congrArg listOf (get?_set_ne (by decide) _))
      (mapOf_set _ _) (congrArg listOf (get?_set_ne (by decide) _)) hshown).trans ?_⟩
    rw [hless]
  case requirement =>
    intro before v after h
    have hlisted : listOf (Fields.get? metadata "security") = before ++ v :: after :=
      congrArg listOf h
    rw [hlisted]
    exact ⟨_, structural_eq (congrArg listOf (get?_set_ne (by decide) _))
      (congrArg mapOf (get?_set_ne (by decide) _)) (listOf_set _ _) hshown,
      movesUp_requirements schemes _ _ before v after⟩
  case scheme =>
    intro earlier before e after later h
    have hlisted : listOf (Fields.get? metadata "security") =
        earlier ++ .map (before ++ e :: after) :: later := congrArg listOf h
    obtain ⟨kept, rest, hfound, hless⟩ := gathered_without_scheme schemes
      (listOf (Fields.get? metadata "parameters")) (mapOf (Fields.get? metadata "responses"))
      earlier before e after later
    rw [hlisted]
    refine ⟨kept, rest, hfound, (structural_eq (congrArg listOf (get?_set_ne (by decide) _))
      (congrArg mapOf (get?_set_ne (by decide) _)) (listOf_set _ _) hshown).trans ?_⟩
    rw [hless]

end Exact

/-- The three checks come to an end, and what they find is exact. -/
def ChecksExactly (metadata : Fields) (schemes : List String) : Prop :=
  ∃ found, structural metadata schemes = .ok found ∧ Exact metadata schemes found

/-- The checks are exact as long as the names and places of the parameters have texts. -/
theorem checksExactly_iff (metadata : Fields) (schemes : List String) :
    ChecksExactly metadata schemes ↔ ShowsTexts metadata := by
  constructor
  · rintro ⟨found, h, -⟩
    exact showsTexts_of_structural h
  · intro h
    have hfound : structural metadata schemes = .ok _ :=
      structural_eq rfl rfl rfl (showsTexts_iff.mp h)
    exact ⟨_, hfound, exact_of_structural hfound⟩

/-- A parameter that has all that is asked for, with a name that hides the conversion to text. -/
def unnamable : Fields :=
  [("parameters", .list [.map [("name", .map [("toString", .num (.ofNat 1))]),
    ("in", .str "query"), ("schema", .map [])]]),
    ("responses", .map [("200", .map [("description", .str "OK")])])]

/-- The check of its parameters stops, though nothing is wrong with them. -/
theorem not_checksExactly_of_unnamable :
    Valid unnamable [] ∧ structural unnamable [] = .error .noText ∧
      ¬ChecksExactly unnamable [] := by
  have hstops : structural unnamable [] = .error .noText := rfl
  refine ⟨⟨?_, ?_, nofun⟩, hstops, ?_⟩
  · intro listed h v hv
    cases h
    obtain rfl := List.mem_singleton.mp hv
    exact ⟨_, rfl, rfl, ⟨"query", by decide, rfl, fun h => absurd h (by decide)⟩, .inl rfl⟩
  · intro entries h e he
    cases h
    obtain rfl := List.mem_singleton.mp he
    exact ⟨_, rfl, rfl⟩
  · rintro ⟨found, h, -⟩
    cases hstops.symm.trans h

end Validation
end ApiSync
