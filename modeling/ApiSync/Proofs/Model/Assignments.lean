import ApiSync.Proofs.Model.Attributes
import ApiSync.Proofs.Python.Names
import ApiSync.Proofs.Text.Order
/-!
# What `__init__` assigns

The table of annotations has the attributes in the order of their first assignments.  Each of them
has its last annotation for a text, or the type of the first literal if it has no annotation.  No
attribute spells an index, because a word of the source names it, so the order stays when the table
becomes a mapping.
-/

namespace ApiSync

namespace Fields

variable {α : Type}

/-- A name that is not there yet comes last. -/
def insertNew (names : List String) (name : String) : List String :=
  if name ∈ names then names else names ++ [name]

theorem keys_set {k : String} (hk : indexOf? k = none) (fields : List (String × α)) (v : α) :
    keys (set fields k v) = insertNew (keys fields) k := by
  rw [insertNew]
  split
  · next hmem => exact keys_set_of_has (mem_keys_iff_has.mp hmem) v
  · next hmem => exact keys_set_of_new (get?_eq_none_iff.mpr hmem) hk v

/-- Names that come up one after the other are kept in the order of their first appearances. -/
theorem foldl_insertNew (names more : List String) :
    more.foldl insertNew names = names ++ (Text.distinct more).filter (· ∉ names) := by
  induction more generalizing names with
  | nil => rw [List.foldl_nil, Text.distinct, List.filter_nil, List.append_nil]
  | cons m more ih =>
    rw [List.foldl_cons, ih, insertNew, Text.distinct, List.filter_cons, List.filter_filter]
    by_cases hm : m ∈ names
    · rw [if_pos hm, if_neg (by simpa using hm)]
      congr 1
      refine List.filter_congr fun n _ => ?_
      by_cases hn : n ∈ names
      · simp [hn]
      · have hne : n ≠ m := fun heq => hn (heq ▸ hm)
        simp [hn, hne]
    · rw [if_neg hm, if_pos (by simpa using hm), List.append_assoc, List.singleton_append]
      congr 2
      refine List.filter_congr fun n _ => ?_
      by_cases hn : n = m <;> simp [hn]

/-- Entries under new names that spell no index are appended as they are. -/
theorem setAll_of_new {fields upper : List (String × α)} (hnodup : (keys upper).Nodup)
    (hnew : ∀ k ∈ keys upper, k ∉ keys fields) (hindex : ∀ k ∈ keys upper, indexOf? k = none) :
    setAll fields upper = fields ++ upper := by
  induction upper generalizing fields with
  | nil => exact (List.append_nil fields).symm
  | cons e rest ih =>
    obtain ⟨hfirst, hrest⟩ := List.nodup_cons.mp hnodup
    have hhas : ¬has fields e.1 = true :=
      fun h => hnew e.1 List.mem_cons_self (mem_keys_iff_has.mpr h)
    have hset : set fields e.1 e.2 = fields ++ [e] := by
      rw [set, if_neg hhas, place, hindex e.1 List.mem_cons_self]
    have hlater : ∀ k ∈ keys rest, k ∉ keys (set fields e.1 e.2) := by
      intro k hk hmem
      rw [hset, keys, List.map_append, List.mem_append, List.map_singleton,
        List.mem_singleton] at hmem
      rcases hmem with hold | rfl
      · exact hnew k (List.mem_cons_of_mem e.1 hk) hold
      · exact hfirst hk
    have hall : setAll fields (e :: rest) = setAll (set fields e.1 e.2) rest := rfl
    rw [hall, ih hrest hlater fun k hk => hindex k (List.mem_cons_of_mem e.1 hk), hset,
      List.append_assoc, List.singleton_append]

end Fields

namespace Model

open Python

theorem named_of_mem_chain {e t : Expr} (h : e.Named) (ht : t ∈ (chain e).1) : t.Named := by
  fun_induction chain e with
  | case1 text target type value targets last hchain ih =>
    rcases List.mem_cons.mp ht with rfl | hlater
    · exact h.1
    · rw [hchain] at ih
      exact ih h.2 hlater
  | case2 text target type =>
    rw [List.mem_singleton.mp ht]
    exact h
  | case3 => exact absurd ht List.not_mem_nil

theorem isName_of_ownAttribute? {e : Expr} {attr : String} (h : e.Named)
    (ho : ownAttribute? e = some attr) : IsName attr := by
  obtain ⟨text, form⟩ := e
  unfold ownAttribute? at ho
  split at ho
  · next receiver name hform =>
    change form = .attribute receiver name at hform
    subst hform
    split at ho
    · rw [← Option.some.inj ho]
      exact h
    · cases ho
  · cases ho

/-- What a statement assigns are names. -/
theorem isName_of_mem_assigned {s : Statement} (h : s.Named) {attr : String}
    (ha : attr ∈ assigned s) : IsName attr := by
  rcases assignment_cases s with ⟨text, target, type, value, more, rfl⟩ |
    ⟨text, target, value, more, rfl⟩ | hidle
  · have htarget : target.Named := by
      have he : Expr.Named (.mk text (.assignment target (some type) value)) :=
        h _ List.mem_cons_self
      cases value with
      | none => exact he
      | some v => exact he.1
    exact isName_of_ownAttribute? htarget (Option.mem_toList.mp ha)
  · obtain ⟨t, ht, hown⟩ := List.mem_filterMap.mp ha
    exact isName_of_ownAttribute? (named_of_mem_chain (h _ List.mem_cons_self) ht) hown
  · rw [hidle.assigned] at ha
    cases ha

theorem keys_foldl_addLiteral (type : String) {names : List String}
    (h : ∀ name ∈ names, IsName name) (table : AnnotationTable) :
    Fields.keys (names.foldl (addLiteral type) table) =
      names.foldl Fields.insertNew (Fields.keys table) := by
  induction names generalizing table with
  | nil => rfl
  | cons name names ih =>
    obtain ⟨hname, hnames⟩ := List.forall_mem_cons.mp h
    have hstep : Fields.keys (addLiteral type table name) =
        Fields.insertNew (Fields.keys table) name := by
      rw [addLiteral]
      split
      · next hhas => rw [Fields.insertNew, if_pos (Fields.mem_keys_iff_has.mpr hhas)]
      · exact Fields.keys_set hname.indexOf?_eq_none table type
    rw [List.foldl_cons, List.foldl_cons, ih hnames, hstep]

theorem keys_addAssignment (aliases : Alias.Table) {s : Statement} (h : s.Named)
    (table : AnnotationTable) :
    Fields.keys (addAssignment aliases table s) =
      (assigned s).foldl Fields.insertNew (Fields.keys table) := by
  have hnames : ∀ attr ∈ assigned s, IsName attr := fun _ ha => isName_of_mem_assigned h ha
  rcases assignment_cases s with ⟨text, target, type, value, more, rfl⟩ |
    ⟨text, target, value, more, rfl⟩ | hidle
  · change ∀ attr, attr ∈ (ownAttribute? target).toList → IsName attr at hnames
    show _ = (ownAttribute? target).toList.foldl Fields.insertNew (Fields.keys table)
    rw [addAssignment_annotated]
    cases hown : ownAttribute? target with
    | none => rfl
    | some own =>
      have hname := hnames own (by rw [hown]; exact List.mem_singleton_self own)
      exact Fields.keys_set hname.indexOf?_eq_none table _
  · exact keys_foldl_addLiteral _ hnames table
  · rw [hidle.keeps, hidle.assigned]
    rfl

theorem keys_foldl_addAssignment (aliases : Alias.Table) {ss : List Statement} (h : BodyNamed ss)
    (table : AnnotationTable) :
    Fields.keys (ss.foldl (addAssignment aliases) table) =
      (ss.flatMap assigned).foldl Fields.insertNew (Fields.keys table) := by
  induction ss generalizing table with
  | nil => rfl
  | cons s ss ih =>
    rw [List.foldl_cons, ih h.2, keys_addAssignment aliases h.1, List.flatMap_cons,
      List.foldl_append]

theorem bodyNamed_initBody {body : List Statement} (h : BodyNamed body) :
    BodyNamed (initBody body) := by
  rw [initBody]
  cases hinit : (functions body).find? (·.name = "__init__") with
  | none => exact trivial
  | some init => exact (h.definition (List.mem_of_find?_eq_some hinit)).body

/-- The attributes stand in the table in the order of their first assignments. -/
theorem keys_initAnnotations (aliases : Alias.Table) {body : List Statement} (h : BodyNamed body) :
    Fields.keys (initAnnotations aliases body) =
      Text.distinct ((initBody body).flatMap assigned) := by
  rw [initAnnotations_eq, keys_foldl_addAssignment aliases (bodyNamed_initBody h),
    Fields.foldl_insertNew]
  rw [Fields.keys, List.map_nil, List.nil_append, List.filter_eq_self]
  intro name _
  exact decide_eq_true List.not_mem_nil

/-- No attribute of a table spells an index. -/
theorem indexOf?_of_mem_initAnnotations {aliases : Alias.Table} {body : List Statement}
    (h : BodyNamed body) {attr : String}
    (ha : attr ∈ Fields.keys (initAnnotations aliases body)) : Fields.indexOf? attr = none := by
  rw [keys_initAnnotations aliases h, Text.mem_distinct] at ha
  obtain ⟨s, hs, hattr⟩ := List.mem_flatMap.mp ha
  exact (isName_of_mem_assigned (bodyNamed_iff.mp (bodyNamed_initBody h) s hs)
    hattr).indexOf?_eq_none

end Model
end ApiSync
