import ApiSync.Config.Load
import ApiSync.Proofs.Failing
import ApiSync.Proofs.Fields
/-!
# What a valid configuration file holds

A file is accepted if its mapping has no issues with the shape of a configuration.  Then every
entry of a section has the shape that the section gives it, so the values that are read from it can
be written back as they were.
-/

namespace ApiSync
namespace Config

/-! ## Shapes -/

theorem fieldIssues_eq_nil {path : List String} {entries : Fields}
    {fields : List (String × Shape)} :
    fieldIssues path entries fields = [] ↔ ∀ s ∈ fields, ∀ v,
      Fields.get? entries s.1 = some v → s.2.issues (path ++ [s.1]) v = [] := by
  induction fields with
  | nil => simp [fieldIssues]
  | cons s rest ih =>
    obtain ⟨key, shape⟩ := s
    rw [fieldIssues, List.append_eq_nil_iff, ih, List.forall_mem_cons]
    refine and_congr_left fun _ => ?_
    cases Fields.get? entries key with
    | none => simp
    | some v => simp

/-- A valid record is a mapping with valid entries. -/
theorem entries_of_record {path : List String} {fields : List (String × Shape)} {v : Value}
    (h : (Shape.record fields).issues path v = []) :
    ∃ entries, v = .map entries ∧ ∀ s ∈ fields, ∀ w,
      Fields.get? entries s.1 = some w → s.2.issues (path ++ [s.1]) w = [] := by
  cases v with
  | map entries => exact ⟨entries, rfl, fieldIssues_eq_nil.mp (List.append_eq_nil_iff.mp h).1⟩
  | _ => cases h

theorem entries_of_table {path : List String} {shape : Shape} {v : Value}
    (h : (Shape.table shape).issues path v = []) :
    ∃ entries, v = .map entries ∧ ∀ e ∈ entries, shape.issues (path ++ [e.1]) e.2 = [] := by
  cases v with
  | map entries => exact ⟨entries, rfl, List.flatMap_eq_nil_iff.mp h⟩
  | _ => cases h

/-! ## Reading what is valid -/

/-- Reading gives something, and writing it gives the value back. -/
def ReadsBack {α : Type} (read : Value → Option α) (write : α → Value) (v : Value) : Prop :=
  ∃ a, read v = some a ∧ write a = v

section

variable {path : List String} {v : Value}

theorem readsBack_text (h : Shape.text.issues path v = []) :
    ReadsBack Value.asStr? Value.str v := by
  cases v with
  | str s => exact ⟨s, rfl, rfl⟩
  | _ => cases h

theorem readsBack_flag (h : Shape.flag.issues path v = []) : ReadsBack asBool? Value.bool v := by
  cases v with
  | bool b => exact ⟨b, rfl, rfl⟩
  | _ => cases h

theorem readsBack_percentage (h : Shape.percentage.issues path v = []) :
    ReadsBack asNumber? Value.num v := by
  cases v with
  | num n => exact ⟨n, rfl, rfl⟩
  | _ => cases h

theorem strings_of_itemIssues {index : Nat} {vs : List Value} (h : itemIssues path index vs = []) :
    (vs.filterMap Value.asStr?).map Value.str = vs := by
  induction vs generalizing index with
  | nil => rfl
  | cons v vs ih =>
    cases v with
    | str s =>
      rw [itemIssues] at h
      exact congrArg (Value.str s :: ·) (ih h)
    | _ => cases h

theorem readsBack_texts (h : Shape.texts.issues path v = []) :
    ReadsBack asStrings? Value.ofStrings v := by
  cases v with
  | list vs => exact ⟨_, rfl, congrArg Value.list (strings_of_itemIssues h)⟩
  | _ => cases h

/-- An option that is found by its name. -/
theorem readsBack_option {α : Type} {named? : String → Option α} {name : α → String}
    {names : List String} (hnamed : ∀ n ∈ names, ∃ a, named? n = some a ∧ name a = n)
    (h : (Shape.option names).issues path v = []) :
    ReadsBack (·.asStr?.bind named?) (fun a => Value.str (name a)) v := by
  cases v with
  | str s =>
    have hissues : optionIssues names path (.str s) = [] := h
    rw [optionIssues] at hissues
    split at hissues
    · next hmem =>
      obtain ⟨a, ha, hname⟩ := hnamed s (List.contains_iff_mem.mp hmem)
      exact ⟨a, ha, congrArg Value.str hname⟩
    · cases hissues
  | _ => cases h

end

/-! ## Files -/

/-- The entries of the sections, where there are any, have their shape. -/
def Valid (fields : Fields) : Prop :=
  ∀ s ∈ sections, ∀ v, Fields.get? fields s.1 = some v → ∃ path, s.2.issues path v = []

theorem Valid.nil : Valid [] := fun _ _ _ h => nomatch h

/-- An entry of a section of a valid mapping. -/
theorem Valid.inSection {fields : Fields} (h : Valid fields) {name : String}
    {inner : List (String × Shape)} (hsection : (name, .record inner) ∈ sections) :
    ∀ s ∈ inner, ∀ v, Fields.get? (Value.fieldsAt fields name) s.1 = some v →
      ∃ path, s.2.issues path v = [] := by
  intro s hs v hv
  obtain ⟨path, hissues⟩ := h _ hsection _ (Value.get?_of_fieldsAt hv)
  obtain ⟨entries, heq, hentries⟩ := entries_of_record hissues
  rw [Value.map.inj heq] at hv
  exact ⟨_, hentries s hs v hv⟩

/-- A file that is accepted has no issues. -/
theorem issues_of_readFile {files : Files} {path : String} {file : Fields}
    (h : readFile files path = .ok file) : fileShape.issues [] (.map file) = [] := by
  rw [readFile] at h
  split at h
  · cases h
  · dsimp only at h
    split at h
    · next hissues =>
      obtain ⟨entries, hentries, -⟩ := entries_of_record hissues
      rw [hentries] at hissues h
      rw [← pure_eq_ok.mp h]
      exact hissues
    · cases h

theorem valid_of_readFile {files : Files} {path : String} {file : Fields}
    (h : readFile files path = .ok file) : Valid file := by
  intro s hs v hv
  obtain ⟨entries, heq, hentries⟩ := entries_of_record (issues_of_readFile h)
  cases heq
  exact ⟨_, hentries s (List.mem_append_left _ hs) v hv⟩

/-- The profiles of a file that is accepted, each of them valid. -/
theorem profiles_of_readFile {files : Files} {path : String} {file : Fields}
    (h : readFile files path = .ok file) {v : Value}
    (hv : Fields.get? file "environments" = some v) :
    ∃ profiles, v = .map profiles ∧ ∀ e ∈ profiles, ∃ fields, e.2 = .map fields ∧ Valid fields := by
  obtain ⟨entries, heq, hentries⟩ := entries_of_record (issues_of_readFile h)
  cases heq
  have hshape : ("environments", Shape.table profileShape) ∈
      sections ++ [("environments", .table profileShape)] :=
    List.mem_append_right _ List.mem_cons_self
  obtain ⟨profiles, rfl, hprofiles⟩ := entries_of_table (hentries _ hshape v hv)
  refine ⟨profiles, rfl, fun e he => ?_⟩
  obtain ⟨fields, hfields, hvalid⟩ := entries_of_record (hprofiles e he)
  exact ⟨fields, hfields, fun s hs w hw => ⟨_, hvalid s hs w hw⟩⟩

end Config
end ApiSync
