import Mathlib.Data.List.Nodup
import Mathlib.Logic.Relation
import ApiSync.Proofs.Alias.Loading
import ApiSync.Proofs.Fields
/-!
# Which files are entered

A run enters files that have no table yet, each one once, and only such that its own file reaches
through imports.  Files that reach one another make a circle.  A circle is entered as a whole, from
the first of its files, in a registry that knows none of them; this run of the first file is a part
of every run that enters the circle, and what it makes of the files behind it stays as it is.
-/

namespace ApiSync
namespace Alias

open Python

/-! ## Imports -/

def Found.isModule : Found → Bool
  | .module _ => true
  | _ => false

section

variable (files : Files) (root : String)

/-- The module at a path, if there is one. -/
def moduleOf (file : String) : Module :=
  match found files file with
  | .module m => m
  | _ => []

/-- The files that a file imports from. -/
def targets (file : String) : List String :=
  match found files file with
  | .module m => (imports m).filterMap (importedFile? files root file)
  | _ => []

def Imports (file target : String) : Prop := target ∈ targets files root file

/-- The file comes to the target through imports. -/
def Reaches : String → String → Prop := Relation.ReflTransGen (Imports files root)

/-- Each of the two files comes to the other, or they are the same. -/
def Circle (file other : String) : Prop :=
  Reaches files root file other ∧ Reaches files root other file

/-- The file makes loading fail. -/
def Fails (file : String) : Prop :=
  found files file = .directory ∨
    ∃ m, found files file = .module m ∧ (Declarations.ofModule file m).failure ≠ none

/-- None of the files that the file comes to makes loading fail. -/
def Loadable (file : String) : Prop := ∀ x, Reaches files root file x → ¬Fails files x

end

section

variable {files : Files} {root x y z : String}

theorem found_eq_module (h : (found files x).isModule = true) :
    found files x = .module (moduleOf files x) := by
  rw [moduleOf]
  cases hfound : found files x with
  | module m => rfl
  | nothing => rw [hfound] at h; cases h
  | directory => rw [hfound] at h; cases h

theorem imports_iff : Imports files root x y ↔
    ∃ m i, found files x = .module m ∧ i ∈ imports m ∧ importedFile? files root x i = some y := by
  rw [Imports, targets]
  cases found files x with
  | nothing => exact iff_of_false List.not_mem_nil nofun
  | directory => exact iff_of_false List.not_mem_nil nofun
  | module m =>
    rw [List.mem_filterMap]
    exact ⟨fun ⟨i, hi, hy⟩ => ⟨m, i, rfl, hi, hy⟩, fun ⟨_, i, hm, hi, hy⟩ =>
      ⟨i, Found.module.inj hm ▸ hi, hy⟩⟩

/-- Imports do not lead out of a list of files that has all the files it imports from. -/
theorem reaches_mem {listed : List String}
    (h : ∀ x ∈ listed, ∀ y ∈ targets files root x, y ∈ listed) (hx : x ∈ listed)
    (hxy : Reaches files root x y) : y ∈ listed := by
  induction hxy with
  | refl => exact hx
  | tail _ hstep ih => exact h _ ih _ hstep

theorem Circle.refl (x : String) : Circle files root x x := ⟨.refl, .refl⟩

theorem Circle.symm (h : Circle files root x y) : Circle files root y x := ⟨h.2, h.1⟩

theorem Circle.trans (hxy : Circle files root x y) (hyz : Circle files root y z) :
    Circle files root x z := ⟨hxy.1.trans hyz.1, hyz.2.trans hxy.2⟩

theorem Circle.congr (h : Circle files root x y) :
    Circle files root x = Circle files root y :=
  funext fun _ => propext ⟨h.symm.trans, h.trans⟩

theorem Loadable.of_reaches (h : Loadable files root x) (hxy : Reaches files root x y) :
    Loadable files root y := fun _ hz => h _ (hxy.trans hz)

end

/-! ## The files of a run -/

def Task.file : Task → String
  | .make file _ => file
  | .imports file _ _ => file

/-- The task is about what the tree has at the path of its file. -/
def Task.Genuine (files : Files) : Task → Prop
  | .make file f => f = found files file
  | .imports file _ rest => ∃ m, found files file = .module m ∧ ∀ i ∈ rest, i ∈ Alias.imports m

namespace Task.Genuine

variable {files : Files} {root file target : String} {m : Module} {table : Table} {i : ImportFrom}
  {rest : List ImportFrom}

theorem imports_of_make (h : Task.Genuine files (.make file (.module m))) (table : Table) :
    Task.Genuine files (.imports file table (Alias.imports m)) :=
  ⟨m, Eq.symm h, fun _ hi => hi⟩

theorem tail (h : Task.Genuine files (.imports file table (i :: rest))) (table' : Table) :
    Task.Genuine files (.imports file table' rest) := by
  obtain ⟨m, hm, hrest⟩ := h
  exact ⟨m, hm, fun j hj => hrest j (List.mem_cons_of_mem i hj)⟩

theorem imports_head (h : Task.Genuine files (.imports file table (i :: rest)))
    (htarget : importedFile? files root file i = some target) :
    Imports files root file target := by
  obtain ⟨m, hm, hrest⟩ := h
  exact imports_iff.mpr ⟨m, i, hm, hrest i List.mem_cons_self, htarget⟩

end Task.Genuine

namespace Runs

variable {files : Files} {root : String} {t : Task} {r r' : Registry}
  {result : Except Failure Table} {trace : List String}

theorem new_of_mem (h : Runs files root t r result r' trace) {x : String} (hx : x ∈ trace) :
    r.table? x = none := by
  induction h with
  | cached _ => exact absurd hx List.not_mem_nil
  | nothing hnew => rw [List.mem_singleton.mp hx, hnew]
  | directory hnew => rw [List.mem_singleton.mp hx, hnew]
  | undeclared hnew _ => rw [List.mem_singleton.mp hx, hnew]
  | module hnew _ _ ih =>
    rcases List.mem_cons.mp hx with rfl | hlater
    · exact hnew
    · have hopened := ih hlater
      rw [Registry.table?_opened] at hopened
      split at hopened
      · cases hopened
      · exact hopened
  | done => exact absurd hx List.not_mem_nil
  | unresolved _ _ ih => exact ih hx
  | imported _ hload _ ihload ih =>
    rcases List.mem_append.mp hx with hfirst | hsecond
    · exact ihload hfirst
    · cases hold : Registry.table? _ x with
      | none => rfl
      | some table =>
        have hkept := hload.keeps hold
        rw [ih hsecond] at hkept
        cases hkept
  | failed _ _ ih => exact ih hx

/-- The files that have a table afterwards had one before or are entered. -/
theorem table?_eq_none_iff (h : Runs files root t r result r' trace) (x : String) :
    r'.table? x = none ↔ r.table? x = none ∧ x ∉ trace := by
  induction h with
  | cached _ => simp
  | nothing _ => exact Registry.table?_setTable_eq_none_iff _ _ _ x
  | directory _ => exact Registry.table?_setTable_eq_none_iff _ _ _ x
  | undeclared _ _ => exact Registry.table?_opened_eq_none_iff _ _ x _
  | @module file m r r' result trace hnew _ _ ih =>
    rw [Registry.table?_opened_eq_none_iff] at ih
    by_cases hx : file = x
    · refine iff_of_false (fun hnone => ?_) fun h => h.2 (hx ▸ List.mem_cons_self)
      cases result with
      | ok table =>
        rw [Registry.table?_closed_ok, if_pos hx] at hnone
        cases hnone
      | error f => exact (ih.mp hnone).1.2 (hx ▸ List.mem_singleton_self file)
    · rw [Registry.table?_closed_of_ne _ hx, ih]
      simp [Ne.symm hx]
  | done => simp
  | unresolved _ _ ih => exact ih
  | imported _ _ _ ihload ih => rw [ih, ihload, List.mem_append, not_or, and_assoc]
  | failed _ _ ih => exact ih

theorem nodup (h : Runs files root t r result r' trace) : trace.Nodup := by
  induction h with
  | cached _ => exact List.nodup_nil
  | nothing _ => exact List.nodup_singleton _
  | directory _ => exact List.nodup_singleton _
  | undeclared _ _ => exact List.nodup_singleton _
  | module _ _ h ih =>
    refine List.nodup_cons.mpr ⟨fun hmem => ?_, ih⟩
    have hnone := h.new_of_mem hmem
    rw [Registry.table?_opened, if_pos rfl] at hnone
    cases hnone
  | done => exact List.nodup_nil
  | unresolved _ _ ih => exact ih
  | imported _ hload h ihload ih =>
    refine List.nodup_append'.mpr ⟨ihload, ih, fun x hfirst hsecond => ?_⟩
    exact (((hload.table?_eq_none_iff x).mp (h.new_of_mem hsecond)).2 hfirst)
  | failed _ _ ih => exact ih

theorem table?_of_ok {file : String} {f : Found} {table : Table}
    (h : Runs files root (.make file f) r (.ok table) r' trace) : r'.table? file = some table := by
  cases h with
  | cached h => exact h
  | nothing _ => rw [Registry.table?_setTable, if_pos rfl]
  | module _ _ _ => rw [Registry.table?_closed_ok, if_pos rfl]

/-- Only files that the file of the task reaches are entered. -/
theorem reaches_of_mem (h : Runs files root t r result r' trace) (ht : t.Genuine files)
    {x : String} (hx : x ∈ trace) : Reaches files root t.file x := by
  induction h with
  | cached _ => exact absurd hx List.not_mem_nil
  | nothing _ => exact List.mem_singleton.mp hx ▸ .refl
  | directory _ => exact List.mem_singleton.mp hx ▸ .refl
  | undeclared _ _ => exact List.mem_singleton.mp hx ▸ .refl
  | module _ _ _ ih =>
    rcases List.mem_cons.mp hx with rfl | hlater
    · exact .refl
    · exact ih (ht.imports_of_make _) hlater
  | done => exact absurd hx List.not_mem_nil
  | unresolved _ _ ih => exact ih (ht.tail _) hx
  | imported htarget _ _ ihload ih =>
    rcases List.mem_append.mp hx with hfirst | hsecond
    · exact .head (ht.imports_head htarget) (ihload rfl hfirst)
    · exact ih (ht.tail _) hsecond
  | failed htarget _ ih => exact .head (ht.imports_head htarget) (ih rfl hx)

/-- A run leaves the files alone that its own file does not reach. -/
theorem table?_of_not_reaches (h : Runs files root t r result r' trace) (ht : t.Genuine files)
    {x : String} (hx : ¬Reaches files root t.file x) : r'.table? x = r.table? x := by
  cases hold : r.table? x with
  | none => exact (h.table?_eq_none_iff x).mpr ⟨hold, fun hmem => hx (h.reaches_of_mem ht hmem)⟩
  | some table => exact h.keeps hold

/-- The files that are entered have resolved paths, as the file of the task. -/
theorem normal_of_mem (h : Runs files root t r result r' trace)
    (ht : Path.ofNames (Path.names t.file) = t.file) {x : String} (hx : x ∈ trace) :
    Path.ofNames (Path.names x) = x := by
  induction h with
  | cached _ => exact absurd hx List.not_mem_nil
  | nothing _ => exact List.mem_singleton.mp hx ▸ ht
  | directory _ => exact List.mem_singleton.mp hx ▸ ht
  | undeclared _ _ => exact List.mem_singleton.mp hx ▸ ht
  | module _ _ _ ih =>
    rcases List.mem_cons.mp hx with rfl | hlater
    · exact ht
    · exact ih ht hlater
  | done => exact absurd hx List.not_mem_nil
  | unresolved _ _ ih => exact ih ht hx
  | imported htarget _ _ ihload ih =>
    rcases List.mem_append.mp hx with hfirst | hsecond
    · exact ihload (importedFile?_normal htarget) hfirst
    · exact ih ht hsecond
  | failed htarget _ ih => exact ih (importedFile?_normal htarget) hx

/-- The registry names the files in the order in which they are entered. -/
theorem keys_eq (h : Runs files root t r result r' trace)
    (htrace : ∀ x ∈ trace, Fields.indexOf? x = none) :
    Fields.keys r'.tables = Fields.keys r.tables ++ trace := by
  have hset : ∀ {file : String} {r : Registry}, r.table? file = none →
      Fields.indexOf? file = none → Fields.keys (r.setTable file []).tables =
        Fields.keys r.tables ++ [file] :=
    fun hnew hindex => Fields.keys_set_of_new hnew hindex []
  induction h with
  | cached _ => rw [List.append_nil]
  | nothing hnew => exact hset hnew (htrace _ List.mem_cons_self)
  | directory hnew => exact hset hnew (htrace _ List.mem_cons_self)
  | undeclared hnew _ =>
    rw [Registry.opened, Registry.tables_addRecords]
    exact hset hnew (htrace _ List.mem_cons_self)
  | @module file m r r' result trace hnew hreads h ih =>
    obtain ⟨hhead, htail⟩ := List.forall_mem_cons.mp htrace
    have hopened : (r.opened file m).table? file = some [] := by
      rw [Registry.table?_opened, if_pos rfl]
    -- The table is set where the placeholder stands, so the key keeps its place.
    have hclosed : Fields.keys (r'.closed file result).tables = Fields.keys r'.tables := by
      cases result with
      | error f => rfl
      | ok table => exact Fields.keys_set_of_has (Fields.has_of_get? (h.keeps hopened)) table
    rw [hclosed, ih htail, Registry.opened, Registry.tables_addRecords, hset hnew hhead,
      List.append_assoc]
    rfl
  | done => rw [List.append_nil]
  | unresolved _ _ ih => exact ih htrace
  | imported _ _ _ ihload ih =>
    rw [ih fun x hx => htrace x (List.mem_append_right _ hx),
      ihload fun x hx => htrace x (List.mem_append_left _ hx), List.append_assoc]
  | failed _ _ ih => exact ih htrace

/-- Without a file that makes loading fail there is a table. -/
theorem exists_ok (h : Runs files root t r result r' trace) (ht : t.Genuine files)
    (hloadable : Loadable files root t.file) : ∃ table, result = .ok table := by
  induction h with
  | @cached file f r table _ => exact ⟨table, rfl⟩
  | nothing _ => exact ⟨[], rfl⟩
  | directory _ => exact absurd (Or.inl (Eq.symm ht)) (hloadable _ .refl)
  | undeclared _ hfails =>
    exact absurd (Or.inr ⟨_, Eq.symm ht, hfails ▸ nofun⟩) (hloadable _ .refl)
  | module _ _ _ ih => exact ih (ht.imports_of_make _) hloadable
  | @done file table r => exact ⟨table, rfl⟩
  | unresolved _ _ ih => exact ih (ht.tail _) hloadable
  | imported _ _ _ _ ih => exact ih (ht.tail _) hloadable
  | failed htarget _ ih =>
    exact ih rfl (hloadable.of_reaches (.single (ht.imports_head htarget)))

end Runs

/-! ## Entering a circle -/

section

variable (files : Files) (root : String)

open scoped Classical in
/-- The first of the files in the trace that makes a circle with the given one. -/
noncomputable def firstOf (file : String) (trace : List String) : Option String :=
  trace.find? fun x => decide (Circle files root file x)

/-- The registry holds what a run of the file has made, which has entered the circle of the file. -/
inductive Entered (file : String) (r : Registry) : Prop
  | intro {s s' : Registry} {result : Except Failure Table} {trace : List String}
      (run : Runs files root (.make file (found files file)) s result s' trace)
      (new : ∀ x, Circle files root file x → s.table? x = none)
      (kept : ∀ x table, Reaches files root file x → s'.table? x = some table →
        r.table? x = some table)

end

section

variable {files : Files} {root : String} {e : String}

theorem mem_of_firstOf {trace : List String} {x : String}
    (h : firstOf files root e trace = some x) : x ∈ trace := List.mem_of_find?_eq_some h

theorem circle_of_firstOf {trace : List String} {x : String}
    (h : firstOf files root e trace = some x) : Circle files root e x := by
  simpa only [decide_eq_true_eq] using List.find?_some h

theorem firstOf_eq_none {trace : List String} :
    firstOf files root e trace = none ↔ ∀ x ∈ trace, ¬Circle files root e x := by
  rw [firstOf, List.find?_eq_none]
  simp only [decide_eq_true_eq]

theorem firstOf_append (first second : List String) :
    firstOf files root e (first ++ second) =
      (firstOf files root e first).or (firstOf files root e second) := List.find?_append

theorem firstOf_cons_of_ne {file : String} {trace : List String} (h : file ≠ e)
    (hfirst : firstOf files root e (file :: trace) = some e) :
    ¬Circle files root e file ∧ firstOf files root e trace = some e := by
  rw [firstOf, List.find?_cons] at hfirst
  split at hfirst
  · exact absurd (Option.some.inj hfirst) h
  · next hnot => exact ⟨by simpa only [decide_eq_false_iff_not] using hnot, hfirst⟩

theorem Entered.mono {r r' : Registry} (h : Entered files root e r)
    (hkept : ∀ x table, Reaches files root e x → r.table? x = some table →
      r'.table? x = some table) : Entered files root e r' := by
  obtain ⟨run, new, kept⟩ := h
  exact ⟨run, new, fun x table hx htable => hkept x table hx (kept x table hx htable)⟩

end

namespace Runs

variable {files : Files} {root : String} {t : Task} {r r' : Registry}
  {result : Except Failure Table} {trace : List String} {e : String}

theorem entered_self {file : String} {f : Found}
    (h : Runs files root (.make file f) r result r' trace) (hf : f = found files file)
    (hnew : ∀ x, Circle files root e x → r.table? x = none) (hfile : file = e) :
    Entered files root e r' := by
  rw [hf, hfile] at h
  exact ⟨h, hnew, fun _ _ _ htable => htable⟩

/-- A run that enters a circle holds a run of the first file that it enters there. -/
theorem entered (h : Runs files root t r result r' trace) (ht : t.Genuine files)
    (hnew : ∀ x, Circle files root e x → r.table? x = none)
    (hfirst : firstOf files root e trace = some e) : Entered files root e r' := by
  induction h with
  | cached _ => cases hfirst
  | nothing h =>
    exact (Runs.nothing h).entered_self ht hnew
      (List.mem_singleton.mp (mem_of_firstOf hfirst)).symm
  | directory h =>
    exact (Runs.directory h).entered_self ht hnew
      (List.mem_singleton.mp (mem_of_firstOf hfirst)).symm
  | undeclared h hfails =>
    exact (Runs.undeclared h hfails).entered_self ht hnew
      (List.mem_singleton.mp (mem_of_firstOf hfirst)).symm
  | @module file m r r' result trace hfile hreads h ih =>
    by_cases hself : file = e
    · exact (Runs.module hfile hreads h).entered_self ht hnew hself
    · obtain ⟨hout, hlater⟩ := firstOf_cons_of_ne hself hfirst
      have hgenuine := ht.imports_of_make (Declarations.ofModule file m).table
      have hopened : ∀ x, Circle files root e x → (r.opened file m).table? x = none := by
        intro x hx
        rw [Registry.table?_opened_eq_none_iff]
        refine ⟨hnew x hx, fun hmem => hout ?_⟩
        rwa [← List.mem_singleton.mp hmem]
      refine (ih hgenuine hopened hlater).mono fun x table hx htable => ?_
      -- The file comes to the circle, so it is not behind it.
      have hne : file ≠ x := by
        rintro rfl
        exact hout ⟨hx, h.reaches_of_mem hgenuine (mem_of_firstOf hlater)⟩
      rwa [Registry.table?_closed_of_ne _ hne]
  | done => cases hfirst
  | unresolved _ _ ih => exact ih (ht.tail _) hnew hfirst
  | @imported file target table remote i rest r m r' result first second _ hload h ihload ih =>
    rw [firstOf_append] at hfirst
    cases hin : firstOf files root e first with
    | some x =>
      rw [hin, Option.some_or] at hfirst
      exact (ihload rfl hnew (hin.trans hfirst)).mono fun _ _ _ htable => h.keeps htable
    | none =>
      rw [hin, Option.none_or] at hfirst
      refine ih (ht.tail _) (fun x hx => ?_) hfirst
      rw [hload.table?_eq_none_iff]
      exact ⟨hnew x hx, fun hmem => firstOf_eq_none.mp hin x hmem hx⟩
  | failed _ _ ih => exact ih rfl hnew hfirst

end Runs

/-! ## Leaving a circle -/

def Task.pending : Task → List ImportFrom
  | .make _ _ => []
  | .imports _ _ rest => rest

def Registry.Knows (r : Registry) (file : String) : Prop := ∃ table, r.table? file = some table

theorem Registry.Knows.closed {r : Registry} {x : String} (h : r.Knows x) (file : String)
    (table : Table) : (r.closed file (.ok table)).Knows x := by
  obtain ⟨old, hold⟩ := h
  rw [Registry.Knows, Registry.table?_closed_ok]
  split
  · exact ⟨table, rfl⟩
  · exact ⟨old, hold⟩

namespace Runs

variable {files : Files} {root : String} {t : Task} {r r' : Registry}
  {result : Except Failure Table} {trace : List String} {e : String}

theorem knows_of_knows (h : Runs files root t r result r' trace) {x : String} (hx : r.Knows x) :
    r'.Knows x := by
  obtain ⟨table, htable⟩ := hx
  exact ⟨table, h.keeps htable⟩

/-- A run that does not fail leaves no import of the files that it enters undone. -/
theorem knows_targets (h : Runs files root t r result r' trace) (ht : t.Genuine files)
    (hok : ∃ table, result = .ok table) :
    (∀ x ∈ trace, ∀ y, Imports files root x y → r'.Knows y) ∧
      ∀ i ∈ t.pending, ∀ y, importedFile? files root t.file i = some y → r'.Knows y := by
  have hmade : ∀ {f : Found} {file : String}, f = found files file → (∀ m, f ≠ .module m) →
      ∀ x ∈ [file], ∀ y, ¬Imports files root x y := by
    intro f file hf hno x hx y hy
    obtain ⟨m, i, hm, -, -⟩ := imports_iff.mp hy
    rw [List.mem_singleton.mp hx, ← hf] at hm
    exact hno m hm
  induction h with
  | cached _ =>
    exact ⟨fun _ hx => absurd hx List.not_mem_nil, fun _ hi => absurd hi List.not_mem_nil⟩
  | nothing _ =>
    exact ⟨fun x hx y hy => absurd hy (hmade ht (fun _ => nofun) x hx y),
      fun _ hi => absurd hi List.not_mem_nil⟩
  | directory _ => exact absurd hok nofun
  | undeclared _ _ => exact absurd hok nofun
  | @module file m r r' result trace hfile hreads h ih =>
    obtain ⟨htrace, hpending⟩ := ih (ht.imports_of_make _) hok
    obtain ⟨table, rfl⟩ := hok
    refine ⟨fun x hx y hy => ?_, fun _ hi => absurd hi List.not_mem_nil⟩
    -- What is pending inside a module are the imports of its file.
    rcases List.mem_cons.mp hx with rfl | hlater
    · obtain ⟨m', i, hm', hi, hy⟩ := imports_iff.mp hy
      obtain rfl : m = m' := Found.module.inj (Eq.trans ht hm')
      exact (hpending i hi y hy).closed x table
    · exact (htrace x hlater y hy).closed file table
  | done => exact ⟨fun _ hx => absurd hx List.not_mem_nil, fun _ hi => absurd hi List.not_mem_nil⟩
  | unresolved hnone _ ih =>
    obtain ⟨htrace, hpending⟩ := ih (ht.tail _) hok
    refine ⟨htrace, fun j hj y hy => ?_⟩
    rcases List.mem_cons.mp hj with rfl | hlater
    · exact absurd (hnone.symm.trans hy) nofun
    · exact hpending j hlater y hy
  | imported htarget hload h ihload ih =>
    obtain ⟨hfirst, -⟩ := ihload rfl ⟨_, rfl⟩
    obtain ⟨hsecond, hpending⟩ := ih (ht.tail _) hok
    constructor
    · intro x hx y hy
      rcases List.mem_append.mp hx with hin | hin
      · exact h.knows_of_knows (hfirst x hin y hy)
      · exact hsecond x hin y hy
    · intro j hj y hy
      rcases List.mem_cons.mp hj with rfl | hlater
      · obtain rfl := Option.some.inj (htarget.symm.trans hy)
        exact h.knows_of_knows ⟨_, hload.table?_of_ok⟩
      · exact hpending j hlater y hy
  | failed _ _ _ => exact absurd hok nofun

/-- A run that enters a circle and does not fail makes all of it. -/
theorem knows_circle {table : Table}
    (h : Runs files root (.make e (found files e)) r (.ok table) r' trace)
    (hnew : ∀ x, Circle files root e x → r.table? x = none) {x : String}
    (hx : Circle files root e x) : r'.Knows x := by
  obtain ⟨hreaches, hback⟩ := hx
  induction hreaches with
  | refl => exact ⟨table, h.table?_of_ok⟩
  | @tail y z hy hyz ih =>
    have hyback : Reaches files root y e := .head hyz hback
    -- Along the way to `x` every file lies in the circle, so it is entered in this very run.
    obtain ⟨found, hfound⟩ := ih hyback
    have hmem : y ∈ trace := by
      refine Decidable.byContradiction fun hnot => ?_
      rw [(h.table?_eq_none_iff y).mpr ⟨hnew y ⟨hy, hyback⟩, hnot⟩] at hfound
      cases hfound
    exact (h.knows_targets rfl ⟨table, rfl⟩).1 y hmem z hyz

end Runs

/-! ## Behind a circle -/

section

variable {files : Files} {root : String}

open scoped Classical in
/-- The files of a trace that a file reaches. -/
noncomputable def ahead (files : Files) (root : String) (trace : List String) (file : String) :
    Finset String :=
  trace.toFinset.filter (Reaches files root file)

open scoped Classical in
theorem mem_ahead {trace : List String} {x z : String} :
    z ∈ ahead files root trace x ↔ z ∈ trace ∧ Reaches files root x z := by
  rw [ahead, Finset.mem_filter, List.mem_toFinset]

theorem card_ahead_lt {trace : List String} {x y : String} (hx : x ∈ trace)
    (hxy : Reaches files root x y) (hyx : ¬Reaches files root y x) :
    (ahead files root trace y).card < (ahead files root trace x).card := by
  refine Finset.card_lt_card ((Finset.ssubset_iff_of_subset fun z hz => ?_).mpr ⟨x, ?_, ?_⟩)
  · exact mem_ahead.mpr ⟨(mem_ahead.mp hz).1, hxy.trans (mem_ahead.mp hz).2⟩
  · exact mem_ahead.mpr ⟨hx, .refl⟩
  · exact fun h => hyx (mem_ahead.mp h).2

/-- What passes from the entered files behind a circle to the circle holds of every entered
file. -/
theorem induction_ahead (files : Files) (root : String) {trace : List String} {P : String → Prop}
    (h : ∀ x ∈ trace,
      (∀ y ∈ trace, Reaches files root x y → ¬Reaches files root y x → P y) → P x)
    {x : String} (hx : x ∈ trace) : P x := by
  induction hcard : (ahead files root trace x).card using Nat.strong_induction_on
    generalizing x with
  | _ n ih =>
    refine h x hx fun y hy hxy hyx => ih _ ?_ hy rfl
    rw [← hcard]
    exact card_ahead_lt hx hxy hyx

end

end Alias
end ApiSync
