import Mathlib.Data.Finset.Card
import ApiSync.Proofs.Files
import ApiSync.Proofs.Model.Session
import ApiSync.Proofs.Path
/-!
# Loading comes to an end

Loading a file loads the files that it imports, and the fuel of the loader hides why this ends.
`Runs` says without fuel what loading does, as a derivation that lists the files in the order in
which they are entered.  A file is entered if the registry has no table for it, and it has one from
then on, so the files of the tree without a table become fewer at each level of the imports.  They
are fewer than the fuel at the start, whatever the registry holds, so every call has a derivation.
-/

namespace ApiSync
namespace Alias

open Python

/-! ## Derivations -/

/-- What a reader of modules finds at a path. -/
inductive Found
  | nothing
  | directory
  | module (m : Module)

/-- What is found at a path of the tree; a malformed file counts as none. -/
def found (files : Files) (file : String) : Found :=
  match files.at? file with
  | none => .nothing
  | some (.dir _) => .directory
  | some (.file source) =>
    match parse source with
    | none => .nothing
    | some m => .module m

/-- The file at a path whose table is to be made, or imports of a file that are to be added to
its table. -/
inductive Task
  | make (file : String) (found : Found)
  | imports (file : String) (table : Table) (rest : List ImportFrom)

namespace Registry

def table? (r : Registry) (file : String) : Option Table := Fields.get? r.tables file

/-- The registry in which the imports of a module are read. -/
def opened (r : Registry) (file : String) (m : Module) : Registry :=
  -- The components are known by now, while the file itself counts as one without aliases.
  (Declarations.ofModule file m).records.foldl addRecord (r.setTable file [])

/-- The registry after the imports of a module, which holds the table if it has been made. -/
def closed (r : Registry) (file : String) : Except Failure Table → Registry
  | .ok table => (r.addAliases table).setTable file table
  | .error _ => r

end Registry

/-- A task in a registry comes to a result and a registry, and the files are entered on the way. -/
inductive Runs (files : Files) (root : String) :
    Task → Registry → Except Failure Table → Registry → List String → Prop
  | cached {file : String} {f : Found} {r : Registry} {table : Table}
      (h : r.table? file = some table) : Runs files root (.make file f) r (.ok table) r []
  | nothing {file : String} {r : Registry} (hnew : r.table? file = none) :
      Runs files root (.make file .nothing) r (.ok []) (r.setTable file []) [file]
  | directory {file : String} {r : Registry} (hnew : r.table? file = none) :
      Runs files root (.make file .directory) r (.error .unreadable) (r.setTable file []) [file]
  | undeclared {file : String} {m : Module} {r : Registry} {f : Failure}
      (hnew : r.table? file = none) (hfails : (Declarations.ofModule file m).failure = some f) :
      Runs files root (.make file (.module m)) r (.error f) (r.opened file m) [file]
  | module {file : String} {m : Module} {r r' : Registry} {result : Except Failure Table}
      {trace : List String} (hnew : r.table? file = none)
      (hreads : (Declarations.ofModule file m).failure = none)
      (h : Runs files root (.imports file (Declarations.ofModule file m).table (imports m))
        (r.opened file m) result r' trace) :
      Runs files root (.make file (.module m)) r result (r'.closed file result) (file :: trace)
  | done {file : String} {table : Table} {r : Registry} :
      Runs files root (.imports file table []) r (.ok table) r []
  | unresolved {file : String} {table : Table} {i : ImportFrom} {rest : List ImportFrom}
      {r r' : Registry} {result : Except Failure Table} {trace : List String}
      (hnone : importedFile? files root file i = none)
      (h : Runs files root (.imports file table rest) r result r' trace) :
      Runs files root (.imports file table (i :: rest)) r result r' trace
  | imported {file target : String} {table remote : Table} {i : ImportFrom}
      {rest : List ImportFrom} {r m r' : Registry} {result : Except Failure Table}
      {first second : List String} (htarget : importedFile? files root file i = some target)
      (hload : Runs files root (.make target (found files target)) r (.ok remote) m first)
      (h : Runs files root (.imports file (importNames remote table i.names) rest) m result r'
        second) :
      Runs files root (.imports file table (i :: rest)) r result r' (first ++ second)
  | failed {file target : String} {table : Table} {i : ImportFrom} {rest : List ImportFrom}
      {r r' : Registry} {f : Failure} {trace : List String}
      (htarget : importedFile? files root file i = some target)
      (hload : Runs files root (.make target (found files target)) r (.error f) r' trace) :
      Runs files root (.imports file table (i :: rest)) r (.error f) r' trace

/-! ## Tables on the way -/

namespace Registry

variable (r : Registry) (file : String) (table : Table) (x : String)

theorem table?_setTable :
    (r.setTable file table).table? x = if file = x then some table else r.table? x :=
  Fields.get?_set r.tables file table x

theorem table?_setTable_eq_none_iff :
    (r.setTable file table).table? x = none ↔ r.table? x = none ∧ x ∉ [file] := by
  rw [table?_setTable]
  by_cases h : file = x
  · simp [h]
  · simp [h, Ne.symm h]

theorem tables_addRecords (records : List Record) :
    (records.foldl addRecord r).tables = r.tables := by
  induction records generalizing r with
  | nil => rfl
  | cons record records ih => exact ih (r.addRecord record)

theorem table?_opened (m : Module) :
    (r.opened file m).table? x = if file = x then some [] else r.table? x := by
  rw [table?, opened, tables_addRecords]
  exact table?_setTable r file [] x

theorem table?_opened_eq_none_iff (m : Module) :
    (r.opened file m).table? x = none ↔ r.table? x = none ∧ x ∉ [file] := by
  rw [table?_opened, ← table?_setTable, table?_setTable_eq_none_iff]

theorem table?_closed_ok :
    (r.closed file (.ok table)).table? x = if file = x then some table else r.table? x :=
  table?_setTable (r.addAliases table) file table x

theorem table?_closed_of_ne {file x : String} (h : file ≠ x) (result : Except Failure Table) :
    (r.closed file result).table? x = r.table? x := by
  cases result with
  | error f => rfl
  | ok table => rw [table?_closed_ok, if_neg h]

theorem projectRoot_addRecords (records : List Record) :
    (records.foldl addRecord r).projectRoot = r.projectRoot := by
  induction records generalizing r with
  | nil => rfl
  | cons record records ih => exact ih (r.addRecord record)

theorem projectRoot_closed (result : Except Failure Table) :
    (r.closed file result).projectRoot = r.projectRoot := by
  cases result <;> rfl

end Registry

namespace Runs

variable {files : Files} {root : String} {t : Task} {r r' : Registry}
  {result : Except Failure Table} {trace : List String}

theorem projectRoot_eq (h : Runs files root t r result r' trace) :
    r'.projectRoot = r.projectRoot := by
  induction h with
  | cached _ => rfl
  | nothing _ => rfl
  | directory _ => rfl
  | undeclared _ _ => exact Registry.projectRoot_addRecords _ _
  | module _ _ _ ih =>
    rw [Registry.projectRoot_closed, ih]
    exact Registry.projectRoot_addRecords _ _
  | done => rfl
  | unresolved _ _ ih => exact ih
  | imported _ _ _ ihload ih => rw [ih, ihload]
  | failed _ _ ih => exact ih

/-- A table that the registry holds before stays as it is. -/
theorem keeps (h : Runs files root t r result r' trace) {x : String} {table : Table}
    (hx : r.table? x = some table) : r'.table? x = some table := by
  have hne : ∀ {file : String} {r : Registry}, r.table? file = none → r.table? x = some table →
      file ≠ x := by
    rintro file r hnew hx rfl
    rw [hnew] at hx
    cases hx
  induction h with
  | cached _ => exact hx
  | nothing hnew => rw [Registry.table?_setTable, if_neg (hne hnew hx), hx]
  | directory hnew => rw [Registry.table?_setTable, if_neg (hne hnew hx), hx]
  | undeclared hnew _ => rw [Registry.table?_opened, if_neg (hne hnew hx), hx]
  | module hnew _ _ ih =>
    rw [Registry.table?_closed_of_ne _ (hne hnew hx)]
    exact ih (by rw [Registry.table?_opened, if_neg (hne hnew hx), hx])
  | done => exact hx
  | unresolved _ _ ih => exact ih hx
  | imported _ _ _ ihload ih => exact ih (ihload hx)
  | failed _ _ ih => exact ih hx

/-! The registry, and what is found or imported, decide which step a derivation ends with. -/

section Inversion

variable {file : String} {f : Found} {m : Module} {table : Table} {i : ImportFrom}
  {rest : List ImportFrom}

theorem cached_inv (h : Runs files root (.make file f) r result r' trace)
    (hcached : r.table? file = some table) : result = .ok table ∧ r' = r ∧ trace = [] := by
  cases h with
  | cached hcached' => exact ⟨by rw [Option.some.inj (hcached.symm.trans hcached')], rfl, rfl⟩
  | nothing hnew => exact absurd (hcached.symm.trans hnew) nofun
  | directory hnew => exact absurd (hcached.symm.trans hnew) nofun
  | undeclared hnew _ => exact absurd (hcached.symm.trans hnew) nofun
  | module hnew _ _ => exact absurd (hcached.symm.trans hnew) nofun

theorem nothing_inv (h : Runs files root (.make file .nothing) r result r' trace)
    (hnew : r.table? file = none) :
    result = .ok [] ∧ r' = r.setTable file [] ∧ trace = [file] := by
  cases h with
  | cached hcached => exact absurd (hnew.symm.trans hcached) nofun
  | nothing _ => exact ⟨rfl, rfl, rfl⟩

theorem directory_inv (h : Runs files root (.make file .directory) r result r' trace)
    (hnew : r.table? file = none) :
    result = .error .unreadable ∧ r' = r.setTable file [] ∧ trace = [file] := by
  cases h with
  | cached hcached => exact absurd (hnew.symm.trans hcached) nofun
  | directory _ => exact ⟨rfl, rfl, rfl⟩

theorem undeclared_inv {e : Failure}
    (h : Runs files root (.make file (.module m)) r result r' trace)
    (hnew : r.table? file = none) (hfails : (Declarations.ofModule file m).failure = some e) :
    result = .error e ∧ r' = r.opened file m ∧ trace = [file] := by
  cases h with
  | cached hcached => exact absurd (hnew.symm.trans hcached) nofun
  | undeclared _ hfails' => exact ⟨by rw [Option.some.inj (hfails.symm.trans hfails')], rfl, rfl⟩
  | module _ hreads _ => exact absurd (hfails.symm.trans hreads) nofun

theorem module_inv (h : Runs files root (.make file (.module m)) r result r' trace)
    (hnew : r.table? file = none) (hreads : (Declarations.ofModule file m).failure = none) :
    ∃ s more, Runs files root (.imports file (Declarations.ofModule file m).table (imports m))
        (r.opened file m) result s more ∧
      r' = s.closed file result ∧ trace = file :: more := by
  cases h with
  | cached hcached => exact absurd (hnew.symm.trans hcached) nofun
  | undeclared _ hfails => exact absurd (hreads.symm.trans hfails) nofun
  | module _ _ h => exact ⟨_, _, h, rfl, rfl⟩

theorem done_inv (h : Runs files root (.imports file table []) r result r' trace) :
    result = .ok table ∧ r' = r ∧ trace = [] := by
  cases h with
  | done => exact ⟨rfl, rfl, rfl⟩

theorem unresolved_inv (h : Runs files root (.imports file table (i :: rest)) r result r' trace)
    (hnone : importedFile? files root file i = none) :
    Runs files root (.imports file table rest) r result r' trace := by
  cases h with
  | unresolved _ h => exact h
  | imported htarget _ _ => exact absurd (hnone.symm.trans htarget) nofun
  | failed htarget _ => exact absurd (hnone.symm.trans htarget) nofun

theorem imported_inv {target : String}
    (h : Runs files root (.imports file table (i :: rest)) r result r' trace)
    (htarget : importedFile? files root file i = some target) :
    (∃ remote s first second,
      Runs files root (.make target (found files target)) r (.ok remote) s first ∧
        Runs files root (.imports file (importNames remote table i.names) rest) s result r' second ∧
        trace = first ++ second) ∨
      ∃ e, result = .error e ∧
        Runs files root (.make target (found files target)) r (.error e) r' trace := by
  cases h with
  | unresolved hnone _ => exact absurd (htarget.symm.trans hnone) nofun
  | imported htarget' hload h =>
    obtain rfl := Option.some.inj (htarget.symm.trans htarget')
    exact .inl ⟨_, _, _, _, hload, h, rfl⟩
  | failed htarget' hload =>
    obtain rfl := Option.some.inj (htarget.symm.trans htarget')
    exact .inr ⟨_, rfl, hload⟩

end Inversion

/-- What a task comes to is determined by the registry. -/
theorem unique (h : Runs files root t r result r' trace) {result₂ : Except Failure Table}
    {r₂ : Registry} {trace₂ : List String} (h₂ : Runs files root t r result₂ r₂ trace₂) :
    result = result₂ ∧ r' = r₂ ∧ trace = trace₂ := by
  induction h generalizing result₂ r₂ trace₂ with
  | cached hcached =>
    obtain ⟨rfl, rfl, rfl⟩ := h₂.cached_inv hcached
    exact ⟨rfl, rfl, rfl⟩
  | nothing hnew =>
    obtain ⟨rfl, rfl, rfl⟩ := h₂.nothing_inv hnew
    exact ⟨rfl, rfl, rfl⟩
  | directory hnew =>
    obtain ⟨rfl, rfl, rfl⟩ := h₂.directory_inv hnew
    exact ⟨rfl, rfl, rfl⟩
  | undeclared hnew hfails =>
    obtain ⟨rfl, rfl, rfl⟩ := h₂.undeclared_inv hnew hfails
    exact ⟨rfl, rfl, rfl⟩
  | module hnew hreads _ ih =>
    obtain ⟨s, more, himports, rfl, rfl⟩ := h₂.module_inv hnew hreads
    obtain ⟨rfl, rfl, rfl⟩ := ih himports
    exact ⟨rfl, rfl, rfl⟩
  | done =>
    obtain ⟨rfl, rfl, rfl⟩ := h₂.done_inv
    exact ⟨rfl, rfl, rfl⟩
  | unresolved hnone _ ih => exact ih (h₂.unresolved_inv hnone)
  | imported htarget _ _ ihload ih =>
    rcases h₂.imported_inv htarget with ⟨remote, s, first, second, hload₂, hrest, rfl⟩ |
      ⟨e, rfl, hload₂⟩
    · obtain ⟨hremote, rfl, rfl⟩ := ihload hload₂
      obtain rfl := Except.ok.inj hremote
      obtain ⟨rfl, rfl, rfl⟩ := ih hrest
      exact ⟨rfl, rfl, rfl⟩
    · exact absurd (ihload hload₂).1 nofun
  | failed htarget _ ih =>
    rcases h₂.imported_inv htarget with ⟨remote, s, first, second, hload₂, -, -⟩ |
      ⟨e, rfl, hload₂⟩
    · exact absurd (ih hload₂).1 nofun
    · exact ih hload₂

end Runs

/-- The file that an import reads is named by its resolved path. -/
theorem importedFile?_normal {files : Files} {root file target : String} {i : ImportFrom}
    (h : importedFile? files root file i = some target) :
    Path.ofNames (Path.names target) = target := by
  obtain ⟨path, -, rfl⟩ := Option.map_eq_some_iff.mp h
  exact Path.ofNames_names_resolve "/" path

/-! ## Files without a table -/

/-- The files of the tree that have no table yet. -/
def unread (files : Files) (r : Registry) : Finset String :=
  (files.walk.map Path.ofNames).toFinset.filter fun file => r.table? file = none

theorem card_unread_le_walk (files : Files) (r : Registry) :
    (unread files r).card ≤ files.walk.length :=
  (Finset.card_filter_le _ _).trans
    ((List.toFinset_card_le _).trans (List.length_map Path.ofNames).le)

theorem card_unread_le {files : Files} {r r' : Registry}
    (h : ∀ x table, r.table? x = some table → ∃ table', r'.table? x = some table') :
    (unread files r').card ≤ (unread files r).card := by
  refine Finset.card_le_card fun x hx => ?_
  rw [unread, Finset.mem_filter] at hx ⊢
  refine ⟨hx.1, ?_⟩
  cases hold : r.table? x with
  | none => rfl
  | some table =>
    obtain ⟨table', hnew⟩ := h x table hold
    rw [hx.2] at hnew
    cases hnew

theorem unread_opened (files : Files) (r : Registry) (file : String) (m : Module) :
    unread files (r.opened file m) = unread files (r.setTable file []) := by
  simp only [unread, Registry.table?_opened, Registry.table?_setTable]

/-- The files of the tree become fewer when one of them gets a table. -/
theorem card_unread_setTable_lt {files : Files} {r : Registry} {file : String} {m : Module}
    (hnormal : Path.ofNames (Path.names file) = file) (hfound : found files file = .module m)
    (hnew : r.table? file = none) (table : Table) :
    (unread files (r.setTable file table)).card < (unread files r).card := by
  have hwalk : Path.names file ∈ files.walk := by
    rw [found] at hfound
    split at hfound
    · cases hfound
    · cases hfound
    · next source hat => exact Node.mem_walk_of_find? hat
  refine Finset.card_lt_card ((Finset.ssubset_iff_of_subset ?_).mpr ⟨file, ?_, ?_⟩)
  · intro x hx
    rw [unread, Finset.mem_filter, Registry.table?_setTable] at hx
    rw [unread, Finset.mem_filter]
    refine ⟨hx.1, ?_⟩
    have hrest := hx.2
    split at hrest
    · cases hrest
    · exact hrest
  · rw [unread, Finset.mem_filter, List.mem_toFinset]
    exact ⟨List.mem_map.mpr ⟨_, hwalk, hnormal⟩, hnew⟩
  · rw [unread, Finset.mem_filter, Registry.table?_setTable, if_pos rfl]
    exact fun h => nomatch h.2

/-! ## The loader -/

namespace Loading

variable {α : Type}

theorem run_pure (a : α) (r : Registry) : (pure a : Loading α).run.run r = (.ok a, r) := rfl

theorem run_get (r : Registry) : (get : Loading Registry).run.run r = (.ok r, r) := rfl

theorem run_modify (f : Registry → Registry) (r : Registry) :
    (modify f : Loading Unit).run.run r = (.ok (), f r) := rfl

end Loading

open Loading

/-- The step does what the task comes to. -/
def Performs (files : Files) (x : Loading Table) (t : Task) (r : Registry) : Prop :=
  ∃ result r' trace, x.run.run r = (result, r') ∧ Runs files r.projectRoot t r result r' trace

/-- A derivation says what the step that performs the task gives. -/
theorem Performs.run_eq {files : Files} {x : Loading Table} {t : Task} {r r' : Registry}
    {result : Except Failure Table} {trace : List String} (hx : Performs files x t r)
    (h : Runs files r.projectRoot t r result r' trace) : x.run.run r = (result, r') := by
  obtain ⟨result₂, r₂, trace₂, hrun, h₂⟩ := hx
  obtain ⟨rfl, rfl, -⟩ := h.unique h₂
  exact hrun

/-- The table of a file, given what is found at its path. -/
def make (load : String → Loading Table) (files : Files) (file : String) (f : Found) :
    Loading Table := do
  match Fields.get? (← get).tables file with
  | some table => return table
  | none =>
    modify (·.setTable file [])
    match f with
    | .nothing => return []
    | .directory => throw .unreadable
    | .module m => collect load files file m

theorem loadFrom_succ (files : Files) (fuel : Nat) (file : String) :
    loadFrom files (fuel + 1) file = make (loadFrom files fuel) files file (found files file) := by
  rw [loadFrom, make.eq_def, found]
  congr 1
  funext r
  cases Fields.get? r.tables file with
  | some table => rfl
  | none =>
    cases files.at? file with
    | none => rfl
    | some node =>
      cases node with
      | dir entries => rfl
      | file source => dsimp only; cases parse source <;> rfl

theorem register_eq_make (files : Files) (file : String) (m : Module) :
    register files file m = make (load files) files file (.module m) := rfl

/-- The loader of the imports does what it should, in all registries with few files to be read. -/
def LoadsBelow (files : Files) (load : String → Loading Table) (bound : Nat) : Prop :=
  ∀ target r, Path.ofNames (Path.names target) = target → (unread files r).card < bound →
    Performs files (load target) (.make target (found files target)) r

section

variable {files : Files} {load : String → Loading Table} {bound : Nat}

theorem run_addImport_none {file : String} {i : ImportFrom} {r : Registry}
    (h : importedFile? files r.projectRoot file i = none) (table : Table) :
    (addImport load files file table i).run.run r = (.ok table, r) := by
  rw [addImport, run_bind, run_get]
  dsimp only
  rw [h, run_pure]

theorem run_addImport_some {file target : String} {i : ImportFrom} {r : Registry}
    (h : importedFile? files r.projectRoot file i = some target) (table : Table) :
    (addImport load files file table i).run.run r =
      (do return importNames (← load target) table i.names : Loading Table).run.run r := by
  rw [addImport, run_bind, run_get]
  dsimp only
  rw [h]

theorem performs_imports (hload : LoadsBelow files load bound) (file : String)
    (rest : List ImportFrom) (table : Table) {r : Registry}
    (hr : (unread files r).card < bound) :
    Performs files (rest.foldlM (addImport load files file) table) (.imports file table rest)
      r := by
  induction rest generalizing table r with
  | nil => exact ⟨.ok table, r, [], rfl, .done⟩
  | cons i rest ih =>
    rw [Performs, List.foldlM_cons, run_bind]
    cases htarget : importedFile? files r.projectRoot file i with
    | none =>
      rw [run_addImport_none htarget]
      obtain ⟨result, r', trace, hrun, h⟩ := ih table hr
      exact ⟨result, r', trace, hrun, .unresolved htarget h⟩
    | some target =>
      rw [run_addImport_some htarget, run_bind]
      obtain ⟨remote, m, first, hrun, h⟩ := hload target r (importedFile?_normal htarget) hr
      rw [hrun]
      cases remote with
      | error f => exact ⟨.error f, m, first, rfl, .failed htarget h⟩
      | ok remote =>
        have hm : (unread files m).card < bound :=
          Nat.lt_of_le_of_lt (card_unread_le fun _ table hx => ⟨table, h.keeps hx⟩) hr
        obtain ⟨result, r', second, hrun', h'⟩ := ih (importNames remote table i.names) hm
        rw [h.projectRoot_eq] at h'
        exact ⟨result, r', first ++ second, hrun', .imported htarget h h'⟩

/-- Collecting a module that is new to the registry, which counts it as one without aliases. -/
theorem performs_collect (hload : LoadsBelow files load bound) {file : String} {m : Module}
    {r : Registry} (hnew : r.table? file = none)
    (hr : (unread files (r.setTable file [])).card < bound) :
    ∃ result r' trace, (collect load files file m).run.run (r.setTable file []) = (result, r') ∧
      Runs files r.projectRoot (.make file (.module m)) r result r' trace := by
  rw [collect]
  rw [run_bind, run_modify]
  cases hfailure : (Declarations.ofModule file m).failure with
  | some e => exact ⟨.error e, _, [file], rfl, .undeclared hnew hfailure⟩
  | none =>
    have hopened : (unread files (r.opened file m)).card < bound := by
      rwa [unread_opened]
    have hroot : (r.opened file m).projectRoot = r.projectRoot :=
      Registry.projectRoot_addRecords _ _
    obtain ⟨result, r', trace, hrun, h⟩ := performs_imports hload file (imports m)
      (Declarations.ofModule file m).table hopened
    rw [hroot] at h
    refine ⟨result, r'.closed file result, file :: trace, ?_, .module hnew hfailure h⟩
    rw [Registry.opened] at hrun
    dsimp only
    rw [run_bind, hrun]
    cases result <;> rfl

theorem performs_make (hload : LoadsBelow files load bound) {file : String} {f : Found}
    {r : Registry} (hr : r.table? file = none → ∀ m, f = .module m →
      (unread files (r.setTable file [])).card < bound) :
    Performs files (make load files file f) (.make file f) r := by
  rw [Performs, make.eq_def, run_bind, run_get]
  dsimp only
  cases hcached : r.table? file with
  | some table =>
    rw [Registry.table?] at hcached
    rw [hcached]
    exact ⟨.ok table, r, [], rfl, .cached hcached⟩
  | none =>
    have hnone : Fields.get? r.tables file = none := hcached
    rw [hnone]
    dsimp only
    rw [run_bind, run_modify]
    cases f with
    | nothing => exact ⟨.ok [], _, [file], rfl, .nothing hcached⟩
    | directory => exact ⟨.error .unreadable, _, [file], rfl, .directory hcached⟩
    | module m => exact performs_collect hload hcached (hr hcached m rfl)

end

/-- The fuel is enough if fewer files of the tree are without a table. -/
theorem loadsBelow_loadFrom (files : Files) (fuel : Nat) :
    LoadsBelow files (loadFrom files fuel) fuel := by
  induction fuel with
  | zero => exact fun _ _ _ hr => absurd hr (Nat.not_lt_zero _)
  | succ fuel ih =>
    intro target r hnormal hr
    rw [loadFrom_succ]
    -- Entering the target takes it off the files to be read, as the imports lose one level of fuel.
    refine performs_make ih fun hnew m hm => ?_
    exact Nat.lt_of_lt_of_le (card_unread_setTable_lt hnormal hm hnew []) (Nat.le_of_lt_succ hr)

theorem performs_load (files : Files) (file : String) (r : Registry) :
    Performs files (load files file) (.make file (found files file)) r := by
  rw [load, loadFuel, loadFrom_succ]
  refine performs_make (loadsBelow_loadFrom files _) fun _ m _ => ?_
  exact Nat.lt_succ_of_le (card_unread_le_walk files _)

theorem performs_register (files : Files) (file : String) (m : Module) (r : Registry) :
    Performs files (register files file m) (.make file (.module m)) r := by
  rw [register_eq_make]
  refine performs_make (loadsBelow_loadFrom files _) fun _ m _ => ?_
  exact Nat.lt_of_le_of_lt (card_unread_le_walk files _) (Nat.lt_add_of_pos_right Nat.two_pos)

end Alias
end ApiSync
