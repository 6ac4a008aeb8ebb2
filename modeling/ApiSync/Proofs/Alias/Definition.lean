import Mathlib.Data.List.Basic
import ApiSync.Proofs.Alias.Sessions
import ApiSync.Proofs.Fields
/-!
# What the table of a file is

The table of a file is defined by recursion along its imports: its own declarations, and then each
imported name that is not defined yet and that the table of the imported file defines.  Where the
imports make no circle this defines one table, and a session comes to it whatever it has loaded
before, for every file that it has finished has its table by then.  Names that every mapping
answers to are lost on the way, so the files must do without them.
-/

namespace ApiSync
namespace Alias

open Python

/-! ## The definition -/

def factoryArgument? (e : Expr) : Option (Option Expr) :=
  e.call?.bind fun outer => outer.function.call?.bind fun inner =>
    if inner.function.lastName? = some "type_alias" then some outer.args.head? else none

/-- The text that a declaration stands for. -/
def declaredText (value : Option Expr) : String :=
  match value.bind factoryArgument? with
  | some argument => Declarations.lineOf argument
  | none => Declarations.lineOf value

/-- The name and text that a statement declares. -/
def declaration? (s : Statement) : Option (String × String) :=
  (Declarations.plain? s).bind fun d =>
    if declaredText d.2 = "" then none else some (d.1, declaredText d.2)

def declarations (m : Module) : List (String × String) := m.filterMap declaration?

/-- Adds an imported name, if it is not defined yet and the other table defines it. -/
def extend (remote table : Table) (name : ImportedName) : Table :=
  if Fields.has table name.boundTo then table
  else match Fields.get? remote name.name with
    | some text => Fields.set table name.boundTo text
    | none => table

section

variable (files : Files) (root : String)

/-- Adds the names of an import; an import of no known file has none. -/
def extendBy (remotes : String → Table) (file : String) (table : Table) (i : ImportFrom) : Table :=
  match importedFile? files root file i with
  | none => table
  | some target => i.names.foldl (extend (remotes target)) table

/-- The table is the one of the file.  Of several declarations of a name the last one counts. -/
inductive Defines : String → Table → Prop
  | nothing {file : String} (h : found files file = .nothing) : Defines file []
  | module {file : String} {m : Module} {remotes : String → Table}
      (h : found files file = .module m)
      (hremotes : ∀ target, Imports files root file target → Defines target (remotes target)) :
      Defines file
        ((imports m).foldl (extendBy files root remotes file) (Fields.ofList (declarations m)))

end

theorem extendBy_congr {files : Files} {root file : String} {m : Module}
    (h : found files file = .module m) {remotes remotes' : String → Table}
    (hsame : ∀ target, Imports files root file target → remotes target = remotes' target)
    (table : Table) : (imports m).foldl (extendBy files root remotes file) table =
      (imports m).foldl (extendBy files root remotes' file) table := by
  refine List.foldl_ext _ _ _ fun table i hi => ?_
  rw [extendBy, extendBy]
  cases htarget : importedFile? files root file i with
  | none => rfl
  | some target =>
    dsimp only
    rw [hsame target (imports_iff.mpr ⟨m, i, h, hi, htarget⟩)]

/-- A file has one table at most. -/
theorem Defines.unique {files : Files} {root file : String} {table table' : Table}
    (h : Defines files root file table) (h' : Defines files root file table') :
    table = table' := by
  induction h generalizing table' with
  | nothing hnothing =>
    cases h' with
    | nothing _ => rfl
    | module hmodule _ => rw [hnothing] at hmodule; cases hmodule
  | module hmodule _ ih =>
    cases h' with
    | nothing hnothing => rw [hmodule] at hnothing; cases hnothing
    | module hmodule' hremotes' =>
      obtain rfl := Found.module.inj (hmodule.symm.trans hmodule')
      exact extendBy_congr hmodule
        (fun target htarget => ih target htarget (hremotes' target htarget)) _

/-! ## Plain files -/

/-- The file can be read, its declarations do not fail, and none of its names is one that every
mapping answers to. -/
def isPlain (files : Files) (file : String) : Bool :=
  match found files file with
  | .nothing => true
  | .directory => false
  | .module m =>
    (Declarations.ofModule file m).failure.isNone &&
      (declarations m).all (fun d => d.1 ≠ Ambient.parentName) &&
      (imports m).all fun i => i.names.all fun name =>
        !Ambient.isAmbient name.name && !Ambient.isAmbient name.boundTo

/-- The imports come back to none of the files that the file reaches. -/
def Acyclic (files : Files) (root file : String) : Prop :=
  ∀ x, Reaches files root file x → ¬Relation.TransGen (Imports files root) x x

/-! ## Reading a module -/

namespace Declarations

theorem andThen_of_success {d : Declarations} {step : Declarations → Except Failure Declarations}
    (h : (d.andThen step).failure = none) :
    d.failure = none ∧ step d = .ok (d.andThen step) := by
  rw [andThen] at h ⊢
  split at h
  · next hfailed =>
    rw [h] at hfailed
    cases hfailed
  · next hfailed =>
    rw [if_neg hfailed]
    refine ⟨Option.not_isSome_iff_eq_none.mp hfailed, ?_⟩
    split at h
    · next e he => rw [he]
    · cases h

/-- Declarations without a failure have taken every step. -/
theorem foldlM_of_success {f : Statement → Declarations → Except Failure Declarations}
    {m : Module} {d : Declarations} (h : (m.foldl (fun d s => d.andThen (f s)) d).failure = none) :
    d.failure = none ∧
      m.foldlM (fun d s => f s d) d = .ok (m.foldl (fun d s => d.andThen (f s)) d) := by
  induction m generalizing d with
  | nil => exact ⟨h, rfl⟩
  | cons s m ih =>
    obtain ⟨hnext, hlater⟩ := ih h
    obtain ⟨hd, hstep⟩ := andThen_of_success hnext
    refine ⟨hd, ?_⟩
    rw [List.foldlM_cons, bind_eq_ok]
    exact ⟨_, hstep, hlater⟩

theorem argument_of_factory? {e : Expr} {f : Option Factory} (h : factory? e = .ok f) :
    f.map Factory.argument = factoryArgument? e := by
  rw [factory?] at h
  rw [factoryArgument?]
  cases houter : e.call? with
  | none =>
    rw [houter] at h
    rw [← pure_eq_ok.mp h]
    rfl
  | some outer =>
    rw [houter] at h
    dsimp only at h
    rw [Option.bind_some]
    cases hinner : outer.function.call? with
    | none =>
      rw [hinner] at h
      rw [← pure_eq_ok.mp h]
      rfl
    | some inner =>
      rw [hinner] at h
      dsimp only at h
      rw [Option.bind_some]
      split at h
      · next hname =>
        obtain ⟨options, -, hpure⟩ := bind_eq_ok.mp h
        rw [if_pos hname, ← pure_eq_ok.mp hpure]
        rfl
      · next hname =>
        rw [if_neg hname, ← pure_eq_ok.mp h]
        rfl

/-- Adds a declaration that is made by the factory, if there is one. -/
def addDeclared (file name : String) (value : Option Expr) (d : Declarations) :
    Option Factory → Declarations
  | none => d.define name (lineOf value)
  | some f => { d.define name (lineOf f.argument) with
      records := d.records ++ [f.options.record name (lineOf f.argument) file] }

theorem exists_addDeclared {file name : String} {s : Statement} {value : Option Expr}
    {d e : Declarations} (hplain : plain? s = some (name, value)) (h : addPlain file s d = .ok e) :
    ∃ factory, factory.map Factory.argument = value.bind factoryArgument? ∧
      e = addDeclared file name value d factory := by
  rw [addPlain, hplain] at h
  dsimp only at h
  cases value with
  | none => exact ⟨none, rfl, (pure_eq_ok.mp h).symm⟩
  | some expression =>
    obtain ⟨factory, hfactory, hrun⟩ := bind_eq_ok.mp h
    refine ⟨factory, argument_of_factory? hfactory, ?_⟩
    cases factory with
    | none => exact (pure_eq_ok.mp hrun).symm
    | some f => exact (pure_eq_ok.mp hrun).symm

theorem table_addDeclared {factory : Option Factory} {value : Option Expr}
    (h : factory.map Factory.argument = value.bind factoryArgument?) (file name : String)
    (d : Declarations) :
    (addDeclared file name value d factory).table = (d.define name (declaredText value)).table := by
  rw [declaredText, ← h]
  cases factory <;> rfl

theorem table_define (d : Declarations) (name text : String) :
    (d.define name text).table = (if text = "" then none else some (name, text)).toList.foldl
      (fun t d => Fields.assign t d.1 d.2) d.table := by
  rw [define]
  split <;> rfl

theorem table_of_addPlain {file : String} {s : Statement} {d e : Declarations}
    (h : addPlain file s d = .ok e) :
    e.table = (declaration? s).toList.foldl (fun t d => Fields.assign t d.1 d.2) d.table := by
  rw [declaration?]
  cases hplain : plain? s with
  | none =>
    rw [addPlain, hplain] at h
    rw [← pure_eq_ok.mp h]
    rfl
  | some declared =>
    obtain ⟨factory, hargument, rfl⟩ := exists_addDeclared hplain h
    rw [table_addDeclared hargument, table_define, Option.bind_some]

theorem table_of_addApplied {file : String} {s : Statement} {d e : Declarations}
    (h : addApplied file s d = .ok e) : e.table = d.table := by
  rw [addApplied.eq_def] at h
  split at h
  · obtain ⟨factory, -, hrun⟩ := bind_eq_ok.mp h
    split at hrun
    · rw [← pure_eq_ok.mp hrun]
    · split at hrun
      · rw [← pure_eq_ok.mp hrun]
      · split at hrun
        · rw [← pure_eq_ok.mp hrun]
        · rw [← pure_eq_ok.mp hrun]
  · rw [← pure_eq_ok.mp h]

theorem table_of_foldlM_addPlain {file : String} {m : Module} {d e : Declarations}
    (h : m.foldlM (fun d s => addPlain file s d) d = .ok e) :
    e.table = (declarations m).foldl (fun t d => Fields.assign t d.1 d.2) d.table := by
  induction m generalizing d with
  | nil => rw [← pure_eq_ok.mp h]; rfl
  | cons s m ih =>
    rw [List.foldlM_cons] at h
    obtain ⟨next, hnext, hlater⟩ := bind_eq_ok.mp h
    rw [ih hlater, table_of_addPlain hnext, declarations, declarations, List.filterMap_cons]
    cases declaration? s <;> rfl

theorem table_ofModule {file : String} {m : Module} (h : (ofModule file m).failure = none) :
    (ofModule file m).table = (declarations m).foldl (fun t d => Fields.assign t d.1 d.2) [] := by
  rw [ofModule] at h ⊢
  obtain ⟨hplain, happlied⟩ := foldlM_of_success h
  obtain ⟨-, hrun⟩ := foldlM_of_success hplain
  rw [gives_foldlM (P := fun e => e.table = Declarations.table _) rfl
    (fun d s _ hd e he => (table_of_addApplied he).trans hd) _ happlied]
  exact table_of_foldlM_addPlain hrun

end Declarations

/-! ## The steps of a plain file -/

/-- Assigning under names that do not stand for the parent is setting. -/
theorem foldl_assign_eq {entries : List (String × String)}
    (h : ∀ e ∈ entries, e.1 ≠ Ambient.parentName) (table : Table) :
    entries.foldl (fun t d => Fields.assign t d.1 d.2) table =
      entries.foldl (fun t d => Fields.set t d.1 d.2) table :=
  List.foldl_ext _ _ _ fun _ e he => Fields.assign_eq_set (fun hparent => absurd hparent (h e he)) _

/-- No text in the table is empty. -/
abbrev NoEmpty (table : Table) : Prop := Fields.Each (· ≠ "") table

theorem noEmpty_extend {remote table : Table} (hremote : NoEmpty remote) (htable : NoEmpty table)
    (name : ImportedName) : NoEmpty (extend remote table name) := by
  rw [extend]
  split
  · exact htable
  · split
    · next text htext => exact htable.set _ (hremote.get? htext)
    · exact htable

theorem Defines.noEmpty {files : Files} {root file : String} {table : Table}
    (h : Defines files root file table) : NoEmpty table := by
  induction h with
  | nothing _ => exact Fields.each_nil
  | @module file m remotes hmodule _ ih =>
    have hown : NoEmpty (Fields.ofList (declarations m)) := by
      refine List.foldlRecOn (declarations m) _ Fields.each_nil fun table htable d hd => ?_
      obtain ⟨s, -, hs⟩ := List.mem_filterMap.mp hd
      obtain ⟨declared, -, htext⟩ := Option.bind_eq_some_iff.mp hs
      obtain ⟨hne, htext⟩ := Option.ite_none_left_eq_some.mp htext
      obtain rfl := Option.some.inj htext
      exact htable.set _ hne
    refine List.foldlRecOn (imports m) _ hown fun table htable i hi => ?_
    rw [extendBy]
    split
    · exact htable
    · next target htarget =>
      have hremote := ih target (imports_iff.mpr ⟨m, i, hmodule, hi, htarget⟩)
      exact List.foldlRecOn i.names _ htable fun table htable name _ =>
        noEmpty_extend hremote htable name

theorem importName_eq_extend {remote : Table} (hremote : NoEmpty remote) {name : ImportedName}
    (hname : Ambient.isAmbient name.name = false) (hbound : Ambient.isAmbient name.boundTo = false)
    (table : Table) : importName remote table name = extend remote table name := by
  rw [importName, extend, Fields.answers_eq_has hbound, Ambient.text?_eq_none hname, Option.or_none]
  split
  · rfl
  · cases htext : Fields.get? remote name.name with
    | none => rfl
    | some text =>
      dsimp only
      rw [if_neg (hremote.get? htext), Fields.assign_eq_set_of_not_ambient hbound]

theorem importNames_eq_extend {remote : Table} (hremote : NoEmpty remote)
    {names : List ImportedName}
    (hnames : ∀ name ∈ names, Ambient.isAmbient name.name = false ∧
      Ambient.isAmbient name.boundTo = false) (table : Table) :
    importNames remote table names = names.foldl (extend remote) table := by
  have hsteps : names.foldl (importName remote) table = names.foldl (extend remote) table :=
    List.foldl_ext _ _ _ fun table name hmem =>
      importName_eq_extend hremote (hnames name hmem).1 (hnames name hmem).2 table
  rw [importNames]
  split
  · next hempty =>
    -- Without a table to import from no name is added.
    refine (List.foldlRecOn (motive := (· = table)) names _ rfl fun t ht name _ => ?_).symm
    rw [ht, extend, hempty]
    split <;> rfl
  · exact hsteps

/-! ## Tables that a run makes -/

/-- What the imports of a file add, as the tables stand in a registry afterwards. -/
def addFrom (files : Files) (root file : String) (r : Registry) (table : Table) (i : ImportFrom) :
    Table :=
  match importedFile? files root file i with
  | none => table
  | some target => importNames ((r.table? target).getD []) table i.names

theorem Runs.imports_eq {files : Files} {root file : String} {table table' : Table}
    {rest : List ImportFrom} {r r' : Registry} {trace : List String}
    (h : Runs files root (.imports file table rest) r (.ok table') r' trace) :
    table' = rest.foldl (addFrom files root file r') table := by
  induction rest generalizing table r trace with
  | nil =>
    cases h with
    | done => rfl
  | cons i rest ih =>
    rw [List.foldl_cons, addFrom]
    cases h with
    | unresolved hnone h =>
      rw [hnone]
      exact ih h
    | imported htarget hload h =>
      rw [htarget]
      dsimp only
      rw [h.keeps hload.table?_of_ok, Option.getD_some]
      exact ih h

theorem plain_module {files : Files} {file : String} {m : Module} (h : isPlain files file = true)
    (hm : found files file = .module m) :
    (Declarations.ofModule file m).failure = none ∧
      (∀ d ∈ declarations m, d.1 ≠ Ambient.parentName) ∧
      ∀ i ∈ imports m, ∀ name ∈ i.names, Ambient.isAmbient name.name = false ∧
        Ambient.isAmbient name.boundTo = false := by
  rw [isPlain, hm] at h
  simpa [and_assoc] using h

theorem not_fails_of_isPlain {files : Files} {file : String} (h : isPlain files file = true) :
    ¬Fails files file := by
  rintro (hdirectory | ⟨m, hm, hfails⟩)
  · rw [isPlain, hdirectory] at h
    cases h
  · exact hfails (plain_module h hm).1

/-- A run makes the table of a file, if the tables of the files that it imports are theirs. -/
theorem Runs.defines {files : Files} {root file : String} {s s' : Registry} {table : Table}
    {trace : List String}
    (h : Runs files root (.make file (found files file)) s (.ok table) s' trace)
    (hnew : s.table? file = none) (hplain : isPlain files file = true)
    (hself : ¬Imports files root file file)
    (htargets : ∀ target t, Imports files root file target → s'.table? target = some t →
      Defines files root target t) : Defines files root file table := by
  have hknows := h.knows_targets rfl ⟨table, rfl⟩
  generalize hfound : found files file = f at h
  cases h with
  | cached hcached =>
    rw [hnew] at hcached
    cases hcached
  | nothing _ => exact .nothing hfound
  | @module file m s r' result trace hnew hreads h =>
    obtain ⟨-, hparent, hnames⟩ := plain_module hplain hfound
    have hclosed : ∀ target, Imports files root file target →
        (r'.closed file (.ok table)).table? target = r'.table? target := by
      intro target htarget
      refine Registry.table?_closed_of_ne r' (fun heq => hself ?_) _
      rwa [← heq] at htarget
    have hremotes : ∀ target, Imports files root file target →
        Defines files root target ((r'.table? target).getD []) := by
      intro target htarget
      obtain ⟨t, ht⟩ := hknows.1 file List.mem_cons_self target htarget
      have hr' : r'.table? target = some t := (hclosed target htarget).symm.trans ht
      rw [hr']
      exact htargets target t htarget ht
    have htable : table = (imports m).foldl
        (extendBy files root (fun target => (r'.table? target).getD []) file)
        (Fields.ofList (declarations m)) := by
      rw [h.imports_eq, Declarations.table_ofModule hreads, foldl_assign_eq hparent]
      refine List.foldl_ext _ _ _ fun t i hi => ?_
      rw [addFrom, extendBy]
      cases htarget : importedFile? files root file i with
      | none => rfl
      | some target =>
        have hremote := hremotes target (imports_iff.mpr ⟨m, i, hfound, hi, htarget⟩)
        exact importNames_eq_extend hremote.noEmpty (hnames i hi) t
    rw [htable]
    exact .module hfound hremotes

theorem Acyclic.circle {files : Files} {root file x y : String} (h : Acyclic files root file)
    (hx : Reaches files root file x) (hxy : Circle files root x y) : y = x := by
  rcases Relation.reflTransGen_iff_eq_or_transGen.mp hxy.1 with heq | hway
  · exact heq
  · exact absurd (hway.trans_left hxy.2) (h x hx)

/-- A session has made the table of each file that it has entered, where the imports make no
circle. -/
theorem Session.defines {files : Files} {root file : String} {ts : List Task}
    {results : List (Except Failure Table)} {r : Registry} {trace : List String}
    (h : Session files root (Registry.empty root) ts results r trace)
    (ht : ∀ t ∈ ts, t.Genuine files) (hacyclic : Acyclic files root file)
    (hplain : ∀ x, Reaches files root file x → isPlain files x = true) {table : Table}
    (htable : r.table? file = some table) : Defines files root file table := by
  have hall : ∀ x ∈ trace, Reaches files root file x → ∀ t, r.table? x = some t →
      Defines files root x t := by
    intro x hx
    refine induction_ahead files root (P := fun x => Reaches files root file x →
      ∀ t, r.table? x = some t → Defines files root x t) (fun x hx ih hreaches t htable => ?_) hx
    -- Without circles each file is the first of its own circle.
    have hfirst : firstOf files root x trace = some x := by
      cases hfind : firstOf files root x trace with
      | none => exact absurd (Circle.refl x) (firstOf_eq_none.mp hfind x hx)
      | some y => rw [hacyclic.circle hreaches (circle_of_firstOf hfind)]
    obtain ⟨run, new, kept⟩ := h.entered ht (fun _ _ => rfl) hfirst
    obtain ⟨made, rfl⟩ := run.exists_ok rfl fun y hy =>
      not_fails_of_isPlain (hplain y (hreaches.trans hy))
    have hmade : t = made := by
      rw [kept x made .refl run.table?_of_ok] at htable
      exact (Option.some.inj htable).symm
    rw [hmade]
    refine run.defines (new x (Circle.refl x)) (hplain x hreaches)
      (fun hself => hacyclic x hreaches (.single hself)) fun target t htarget hs => ?_
    have hr : r.table? target = some t := kept target t (.single htarget) hs
    refine ih target (h.mem_of_table? hr) (.single htarget) (fun hback => ?_)
      (hreaches.tail htarget) t hr
    exact hacyclic x hreaches (Relation.TransGen.head' htarget hback)
  exact hall file (h.mem_of_table? htable) .refl table htable

/-! ## Loading a file -/

/-- The definition gives the file one table, and so does loading it after any other requests. -/
def Follows (files : Files) (cwd root path : String) : Prop :=
  ∃ table, (∀ t, Defines files root (Path.resolve cwd path) t ↔ t = table) ∧
    ∀ calls, (∀ c ∈ calls, c.IsGenuine files cwd) →
      answer files cwd root calls (.load path) = .ok table

section

variable (files : Files) (cwd root : String)

theorem answer_defines {path : String} (hacyclic : Acyclic files root (Path.resolve cwd path))
    (hplain : ∀ x, Reaches files root (Path.resolve cwd path) x → isPlain files x = true)
    {calls : List Call} (hcalls : ∀ c ∈ calls, c.IsGenuine files cwd) :
    ∃ table, answer files cwd root calls (.load path) = .ok table ∧
      Defines files root (Path.resolve cwd path) table := by
  obtain ⟨trace, hsession⟩ := exists_session files cwd root calls
  obtain ⟨result, r', more, hanswer, hrun⟩ :=
    performs_load files (Path.resolve cwd path) (registryAfter files cwd root calls)
  rw [hsession.projectRoot_eq] at hrun
  obtain ⟨table, rfl⟩ := hrun.exists_ok rfl fun x hx => not_fails_of_isPlain (hplain x hx)
  refine ⟨table, congrArg Prod.fst hanswer, ?_⟩
  refine (hsession.concat hrun).defines (fun t ht => ?_) hacyclic hplain hrun.table?_of_ok
  rcases List.mem_append.mp ht with hbefore | hlast
  · exact genuine_tasks hcalls t hbefore
  · rw [List.mem_singleton.mp hlast]
    rfl

/-- Every session has a derivation, in which no file is entered twice.  A file that comes to no
circle of imports and to plain files only has one table by its definition, and loading it gives this
table whatever has been loaded before. -/
theorem loading_ends_and_follows :
    (∀ calls, ∃ trace,
      Session files root (Registry.empty root) (calls.map (Call.task files cwd))
          (performAll files cwd calls (Registry.empty root)).1
          (performAll files cwd calls (Registry.empty root)).2 trace ∧
        trace.Nodup) ∧
      ∀ path, Acyclic files root (Path.resolve cwd path) →
        (∀ x, Reaches files root (Path.resolve cwd path) x → isPlain files x = true) →
        Follows files cwd root path := by
  constructor
  · intro calls
    obtain ⟨trace, h⟩ := exists_session files cwd root calls
    exact ⟨trace, h, h.nodup⟩
  · intro path hacyclic hplain
    obtain ⟨table, -, hdefines⟩ := answer_defines files cwd root hacyclic hplain
      fun c hc => absurd hc (List.not_mem_nil (a := c))
    refine ⟨table, fun t => ⟨fun ht => ht.unique hdefines, fun ht => ht ▸ hdefines⟩, ?_⟩
    intro calls hcalls
    obtain ⟨table', hanswer, hdefines'⟩ := answer_defines files cwd root hacyclic hplain hcalls
    rw [hanswer, hdefines'.unique hdefines]

end

/-! ## Two small trees -/

/-- Imports that lead forward in a list make no circle. -/
theorem acyclic_of_forward {files : Files} {root file : String} {listed : List String}
    (h : ∀ x ∈ listed, ∀ y ∈ targets files root x, y ∈ listed ∧ listed.idxOf x < listed.idxOf y)
    (hfile : file ∈ listed) : Acyclic files root file := by
  intro x hx hcircle
  have hmem : x ∈ listed := reaches_mem (fun y hy z hz => (h y hy z hz).1) hfile hx
  have hforward : ∀ y, Relation.TransGen (Imports files root) x y →
      y ∈ listed ∧ listed.idxOf x < listed.idxOf y := by
    intro y hxy
    induction hxy with
    | single hstep => exact h x hmem _ hstep
    | tail _ hstep ih =>
      obtain ⟨hin, hlt⟩ := h _ ih.1 _ hstep
      exact ⟨hin, Nat.lt_trans ih.2 hlt⟩
  exact Nat.lt_irrefl _ (hforward x hcircle).2

section Example

def renamingTree : Files := .dir
  [("a.py", .file "from b import Ref as Key, Missing\nfrom .c import *\nA: TypeAlias = int\n"),
    ("b.py", .file "Ref: TypeAlias = str\nRef: TypeAlias = List[str]\n"),
    ("c.py", .file "C: TypeAlias = int\n")]

theorem follows_of_renaming :
    Follows renamingTree "/" "/" "a.py" ∧
      answer renamingTree "/" "/" [.load "b.py"] (.load "a.py") =
        .ok [("A", "int"), ("Key", "List[str]")] := by
  have hfile : Path.resolve "/" "a.py" = "/a.py" := by rfl
  -- One evaluation, so each of the files is parsed once.
  obtain ⟨hforward, hplain, hanswer⟩ :
      (∀ x ∈ ["/a.py", "/b.py", "/c.py"], ∀ y ∈ targets renamingTree "/" x,
        y ∈ ["/a.py", "/b.py", "/c.py"] ∧ List.idxOf x ["/a.py", "/b.py", "/c.py"] <
          List.idxOf y ["/a.py", "/b.py", "/c.py"]) ∧
      (∀ x ∈ ["/a.py", "/b.py", "/c.py"], isPlain renamingTree x = true) ∧
      answer renamingTree "/" "/" [.load "b.py"] (.load "a.py") =
        .ok [("A", "int"), ("Key", "List[str]")] := by decide +kernel
  refine ⟨(loading_ends_and_follows renamingTree "/" "/").2 "a.py" ?_ ?_, hanswer⟩
  · rw [hfile]
    exact acyclic_of_forward hforward List.mem_cons_self
  · rw [hfile]
    exact fun x hx => hplain x
      (reaches_mem (fun y hy z hz => (hforward y hy z hz).1) List.mem_cons_self hx)

/-- The name that one file binds an alias to is one that every mapping answers to. -/
def ambientTree : Files := .dir
  [("a.py", .file "from b import Ref as constructor\n"),
    ("b.py", .file "Ref: TypeAlias = int\n")]

theorem defines_ambient : Defines ambientTree "/" "/a.py" [("constructor", "int")] := by
  obtain ⟨hread, htargets, htable⟩ :
      (found ambientTree "/a.py").isModule = true ∧ targets ambientTree "/" "/a.py" = ["/b.py"] ∧
      (imports (moduleOf ambientTree "/a.py")).foldl
        (extendBy ambientTree "/" (fun _ => [("Ref", "int")]) "/a.py")
        (Fields.ofList (declarations (moduleOf ambientTree "/a.py"))) =
          [("constructor", "int")] := by decide +kernel
  have hb : Defines ambientTree "/" "/b.py" [("Ref", "int")] := by
    obtain ⟨hread, htargets, htable⟩ :
        (found ambientTree "/b.py").isModule = true ∧ targets ambientTree "/" "/b.py" = [] ∧
        (imports (moduleOf ambientTree "/b.py")).foldl
          (extendBy ambientTree "/" (fun _ => []) "/b.py")
          (Fields.ofList (declarations (moduleOf ambientTree "/b.py"))) = [("Ref", "int")] := by
      decide +kernel
    rw [← htable]
    refine .module (found_eq_module hread) fun target htarget => ?_
    rw [Imports, htargets] at htarget
    cases htarget
  rw [← htable]
  refine .module (found_eq_module hread) fun target htarget => ?_
  rw [Imports, htargets, List.mem_singleton] at htarget
  rw [htarget]
  exact hb

theorem not_follows_of_ambient :
    Acyclic ambientTree "/" (Path.resolve "/" "a.py") ∧ ¬Follows ambientTree "/" "/" "a.py" := by
  have hfile : Path.resolve "/" "a.py" = "/a.py" := by rfl
  obtain ⟨hforward, hload⟩ :
      (∀ x ∈ ["/a.py", "/b.py"], ∀ y ∈ targets ambientTree "/" x,
        y ∈ ["/a.py", "/b.py"] ∧
          List.idxOf x ["/a.py", "/b.py"] < List.idxOf y ["/a.py", "/b.py"]) ∧
      answer ambientTree "/" "/" [] (.load "a.py") = .ok [] := by decide +kernel
  constructor
  · rw [hfile]
    exact acyclic_of_forward hforward List.mem_cons_self
  · rintro ⟨table, hdefines, hanswer⟩
    rw [hanswer [] fun c hc => absurd hc List.not_mem_nil] at hload
    rw [hfile] at hdefines
    have htable := (hdefines _).mp defines_ambient
    rw [Except.ok.inj hload] at htable
    cases htable

end Example

end Alias
end ApiSync
