import ApiSync.Proofs.Alias.Entering
/-!
# Sessions

A session asks one registry for the tables of files, one after the other.  A request that fails
leaves what it has entered, and the next one goes on from there.  As for a single run, each file is
entered at most once, and the registry names the files in the order in which they are entered.
-/

namespace ApiSync
namespace Alias

open Python

/-! ## Requests -/

/-- A request for the table of the file at a path, or of a file whose module is at hand. -/
inductive Call
  | load (path : String)
  | register (path : String) (m : Module)

namespace Call

def path : Call → String
  | .load path => path
  | .register path _ => path

variable (files : Files) (cwd : String)

def file (c : Call) : String := Path.resolve cwd c.path

def found : Call → Found
  | .load path => Alias.found files (Path.resolve cwd path)
  | .register _ m => .module m

def task (c : Call) : Task := .make (c.file cwd) (c.found files cwd)

def perform (c : Call) : Loading Table :=
  match c with
  | .load path => Alias.load files (Path.resolve cwd path)
  | .register path m => Alias.register files (Path.resolve cwd path) m

/-- The module that is registered is the one at its path. -/
def IsGenuine : Call → Prop
  | .load _ => True
  | .register path m => Alias.found files (Path.resolve cwd path) = .module m

end Call

/-- The results of requests one after the other, and the registry that they leave. -/
def performAll (files : Files) (cwd : String) :
    List Call → Registry → List (Except Failure Table) × Registry
  | [], r => ([], r)
  | c :: calls, r =>
    let (result, m) := (c.perform files cwd).run.run r
    let (results, r') := performAll files cwd calls m
    (result :: results, r')

/-- The registry of a project after requests. -/
def registryAfter (files : Files) (cwd root : String) (calls : List Call) : Registry :=
  (performAll files cwd calls (Registry.empty root)).2

/-- The files of a session in the order in which its registry has come to know them. -/
def order (files : Files) (cwd root : String) (calls : List Call) : List String :=
  Fields.keys (registryAfter files cwd root calls).tables

/-- What a request gives after others. -/
def answer (files : Files) (cwd root : String) (before : List Call) (c : Call) :
    Except Failure Table :=
  ((c.perform files cwd).run.run (registryAfter files cwd root before)).1

/-! ## Derivations of sessions -/

/-- Tasks one after the other, with their results and the files that are entered. -/
inductive Session (files : Files) (root : String) :
    Registry → List Task → List (Except Failure Table) → Registry → List String → Prop
  | nil {r : Registry} : Session files root r [] [] r []
  | cons {t : Task} {ts : List Task} {r m r' : Registry} {result : Except Failure Table}
      {results : List (Except Failure Table)} {first second : List String}
      (run : Runs files root t r result m first)
      (later : Session files root m ts results r' second) :
      Session files root r (t :: ts) (result :: results) r' (first ++ second)

theorem performs_call (files : Files) (cwd : String) (c : Call) (r : Registry) :
    Performs files (c.perform files cwd) (c.task files cwd) r := by
  cases c with
  | load path => exact performs_load files (Path.resolve cwd path) r
  | register path m => exact performs_register files (Path.resolve cwd path) m r

theorem session_performAll (files : Files) (cwd : String) (calls : List Call) (r : Registry) :
    ∃ trace, Session files r.projectRoot r (calls.map (Call.task files cwd))
      (performAll files cwd calls r).1 (performAll files cwd calls r).2 trace := by
  induction calls generalizing r with
  | nil => exact ⟨[], .nil⟩
  | cons c calls ih =>
    obtain ⟨result, m, first, hrun, h⟩ := performs_call files cwd c r
    obtain ⟨second, hlater⟩ := ih m
    rw [h.projectRoot_eq] at hlater
    refine ⟨first ++ second, ?_⟩
    rw [performAll, hrun]
    exact .cons h hlater

theorem Call.genuine_task {files : Files} {cwd : String} {c : Call}
    (h : c.IsGenuine files cwd) : (c.task files cwd).Genuine files := by
  cases c with
  | load path => rfl
  | register path m => exact Eq.symm h

namespace Session

variable {files : Files} {root : String} {r r' : Registry} {ts : List Task}
  {results : List (Except Failure Table)} {trace : List String}

theorem projectRoot_eq (h : Session files root r ts results r' trace) :
    r'.projectRoot = r.projectRoot := by
  induction h with
  | nil => rfl
  | cons run _ ih => rw [ih, run.projectRoot_eq]

theorem concat {t : Task} {result : Except Failure Table} {m : Registry} {more : List String}
    (h : Session files root r ts results m trace) (run : Runs files root t m result r' more) :
    Session files root r (ts ++ [t]) (results ++ [result]) r' (trace ++ more) := by
  induction h with
  | nil => simpa using Session.cons run .nil
  | cons first _ ih =>
    rw [List.append_assoc]
    exact .cons first (ih run)

theorem keeps (h : Session files root r ts results r' trace) {x : String} {table : Table}
    (hx : r.table? x = some table) : r'.table? x = some table := by
  induction h with
  | nil => exact hx
  | cons run _ ih => exact ih (run.keeps hx)

theorem table?_eq_none_iff (h : Session files root r ts results r' trace) (x : String) :
    r'.table? x = none ↔ r.table? x = none ∧ x ∉ trace := by
  induction h with
  | nil => simp
  | cons run _ ih => rw [ih, run.table?_eq_none_iff, List.mem_append, not_or, and_assoc]

/-- The files that a session from the start has tables of are those that it has entered. -/
theorem mem_of_table? (h : Session files root (Registry.empty root) ts results r trace)
    {x : String} {t : Table} (hx : r.table? x = some t) : x ∈ trace := by
  refine Decidable.byContradiction fun hnot => ?_
  rw [(h.table?_eq_none_iff x).mpr ⟨rfl, hnot⟩] at hx
  cases hx

theorem new_of_mem (h : Session files root r ts results r' trace) {x : String} (hx : x ∈ trace) :
    r.table? x = none := by
  induction h with
  | nil => exact absurd hx List.not_mem_nil
  | cons run _ ih =>
    rcases List.mem_append.mp hx with hfirst | hsecond
    · exact run.new_of_mem hfirst
    · exact ((run.table?_eq_none_iff x).mp (ih hsecond)).1

/-- In the whole session each file is entered at most once. -/
theorem nodup (h : Session files root r ts results r' trace) : trace.Nodup := by
  induction h with
  | nil => exact List.nodup_nil
  | cons run later ih =>
    refine List.nodup_append'.mpr ⟨run.nodup, ih, fun x hfirst hsecond => ?_⟩
    exact ((run.table?_eq_none_iff x).mp (later.new_of_mem hsecond)).2 hfirst

/-- The registry names the files in the order in which they are entered. -/
theorem keys_eq (h : Session files root r ts results r' trace)
    (ht : ∀ t ∈ ts, Path.ofNames (Path.names t.file) = t.file) :
    Fields.keys r'.tables = Fields.keys r.tables ++ trace := by
  induction h with
  | nil => rw [List.append_nil]
  | cons run _ ih =>
    obtain ⟨hhead, htail⟩ := List.forall_mem_cons.mp ht
    rw [ih htail, run.keys_eq, List.append_assoc]
    intro x hx
    rw [← run.normal_of_mem hhead hx]
    exact Path.indexOf?_ofNames _

/-- A session that enters a circle holds a run of the first file that it enters there. -/
theorem entered (h : Session files root r ts results r' trace) (ht : ∀ t ∈ ts, t.Genuine files)
    {e : String} (hnew : ∀ x, Circle files root e x → r.table? x = none)
    (hfirst : firstOf files root e trace = some e) : Entered files root e r' := by
  induction h with
  | nil => cases hfirst
  | @cons t ts r m r' result results first second run later ih =>
    obtain ⟨hhead, htail⟩ := List.forall_mem_cons.mp ht
    rw [firstOf_append] at hfirst
    cases hin : firstOf files root e first with
    | some x =>
      rw [hin, Option.some_or] at hfirst
      exact (run.entered hhead hnew (hin.trans hfirst)).mono fun _ _ _ htable => later.keeps htable
    | none =>
      rw [hin, Option.none_or] at hfirst
      refine ih htail (fun x hx => ?_) hfirst
      rw [run.table?_eq_none_iff]
      exact ⟨hnew x hx, fun hmem => firstOf_eq_none.mp hin x hmem hx⟩

end Session

/-! ## The derivation of a session from the start -/

section

variable {files : Files} {cwd : String} (root : String) {calls : List Call}

theorem exists_session (files : Files) (cwd root : String) (calls : List Call) :
    ∃ trace, Session files root (Registry.empty root) (calls.map (Call.task files cwd))
      (performAll files cwd calls (Registry.empty root)).1 (registryAfter files cwd root calls)
      trace :=
  session_performAll files cwd calls (Registry.empty root)

theorem genuine_tasks (h : ∀ c ∈ calls, c.IsGenuine files cwd) :
    ∀ t ∈ calls.map (Call.task files cwd), t.Genuine files := by
  intro t ht
  obtain ⟨c, hc, rfl⟩ := List.mem_map.mp ht
  exact Call.genuine_task (h c hc)

theorem order_eq {results : List (Except Failure Table)} {trace : List String}
    (h : Session files root (Registry.empty root) (calls.map (Call.task files cwd)) results
      (registryAfter files cwd root calls) trace) : order files cwd root calls = trace := by
  refine h.keys_eq fun t ht => ?_
  obtain ⟨c, -, rfl⟩ := List.mem_map.mp ht
  exact Path.ofNames_names_resolve cwd c.path

theorem registryAfter_append (files : Files) (cwd : String) (before after : List Call) :
    registryAfter files cwd root (before ++ after) =
      (performAll files cwd after (registryAfter files cwd root before)).2 := by
  rw [registryAfter, registryAfter]
  generalize Registry.empty root = r
  induction before generalizing r with
  | nil => rfl
  | cons c before ih => exact ih ((c.perform files cwd).run.run r).2

/-- A derivation says what a request gives, and what it leaves. -/
theorem answer_of_runs {before : List Call} {c : Call} {result : Except Failure Table}
    {r' : Registry} {trace : List String}
    (h : Runs files root (c.task files cwd) (registryAfter files cwd root before) result r' trace) :
    answer files cwd root before c = result ∧
      registryAfter files cwd root (before ++ [c]) = r' := by
  obtain ⟨_, hsession⟩ := exists_session files cwd root before
  have hroot : (registryAfter files cwd root before).projectRoot = root := hsession.projectRoot_eq
  have hrun := (performs_call files cwd c (registryAfter files cwd root before)).run_eq
    (by rw [hroot]; exact h)
  rw [registryAfter_append, performAll, answer, hrun]
  exact ⟨rfl, rfl⟩

theorem order_of_runs {before : List Call} {c : Call} {result : Except Failure Table}
    {r' : Registry} {trace : List String}
    (h : Runs files root (c.task files cwd) (registryAfter files cwd root before) result r' trace) :
    order files cwd root (before ++ [c]) = order files cwd root before ++ trace := by
  rw [order, (answer_of_runs root h).2]
  refine h.keys_eq fun x hx => ?_
  rw [← h.normal_of_mem (Path.ofNames_names_resolve cwd c.path) hx]
  exact Path.indexOf?_ofNames _

/-- A file that the first request makes is there for the second one. -/
theorem answer_of_known {c : Call} {path : String} {result : Except Failure Table} {table : Table}
    {r' : Registry} {trace : List String}
    (h : Runs files root (c.task files cwd) (Registry.empty root) result r' trace)
    (hknown : r'.table? (Path.resolve cwd path) = some table) :
    answer files cwd root [c] (.load path) = .ok table ∧
      order files cwd root [c, .load path] = trace := by
  have hfirst : Runs files root (c.task files cwd) (registryAfter files cwd root []) result r'
    trace := h
  have hafter : registryAfter files cwd root [c] = r' := (answer_of_runs root hfirst).2
  have hsecond : Runs files root (Call.task files cwd (.load path))
      (registryAfter files cwd root [c]) (.ok table) r' [] := by
    rw [hafter]
    exact .cached hknown
  refine ⟨(answer_of_runs root hsecond).1, ?_⟩
  calc
    order files cwd root [c, .load path] = order files cwd root [c] ++ [] :=
      order_of_runs root hsecond
    _ = order files cwd root [c] := List.append_nil _
    _ = trace := order_of_runs root hfirst

end

end Alias
end ApiSync
