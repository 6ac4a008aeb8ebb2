import ApiSync.Proofs.Alias.Sessions
/-!
# The order of loading

A file that is being made counts as one without aliases, so in a circle of imports it matters which
file comes first.  Nothing else about the order does: two runs that enter a circle at the same file
and find the same tables behind it make the same tables of it.  From there two sessions agree on
every file, circle by circle, if they enter each circle at the same file.
-/

namespace ApiSync
namespace Alias

open Python

/-! ## Two runs in a circle -/

section

variable {files : Files} {root e : String}

/-- The registries hold the same tables for the files of a circle. -/
def SameOn (files : Files) (root e : String) (r s : Registry) : Prop :=
  ∀ x, Circle files root e x → r.table? x = s.table? x

/-- The registries hold no different tables for a file behind a circle. -/
def SameBehind (files : Files) (root e : String) (r s : Registry) : Prop :=
  ∀ x, Reaches files root e x → ¬Circle files root e x → ∀ t t',
    r.table? x = some t → s.table? x = some t' → t = t'

theorem SameBehind.of_keeps {r s r' s' : Registry} (h : SameBehind files root e r' s')
    (hr : ∀ x t, r.table? x = some t → r'.table? x = some t)
    (hs : ∀ x t, s.table? x = some t → s'.table? x = some t) : SameBehind files root e r s :=
  fun x hx hout t t' ht ht' => h x hx hout t t' (hr x t ht) (hs x t' ht')

theorem SameOn.opened {r s : Registry} (h : SameOn files root e r s) (file : String) (m : Module) :
    SameOn files root e (r.opened file m) (s.opened file m) := fun x hx => by
  rw [Registry.table?_opened, Registry.table?_opened, h x hx]

theorem SameOn.closed {r s : Registry} (h : SameOn files root e r s) (file : String)
    (result : Except Failure Table) :
    SameOn files root e (r.closed file result) (s.closed file result) := fun x hx => by
  cases result with
  | error f => exact h x hx
  | ok table => rw [Registry.table?_closed_ok, Registry.table?_closed_ok, h x hx]

theorem SameBehind.of_closed {r s : Registry} {file : String}
    {result result' : Except Failure Table}
    (h : SameBehind files root e (r.closed file result) (s.closed file result'))
    (hfile : Circle files root e file) : SameBehind files root e r s := by
  intro x hx hout t t' ht ht'
  have hne : file ≠ x := fun heq => hout (heq ▸ hfile)
  refine h x hx hout t t' ?_ ?_
  · rwa [Registry.table?_closed_of_ne _ hne]
  · rwa [Registry.table?_closed_of_ne _ hne]

/-- Two runs of one task in a circle have the same result and make the same tables of the circle,
if they find it the same and leave no different tables behind it. -/
theorem Runs.agree {t : Task} {r r' s s' : Registry} {result result' : Except Failure Table}
    {trace trace' : List String} (h : Runs files root t r result r' trace)
    (h' : Runs files root t s result' s' trace') (ht : t.Genuine files)
    (hfile : Circle files root e t.file) (hloadable : Loadable files root e)
    (hsame : SameOn files root e r s) (hbehind : SameBehind files root e r' s') :
    result = result' ∧ SameOn files root e r' s' := by
  induction h generalizing s s' result' trace' with
  | @cached file f r table hcached =>
    rw [hsame file hfile] at hcached
    obtain ⟨rfl, rfl, -⟩ := h'.cached_inv hcached
    exact ⟨rfl, hsame⟩
  | @nothing file r hnew =>
    rw [hsame file hfile] at hnew
    obtain ⟨rfl, rfl, -⟩ := h'.nothing_inv hnew
    refine ⟨rfl, fun x hx => ?_⟩
    rw [Registry.table?_setTable, Registry.table?_setTable, hsame x hx]
  | directory _ => exact absurd (Or.inl (Eq.symm ht)) (hloadable _ hfile.1)
  | undeclared _ hfails =>
    exact absurd (Or.inr ⟨_, Eq.symm ht, hfails ▸ nofun⟩) (hloadable _ hfile.1)
  | @module file m r r' result trace hnew hreads h ih =>
    rw [hsame file hfile] at hnew
    obtain ⟨made, more, himports, rfl, -⟩ := h'.module_inv hnew hreads
    obtain ⟨rfl, hsame'⟩ := ih himports (ht.imports_of_make _) hfile (hsame.opened file m)
      (hbehind.of_closed hfile)
    exact ⟨rfl, hsame'.closed file _⟩
  | done =>
    obtain ⟨rfl, rfl, -⟩ := h'.done_inv
    exact ⟨rfl, hsame⟩
  | unresolved hnone _ ih => exact ih (h'.unresolved_inv hnone) (ht.tail _) hfile hsame hbehind
  | @imported file target table remote i rest r m r' result first second htarget hload h ihload
      ih =>
    have hreaches : Reaches files root e target := hfile.1.tail (ht.imports_head htarget)
    rcases h'.imported_inv htarget with ⟨remote', m', _, _, hload', hrest, -⟩ | ⟨f, -, hload'⟩
    · have hmid : SameBehind files root e m m' :=
        hbehind.of_keeps (fun _ _ => h.keeps) fun _ _ => hrest.keeps
      -- A file in the circle is made alike by both runs, one behind it is there in the end.
      have hboth : remote = remote' ∧ SameOn files root e m m' := by
        by_cases hin : Circle files root e target
        · obtain ⟨hremote, hsame'⟩ := ihload hload' rfl hin hsame hmid
          exact ⟨Except.ok.inj hremote, hsame'⟩
        · refine ⟨hmid target hreaches hin _ _ hload.table?_of_ok hload'.table?_of_ok, ?_⟩
          intro x hx
          have haway : ¬Reaches files root target x := fun hback => hin ⟨hreaches, hback.trans hx.2⟩
          rw [hload.table?_of_not_reaches rfl haway, hload'.table?_of_not_reaches rfl haway,
            hsame x hx]
      obtain ⟨rfl, hsame'⟩ := hboth
      exact ih hrest (ht.tail _) hfile hsame' hbehind
    · obtain ⟨table, hok⟩ := hload'.exists_ok rfl fun x hx => hloadable x (hreaches.trans hx)
      cases hok
  | failed htarget hload _ =>
    have hreaches := hfile.1.tail (ht.imports_head htarget)
    obtain ⟨table, hok⟩ := hload.exists_ok rfl fun x hx => hloadable x (hreaches.trans hx)
    cases hok

end

/-! ## Two sessions -/

theorem firstOf_congr {files : Files} {root x y : String} (h : Circle files root x y) :
    firstOf files root x = firstOf files root y := by
  funext trace
  rw [firstOf, firstOf, h.congr]

theorem exists_firstOf (files : Files) (root : String) {x : String} {trace : List String}
    (hx : x ∈ trace) :
    ∃ e, Circle files root x e ∧ firstOf files root x trace = some e := by
  cases hfind : firstOf files root x trace with
  | none => exact absurd (Circle.refl x) (firstOf_eq_none.mp hfind x hx)
  | some e => exact ⟨e, circle_of_firstOf hfind, rfl⟩

section

variable {files : Files} {root : String} {ts ts' : List Task}
  {results results' : List (Except Failure Table)} {r r' : Registry} {trace trace' : List String}

/-- Two sessions that enter each circle of several files at the same one have the same tables. -/
theorem Session.agree (h : Session files root (Registry.empty root) ts results r trace)
    (h' : Session files root (Registry.empty root) ts' results' r' trace')
    (ht : ∀ t ∈ ts, t.Genuine files) (ht' : ∀ t ∈ ts', t.Genuine files) {file : String}
    (hloadable : Loadable files root file)
    (hfirst : ∀ x y, Reaches files root file x → Circle files root x y → x ≠ y →
      firstOf files root x trace = firstOf files root x trace') {t t' : Table}
    (htable : r.table? file = some t) (htable' : r'.table? file = some t') : t = t' := by
  have hall : ∀ x ∈ trace, Reaches files root file x → ∀ t t', r.table? x = some t →
      r'.table? x = some t' → t = t' := by
    intro x hx
    refine induction_ahead files root (P := fun x => Reaches files root file x → ∀ t t',
      r.table? x = some t → r'.table? x = some t' → t = t')
      (fun x hx ih hreaches t t' htable htable' => ?_) hx
    -- Both sessions hold a run of the file `e` that the circle of `x` is entered at, and by
    -- induction the two runs find the same tables behind the circle.
    obtain ⟨e, hcircle, hentry⟩ := exists_firstOf files root hx
    have hentry' : firstOf files root x trace' = some e := by
      by_cases halone : e = x
      · obtain ⟨e', hcircle', hentry'⟩ := exists_firstOf files root (h'.mem_of_table? htable')
        by_cases halone' : e' = x
        · rw [hentry', halone', halone]
        · rw [← hfirst x e' hreaches hcircle' (Ne.symm halone'), hentry]
      · rw [← hfirst x e hreaches hcircle (Ne.symm halone), hentry]
    rw [firstOf_congr hcircle] at hentry hentry'
    have hloads : Loadable files root e := hloadable.of_reaches (hreaches.trans hcircle.1)
    obtain @⟨s, made, _, _, run, new, kept⟩ := h.entered ht (fun _ _ => rfl) hentry
    obtain @⟨s', made', _, _, run', new', kept'⟩ := h'.entered ht' (fun _ _ => rfl) hentry'
    obtain ⟨table, rfl⟩ := run.exists_ok rfl hloads
    have hbehind : SameBehind files root e made made' := by
      intro y hy hout t t' ht ht'
      have hry := kept y t hy ht
      exact ih y (h.mem_of_table? hry) (hcircle.1.trans hy)
        (fun hback => hout ⟨hy, hback.trans hcircle.1⟩)
        (hreaches.trans (hcircle.1.trans hy)) t t' hry (kept' y t' hy ht')
    obtain ⟨-, hsame⟩ := run.agree run' rfl (Circle.refl e) hloads
      (fun y hy => (new y hy).trans (new' y hy).symm) hbehind
    obtain ⟨own, hown⟩ := run.knows_circle new hcircle.symm
    have hown' := (hsame x hcircle.symm).symm.trans hown
    rw [kept x own hcircle.2 hown] at htable
    rw [kept' x own hcircle.2 hown'] at htable'
    exact (Option.some.inj htable).symm.trans (Option.some.inj htable')
  exact hall file (h.mem_of_table? htable) .refl t t' htable htable'

end

/-! ## A circle of two files -/

section

variable (files : Files) (root : String)

/-- The file declares the aliases of the table, and it has a single import, from the target. -/
structure ImportsOnly (file : String) (own : Table) (i : ImportFrom) (target : String) :
    Prop where
  isModule : (found files file).isModule = true
  imports_eq : imports (moduleOf files file) = [i]
  target_eq : importedFile? files root file i = some target
  table_eq : (Declarations.ofModule file (moduleOf files file)).table = own
  reads : (Declarations.ofModule file (moduleOf files file)).failure = none

end

namespace ImportsOnly

variable {files : Files} {root file target : String} {own remote : Table} {i : ImportFrom}
  {r r' : Registry} {trace : List String}

theorem targets_eq (h : ImportsOnly files root file own i target) :
    targets files root file = [target] := by
  rw [targets, found_eq_module h.isModule]
  simp [h.imports_eq, h.target_eq]

theorem not_fails (h : ImportsOnly files root file own i target) : ¬Fails files file := by
  rw [Fails, found_eq_module h.isModule]
  rintro (hdirectory | ⟨m, hm, hfails⟩)
  · cases hdirectory
  · rw [← Found.module.inj hm] at hfails
    exact hfails h.reads

theorem runs (h : ImportsOnly files root file own i target) (hnew : r.table? file = none)
    (hload : Runs files root (.make target (found files target))
      (r.opened file (moduleOf files file)) (.ok remote) r' trace) :
    Runs files root (.make file (found files file)) r (.ok (importNames remote own i.names))
      (r'.closed file (.ok (importNames remote own i.names))) (file :: trace) := by
  rw [found_eq_module h.isModule]
  refine .module hnew h.reads ?_
  rw [h.imports_eq, h.table_eq, ← List.append_nil trace]
  exact .imported h.target_eq hload .done

end ImportsOnly

section

variable {files : Files} {root a b : String} {own own' : Table} {i i' : ImportFrom} {r : Registry}

/-- The file of a pair that is entered first takes over the aliases of the other one, which has to
do without the aliases of the first. -/
theorem runs_pair (ha : ImportsOnly files root a own i b) (hb : ImportsOnly files root b own' i' a)
    (hne : a ≠ b) (hanew : r.table? a = none) (hbnew : r.table? b = none) :
    ∃ r', Runs files root (.make a (found files a)) r (.ok (importNames own' own i.names)) r'
        [a, b] ∧ r'.table? b = some own' := by
  have hopened : (r.opened a (moduleOf files a)).table? b = none := by
    rw [Registry.table?_opened, if_neg hne, hbnew]
  have hplaceholder : ((r.opened a (moduleOf files a)).opened b (moduleOf files b)).table? a =
      some [] := by
    rw [Registry.table?_opened, if_neg (Ne.symm hne), Registry.table?_opened, if_pos rfl]
  have hinner := hb.runs hopened (.cached hplaceholder)
  rw [importNames, if_pos rfl] at hinner
  refine ⟨_, ha.runs hanew hinner, ?_⟩
  rw [Registry.table?_closed_of_ne _ hne]
  exact hinner.table?_of_ok

end

section Example

/-- Two files that import from each other, and one that imports from the first of them. -/
def circleTree : Files := .dir
  [("a.py", .file "from b import B\nA: TypeAlias = int\n"),
    ("b.py", .file "from a import A\nB: TypeAlias = str\n"),
    ("c.py", .file "from a import A as C\n")]

instance {files : Files} {root file target : String} {own : Table} {i : ImportFrom} :
    Decidable (ImportsOnly files root file own i target) :=
  decidable_of_iff
    ((found files file).isModule = true ∧ imports (moduleOf files file) = [i] ∧
      importedFile? files root file i = some target ∧
      (Declarations.ofModule file (moduleOf files file)).table = own ∧
      (Declarations.ofModule file (moduleOf files file)).failure = none)
    ⟨fun ⟨hm, hi, ht, ho, hr⟩ => ⟨hm, hi, ht, ho, hr⟩, fun ⟨hm, hi, ht, ho, hr⟩ =>
      ⟨hm, hi, ht, ho, hr⟩⟩

-- One evaluation for the three files, so each of them is parsed once.
theorem circleTree_imports :
    ImportsOnly circleTree "/" "/a.py" [("A", "int")] ⟨0, some "b", [⟨"B", "B"⟩]⟩ "/b.py" ∧
      ImportsOnly circleTree "/" "/b.py" [("B", "str")] ⟨0, some "a", [⟨"A", "A"⟩]⟩ "/a.py" ∧
      ImportsOnly circleTree "/" "/c.py" [] ⟨0, some "a", [⟨"A", "C"⟩]⟩ "/a.py" := by
  decide +kernel

theorem circleTree_first : ImportsOnly circleTree "/" "/a.py" [("A", "int")]
    ⟨0, some "b", [⟨"B", "B"⟩]⟩ "/b.py" :=
  circleTree_imports.1

theorem circleTree_second : ImportsOnly circleTree "/" "/b.py" [("B", "str")]
    ⟨0, some "a", [⟨"A", "A"⟩]⟩ "/a.py" :=
  circleTree_imports.2.1

theorem circleTree_third : ImportsOnly circleTree "/" "/c.py" []
    ⟨0, some "a", [⟨"A", "C"⟩]⟩ "/a.py" :=
  circleTree_imports.2.2

theorem resolve_first : Path.resolve "/" "a.py" = "/a.py" := by rfl

theorem resolve_second : Path.resolve "/" "b.py" = "/b.py" := by rfl

theorem resolve_third : Path.resolve "/" "c.py" = "/c.py" := by rfl

theorem genuine_loads (paths : List String) :
    ∀ c ∈ paths.map Call.load, c.IsGenuine circleTree "/" := by
  intro c hc
  obtain ⟨path, -, rfl⟩ := List.mem_map.mp hc
  trivial

theorem task_load {files : Files} {cwd path file : String} (h : Path.resolve cwd path = file) :
    (Call.load path).task files cwd = .make file (found files file) := by
  rw [← h]
  rfl

theorem second_alone :
    answer circleTree "/" "/" [] (.load "b.py") = .ok [("B", "str"), ("A", "int")] := by
  obtain ⟨r', h, -⟩ := runs_pair (r := Registry.empty "/") circleTree_second circleTree_first
    (by decide) rfl rfl
  rw [← task_load resolve_second] at h
  have hrun : Runs circleTree "/" ((Call.load "b.py").task circleTree "/")
      (registryAfter circleTree "/" "/" []) _ r' _ := h
  exact (answer_of_runs "/" hrun).1

theorem second_after_first :
    answer circleTree "/" "/" [.load "a.py"] (.load "b.py") = .ok [("B", "str")] ∧
      order circleTree "/" "/" [.load "a.py", .load "b.py"] = ["/a.py", "/b.py"] := by
  obtain ⟨r', h, hb⟩ := runs_pair (r := Registry.empty "/") circleTree_first circleTree_second
    (by decide) rfl rfl
  rw [← task_load resolve_first] at h
  rw [← resolve_second] at hb
  exact answer_of_known "/" h hb

theorem second_after_third :
    answer circleTree "/" "/" [.load "c.py"] (.load "b.py") = .ok [("B", "str")] ∧
      order circleTree "/" "/" [.load "c.py", .load "b.py"] = ["/c.py", "/a.py", "/b.py"] := by
  obtain ⟨r', hpair, hb⟩ := runs_pair
    (r := (Registry.empty "/").opened "/c.py" (moduleOf circleTree "/c.py"))
    circleTree_first circleTree_second (by decide)
    (by rw [Registry.table?_opened, if_neg (by decide)]; rfl)
    (by rw [Registry.table?_opened, if_neg (by decide)]; rfl)
  have h := circleTree_third.runs rfl hpair
  rw [← task_load resolve_third] at h
  refine answer_of_known "/" h ?_
  rw [resolve_second, Registry.table?_closed_of_ne _ (by decide)]
  exact hb

theorem reaches_of_second {x : String} (hx : x ∈ ["/a.py", "/b.py"]) {y : String}
    (hxy : Reaches circleTree "/" x y) : y ∈ ["/a.py", "/b.py"] := by
  refine reaches_mem (fun z hz w hw => ?_) hx hxy
  rcases List.mem_pair.mp hz with rfl | rfl
  · rw [circleTree_first.targets_eq, List.mem_singleton] at hw
    exact hw ▸ List.mem_pair.mpr (.inr rfl)
  · rw [circleTree_second.targets_eq, List.mem_singleton] at hw
    exact hw ▸ List.mem_pair.mpr (.inl rfl)

end Example

/-! ## What requests give -/

/-- One of the requests is for the file and gives the result. -/
def Answers (files : Files) (cwd root : String) (calls : List Call) (file : String)
    (result : Except Failure Table) : Prop :=
  ∃ before c after, calls = before ++ c :: after ∧ c.file cwd = file ∧
    answer files cwd root before c = result

section

variable {files : Files} {cwd root file : String} {calls calls' : List Call}
  {result result' : Except Failure Table}

/-- A request for a file that can be loaded gives the table that the registry has in the end. -/
theorem table?_of_answers (h : Answers files cwd root calls file result)
    (hcalls : ∀ c ∈ calls, c.IsGenuine files cwd) (hloadable : Loadable files root file) :
    ∃ table, result = .ok table ∧
      (registryAfter files cwd root calls).table? file = some table := by
  obtain ⟨before, c, after, rfl, rfl, rfl⟩ := h
  obtain ⟨_, hsession⟩ := exists_session files cwd root before
  obtain ⟨result, m, more, hanswer, hrun⟩ :=
    performs_call files cwd c (registryAfter files cwd root before)
  rw [hsession.projectRoot_eq] at hrun
  have hgenuine : (c.task files cwd).Genuine files :=
    Call.genuine_task (hcalls c (List.mem_append_right _ List.mem_cons_self))
  obtain ⟨table, rfl⟩ := hrun.exists_ok hgenuine hloadable
  refine ⟨table, congrArg Prod.fst hanswer, ?_⟩
  obtain ⟨trace, hlater⟩ := session_performAll files cwd after m
  rw [registryAfter_append, performAll, hanswer]
  exact hlater.keeps hrun.table?_of_ok

/-- Two sessions give a file the same table, if each circle of several files that it comes to is
entered at the same file in both.  None of the files that it comes to may make loading fail. -/
theorem tables_agree (hcalls : ∀ c ∈ calls, c.IsGenuine files cwd)
    (hcalls' : ∀ c ∈ calls', c.IsGenuine files cwd) (hloadable : Loadable files root file)
    (hfirst : ∀ x y, Reaches files root file x → Circle files root x y → x ≠ y →
      firstOf files root x (order files cwd root calls) =
        firstOf files root x (order files cwd root calls'))
    (h : Answers files cwd root calls file result)
    (h' : Answers files cwd root calls' file result') :
    ∃ table, result = .ok table ∧ result' = .ok table := by
  obtain ⟨table, hok, htable⟩ := table?_of_answers h hcalls hloadable
  obtain ⟨table', hok', htable'⟩ := table?_of_answers h' hcalls' hloadable
  obtain ⟨trace, hsession⟩ := exists_session files cwd root calls
  obtain ⟨trace', hsession'⟩ := exists_session files cwd root calls'
  rw [order_eq root hsession, order_eq root hsession'] at hfirst
  refine ⟨table, hok, ?_⟩
  rw [hok', hsession.agree hsession' (genuine_tasks hcalls) (genuine_tasks hcalls') hloadable
    hfirst htable htable']

end

/-- The third file, which is in no circle, may come before the first. -/
theorem second_agrees_behind_first :
    ∃ table, answer circleTree "/" "/" [.load "a.py"] (.load "b.py") = .ok table ∧
      answer circleTree "/" "/" [.load "c.py"] (.load "b.py") = .ok table := by
  have hsecond : "/b.py" ∈ ["/a.py", "/b.py"] := List.mem_pair.mpr (.inr rfl)
  have hcalls : ∀ c ∈ [Call.load "a.py", .load "b.py"], c.IsGenuine circleTree "/" :=
    genuine_loads ["a.py", "b.py"]
  have hcalls' : ∀ c ∈ [Call.load "c.py", .load "b.py"], c.IsGenuine circleTree "/" :=
    genuine_loads ["c.py", "b.py"]
  have h : Answers circleTree "/" "/" [.load "a.py", .load "b.py"] "/b.py"
      (answer circleTree "/" "/" [.load "a.py"] (.load "b.py")) :=
    ⟨_, .load "b.py", [], rfl, resolve_second, rfl⟩
  have h' : Answers circleTree "/" "/" [.load "c.py", .load "b.py"] "/b.py"
      (answer circleTree "/" "/" [.load "c.py"] (.load "b.py")) :=
    ⟨_, .load "b.py", [], rfl, resolve_second, rfl⟩
  refine tables_agree hcalls hcalls' (fun x hx => ?_) (fun x y hx _ _ => ?_) h h'
  · rcases List.mem_pair.mp (reaches_of_second hsecond hx) with rfl | rfl
    · exact circleTree_first.not_fails
    · exact circleTree_second.not_fails
  · have haway : firstOf circleTree "/" x ["/c.py"] = none := by
      refine firstOf_eq_none.mpr fun z hz hcircle => ?_
      have hz' := reaches_of_second (reaches_of_second hsecond hx) hcircle.1
      rw [List.mem_singleton.mp hz] at hz'
      exact absurd hz' (by decide)
    rw [second_after_first.2, second_after_third.2]
    exact (show firstOf circleTree "/" x (["/c.py"] ++ ["/a.py", "/b.py"]) = _ by
      rw [firstOf_append, haway, Option.none_or]).symm

/-- Two sessions that give a file a table give it the same one, whatever else they load. -/
def OrderFree (files : Files) (cwd root : String) : Prop :=
  ∀ calls calls' file table table', (∀ c ∈ calls, c.IsGenuine files cwd) →
    (∀ c ∈ calls', c.IsGenuine files cwd) → Answers files cwd root calls file (.ok table) →
    Answers files cwd root calls' file (.ok table') → table = table'

/-- Loaded first, the second file takes over the alias of the first one, loaded later it does
not. -/
theorem not_orderFree_of_circle : ¬OrderFree circleTree "/" "/" := by
  intro h
  have hsame := h [.load "b.py"] [.load "a.py", .load "b.py"] "/b.py" _ _ (genuine_loads ["b.py"])
    (genuine_loads ["a.py", "b.py"]) ⟨[], _, [], rfl, resolve_second, second_alone⟩
    ⟨[.load "a.py"], _, [], rfl, resolve_second, second_after_first.1⟩
  exact absurd hsame (by decide)

end Alias
end ApiSync
