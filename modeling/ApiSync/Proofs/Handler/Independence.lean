import ApiSync.Proofs.Failing
import ApiSync.Proofs.Files.Walk
import ApiSync.Proofs.Handler.Joined
/-!
# Handler files are scanned one by one

Whatever the scan of a file finds carries the path of that file, and it depends on no other file.
So the scan of a tree is what its files give when each is alone in the tree, in the order of the
walk, and a change of one file shows in the records of that file only.
-/

namespace ApiSync

/-- The source file that an event is about. -/
def Event.file? : Event → Option String
  | .fileSkipped file _ => some file
  | .routeSkipped file _ _ _ _ => some file
  | .methodMismatch _ file _ => some file
  | _ => none

namespace Handler

open Python

/-! ## What a scan finds in a file -/

namespace Scan

/-- All that the scan has found and reported is about the file. -/
structure Within (file : String) (s : Scan) : Prop where
  endpoints : ∀ e ∈ s.endpoints, e.file = file
  ignored : ∀ e ∈ s.ignored, e.file = file
  events : ∀ e ∈ s.events, e.file? = some file

namespace Within

variable {file : String} {a b : Scan}

theorem empty (file : String) : Within file Scan.empty := ⟨nofun, nofun, nofun⟩

theorem ofFailure (file : String) (f : Failure) : Within file (Scan.ofFailure f) :=
  ⟨nofun, nofun, nofun⟩

theorem ofEvent {e : Event} (h : e.file? = some file) : Within file (Scan.ofEvent e) :=
  ⟨nofun, nofun, fun d hd => by rw [List.mem_singleton.mp hd]; exact h⟩

theorem append (ha : Within file a) (hb : Within file b) : Within file (a ++ b) := by
  cases hf : a.failure with
  | some f =>
    rw [append_of_failure hf]
    exact ha
  | none =>
    rw [append_of_success hf]
    exact ⟨List.forall_mem_append.mpr ⟨ha.endpoints, hb.endpoints⟩,
      List.forall_mem_append.mpr ⟨ha.ignored, hb.ignored⟩,
      List.forall_mem_append.mpr ⟨ha.events, hb.events⟩⟩

theorem join {α : Type} {xs : List α} {f : α → Scan} (h : ∀ x ∈ xs, Within file (f x)) :
    Within file (Scan.join (xs.map f)) := by
  induction xs with
  | nil => exact empty file
  | cons x xs ih =>
    obtain ⟨hx, hxs⟩ := List.forall_mem_cons.mp h
    exact append hx (ih hxs)

theorem withResult {α : Type} {result : Except Failure α} {f : α → Scan}
    (h : ∀ v, result = .ok v → Within file (f v)) : Within file (Scan.withResult result f) := by
  cases result with
  | error e => exact ofFailure file e
  | ok v => exact h v rfl

end Within
end Scan

open Scan (Within)

section

variable (settings : Settings)

theorem within_mismatchScan (h : Handler) (m : Mismatch) :
    Within h.file (mismatchScan settings h m) := by
  rw [mismatchScan]
  split
  · exact Within.ofFailure _ _
  · exact Within.ofEvent rfl

theorem within_ignoredScan (h : Handler) (path : String) (route : Route) :
    Within h.file (h.ignoredScan path route) := by
  refine ⟨nofun, fun e he => ?_, nofun⟩
  obtain ⟨method, -, rfl⟩ := List.mem_map.mp he
  rfl

theorem within_blockScan (h : Handler) (path : String) (route : Route) (block : Fields) :
    Within h.file (h.blockScan settings path route block) := by
  rw [blockScan]
  refine Within.append ?_ ?_
  · cases h.mismatch? block route with
    | none => exact Within.empty _
    | some m => exact within_mismatchScan settings h m
  · split
    · exact within_ignoredScan h path route
    · refine ⟨fun e he => ?_, nofun, nofun⟩
      obtain ⟨method, -, rfl⟩ := List.mem_map.mp he
      rfl

theorem within_routeScan (h : Handler) (route : Route) :
    Within h.file (h.routeScan settings route) := by
  rw [routeScan]
  split
  · exact Within.ofEvent rfl
  · exact Within.ofEvent rfl
  · next path _ _ =>
    split
    · exact within_ignoredScan h path route
    · exact Within.withResult fun block _ => within_blockScan settings h path route block

theorem within_decoratorScan (h : Handler) (decorator : Expr) :
    Within h.file (h.decoratorScan settings decorator) := by
  refine Within.withResult fun route _ => ?_
  cases route with
  | none => exact Within.empty _
  | some route => exact within_routeScan settings h route

theorem file_handlerOf {file : String} {moduleIgnored : Bool} {d : Definition} {h : Handler}
    (hh : handlerOf file moduleIgnored d = .ok h) : h.file = file := by
  obtain ⟨doc, -, hrest⟩ := bind_eq_ok.mp hh
  obtain ⟨decorators, -, hpure⟩ := bind_eq_ok.mp hrest
  obtain rfl := pure_eq_ok.mp hpure
  rfl

theorem within_functionScan (file : String) (moduleIgnored : Bool) (d : Definition) :
    Within file (functionScan settings file moduleIgnored d) := by
  refine Within.withResult fun h hh => ?_
  obtain rfl := file_handlerOf hh
  exact Within.join fun e _ => within_decoratorScan settings h e

theorem within_sourceScan (file source : String) :
    Within file (sourceScan settings file source) := by
  rw [sourceScan]
  cases parse source with
  | none => exact Within.ofEvent rfl
  | some module =>
    exact Within.withResult fun doc _ =>
      Within.join fun d _ => within_functionScan settings file _ d

theorem within_fileScan (files : Files) (root file : String) :
    Within file (fileScan settings files root file) := by
  refine Within.withResult fun isOut _ => ?_
  split
  · exact Within.empty file
  · cases files.read? file with
    | none => exact Within.empty file
    | some source => exact within_sourceScan settings file source

/-- Of the tree, the scan of a file needs the text of that file. -/
theorem fileScan_congr {files files' : Files} {file : String}
    (h : files.read? file = files'.read? file) (root : String) :
    fileScan settings files root file = fileScan settings files' root file := by
  rw [fileScan, fileScan, h]

/-- The scan of a file alone in its tree is its part of the whole scan. -/
theorem scan_alone {files : Files} (h : Node.Proper files) {root file : String}
    (hfile : file ∈ files.pythonFiles root) :
    scan settings (files.alone file) root = fileScan settings files root file := by
  rw [scan, Files.pythonFiles_alone h hfile, List.map_singleton, Scan.join_cons,
    fileScan_congr settings (files.read?_alone file)]
  exact Scan.append_empty _

end

/-! ## What a scan finds in the other files -/

/-- What the scan has found and reported on files other than the one at the path. -/
def Scan.without (file : String) (s : Scan) : Scan :=
  { s with
    endpoints := s.endpoints.filter fun e => Path.names e.file ≠ Path.names file
    ignored := s.ignored.filter fun e => Path.names e.file ≠ Path.names file
    events := s.events.filter fun e => e.file?.map Path.names ≠ some (Path.names file) }

section

variable {file other : String} {s : Scan}

theorem Scan.Within.without_eq_self (h : Within other s)
    (hne : Path.names other ≠ Path.names file) : s.without file = s := by
  have hendpoints := List.filter_eq_self.mpr fun (e : Endpoint) he =>
    decide_eq_true (p := Path.names e.file ≠ Path.names file) (h.endpoints e he ▸ hne)
  have hignored := List.filter_eq_self.mpr fun (e : IgnoredEndpoint) he =>
    decide_eq_true (p := Path.names e.file ≠ Path.names file) (h.ignored e he ▸ hne)
  have hevents := List.filter_eq_self.mpr fun (e : Event) he =>
    decide_eq_true (p := e.file?.map Path.names ≠ some (Path.names file))
      (by rw [h.events e he]; exact fun heq => hne (Option.some.inj heq))
  rw [Scan.without, hendpoints, hignored, hevents]

/-- Of the scan of the file itself nothing is left. -/
theorem Scan.Within.without_self (h : Within other s) (heq : Path.names other = Path.names file) :
    s.without file = ⟨[], [], [], s.failure⟩ := by
  have hendpoints : s.endpoints.filter (fun e => Path.names e.file ≠ Path.names file) = [] :=
    List.filter_eq_nil_iff.mpr fun e he => by simp [h.endpoints e he, heq]
  have hignored : s.ignored.filter (fun e => Path.names e.file ≠ Path.names file) = [] :=
    List.filter_eq_nil_iff.mpr fun e he => by simp [h.ignored e he, heq]
  have hevents :
      s.events.filter (fun e => e.file?.map Path.names ≠ some (Path.names file)) = [] :=
    List.filter_eq_nil_iff.mpr fun e he => by simp [h.events e he, heq]
  rw [Scan.without, hendpoints, hignored, hevents]

theorem Scan.without_append {a b : Scan} :
    (a ++ b).without file = a.without file ++ b.without file := by
  cases hf : a.failure with
  | some f => rw [append_of_failure hf, append_of_failure (a := a.without file) hf]
  | none =>
    rw [append_of_success hf, append_of_success (a := a.without file) hf]
    simp only [without, List.filter_append]

/-- Leaving a file out of what was found is the same as not scanning it, unless its scan fails. -/
theorem without_join {files : List String} {f : String → Scan}
    (hwithin : ∀ x ∈ files, Within x (f x)) (hreturns : ∀ x ∈ files, (f x).failure = none) :
    (Scan.join (files.map f)).without file =
      Scan.join ((files.filter fun x => Path.names x ≠ Path.names file).map f) := by
  induction files with
  | nil => rfl
  | cons x files ih =>
    obtain ⟨hx, hfiles⟩ := List.forall_mem_cons.mp hwithin
    obtain ⟨hfx, hreturn⟩ := List.forall_mem_cons.mp hreturns
    rw [List.map_cons, Scan.join_cons, Scan.without_append, ih hfiles hreturn, List.filter_cons]
    by_cases heq : Path.names x = Path.names file
    · rw [if_neg (by simp [heq]), hx.without_self heq, hfx]
      exact Scan.empty_append _
    · rw [if_pos (by simp [heq]), hx.without_eq_self heq]
      rfl

end

/-- The scan of a tree returns exactly if the scan of each of its files alone does, and then it
finds and reports what those do, file after file in the order of the walk.  If one file is added,
removed or given another text, only what is about that file changes. -/
theorem files_are_scanned_independently (settings : Settings) {files : Files}
    (hproper : Node.Proper files) (root : String) :
    let whole := scan settings files root
    let alone := fun file => scan settings (files.alone file) root
    (whole.failure = none ↔ ∀ file ∈ files.pythonFiles root, (alone file).failure = none) ∧
    (whole.failure = none →
      whole.endpoints = (files.pythonFiles root).flatMap (fun file => (alone file).endpoints) ∧
      whole.ignored = (files.pythonFiles root).flatMap (fun file => (alone file).ignored) ∧
      whole.events = (files.pythonFiles root).flatMap (fun file => (alone file).events)) ∧
    ∀ file files', Node.Proper files' → Files.SameBut file files files' →
      whole.failure = none → (scan settings files' root).failure = none →
      whole.without file = (scan settings files' root).without file := by
  intro whole alone
  have halone : ∀ file ∈ files.pythonFiles root, fileScan settings files root file = alone file :=
    fun file hfile => (scan_alone settings hproper hfile).symm
  have hwhole : whole = Scan.join ((files.pythonFiles root).map alone) :=
    congrArg Scan.join (List.map_congr_left halone)
  have hreturns : whole.failure = none ↔
      ∀ file ∈ files.pythonFiles root, (alone file).failure = none := by
    rw [hwhole, Scan.join_failure_eq_none]
  refine ⟨hreturns, fun hreturn => ?_, fun file files' hproper' hsame hreturn hreturn' => ?_⟩
  · rw [hwhole, Scan.join_of_success (hreturns.mp hreturn)]
    exact ⟨rfl, rfl, rfl⟩
  · have hparts := Scan.join_failure_eq_none.mp hreturn
    have hparts' := Scan.join_failure_eq_none.mp hreturn'
    rw [scan, without_join (fun x _ => within_fileScan settings files' root x) hparts',
      ← Files.pythonFiles_sameBut hproper hproper' hsame root]
    show (scan settings files root).without file = _
    rw [scan, without_join (fun x _ => within_fileScan settings files root x) hparts]
    refine congrArg Scan.join (List.map_congr_left fun x hx => ?_)
    have hne : Path.names x ≠ Path.names file := by simpa using (List.mem_filter.mp hx).2
    exact fileScan_congr settings (hsame.read? hne) root

/-! ## A file that is mended -/

section Example

def pageSource : String :=
"class Page:
    @uri_mapping('/page')
    @uri_mapping(PATH)
    def show(self):
        pass
"

def menuSource : String :=
"class Menu:
    @uri_mapping('/menu')
    def show(self):
        pass
"

def appTree (menu : String) : Files :=
  .dir [("app", .dir [("menu.py", .file menu), ("page.py", .file pageSource)])]

theorem proper_appTree (menu : String) : Node.Proper (appTree menu) := by
  have hnames : Path.IsName "app" ∧ Path.IsName "menu.py" ∧ Path.IsName "page.py" :=
    ⟨⟨by decide, by decide, by decide, by decide⟩, ⟨by decide, by decide, by decide, by decide⟩,
      by decide, by decide, by decide, by decide⟩
  have hinner : Node.Proper (.dir [("menu.py", .file menu), ("page.py", .file pageSource)]) := by
    refine .dir ?_ (show ["menu.py", "page.py"].Nodup by decide) ?_
    · exact List.forall_mem_cons.mpr ⟨hnames.2.1, List.forall_mem_singleton.mpr hnames.2.2⟩
    · exact List.forall_mem_cons.mpr ⟨.file menu, List.forall_mem_singleton.mpr (.file pageSource)⟩
  exact .dir (List.forall_mem_singleton.mpr hnames.1) (show ["app"].Nodup by decide)
    (List.forall_mem_singleton.mpr hinner)

theorem sameBut_appTree (menu menu' : String) :
    Files.SameBut "/app/menu.py" (appTree menu) (appTree menu') := by
  have hnames : Path.names "/app/menu.py" = ["app", "menu.py"] := by decide +kernel
  have hread : (appTree menu).read? "/app/menu.py" = some menu := by
    rw [Files.read?_eq, hnames]
    rfl
  have hwrite : (appTree menu).write "/app/menu.py" menu' = appTree menu' := by
    rw [Files.write, hnames]
    rfl
  exact hwrite ▸ Files.sameBut_write (Files.clear_of_read? hread) menu'

theorem pythonFiles_appTree (menu : String) :
    (appTree menu).pythonFiles "/app" = ["/app/menu.py", "/app/page.py"] := by
  have hnames : Path.names "/app" = ["app"] := by decide +kernel
  have hbelow : (appTree menu).below "/app" =
      .dir [("menu.py", .file menu), ("page.py", .file pageSource)] := by
    rw [Files.below, Files.at?, hnames]
    rfl
  have hsorted : Text.nameLe "menu.py" "page.py" = true := by decide
  rw [Files.pythonFiles_eq, hbelow, Node.walk_of_sorted (List.pairwise_pair.mpr hsorted)]
  show ([["menu.py"], ["page.py"]].filter Node.isPythonFile).map (Files.inside "/app") = _
  decide +kernel

def exampleSettings : Settings := ⟨Markers.default, true, [], fun _ => ⟨0, 0⟩⟩

/-- The skipped file and what is found in it after the repair make all the difference. -/
theorem mended_file_is_independent :
    let broken := scan exampleSettings (appTree "class Menu(") "/app"
    let mended := scan exampleSettings (appTree menuSource) "/app"
    Node.Proper (appTree "class Menu(") ∧ Node.Proper (appTree menuSource) ∧
      Files.SameBut "/app/menu.py" (appTree "class Menu(") (appTree menuSource) ∧
      broken.failure = none ∧ mended.failure = none ∧
      broken.events = [.fileSkipped "/app/menu.py" "syntax error: invalid syntax (line 1, column 1)",
        .routeSkipped "/app/page.py" "show" 4 "uri_mapping" "path is not a literal"] ∧
      mended.endpoints.map (·.path) = ["/menu", "/page"] ∧
      broken.events = ["/app/menu.py", "/app/page.py"].flatMap (fun file =>
        (scan exampleSettings ((appTree "class Menu(").alone file) "/app").events) ∧
      broken.without "/app/menu.py" = mended.without "/app/menu.py" := by
  intro broken mended
  have hscans : broken.failure = none ∧ mended.failure = none ∧
      broken.events = [.fileSkipped "/app/menu.py" "syntax error: invalid syntax (line 1, column 1)",
        .routeSkipped "/app/page.py" "show" 4 "uri_mapping" "path is not a literal"] ∧
      mended.endpoints.map (·.path) = ["/menu", "/page"] := by
    show (scan _ _ _).failure = none ∧ (scan _ _ _).failure = none ∧ (scan _ _ _).events = _ ∧
      (scan _ _ _).endpoints.map _ = _
    rw [scan, scan, pythonFiles_appTree, pythonFiles_appTree]
    decide +kernel
  have hproper := proper_appTree "class Menu("
  have hproper' := proper_appTree menuSource
  have hsame := sameBut_appTree "class Menu(" menuSource
  have hparts := files_are_scanned_independently exampleSettings hproper "/app"
  rw [pythonFiles_appTree] at hparts
  exact ⟨hproper, hproper', hsame, hscans.1, hscans.2.1, hscans.2.2.1, hscans.2.2.2,
    (hparts.2.1 hscans.1).2.2, hparts.2.2 _ _ hproper' hsame hscans.1 hscans.2.1⟩

end Example

end Handler
end ApiSync
