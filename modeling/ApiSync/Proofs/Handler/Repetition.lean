import ApiSync.Proofs.Coverage.Drift
import ApiSync.Proofs.Handler.Accounting
import ApiSync.Proofs.Handler.Failures
/-!
# When a decorator yields one operation twice

Every decorator of a handler yields its own endpoints, and those of a scan are these, one decorator
after the other.  The methods of a decorator are put in lower case, so its endpoints are for
different operations exactly if the names that it spells out differ in more than their letter case.
-/

namespace ApiSync
namespace Handler

open Python

/-! ## Names of methods as they are spelled -/

/-- The names in an argument: a text, or the texts of a list or a tuple if there are any. -/
def spelledIn? (value : Expr) : Option (List String) :=
  match value.form with
  | .list elements | .tuple elements =>
    let names := elements.filterMap fun e => e.string?.toOption.join
    if names = [] then none else some names
  | _ => value.string?.toOption.join.map fun name => [name]

def spelledBy? (keyword : String × Expr) : Option (List String) :=
  if keyword.1 = "method" then spelledIn? keyword.2 else none

/-- The names of the methods that a call declares, in the spelling of the source. -/
def spelledMethods (call : Call) : List String :=
  (call.keywords.filterMap spelledBy?).getLast?.getD ["get"]

theorem filterMap_id_of_mapM {α β : Type} {f : α → Except Failure (Option β)} {xs : List α}
    {ys : List (Option β)} (h : xs.mapM f = .ok ys) :
    ys.filterMap id = xs.filterMap fun x => (f x).toOption.join := by
  induction xs generalizing ys with
  | nil =>
    rw [← pure_eq_ok.mp h]
    rfl
  | cons x xs ih =>
    obtain ⟨y, rest, hy, hrest, rfl⟩ := mapM_cons_eq_ok.mp h
    have hjoin : (f x).toOption.join = y := by
      rw [hy]
      rfl
    rw [List.filterMap_cons, List.filterMap_cons, hjoin, ih hrest]
    rfl

theorem methodsIn?_of_names {elements : List Expr} {methods : Option (List String)}
    (h : (do
      let names := (← elements.mapM Expr.string?).filterMap id
      return if names.isEmpty then none else some (names.map Text.lowerCased)) = .ok methods) :
    methods = (if (elements.filterMap fun e => e.string?.toOption.join) = [] then none
      else some (elements.filterMap fun e => e.string?.toOption.join)).map
        (·.map Text.lowerCased) := by
  obtain ⟨names, hnames, hpure⟩ := bind_eq_ok.mp h
  rw [← filterMap_id_of_mapM hnames, ← pure_eq_ok.mp hpure]
  cases names.filterMap id <;> rfl

/-- The methods of an argument are its names in lower case. -/
theorem methodsIn?_eq_spelled {value : Expr} {methods : Option (List String)}
    (h : methodsIn? value = .ok methods) :
    methods = (spelledIn? value).map (·.map Text.lowerCased) := by
  rw [methodsIn?] at h
  rw [spelledIn?]
  cases hform : value.form with
  | list elements =>
    rw [hform] at h
    exact methodsIn?_of_names h
  | tuple elements =>
    rw [hform] at h
    exact methodsIn?_of_names h
  | _ =>
    rw [hform] at h
    obtain ⟨name, hname, hpure⟩ := bind_eq_ok.mp h
    dsimp only
    rw [hname, ← pure_eq_ok.mp hpure]
    cases name <;> rfl

/-- If the arguments of a call can be read, its methods are the spelled names in lower case. -/
theorem declaredMethods_eq_spelled {call : Call} {start methods : List String}
    (h : call.keywords.foldlM addMethods start = .ok methods) :
    declaredMethods call = (spelledMethods call).map Text.lowerCased := by
  have hdecodes := decodes_flatMap.mp ((reads_foldlM reads_addMethods call.keywords start).holds h)
  have hnamed : call.keywords.filterMap namedMethods? =
      (call.keywords.filterMap spelledBy?).map (·.map Text.lowerCased) := by
    rw [List.map_filterMap]
    refine List.filterMap_congr fun keyword hk => ?_
    have hread := hdecodes keyword hk
    rw [keywordTexts] at hread
    rw [namedMethods?, spelledBy?]
    split at hread
    · next hmethod =>
      obtain ⟨named, hok⟩ := (reads_methodsIn? keyword.2).succeeds hread
      rw [if_pos hmethod, if_pos hmethod, hok, ← methodsIn?_eq_spelled hok]
      rfl
    · next hother =>
      rw [if_neg hother, if_neg hother]
      rfl
  rw [declaredMethods, spelledMethods, hnamed, List.getLast?_map]
  cases (call.keywords.filterMap spelledBy?).getLast? with
  | none => rfl
  | some names => rfl

/-! ## The endpoints of one decorator -/

/-- Whether the operations of a route belong in the document: it has a path, is no pattern, and
nothing marks the handler as ignored. -/
def publishes (h : Handler) (route : Route) : Bool :=
  route.path.any (· ≠ "") && route.kind ≠ .pattern && !(h.ignored || h.decorators.ignored)

/-- The methods, as they are spelled, under which a decorator puts the handler in the document. -/
def publishedNames (h : Handler) (e : Expr) : List String :=
  if (declared? e).any h.publishes then ((e.call?).map spelledMethods).getD [] else []

theorem declared?_methods {e : Expr} {route : Route} (h : declared? e = some route) :
    ∃ call, e.call? = some call ∧ route.methods = declaredMethods call := by
  obtain ⟨call, hcall, hmore⟩ := Option.bind_eq_some_iff.mp h
  obtain ⟨kind, -, hfirst⟩ := Option.bind_eq_some_iff.mp hmore
  obtain ⟨first, -, hroute⟩ := Option.map_eq_some_iff.mp hfirst
  exact ⟨call, hcall, by rw [← hroute]⟩

/-- The names of a decorator that has been read. -/
theorem methods_of_ofDecorator? {e : Expr} {route : Route}
    (h : Route.ofDecorator? e = .ok (some route)) :
    route.methods = (((e.call?).map spelledMethods).getD []).map Text.lowerCased := by
  obtain ⟨call, hcall, hmethods⟩ := declared?_methods (ofDecorator?_eq_declared? h).symm
  rw [Route.ofDecorator?, hcall] at h
  dsimp only at h
  split at h
  · obtain ⟨path, -, hmore⟩ := bind_eq_ok.mp h
    obtain ⟨methods, hread, -⟩ := bind_eq_ok.mp hmore
    rw [hmethods, hcall, declaredMethods_eq_spelled hread]
    rfl
  · cases pure_eq_ok.mp h

theorem publishes_eq (h : Handler) (route : Route) :
    h.publishes route =
      (!(h.declarationOf route).skipReason?.isSome && !(h.declarationOf route).isIgnored) := by
  have hskip : (!(h.declarationOf route).skipReason?.isSome) = route.path.any (· ≠ "") := by
    have hroute : (h.declarationOf route).route = route := rfl
    rw [Declaration.skipReason?, hroute]
    cases route.path with
    | none => rfl
    | some path => by_cases hpath : path = "" <;> simp [hpath]
  rw [hskip, publishes, Bool.and_assoc]
  congr 1
  rw [decide_not]
  exact (Bool.not_or _ _).symm

/-- The endpoints of a decorator are for its path and the names that it publishes, in lower
case. -/
theorem operations_decoratorScan {settings : Settings} {h : Handler} {e : Expr}
    (hf : (h.decoratorScan settings e).failure = none) :
    ∃ path, (h.decoratorScan settings e).endpoints.map (fun x => (x.path, x.method)) =
      (publishedNames h e).map fun name => (path, Text.lowerCased name) := by
  have haccounts := (accounted_decoratorScan settings h e hf).endpoints
  obtain ⟨route, hroute⟩ := Scan.exists_of_withResult hf
  have hsites : (h.decoratorScan settings e).endpoints.map (fun x => (x.path, x.method)) =
      ((h.decoratorScan settings e).endpoints.map Endpoint.site).map
        (fun s => (s.path, s.method)) := by
    rw [List.map_map]
    rfl
  rw [hsites, haccounts, publishedNames, ← ofDecorator?_eq_declared? hroute]
  cases route with
  | none => exact ⟨"", rfl⟩
  | some route =>
    refine ⟨route.path.getD "", ?_⟩
    have hmethods := methods_of_ofDecorator? hroute
    have hdeclared : (h.declarationOf route).route = route := rfl
    rw [Option.any_some, publishes_eq]
    show (([h.declarationOf route].filter (!·.isIgnored)).flatMap Declaration.sites).map _ = _
    cases hside : (h.declarationOf route).isIgnored with
    | true => simp [hside]
    | false =>
      cases hskip : (h.declarationOf route).skipReason?.isSome with
      | true => simp [hside, hskip, Declaration.sites]
      | false =>
        simp [hside, hskip, Declaration.sites, hdeclared, hmethods]

/-! ## The decorators of a tree -/

/-- The decorators of a function, each with the handler that it decorates. -/
def functionDecorated (file : String) (moduleMarked : Bool) (d : Definition) :
    List (Handler × Expr) :=
  ((handlerOf file moduleMarked d).toOption.map fun h => d.decorators.map (h, ·)).getD []

def moduleDecorated (file : String) (module : Module) : List (Handler × Expr) :=
  (handlers module).flatMap (functionDecorated file (hasMark module))

/-- The decorators of all handlers of a tree, in the order of the source. -/
def decorated (settings : Settings) (files : Files) (root : String) : List (Handler × Expr) :=
  (files.pythonFiles root).flatMap fun file =>
    ((moduleAt? settings files root file).map (moduleDecorated file)).getD []

/-- What a scan finds at one decorator. -/
def foundAt (settings : Settings) (d : Handler × Expr) : Scan := d.1.decoratorScan settings d.2

/-- Unless the scan fails its endpoints are those found at the decorators, and none of them
fails. -/
def Gathers (settings : Settings) (s : Scan) (ds : List (Handler × Expr)) : Prop :=
  s.failure = none →
    s.endpoints = ds.flatMap (fun d => (foundAt settings d).endpoints) ∧
      ∀ d ∈ ds, (foundAt settings d).failure = none

namespace Gathers

variable {settings : Settings} {a b : Scan} {ds es : List (Handler × Expr)}

theorem nothing (h : a.endpoints = []) : Gathers settings a [] := fun _ =>
  ⟨h, fun _ hd => nomatch hd⟩

theorem append (ha : Gathers settings a ds) (hb : Gathers settings b es) :
    Gathers settings (a ++ b) (ds ++ es) := by
  intro h
  obtain ⟨hfa, hfb⟩ := Scan.append_failure_eq_none.mp h
  obtain ⟨hleft, hds⟩ := ha hfa
  obtain ⟨hright, hes⟩ := hb hfb
  rw [Scan.append_of_success hfa]
  refine ⟨?_, fun d hd => (List.mem_append.mp hd).elim (hds d) (hes d)⟩
  rw [List.flatMap_append, ← hleft, ← hright]

theorem join {α : Type} {f : α → Scan} {g : α → List (Handler × Expr)}
    (h : ∀ x, Gathers settings (f x) (g x)) (xs : List α) :
    Gathers settings (Scan.join (xs.map f)) (xs.flatMap g) := by
  induction xs with
  | nil => exact nothing rfl
  | cons x xs ih =>
    rw [List.map_cons, Scan.join_cons, List.flatMap_cons]
    exact append (h x) ih

theorem withResult {α : Type} {result : Except Failure α} {f : α → Scan}
    (h : ∀ v, result = .ok v → Gathers settings (f v) ds) :
    Gathers settings (Scan.withResult result f) ds := by
  cases result with
  | error e => exact fun hf => nomatch hf
  | ok v => exact h v rfl

end Gathers

section

variable (settings : Settings)

theorem gathers_functionScan (file : String) (moduleMarked : Bool) (d : Definition) :
    Gathers settings (functionScan settings file moduleMarked d)
      (functionDecorated file moduleMarked d) := by
  refine Gathers.withResult fun h hread => ?_
  have hdecorated : functionDecorated file moduleMarked d =
      d.decorators.flatMap fun e => [(h, e)] := by
    rw [functionDecorated, hread, ← List.map_eq_flatMap]
    rfl
  rw [hdecorated]
  refine Gathers.join (fun e hf => ⟨?_, ?_⟩) d.decorators
  · exact (List.append_nil _).symm
  · intro d hd
    rw [List.mem_singleton.mp hd]
    exact hf

theorem gathers_moduleScan (file : String) (module : Module) :
    Gathers settings (moduleScan settings file module) (moduleDecorated file module) := by
  refine Gathers.withResult fun doc hdoc => ?_
  have hmark : hasMark module = Text.hasSub doc ignoreMark := by
    rw [hasMark, hdoc]
    rfl
  rw [moduleDecorated, hmark]
  exact Gathers.join (fun d => gathers_functionScan settings file _ d) (handlers module)

theorem gathers_fileScan (files : Files) (root file : String) :
    Gathers settings (fileScan settings files root file)
      (((moduleAt? settings files root file).map (moduleDecorated file)).getD []) := by
  refine Gathers.withResult fun isOut hout => ?_
  rw [moduleAt?, hout]
  cases isOut with
  | true => exact Gathers.nothing rfl
  | false =>
    cases hread : files.read? file with
    | none => exact Gathers.nothing rfl
    | some source =>
      show Gathers settings (sourceScan settings file source) (((parse source).map _).getD [])
      rw [sourceScan]
      cases parse source with
      | none => exact Gathers.nothing rfl
      | some module => exact gathers_moduleScan settings file module

theorem gathers_scan (files : Files) (root : String) :
    Gathers settings (scan settings files root) (decorated settings files root) :=
  Gathers.join (fun file => gathers_fileScan settings files root file) (files.pythonFiles root)

end

/-! ## Repetition -/

/-- Endpoints of one path are distinct exactly if their methods are. -/
theorem distinct_iff_of_operations {endpoints : List Endpoint} {path : String}
    {names : List String}
    (h : endpoints.map (fun x => (x.path, x.method)) =
      names.map fun name => (path, Text.lowerCased name)) :
    Endpoint.Distinct endpoints ↔
      names.Pairwise fun a b => Text.lowerCased a ≠ Text.lowerCased b := by
  have hpairs : Endpoint.Distinct endpoints ↔
      (endpoints.map fun x => (x.path, x.method)).Nodup := by
    rw [List.Nodup, List.pairwise_map, Endpoint.Distinct]
    simp only [ne_eq, Prod.mk.injEq]
  rw [hpairs, h, List.Nodup, List.pairwise_map]
  simp only [ne_eq, Prod.mk.injEq, true_and]

/-- The endpoints of a scan are those found at the decorators of the tree, and those of one
decorator are for different operations exactly if no two of the names that it publishes differ in
letter case only. -/
theorem distinct_iff_spelled (settings : Settings) (files : Files) (root : String)
    (h : (scan settings files root).failure = none) :
    (scan settings files root).endpoints = (decorated settings files root).flatMap
        (fun d => (foundAt settings d).endpoints) ∧
      ∀ d ∈ decorated settings files root,
        (Endpoint.Distinct (foundAt settings d).endpoints ↔
          (publishedNames d.1 d.2).Pairwise fun a b => Text.lowerCased a ≠ Text.lowerCased b) := by
  obtain ⟨hendpoints, hsuccess⟩ := gathers_scan settings files root h
  refine ⟨hendpoints, fun d hd => ?_⟩
  obtain ⟨path, hoperations⟩ := operations_decoratorScan (hsuccess d hd)
  exact distinct_iff_of_operations hoperations

section Example

instance (endpoints : List Endpoint) : Decidable (Endpoint.Distinct endpoints) :=
  inferInstanceAs (Decidable (endpoints.Pairwise _))

def plainSettings : Settings := ⟨Markers.default, false, [], fun _ => ⟨0, 0⟩⟩

/-- The same method in two spellings. -/
def twiceTree : Files := .dir [("a.py", .file
"class A:
    @uri_mapping('/x', method=['get', 'GET'])
    def f(self):
        pass
")]

theorem not_distinct_of_spellings :
    (scan plainSettings twiceTree "/").failure = none ∧
      ¬∀ d ∈ decorated plainSettings twiceTree "/",
        Endpoint.Distinct (foundAt plainSettings d).endpoints := by
  decide +kernel

/-- A tuple of two methods in mixed letter case. -/
def mixedTree : Files := .dir [("a.py", .file
"class A:
    @uri_mapping('/x', method=('Post', 'get'))
    def f(self):
        pass
")]

theorem distinct_of_mixed :
    (scan plainSettings mixedTree "/").failure = none ∧
      (decorated plainSettings mixedTree "/").map (fun d => publishedNames d.1 d.2) =
        [["Post", "get"]] ∧
      ∀ d ∈ decorated plainSettings mixedTree "/",
        Endpoint.Distinct (foundAt plainSettings d).endpoints := by
  have hsource : (scan plainSettings mixedTree "/").failure = none ∧
      (decorated plainSettings mixedTree "/").map (fun d => publishedNames d.1 d.2) =
        [["Post", "get"]] := by decide +kernel
  refine ⟨hsource.1, hsource.2, fun d hd => ?_⟩
  have hnames : publishedNames d.1 d.2 = ["Post", "get"] := by
    have hmem := List.mem_map_of_mem (f := fun d => publishedNames d.1 d.2) hd
    rw [hsource.2] at hmem
    exact List.mem_singleton.mp hmem
  rw [(distinct_iff_spelled plainSettings mixedTree "/" hsource.1).2 d hd, hnames]
  decide

end Example

end Handler
end ApiSync
