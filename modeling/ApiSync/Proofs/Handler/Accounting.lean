import Mathlib.Data.List.Basic
import ApiSync.Proofs.Failing
import ApiSync.Proofs.Handler.Joined
/-!
# Every declared route is accounted for

The routing decorators of a tree, in the order of the source, say what a scan must find: a route
without a path that can be told is reported once and has no operation, and any other route has one
operation for each of its methods, on the side of the ignored ones or on the other.  A scan that
does not fail finds exactly these.
-/

namespace ApiSync

/-- The operation of an endpoint and the function that implements it. -/
def Endpoint.site (e : Endpoint) : IgnoredEndpoint := ⟨e.path, e.method, e.file, e.function⟩

def Event.isSkip : Event → Bool
  | .routeSkipped _ _ _ _ _ => true
  | _ => false

namespace Handler

open Python

/-! ## What the source declares -/

/-- A routing decorator of a handler; `marked` says that a docstring or a decorator keeps the
handler out of the document. -/
structure Declaration where
  file : String
  handler : String
  line : Nat
  route : Route
  marked : Bool

/-- The methods that a keyword argument names. -/
def namedMethods? (keyword : String × Expr) : Option (List String) :=
  if keyword.1 = "method" then (methodsIn? keyword.2).toOption.join else none

/-- The methods of the last keyword argument that names some. -/
def declaredMethods (call : Call) : List String :=
  (call.keywords.filterMap namedMethods?).getLast?.getD ["get"]

/-- The route of a decorator: a call of a routing decorator with a positional argument. -/
def declared? (e : Expr) : Option Route :=
  e.call?.bind fun call =>
    (routeKind? call).bind fun kind =>
      call.args.head?.map fun first => ⟨kind, first.path?.toOption.join, declaredMethods call⟩

def isIgnoreCall (e : Expr) : Bool := e.call?.bind decoratorName? = some "ignore"

/-- Whether the docstring of a body carries the mark. -/
def hasMark (body : List Statement) : Bool :=
  (docstring body).toOption.any (Text.hasSub · ignoreMark)

def functionDeclarations (file : String) (moduleMarked : Bool) (d : Definition) :
    List Declaration :=
  d.decorators.filterMap fun e =>
    (declared? e).map fun route =>
      ⟨file, d.name, d.line, route,
        moduleMarked || hasMark d.body || d.decorators.any isIgnoreCall⟩

def moduleDeclarations (file : String) (module : Module) : List Declaration :=
  (classes module).flatMap fun c =>
    (functions c.body).flatMap (functionDeclarations file (hasMark module))

/-- The module of a file, if no pattern keeps it out and it can be read and parsed. -/
def moduleAt? (settings : Settings) (files : Files) (root file : String) : Option Module :=
  if (Glob.isIgnored file root settings.ignoreFiles).toOption = some true then none
  else (files.read? file).bind parse

def declarations (settings : Settings) (files : Files) (root : String) : List Declaration :=
  (files.pythonFiles root).flatMap fun file =>
    ((moduleAt? settings files root file).map (moduleDeclarations file)).getD []

namespace Declaration

/-- Why a declaration has no operations, if its path cannot be told or is empty. -/
def skipReason? (d : Declaration) : Option String :=
  match d.route.path with
  | none => some "path is not a literal"
  | some path => if path = "" then some "path is empty" else none

def skip? (d : Declaration) : Option Event :=
  d.skipReason?.map (.routeSkipped d.file d.handler d.line d.route.kind.name)

/-- One operation for each declared method. -/
def sites (d : Declaration) : List IgnoredEndpoint :=
  if d.skipReason?.isSome then []
  else d.route.methods.map fun method => ⟨d.route.path.getD "", method, d.file, d.handler⟩

def isIgnored (d : Declaration) : Bool := d.route.kind = .pattern || d.marked

end Declaration

/-- The scan reports the declarations without a path and finds the operations of the others, all
in order and nothing else. -/
structure Accounts (s : Scan) (ds : List Declaration) : Prop where
  skipped : s.events.filter Event.isSkip = ds.filterMap Declaration.skip?
  ignored : s.ignored = (ds.filter (·.isIgnored)).flatMap Declaration.sites
  endpoints : s.endpoints.map Endpoint.site = (ds.filter (!·.isIgnored)).flatMap Declaration.sites

/-- Unless it fails, the scan accounts for the declarations. -/
def Accounted (s : Scan) (ds : List Declaration) : Prop := s.failure = none → Accounts s ds

namespace Accounted

variable {a b : Scan} {ds es : List Declaration}

theorem nothing (he : a.endpoints = []) (hi : a.ignored = [])
    (hs : a.events.filter Event.isSkip = []) : Accounted a [] := fun _ =>
  ⟨hs, hi, by rw [he]; rfl⟩

theorem ofFailure (f : Failure) (ds : List Declaration) : Accounted (Scan.ofFailure f) ds :=
  fun h => nomatch h

theorem append (ha : Accounted a ds) (hb : Accounted b es) : Accounted (a ++ b) (ds ++ es) := by
  intro h
  obtain ⟨hfa, hfb⟩ := Scan.append_failure_eq_none.mp h
  have hl := ha hfa
  have hr := hb hfb
  rw [Scan.append_of_success hfa]
  constructor
  · rw [List.filter_append, hl.skipped, hr.skipped, List.filterMap_append]
  · show a.ignored ++ b.ignored = _
    rw [hl.ignored, hr.ignored, List.filter_append, List.flatMap_append]
  · rw [List.map_append, hl.endpoints, hr.endpoints, List.filter_append, List.flatMap_append]

theorem join {α : Type} {xs : List α} {f : α → Scan} {g : α → List Declaration}
    (h : ∀ x ∈ xs, Accounted (f x) (g x)) :
    Accounted (Scan.join (xs.map f)) (xs.flatMap g) := by
  induction xs with
  | nil => exact nothing rfl rfl rfl
  | cons x xs ih =>
    rw [List.map_cons, Scan.join_cons, List.flatMap_cons]
    exact append (h x List.mem_cons_self) (ih fun y hy => h y (List.mem_cons_of_mem x hy))

theorem withResult {α : Type} {result : Except Failure α} {f : α → Scan}
    (h : ∀ v, result = .ok v → Accounted (f v) ds) :
    Accounted (Scan.withResult result f) ds := by
  cases result with
  | error e => exact ofFailure e ds
  | ok v => exact h v rfl

end Accounted

/-! ## Reading decorators -/

theorem foldlM_addMethods {keywords : List (String × Expr)} {methods result : List String}
    (h : keywords.foldlM addMethods methods = .ok result) :
    result = (keywords.filterMap namedMethods?).getLast?.getD methods := by
  induction keywords generalizing methods with
  | nil =>
    rw [List.foldlM_nil, pure_eq_ok] at h
    exact h.symm
  | cons k ks ih =>
    rw [List.foldlM_cons] at h
    obtain ⟨next, hnext, hrest⟩ := bind_eq_ok.mp h
    have hstep : next = (namedMethods? k).getD methods := by
      rw [addMethods] at hnext
      rw [namedMethods?]
      split at hnext
      · next hk =>
        obtain ⟨named, hnamed, hpure⟩ := bind_eq_ok.mp hnext
        rw [if_pos hk, hnamed, ← pure_eq_ok.mp hpure]
        rfl
      · next hk => rw [if_neg hk, ← pure_eq_ok.mp hnext, Option.getD_none]
    rw [ih hrest, hstep]
    cases hnamed : namedMethods? k with
    | none => rw [List.filterMap_cons_none hnamed, Option.getD_none]
    | some ms =>
      rw [List.filterMap_cons_some hnamed, Option.getD_some, List.getLast?_cons, Option.getD_some]

/-- A decorator is read as the route that it declares. -/
theorem ofDecorator?_eq_declared? {e : Expr} {route : Option Route}
    (h : Route.ofDecorator? e = .ok route) : route = declared? e := by
  rw [Route.ofDecorator?] at h
  rw [declared?]
  cases hcall : e.call? with
  | none =>
    rw [hcall] at h
    exact (pure_eq_ok.mp h).symm
  | some call =>
    rw [hcall] at h
    rw [Option.bind_some]
    cases hkind : routeKind? call with
    | none =>
      simp only [hkind] at h
      exact (pure_eq_ok.mp h).symm
    | some kind =>
      cases hargs : call.args with
      | nil =>
        simp only [hkind, hargs] at h
        exact (pure_eq_ok.mp h).symm
      | cons first rest =>
        simp only [hkind, hargs] at h
        obtain ⟨path, hpath, hmore⟩ := bind_eq_ok.mp h
        obtain ⟨methods, hmethods, hroute⟩ := bind_eq_ok.mp hmore
        have hjoin : first.path?.toOption.join = path := by
          rw [hpath]
          rfl
        rw [← pure_eq_ok.mp hroute, foldlM_addMethods hmethods, ← hjoin]
        rfl

theorem ignored_of_step {α : Type} {d d' : Decorators} {x : Except Failure α} {f : α → Decorators}
    (h : (do return f (← x)) = .ok d') (hf : ∀ v, (f v).ignored = d.ignored) :
    d'.ignored = d.ignored := by
  obtain ⟨v, -, hv⟩ := bind_eq_ok.mp h
  rw [← pure_eq_ok.mp hv, hf]

theorem ignored_of_add {d d' : Decorators} {e : Expr} (h : d.add e = .ok d') :
    d'.ignored = (d.ignored || isIgnoreCall e) := by
  rw [Decorators.add] at h
  rw [isIgnoreCall]
  cases hcall : e.call? with
  | none =>
    rw [hcall] at h
    rw [← pure_eq_ok.mp h]
    simp
  | some call =>
    rw [hcall] at h
    rw [Option.bind_some]
    dsimp only at h
    -- Only `ignore` sets the flag; the other names read an argument or set another flag.
    split at h
    case h_7 hname =>
      rw [← pure_eq_ok.mp h, hname]
      simp
    case h_8 hname =>
      rw [← pure_eq_ok.mp h, hname]
      simp
    case h_9 hother =>
      rw [← pure_eq_ok.mp h, decide_eq_false hother, Bool.or_false]
    all_goals
      next hname =>
        rw [ignored_of_step h (fun _ => rfl), hname]
        simp

theorem ignored_of_foldlM_add {es : List Expr} {start d : Decorators}
    (h : es.foldlM Decorators.add start = .ok d) :
    d.ignored = (start.ignored || es.any isIgnoreCall) := by
  induction es generalizing start with
  | nil =>
    rw [← pure_eq_ok.mp h]
    simp
  | cons e es ih =>
    rw [List.foldlM_cons] at h
    obtain ⟨next, hnext, hrest⟩ := bind_eq_ok.mp h
    rw [ih hrest, ignored_of_add hnext, List.any_cons, Bool.or_assoc]

theorem ignored_of_read {es : List Expr} {d : Decorators} (h : Decorators.read es = .ok d) :
    d.ignored = es.any isIgnoreCall := ignored_of_foldlM_add h

/-- A handler is ignored by its docstring, by that of its module or by a decorator. -/
theorem marked_of_handlerOf {file : String} {moduleMarked : Bool} {d : Definition} {h : Handler}
    (hread : handlerOf file moduleMarked d = .ok h) :
    h.file = file ∧ h.name = d.name ∧ h.line = d.line ∧
      (h.ignored || h.decorators.ignored) =
        (moduleMarked || hasMark d.body || d.decorators.any isIgnoreCall) := by
  obtain ⟨doc, hdoc, hmore⟩ := bind_eq_ok.mp hread
  obtain ⟨decorators, hdecorators, hpure⟩ := bind_eq_ok.mp hmore
  have hmark : hasMark d.body = Text.hasSub doc ignoreMark := by
    rw [hasMark, hdoc]
    rfl
  rw [← pure_eq_ok.mp hpure, ← ignored_of_read hdecorators, hmark]
  exact ⟨rfl, rfl, rfl, rfl⟩

/-! ## The steps of a scan -/

def declarationOf (h : Handler) (route : Route) : Declaration :=
  ⟨h.file, h.name, h.line, route, h.ignored || h.decorators.ignored⟩

section

variable {settings : Settings} {h : Handler} {route : Route}

theorem accounted_skipped {reason : String}
    (hskip : (h.declarationOf route).skipReason? = some reason) :
    Accounted (h.skipped route reason) [h.declarationOf route] := by
  intro _
  have hsites : (h.declarationOf route).sites = [] := by
    rw [Declaration.sites, hskip]
    rfl
  have hevent : (h.declarationOf route).skip? =
      some (.routeSkipped h.file h.name h.line route.kind.name reason) := by
    rw [Declaration.skip?, hskip]
    rfl
  constructor
  · rw [List.filterMap_cons_some hevent]
    rfl
  · show [] = _
    cases hside : (h.declarationOf route).isIgnored <;> simp [hside, hsites]
  · show [] = _
    cases hside : (h.declarationOf route).isIgnored <;> simp [hside, hsites]

/-- The operations of a route with a path, on the side where they belong. -/
theorem accounted_found {path : String} (hpath : route.path = some path) (hne : path ≠ "")
    {s : Scan} (hskips : s.events.filter Event.isSkip = [])
    (hfound : (h.declarationOf route).isIgnored = true ∧ s.endpoints = [] ∧
        s.ignored = route.methods.map (h.ignoredEndpoint path) ∨
      (h.declarationOf route).isIgnored = false ∧ s.ignored = [] ∧
        s.endpoints.map Endpoint.site = route.methods.map (h.ignoredEndpoint path)) :
    Accounted s [h.declarationOf route] := by
  intro _
  have hskip : (h.declarationOf route).skipReason? = none := by
    have hroute : (h.declarationOf route).route.path = some path := hpath
    rw [Declaration.skipReason?, hroute]
    exact if_neg hne
  have hsites : (h.declarationOf route).sites = route.methods.map (h.ignoredEndpoint path) := by
    have hroute : (h.declarationOf route).route.path = some path := hpath
    rw [Declaration.sites, hskip, hroute]
    rfl
  have hnoskip : [h.declarationOf route].filterMap Declaration.skip? = [] := by
    rw [List.filterMap_cons_none (by rw [Declaration.skip?, hskip]; rfl)]
    rfl
  rcases hfound with ⟨hside, hendpoints, hignored⟩ | ⟨hside, hignored, hendpoints⟩
  · exact ⟨by rw [hskips, hnoskip], by simp [hside, hignored, hsites],
      by simp [hside, hendpoints]⟩
  · exact ⟨by rw [hskips, hnoskip], by simp [hside, hignored],
      by simp [hside, hendpoints, hsites]⟩

theorem accounted_blockScan {path : String} (hpath : route.path = some path) (hne : path ≠ "")
    (hkind : route.kind ≠ .pattern) (block : Fields) :
    Accounted (h.blockScan settings path route block) [h.declarationOf route] := by
  have hside : (h.declarationOf route).isIgnored = (h.ignored || h.decorators.ignored) := by
    rw [Declaration.isIgnored]
    show (decide (route.kind = .pattern) || _) = _
    rw [decide_eq_false hkind, Bool.false_or]
    rfl
  have hreport : ∀ m, Accounted (mismatchScan settings h m) [] := by
    intro m
    rw [mismatchScan]
    split
    · exact Accounted.ofFailure _ _
    · exact Accounted.nothing rfl rfl rfl
  rw [blockScan]
  show Accounted (_ ++ _) ([] ++ [h.declarationOf route])
  refine Accounted.append ?_ ?_
  · cases h.mismatch? block route with
    | none => exact Accounted.nothing rfl rfl rfl
    | some m => exact hreport m
  · split
    · next hmarked => exact accounted_found hpath hne rfl (.inl ⟨by rw [hside, hmarked], rfl, rfl⟩)
    · next hmarked =>
      refine accounted_found hpath hne rfl (.inr ⟨?_, rfl, ?_⟩)
      · rw [hside, Bool.eq_false_iff.mpr hmarked]
      · exact List.map_map

theorem accounted_routeScan :
    Accounted (h.routeScan settings route) [h.declarationOf route] := by
  rw [routeScan]
  split
  · next hpath =>
    refine accounted_skipped ?_
    rw [Declaration.skipReason?]
    show (match route.path with | none => _ | some path => _) = _
    rw [hpath]
  · next hpath =>
    refine accounted_skipped ?_
    have hroute : (h.declarationOf route).route.path = some "" := hpath
    rw [Declaration.skipReason?, hroute]
    rfl
  · next path hne hpath =>
    split
    · next hkind =>
      refine accounted_found hpath hne rfl (.inl ⟨?_, rfl, rfl⟩)
      have hroute : (h.declarationOf route).route.kind = .pattern := hkind
      rw [Declaration.isIgnored, hroute]
      rfl
    · next hkind =>
      exact Accounted.withResult fun block _ => accounted_blockScan hpath hne hkind block

end

/-- A decorator declares at most one route, and the scan of the decorator accounts for it. -/
theorem accounted_decoratorScan (settings : Settings) (h : Handler) (e : Expr) :
    Accounted (h.decoratorScan settings e) ((declared? e).map h.declarationOf).toList := by
  refine Accounted.withResult fun route hroute => ?_
  rw [← ofDecorator?_eq_declared? hroute]
  cases route with
  | none => exact Accounted.nothing rfl rfl rfl
  | some r => exact accounted_routeScan

theorem accounted_functionScan (settings : Settings) (file : String) (moduleMarked : Bool)
    (d : Definition) :
    Accounted (functionScan settings file moduleMarked d)
      (functionDeclarations file moduleMarked d) := by
  refine Accounted.withResult fun h hread => ?_
  obtain ⟨hfile, hname, hline, hmarked⟩ := marked_of_handlerOf hread
  have hdeclarations : functionDeclarations file moduleMarked d =
      d.decorators.flatMap fun e => ((declared? e).map h.declarationOf).toList := by
    rw [functionDeclarations, ← hmarked, ← hfile, ← hname, ← hline,
      List.filterMap_eq_flatMap_toList]
    rfl
  rw [hdeclarations]
  exact Accounted.join fun e _ => accounted_decoratorScan settings h e

theorem accounted_moduleScan (settings : Settings) (file : String) (module : Module) :
    Accounted (moduleScan settings file module) (moduleDeclarations file module) := by
  refine Accounted.withResult fun doc hdoc => ?_
  have hmark : hasMark module = Text.hasSub doc ignoreMark := by
    rw [hasMark, hdoc]
    rfl
  rw [moduleDeclarations, ← List.flatMap_assoc, hmark]
  exact Accounted.join fun d _ => accounted_functionScan settings file _ d

theorem accounted_fileScan (settings : Settings) (files : Files) (root file : String) :
    Accounted (fileScan settings files root file)
      (((moduleAt? settings files root file).map (moduleDeclarations file)).getD []) := by
  refine Accounted.withResult fun isOut hout => ?_
  rw [moduleAt?, hout]
  cases isOut with
  | true => exact Accounted.nothing rfl rfl rfl
  | false =>
    cases hread : files.read? file with
    | none => exact Accounted.nothing rfl rfl rfl
    | some source =>
      show Accounted (sourceScan settings file source) (((parse source).map _).getD [])
      rw [sourceScan]
      cases parse source with
      | none => exact Accounted.nothing rfl rfl rfl
      | some module => exact accounted_moduleScan settings file module

/-- A scan that ends without a failure reports each declared route without a path once, finds one
operation for each method of every other declared route, on the side that the route belongs to,
and finds and skips nothing else. -/
theorem every_declaration_accounted (settings : Settings) (files : Files) (root : String)
    (h : (scan settings files root).failure = none) :
    Accounts (scan settings files root) (declarations settings files root) :=
  Accounted.join (fun file _ => accounted_fileScan settings files root file) h

/-! ## A class of each kind of route -/

section Example

/-- A route of two methods, one whose path is not a literal, a pattern, an ignored handler and one
with the mark in its docstring. -/
def usersSource : String :=
"class Users:
    @uri_mapping('/users', method=['POST', 'GET'])
    @uri_mapping(PATH)
    @uri_pattern_mapping('/raw')
    def list(self):
        pass

    @openapi.ignore()
    @uri_variable_mapping('/me')
    def me(self):
        pass

    @uri_mapping('/old')
    def old(self):
        'Gone soon.  @openapi: ignore'
"

def usersTree : Files := .dir [("users.py", .file usersSource)]

def usersSettings : Settings := ⟨Markers.default, false, [], fun _ => ⟨0, 0⟩⟩

/-- The module that is read from the characters of a source. -/
def moduleOf? (chars : List Char) : Option Module :=
  let ts := tokens chars
  let fuel := ts.length + 1
  let ctx : Context := ⟨chars.toArray, readGoal chars.toArray (8 * fuel)⟩
  match readBlock ctx fuel 0 |>.run ⟨ts, 0, 0⟩ with
  | some (body, s) => if s.ahead.isEmpty then some body else none
  | none => none

theorem parse_eq (source : String) : parse source = moduleOf? source.toList := rfl

section OneFile

variable {source : String} {chars : List Char} (hchars : source.toList = chars)
  (hfiles : Files.pythonFiles (.dir [("users.py", .file source)]) "/" = ["/users.py"])
include hchars hfiles

theorem declarations_oneFile :
    declarations usersSettings (.dir [("users.py", .file source)]) "/" =
      ((moduleOf? chars).map (moduleDeclarations "/users.py")).getD [] := by
  rw [declarations, hfiles, List.flatMap_cons, List.flatMap_nil, List.append_nil, ← hchars,
    ← parse_eq]
  rfl

theorem scan_oneFile : scan usersSettings (.dir [("users.py", .file source)]) "/" =
    Scan.join [match moduleOf? chars with
      | none => Scan.ofEvent (.fileSkipped "/users.py" (syntaxReason ⟨0, 0⟩))
      | some module => moduleScan usersSettings "/users.py" module] := by
  rw [scan, hfiles, List.map_cons, List.map_nil, ← hchars, ← parse_eq]
  rfl

end OneFile

set_option maxRecDepth 2000 in
theorem users_accounted :
    (declarations usersSettings usersTree "/").map (fun d => (d.handler, d.isIgnored, d.sites)) =
        [("list", false,
            [⟨"/users", "post", "/users.py", "list"⟩, ⟨"/users", "get", "/users.py", "list"⟩]),
          ("list", false, []),
          ("list", true, [⟨"/raw", "get", "/users.py", "list"⟩]),
          ("me", true, [⟨"/me", "get", "/users.py", "me"⟩]),
          ("old", true, [⟨"/old", "get", "/users.py", "old"⟩])] ∧
      (scan usersSettings usersTree "/").failure = none ∧
      Accounts (scan usersSettings usersTree "/") (declarations usersSettings usersTree "/") := by
  have haccounts := every_declaration_accounted usersSettings usersTree "/"
  have hchars : usersSource.toList = _ := String.toList_ofList
  have hfiles : usersTree.pythonFiles "/" = ["/users.py"] := by decide +kernel
  -- What is declared and that the scan ends are one evaluation, so the source is parsed once, and
  -- from its characters, which are costly to take from the text.
  rw [← and_assoc]
  refine (and_iff_left_of_imp fun h => haccounts h.2).mpr ?_
  rw [usersTree, declarations_oneFile hchars hfiles, scan_oneFile hchars hfiles]
  decide +kernel

end Example

end Handler
end ApiSync
