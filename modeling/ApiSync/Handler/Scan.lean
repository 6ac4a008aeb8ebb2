import ApiSync.Block
import ApiSync.Document.Orphans
import ApiSync.Endpoint
import ApiSync.Event
import ApiSync.Files
import ApiSync.Glob
import ApiSync.Handler.Decorators
import ApiSync.Handler.Route
import ApiSync.Python.Docstring
import ApiSync.Python.Module
/-!
The operations that the handlers of a source tree implement.

A handler is a function in a class, and every method of each of its routes is an operation.
The block in its docstring describes all of them, or each one separately under the name of
its method.  A scan is put together from the scans of the files, those from the scans of the
handlers, and those from the scans of the routes.
-/

namespace ApiSync

open Python

/-- A handler as far as its routes need it.  It is ignored if a docstring says so. -/
structure Handler where
  file : String
  name : String
  line : Nat
  doc : String
  decorators : Handler.Decorators
  ignored : Bool

namespace Handler

/-- A place in a source, its row and column counted from zero. -/
structure Position where
  row : Nat
  column : Nat
deriving DecidableEq, Repr, Inhabited

/-- How handlers are read.  Where the fault of a malformed source shows is up to the parser of the
host, which recovers from it in a way of its own. -/
structure Settings where
  markers : Markers
  strict : Bool
  ignoreFiles : List String
  faultAt : String → Position

/-- What a scan has found and reported.  A failure ends it. -/
structure Scan where
  endpoints : List Endpoint
  ignored : List IgnoredEndpoint
  events : List Event
  failure : Option Failure
deriving Inhabited

namespace Scan

def empty : Scan := ⟨[], [], [], none⟩

def ofEvent (e : Event) : Scan := { empty with events := [e] }

def ofFailure (f : Failure) : Scan := { empty with failure := some f }

/-- One scan after the other, unless the first one fails. -/
def append (a b : Scan) : Scan :=
  if a.failure.isSome then a
  else ⟨a.endpoints ++ b.endpoints, a.ignored ++ b.ignored, a.events ++ b.events, b.failure⟩

instance : Append Scan := ⟨append⟩

def join (scans : List Scan) : Scan := scans.foldr (· ++ ·) empty

/-- The scan that needs a value which may fail to be read. -/
def withResult (result : Except Failure α) (scan : α → Scan) : Scan :=
  match result with
  | .ok v => scan v
  | .error f => ofFailure f

theorem append_empty (a : Scan) : a ++ empty = a := by
  show append a empty = a
  unfold append
  split
  · rfl
  · next h =>
    have : a.failure = none := by simpa using h
    cases a
    simp_all [empty]

theorem empty_append (a : Scan) : empty ++ a = a := by
  show append empty a = a
  simp [append, empty]

theorem append_assoc (a b c : Scan) : a ++ b ++ c = a ++ (b ++ c) := by
  show append (append a b) c = append a (append b c)
  unfold append
  by_cases ha : a.failure.isSome
  · simp [ha]
  · by_cases hb : b.failure.isSome <;> simp [ha, hb, List.append_assoc]

end Scan

/-- The mark in a docstring that keeps a handler or a whole module out of the document. -/
def ignoreMark : String := "@openapi: ignore"

/-- The keys of a block that are methods. -/
def methodKeys (block : Fields) : List String :=
  (Fields.keys block).filter fun key => isHttpMethod (Text.lowerCased key)

/-- The part of a block that describes a method. -/
def methodBlock (method : String) : Fields → Fields
  | [] => []
  | (key, .map fields) :: rest =>
    if Text.lowerCased key = method then fields else methodBlock method rest
  | _ :: rest => methodBlock method rest

/-- The metadata that a block has for a method. -/
def blockFor (block : Fields) (method : String) : Fields :=
  if methodKeys block = [] then block else methodBlock method block

/-- Methods of a block that the route does not declare, if there are any. -/
def mismatch? (h : Handler) (block : Fields) (route : Route) : Option Mismatch :=
  let documented := Text.distinct ((methodKeys block).map Text.lowerCased)
  match documented.filter (!route.methods.contains ·) with
  | [] => none
  | undeclared => some
    { handler := h.name
      file := h.file
      line := h.line
      undeclared := Text.sortNames undeclared
      declared := Text.sortNames (Text.distinct route.methods) }

/-- The report of a mismatch, which a strict scan does not survive. -/
def mismatchScan (settings : Settings) (h : Handler) (m : Mismatch) : Scan :=
  if settings.strict then Scan.ofFailure (.mismatch m)
  else Scan.ofEvent (.methodMismatch ("WARNING: " ++ m.message) h.file h.name)

def endpoint (h : Handler) (block : Fields) (path method : String) : Endpoint :=
  let decorators := h.decorators.fields
  { path := path
    method := method
    file := h.file
    function := h.name
    line := h.line
    block := blockFor block method
    decorators := if decorators = [] then none else some decorators }

def ignoredEndpoint (h : Handler) (path method : String) : IgnoredEndpoint :=
  ⟨path, method, h.file, h.name⟩

/-- All methods of a route as ignored operations. -/
def ignoredScan (h : Handler) (path : String) (route : Route) : Scan :=
  { Scan.empty with ignored := route.methods.map (h.ignoredEndpoint path) }

/-- The methods of a route with the block that describes them. -/
def blockScan (settings : Settings) (h : Handler) (path : String) (route : Route)
    (block : Fields) : Scan :=
  let report := match h.mismatch? block route with
    | none => Scan.empty
    | some m => mismatchScan settings h m
  let found := if h.ignored || h.decorators.ignored then h.ignoredScan path route
    else { Scan.empty with endpoints := route.methods.map (h.endpoint block path) }
  report ++ found

def skipped (h : Handler) (route : Route) (reason : String) : Scan :=
  Scan.ofEvent (.routeSkipped h.file h.name h.line route.kind.name reason)

def routeScan (settings : Settings) (h : Handler) (route : Route) : Scan :=
  match route.path with
  | none => h.skipped route "path is not a literal"
  | some "" => h.skipped route "path is empty"
  | some path =>
    if route.kind = .pattern then h.ignoredScan path route
    else Scan.withResult (firstBlock settings.markers h.doc) (h.blockScan settings path route)

def decoratorScan (settings : Settings) (h : Handler) (decorator : Expr) : Scan :=
  Scan.withResult (Route.ofDecorator? decorator) fun route =>
    match route with
    | none => Scan.empty
    | some r => h.routeScan settings r

/-- Reads what the routes of a function need to know about it. -/
def handlerOf (file : String) (moduleIgnored : Bool) (d : Definition) :
    Except Failure Handler := do
  let doc ← docstring d.body
  let decorators ← Decorators.read d.decorators
  return ⟨file, d.name, d.line, doc, decorators, moduleIgnored || Text.hasSub doc ignoreMark⟩

def functionScan (settings : Settings) (file : String) (moduleIgnored : Bool)
    (d : Definition) : Scan :=
  Scan.withResult (handlerOf file moduleIgnored d) fun h =>
    Scan.join (d.decorators.map (h.decoratorScan settings))

/-- The functions directly in the classes of a module. -/
def handlers (module : Module) : List Definition :=
  (classes module).flatMap fun c => functions c.body

def moduleScan (settings : Settings) (file : String) (module : Module) : Scan :=
  Scan.withResult (docstring module) fun doc =>
    Scan.join ((handlers module).map
      (functionScan settings file (Text.hasSub doc ignoreMark)))

def syntaxReason (fault : Position) : String :=
  s!"syntax error: invalid syntax (line {fault.row + 1}, column {fault.column + 1})"

/-- The scan of a source file; one that is malformed is reported and skipped. -/
def sourceScan (settings : Settings) (file source : String) : Scan :=
  match parse source with
  | none => Scan.ofEvent (.fileSkipped file (syntaxReason (settings.faultAt source)))
  | some module => moduleScan settings file module

/-- The scan of one file of a tree, unless it is kept out by its name. -/
def fileScan (settings : Settings) (files : Files) (root file : String) : Scan :=
  Scan.withResult (Glob.isIgnored file root settings.ignoreFiles) fun isOut =>
    if isOut then Scan.empty
    else match files.read? file with
      | none => Scan.empty
      | some source => sourceScan settings file source

/-- The scan of a source tree. -/
def scan (settings : Settings) (files : Files) (root : String) : Scan :=
  Scan.join ((files.pythonFiles root).map (fileScan settings files root))

end Handler
end ApiSync
