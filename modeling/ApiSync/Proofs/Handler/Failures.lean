import ApiSync.Proofs.Glob
import ApiSync.Proofs.Handler.Joined
import ApiSync.Proofs.Python.Escapes
/-!
# How a scan fails

A scan is meant to fail in two ways only: at a block that is no mapping and, if it is strict, at a
block that names a method which the route does not declare.  It fails otherwise if a pattern or a
literal that it comes across cannot be read.  Blocks are looked for between marks, and marks can be
chosen so that every block is empty; then nothing else is left that could fail, so a tree is safe
under all marks exactly if everything in it can be read.
-/

namespace ApiSync
namespace Handler

open Python

/-! ## What is decoded -/

/-- The texts that are decoded for the status codes of a response. -/
def codesTexts (e : Expr) : List (List Char) :=
  match e.form with
  | .list elements => elements.flatMap Expr.plainTexts
  | _ => e.plainTexts

def responseTexts (call : Call) : List (List Char) :=
  let keywords := call.keywords.flatMap fun keyword => keyword.2.plainTexts
  match call.args with
  | [] => keywords
  | status :: _ => codesTexts status ++ keywords

def firstTexts (call : Call) : List (List Char) :=
  match call.args with
  | [] => []
  | first :: _ => first.plainTexts

/-- The texts that are decoded of a call that documents a handler, by its name. -/
def namedTexts (call : Call) : Option String → List (List Char)
  | some "tags" => call.args.flatMap Expr.plainTexts
  | some "security" => call.args.flatMap Expr.plainTexts
  | some "response" => responseTexts call
  | some "summary" => firstTexts call
  | some "description" => firstTexts call
  | some "operationId" => firstTexts call
  | _ => []

/-- The texts that are decoded of a decorator that documents a handler. -/
def decoratorTexts (e : Expr) : List (List Char) :=
  match e.call? with
  | none => []
  | some call => namedTexts call (decoratorName? call)

def methodsTexts (value : Expr) : List (List Char) :=
  match value.form with
  | .list elements | .tuple elements => elements.flatMap Expr.plainTexts
  | _ => value.plainTexts

/-- The texts that are decoded of a keyword argument of a route. -/
def keywordTexts (keyword : String × Expr) : List (List Char) :=
  if keyword.1 = "method" then methodsTexts keyword.2 else []

/-- The texts that are decoded of a decorator that declares a route. -/
def routeTexts (e : Expr) : List (List Char) :=
  match e.call? with
  | none => []
  | some call =>
    match routeKind? call, call.args with
    | some _, first :: _ => first.pathTexts ++ call.keywords.flatMap keywordTexts
    | _, _ => []

def handlerTexts (d : Definition) : List (List Char) :=
  docstringTexts d.body ++ d.decorators.flatMap decoratorTexts

/-- The texts that are decoded while a module is scanned. -/
def moduleTexts (module : Module) : List (List Char) :=
  docstringTexts module ++
    (handlers module).flatMap fun d => handlerTexts d ++ d.decorators.flatMap routeTexts

/-! ## Reading decorators -/

theorem reads_stringArguments (call : Call) :
    Reads (call.args.flatMap Expr.plainTexts) (stringArguments call) :=
  (reads_mapM Expr.reads_constantString? call.args).bind_pure _

theorem reads_firstString? (call : Call) : Reads (firstTexts call) (firstString? call) := by
  rw [firstTexts, firstString?]
  cases call.args with
  | nil => exact reads_pure _
  | cons first rest => exact first.reads_constantString?

theorem reads_codesOf (e : Expr) : Reads (codesTexts e) (codesOf e) := by
  rw [codesTexts, codesOf]
  cases e.form with
  | list elements => exact (reads_mapM Expr.reads_constant? elements).bind_pure _
  | _ => exact e.reads_constant?.bind_pure _

theorem reads_ofCall (call : Call) : Reads (responseTexts call) (Response.ofCall call) := by
  have hkeywords : Reads (call.keywords.flatMap fun keyword => keyword.2.plainTexts)
      (call.keywords.mapM Keyword.read) :=
    reads_mapM (fun keyword => keyword.2.reads_constant?.bind_pure _) call.keywords
  rw [responseTexts, Response.ofCall]
  cases call.args with
  | nil => exact (reads_pure _).bind fun _ _ => hkeywords.bind_pure _
  | cons status rest => exact (reads_codesOf status).bind fun _ _ => hkeywords.bind_pure _

theorem reads_add (d : Decorators) (e : Expr) : Reads (decoratorTexts e) (d.add e) := by
  rw [decoratorTexts, Decorators.add]
  cases e.call? with
  | none => exact reads_pure _
  | some call =>
    dsimp only
    split
    case h_1 hname => rw [hname]; exact (reads_stringArguments call).bind_pure _
    case h_2 hname => rw [hname]; exact (reads_stringArguments call).bind_pure _
    case h_3 hname => rw [hname]; exact (reads_ofCall call).bind_pure _
    case h_4 hname => rw [hname]; exact (reads_firstString? call).bind_pure _
    case h_5 hname => rw [hname]; exact (reads_firstString? call).bind_pure _
    case h_6 hname => rw [hname]; exact (reads_firstString? call).bind_pure _
    case h_7 hname => rw [hname]; exact reads_pure _
    case h_8 hname => rw [hname]; exact reads_pure _
    case h_9 =>
      rw [namedTexts.eq_def]
      split
      all_goals first | contradiction | exact reads_pure _

theorem reads_handlerOf (file : String) (moduleIgnored : Bool) (d : Definition) :
    Reads (handlerTexts d) (handlerOf file moduleIgnored d) :=
  (reads_docstring d.body).bind fun _ _ => (reads_foldlM reads_add d.decorators _).bind_pure _

theorem reads_methodsIn? (value : Expr) : Reads (methodsTexts value) (methodsIn? value) := by
  rw [methodsTexts, methodsIn?]
  cases value.form with
  | list elements => exact (reads_mapM Expr.reads_string? elements).bind_pure _
  | tuple elements => exact (reads_mapM Expr.reads_string? elements).bind_pure _
  | _ => exact value.reads_string?.bind_pure _

theorem reads_addMethods (methods : List String) (keyword : String × Expr) :
    Reads (keywordTexts keyword) (addMethods methods keyword) := by
  rw [keywordTexts, addMethods]
  split
  · exact (reads_methodsIn? keyword.2).bind_pure _
  · exact reads_pure _

theorem reads_ofDecorator? (e : Expr) : Reads (routeTexts e) (Route.ofDecorator? e) := by
  rw [routeTexts, Route.ofDecorator?]
  cases e.call? with
  | none => exact reads_pure _
  | some call =>
    dsimp only
    cases routeKind? call with
    | none => exact reads_pure _
    | some kind =>
      cases call.args with
      | nil => exact reads_pure _
      | cons first rest =>
        exact first.reads_path?.bind fun path _ =>
          (reads_foldlM reads_addMethods call.keywords _).bind_pure _

/-! ## Scans that are put together -/

/-- The ways in which a scan may end. -/
def Documented (strict : Bool) : Option Failure → Prop
  | none => True
  | some (.block _) => True
  | some (.mismatch _) => strict = true
  | some _ => False

/-- The scan ends as it may if the condition holds, and ends without a failure only then. -/
structure Ends (settings : Settings) (P : Prop) (s : Scan) : Prop where
  documented : P → Documented settings.strict s.failure
  whole : s.failure = none → P

namespace Ends

variable {settings : Settings} {P Q : Prop} {a b : Scan}

theorem congr (h : Ends settings P a) (hPQ : P ↔ Q) : Ends settings Q a :=
  ⟨fun hq => h.documented (hPQ.mpr hq), fun hnone => hPQ.mp (h.whole hnone)⟩

theorem ofDocumented (h : Documented settings.strict a.failure) : Ends settings True a :=
  ⟨fun _ => h, fun _ => trivial⟩

theorem ofSuccess (h : a.failure = none) : Ends settings True a :=
  ofDocumented (h ▸ trivial)

theorem append (ha : Ends settings P a) (hb : Ends settings Q b) :
    Ends settings (P ∧ Q) (a ++ b) := by
  constructor
  · intro ⟨hp, hq⟩
    cases hf : a.failure with
    | some f =>
      rw [Scan.append_of_failure hf]
      exact ha.documented hp
    | none =>
      rw [Scan.append_of_success hf]
      exact hb.documented hq
  · intro hnone
    obtain ⟨hfa, hfb⟩ := Scan.append_failure_eq_none.mp hnone
    exact ⟨ha.whole hfa, hb.whole hfb⟩

theorem join {α : Type} {P : α → Prop} {f : α → Scan} (xs : List α)
    (h : ∀ x ∈ xs, Ends settings (P x) (f x)) :
    Ends settings (∀ x ∈ xs, P x) (Scan.join (xs.map f)) := by
  induction xs with
  | nil => exact (ofSuccess rfl).congr (by simp)
  | cons x xs ih =>
    rw [List.map_cons, Scan.join_cons]
    refine ((h x List.mem_cons_self).append
      (ih fun y hy => h y (List.mem_cons_of_mem x hy))).congr ?_
    rw [List.forall_mem_cons]

theorem withResult {α : Type} {e : Failure} {x : Except Failure α} {f : α → Scan}
    (hx : Needs e P x) (hf : ∀ v, x = .ok v → Ends settings Q (f v)) :
    Ends settings (P ∧ Q) (Scan.withResult x f) := by
  constructor
  · intro ⟨hp, hq⟩
    obtain ⟨v, hv⟩ := hx.succeeds hp
    rw [hv]
    exact (hf v hv).documented hq
  · intro hnone
    cases hv : x with
    | error e =>
      rw [hv] at hnone
      cases hnone
    | ok v =>
      rw [hv] at hnone
      exact ⟨hx.holds hv, (hf v hv).whole hnone⟩

end Ends

/-- Whatever the scan fails at cannot be read. -/
def Quiet (s : Scan) : Prop := ∀ f, s.failure = some f → f = .badGlob ∨ f = .codePointTooLarge

namespace Quiet

variable {a b : Scan}

theorem ofSuccess (h : a.failure = none) : Quiet a := fun f hf => by
  rw [h] at hf
  cases hf

theorem append (ha : Quiet a) (hb : Quiet b) : Quiet (a ++ b) := by
  intro f hf
  cases hfa : a.failure with
  | some g =>
    rw [Scan.append_of_failure hfa] at hf
    exact ha f hf
  | none =>
    rw [Scan.append_of_success hfa] at hf
    exact hb f hf

theorem join {α : Type} {f : α → Scan} (xs : List α) (h : ∀ x, Quiet (f x)) :
    Quiet (Scan.join (xs.map f)) := by
  induction xs with
  | nil => exact ofSuccess rfl
  | cons x xs ih =>
    rw [List.map_cons, Scan.join_cons]
    exact append (h x) ih

theorem withResult {α : Type} {e : Failure} {P : Prop} {x : Except Failure α} {f : α → Scan}
    (hx : Needs e P x) (he : e = .badGlob ∨ e = .codePointTooLarge) (hf : ∀ v, Quiet (f v)) :
    Quiet (Scan.withResult x f) := by
  cases hv : x with
  | ok v => exact hf v
  | error g =>
    intro f hfailure
    obtain rfl : g = f := Option.some.inj hfailure
    rw [hx.eq_of_error hv]
    exact he

/-- A quiet scan ends as it may only if it does not fail. -/
theorem eq_none_of_documented (h : Quiet a) (hdocumented : Documented false a.failure) :
    a.failure = none := by
  cases hf : a.failure with
  | none => rfl
  | some f =>
    rw [hf] at hdocumented
    rcases h f hf with rfl | rfl
    · cases hdocumented
    · cases hdocumented

end Quiet

/-! ## The steps of a scan -/

theorem documented_blockScan (settings : Settings) (h : Handler) (path : String) (route : Route)
    (block : Fields) :
    Documented settings.strict (h.blockScan settings path route block).failure := by
  have hreport : ∀ m, Ends settings True (mismatchScan settings h m) := by
    intro m
    rw [mismatchScan]
    split
    · next hstrict => exact Ends.ofDocumented hstrict
    · exact Ends.ofDocumented trivial
  have hboth : Ends settings (True ∧ True) (h.blockScan settings path route block) := by
    rw [blockScan]
    refine Ends.append ?_ (Ends.ofDocumented ?_)
    · cases h.mismatch? block route with
      | none => exact Ends.ofDocumented trivial
      | some m => exact hreport m
    · split <;> exact trivial
  exact hboth.documented ⟨trivial, trivial⟩

theorem parseBlock_error {markers : Markers} {raw : String} {f : Failure}
    (h : parseBlock markers raw = .error f) : ∃ b, f = .block b := by
  rw [parseBlock] at h
  split at h
  · exact ⟨_, (Except.error.inj h).symm⟩
  · cases h
  · cases h
  · exact ⟨_, (Except.error.inj h).symm⟩

theorem firstBlock_error {markers : Markers} {doc : String} {f : Failure}
    (h : firstBlock markers doc = .error f) : ∃ b, f = .block b := by
  rw [firstBlock] at h
  split at h
  · cases h
  · split at h
    · cases h
    · exact parseBlock_error h

/-- Everything that a route needs to be decoded has been decoded before. -/
theorem ends_routeScan (settings : Settings) (h : Handler) (route : Route) :
    Ends settings True (h.routeScan settings route) := by
  refine Ends.ofDocumented ?_
  rw [routeScan]
  split
  · exact trivial
  · exact trivial
  · next path _ _ =>
    split
    · exact trivial
    · cases hblock : firstBlock settings.markers h.doc with
      | error f =>
        obtain ⟨b, rfl⟩ := firstBlock_error hblock
        exact trivial
      | ok block => exact documented_blockScan settings h path route block

section

variable (settings : Settings)

theorem ends_decoratorScan (h : Handler) (decorator : Expr) :
    Ends settings (Decodes (routeTexts decorator)) (h.decoratorScan settings decorator) := by
  refine (Ends.withResult (reads_ofDecorator? decorator) fun route _ => ?_).congr
    (and_iff_left trivial)
  cases route with
  | none => exact Ends.ofDocumented trivial
  | some route => exact ends_routeScan settings h route

theorem ends_functionScan (file : String) (moduleIgnored : Bool) (d : Definition) :
    Ends settings (Decodes (handlerTexts d ++ d.decorators.flatMap routeTexts))
      (functionScan settings file moduleIgnored d) := by
  refine (Ends.withResult (reads_handlerOf file moduleIgnored d) fun h _ =>
    Ends.join d.decorators fun e _ => ends_decoratorScan settings h e).congr ?_
  rw [decodes_append, decodes_flatMap]

theorem ends_moduleScan (file : String) (module : Module) :
    Ends settings (Decodes (moduleTexts module)) (moduleScan settings file module) := by
  refine (Ends.withResult (reads_docstring module) fun doc _ =>
    Ends.join (handlers module) fun d _ => ends_functionScan settings file _ d).congr ?_
  rw [moduleTexts, decodes_append, decodes_flatMap]

/-- Every literal of a source that is scanned can be decoded, unless the source is malformed. -/
def SourceDecodes (source : String) : Prop :=
  ∀ module, parse source = some module → Decodes (moduleTexts module)

theorem ends_sourceScan (file source : String) :
    Ends settings (SourceDecodes source) (sourceScan settings file source) := by
  rw [sourceScan]
  cases hparse : parse source with
  | none =>
    refine (Ends.ofSuccess rfl).congr (iff_of_true trivial fun module hmodule => ?_)
    rw [hparse] at hmodule
    cases hmodule
  | some module =>
    refine (ends_moduleScan settings file module).congr ?_
    rw [SourceDecodes, hparse]
    exact ⟨fun h _ heq => Option.some.inj heq ▸ h, fun h => h module rfl⟩

/-- The patterns that are tried on a file can be read and, if none of them keeps it out, so can
the literals in it. -/
def CanScan (patterns : List String) (files : Files) (root file : String) : Prop :=
  Glob.Tries root file patterns ∧
    ((¬∃ pattern ∈ patterns, Glob.Excludes root file pattern) →
      ∀ source, files.read? file = some source → SourceDecodes source)

theorem ends_fileScan (files : Files) (root file : String) :
    Ends settings (CanScan settings.ignoreFiles files root file)
      (fileScan settings files root file) := by
  refine Ends.withResult (Glob.needs_isIgnored root file settings.ignoreFiles)
    fun isOut hisOut => ?_
  have hout := Glob.isIgnored_eq_ok hisOut
  cases isOut with
  | true =>
    exact (Ends.ofSuccess rfl).congr
      (iff_of_true trivial fun hnot => absurd (hout.mp rfl) hnot)
  | false =>
    have hnot : ¬∃ pattern ∈ settings.ignoreFiles, Glob.Excludes root file pattern :=
      fun h => Bool.false_ne_true (hout.mpr h)
    rw [if_neg Bool.false_ne_true, forall_prop_of_true hnot]
    cases hread : files.read? file with
    | none => exact (Ends.ofSuccess rfl).congr (iff_of_true trivial nofun)
    | some source =>
      refine (ends_sourceScan settings file source).congr ?_
      exact ⟨fun h _ heq => Option.some.inj heq ▸ h, fun h => h source rfl⟩

theorem ends_scan (files : Files) (root : String) :
    Ends settings (∀ file ∈ files.pythonFiles root, CanScan settings.ignoreFiles files root file)
      (scan settings files root) :=
  Ends.join _ fun file _ => ends_fileScan settings files root file

end

/-! ## Marks that find nothing -/

/-- Marks without a text: the first block of a docstring is empty. -/
def noMarkers : Markers := ⟨"", ""⟩

theorem dropMark?_nil (cs : List Char) : Block.dropMark? [] cs = some cs := by
  cases cs <;> rfl

theorem closeHere?_nil (cs : List Char) : (Block.closeHere? [] cs).isSome := by
  cases cs with
  | nil => rfl
  | cons c cs => rw [Block.closeHere?, dropMark?_nil, Option.isSome_or]; simp

theorem body?_nil (cs : List Char) : ∃ rest, Block.body? [] cs = some ⟨[], rest⟩ := by
  obtain ⟨rest, hrest⟩ := Option.isSome_iff_exists.mp (closeHere?_nil cs)
  refine ⟨rest, ?_⟩
  cases cs with
  | nil =>
    show (Block.closeHere? [] []).map _ = _
    rw [hrest, Option.map_some]
  | cons c cs =>
    unfold Block.body?
    rw [hrest]

theorem afterBlanks?_nil (cs : List Char) : ∃ rest, Block.afterBlanks? [] cs = some ⟨[], rest⟩ := by
  induction cs with
  | nil => exact body?_nil []
  | cons c cs ih =>
    rw [Block.afterBlanks?]
    split
    · obtain ⟨rest, hrest⟩ := ih
      exact ⟨rest, by rw [hrest]; rfl⟩
    · exact body?_nil (c :: cs)

theorem first?_nil {cs : List Char} (h : cs ≠ []) :
    ∃ rest, Block.first? [] [] cs = some ⟨[], rest⟩ := by
  obtain ⟨c, cs, rfl⟩ := List.exists_cons_of_ne_nil h
  obtain ⟨rest, hrest⟩ := afterBlanks?_nil (c :: cs)
  exact ⟨rest, by rw [Block.first?, Block.here?, dropMark?_nil, Option.bind_some, hrest]; rfl⟩

theorem firstBlock_of_first? {markers : Markers} {doc : String} {found : Block.Found}
    (hdoc : doc ≠ "")
    (h : Block.first? markers.opening.toList markers.closing.toList doc.toList = some found) :
    firstBlock markers doc = parseBlock markers (String.ofList found.body) := by
  rw [firstBlock, if_neg hdoc, h]

theorem firstBlock_noMarkers (doc : String) : firstBlock noMarkers doc = .ok [] := by
  by_cases hdoc : doc = ""
  · rw [firstBlock, if_pos hdoc]
    rfl
  · obtain ⟨rest, hrest⟩ := first?_nil fun h => hdoc (String.toList_eq_nil_iff.mp h)
    have hfirst : Block.first? noMarkers.opening.toList noMarkers.closing.toList doc.toList =
        some ⟨[], rest⟩ := hrest
    rw [firstBlock_of_first? hdoc hfirst]
    rfl

section

variable (patterns : List String)

/-- A lenient scan that finds nothing in a block. -/
def blockless : Settings := ⟨noMarkers, false, patterns, fun _ => ⟨0, 0⟩⟩

theorem quiet_routeScan (h : Handler) (route : Route) :
    Quiet (h.routeScan (blockless patterns) route) := by
  rw [routeScan]
  split
  · exact Quiet.ofSuccess rfl
  · exact Quiet.ofSuccess rfl
  · next path _ _ =>
    split
    · exact Quiet.ofSuccess rfl
    · show Quiet (Scan.withResult (firstBlock noMarkers h.doc) _)
      rw [firstBlock_noMarkers]
      refine Quiet.append (Quiet.ofSuccess rfl) (Quiet.ofSuccess ?_)
      split <;> rfl

theorem quiet_functionScan (file : String) (moduleIgnored : Bool) (d : Definition) :
    Quiet (functionScan (blockless patterns) file moduleIgnored d) := by
  refine Quiet.withResult (reads_handlerOf file moduleIgnored d) (.inr rfl) fun h =>
    Quiet.join d.decorators fun e => ?_
  refine Quiet.withResult (reads_ofDecorator? e) (.inr rfl) fun route => ?_
  cases route with
  | none => exact Quiet.ofSuccess rfl
  | some route => exact quiet_routeScan patterns h route

theorem quiet_sourceScan (file source : String) :
    Quiet (sourceScan (blockless patterns) file source) := by
  rw [sourceScan]
  cases parse source with
  | none => exact Quiet.ofSuccess rfl
  | some module =>
    exact Quiet.withResult (reads_docstring module) (.inr rfl) fun doc =>
      Quiet.join (handlers module) fun d => quiet_functionScan patterns file _ d

theorem quiet_scan (files : Files) (root : String) :
    Quiet (scan (blockless patterns) files root) := by
  refine Quiet.join _ fun file => ?_
  refine Quiet.withResult (Glob.needs_isIgnored root file patterns) (.inl rfl) fun isOut => ?_
  split
  · exact Quiet.ofSuccess rfl
  · cases files.read? file with
    | none => exact Quiet.ofSuccess rfl
    | some source => exact quiet_sourceScan patterns file source

/-- Under all marks and in both modes the scan ends in a documented way exactly if, for each
source file, the patterns that are tried on it can be read and, unless one keeps it out, every
literal of it that a scan decodes can be decoded. -/
theorem scan_documented_iff (files : Files) (root : String) :
    (∀ settings : Settings, settings.ignoreFiles = patterns →
        Documented settings.strict (scan settings files root).failure) ↔
      ∀ file ∈ files.pythonFiles root, CanScan patterns files root file := by
  constructor
  · intro h
    have hends := ends_scan (blockless patterns) files root
    exact hends.whole
      ((quiet_scan patterns files root).eq_none_of_documented (h (blockless patterns) rfl))
  · rintro h settings rfl
    exact (ends_scan settings files root).documented h

end

/-- A range that runs backwards ends the scan at the first source file, an empty one here. -/
theorem not_documented_of_backward_range :
    ¬Documented false (scan (blockless ["[z-a]"]) (.dir [("a.py", .file "")]) "/").failure := by
  have hfailure : (scan (blockless ["[z-a]"]) (.dir [("a.py", .file "")]) "/").failure =
      some .badGlob := by decide +kernel
  rw [hfailure]
  exact id

end Handler
end ApiSync
