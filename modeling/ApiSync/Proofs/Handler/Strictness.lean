import ApiSync.Proofs.Handler.Joined
/-!
# Strict and lenient scans

A block may document a method that its route does not declare.  The lenient scan reports this and
goes on, the strict one ends there.  Up to that point both go the same way: their step for a block
without a mismatch is the same one, and putting scans together keeps the relation.
-/

namespace ApiSync

def Event.isMismatch : Event → Bool
  | .methodMismatch _ _ _ => true
  | _ => false

/-- How a lenient scan reports a mismatch. -/
def Mismatch.warning (m : Mismatch) : Event :=
  .methodMismatch ("WARNING: " ++ m.message) m.file m.handler

namespace Handler

def Settings.lenient (s : Settings) : Settings := { s with strict := false }

def Settings.strictly (s : Settings) : Settings := { s with strict := true }

def NoMismatch (events : List Event) : Prop := ∀ e ∈ events, e.isMismatch = false

/-- A lenient and a strict scan of one source: they are the same scan without a mismatch, or the
strict one has failed where the lenient one reports its first mismatch. -/
inductive Parallel : Scan → Scan → Prop
  | same {s : Scan} (clean : NoMismatch s.events) : Parallel s s
  | stopped {lenient strict : Scan} (m : Mismatch) (after : List Event)
      (clean : NoMismatch strict.events)
      (warned : lenient.events = strict.events ++ m.warning :: after)
      (failed : strict.failure = some (.mismatch m)) : Parallel lenient strict

namespace Parallel

variable {a b a' b' : Scan}

theorem empty : Parallel Scan.empty Scan.empty := same fun _ h => absurd h List.not_mem_nil

theorem ofFailure (f : Failure) : Parallel (Scan.ofFailure f) (Scan.ofFailure f) :=
  same fun _ h => absurd h List.not_mem_nil

theorem ofEvent {e : Event} (h : e.isMismatch = false) :
    Parallel (Scan.ofEvent e) (Scan.ofEvent e) := by
  refine same fun d hd => ?_
  rw [List.mem_singleton.mp hd]
  exact h

/-- The relation holds of scans that follow one another. -/
theorem append (ha : Parallel a a') (hb : Parallel b b') : Parallel (a ++ b) (a' ++ b') := by
  cases ha with
  | same clean =>
    cases hf : a.failure with
    | some f =>
      rw [Scan.append_of_failure hf, Scan.append_of_failure hf]
      exact same clean
    | none =>
      cases hb with
      | same clean' =>
        refine same fun e he => ?_
        rw [Scan.append_of_success hf] at he
        exact (List.mem_append.mp he).elim (clean e) (clean' e)
      | stopped m after clean' warned failed =>
        rw [Scan.append_of_success hf, Scan.append_of_success hf]
        refine stopped m after (fun e he => (List.mem_append.mp he).elim (clean e) (clean' e)) ?_
          failed
        show a.events ++ b.events = a.events ++ b'.events ++ _
        rw [warned, List.append_assoc]
  | stopped m after clean warned failed =>
    rw [Scan.append_of_failure failed]
    -- The first half has ended the strict scan; the lenient one may report more.
    cases hf : a.failure with
    | some f =>
      rw [Scan.append_of_failure hf]
      exact stopped m after clean warned failed
    | none =>
      rw [Scan.append_of_success hf]
      refine stopped m (after ++ b.events) clean ?_ failed
      show a.events ++ b.events = _
      rw [warned, List.append_assoc, List.cons_append]

theorem join {α : Type} {xs : List α} {f g : α → Scan} (h : ∀ x ∈ xs, Parallel (f x) (g x)) :
    Parallel (Scan.join (xs.map f)) (Scan.join (xs.map g)) := by
  induction xs with
  | nil => exact empty
  | cons x xs ih =>
    rw [List.map_cons, List.map_cons, Scan.join_cons, Scan.join_cons]
    exact append (h x List.mem_cons_self) (ih fun y hy => h y (List.mem_cons_of_mem x hy))

theorem withResult {α : Type} (result : Except Failure α) {f g : α → Scan}
    (h : ∀ v, Parallel (f v) (g v)) :
    Parallel (Scan.withResult result f) (Scan.withResult result g) := by
  cases result with
  | error f => exact ofFailure f
  | ok v => exact h v

end Parallel

/-! ## The steps of a scan -/

theorem warning_of_mismatch? {h : Handler} {block : Fields} {route : Route} {m : Mismatch}
    (hm : h.mismatch? block route = some m) :
    m.warning = .methodMismatch ("WARNING: " ++ m.message) h.file h.name := by
  rw [mismatch?] at hm
  split at hm
  · cases hm
  · cases hm
    rfl

section

variable (settings : Settings)

theorem parallel_mismatchScan {h : Handler} {block : Fields} {route : Route} {m : Mismatch}
    (hm : h.mismatch? block route = some m) :
    Parallel (mismatchScan settings.lenient h m) (mismatchScan settings.strictly h m) := by
  refine Parallel.stopped m [] (fun e he => absurd he List.not_mem_nil) ?_ rfl
  rw [warning_of_mismatch? hm]
  rfl

theorem parallel_ignoredScan (h : Handler) (path : String) (route : Route) :
    Parallel (h.ignoredScan path route) (h.ignoredScan path route) :=
  Parallel.same fun _ he => absurd he List.not_mem_nil

theorem parallel_blockScan (h : Handler) (path : String) (route : Route) (block : Fields) :
    Parallel (h.blockScan settings.lenient path route block)
      (h.blockScan settings.strictly path route block) := by
  rw [blockScan, blockScan]
  refine Parallel.append ?_ ?_
  · cases hm : h.mismatch? block route with
    | none => exact Parallel.empty
    | some m => exact parallel_mismatchScan settings hm
  · split
    · exact parallel_ignoredScan h path route
    · exact Parallel.same fun _ he => absurd he List.not_mem_nil

theorem parallel_routeScan (h : Handler) (route : Route) :
    Parallel (h.routeScan settings.lenient route) (h.routeScan settings.strictly route) := by
  rw [routeScan, routeScan]
  split
  · exact Parallel.ofEvent rfl
  · exact Parallel.ofEvent rfl
  · next path _ _ =>
    split
    · exact parallel_ignoredScan h path route
    · exact Parallel.withResult (firstBlock settings.markers h.doc)
        (parallel_blockScan settings h path route)

theorem parallel_decoratorScan (h : Handler) (decorator : Python.Expr) :
    Parallel (h.decoratorScan settings.lenient decorator)
      (h.decoratorScan settings.strictly decorator) := by
  refine Parallel.withResult _ fun route => ?_
  cases route with
  | none => exact Parallel.empty
  | some route => exact parallel_routeScan settings h route

theorem parallel_functionScan (file : String) (moduleIgnored : Bool) (d : Python.Definition) :
    Parallel (functionScan settings.lenient file moduleIgnored d)
      (functionScan settings.strictly file moduleIgnored d) :=
  Parallel.withResult _ fun h => Parallel.join fun e _ => parallel_decoratorScan settings h e

theorem parallel_sourceScan (file source : String) :
    Parallel (sourceScan settings.lenient file source)
      (sourceScan settings.strictly file source) := by
  rw [sourceScan, sourceScan]
  cases Python.parse source with
  | none => exact Parallel.ofEvent rfl
  | some module =>
    exact Parallel.withResult _ fun doc =>
      Parallel.join fun d _ => parallel_functionScan settings file _ d

theorem parallel_fileScan (files : Files) (root file : String) :
    Parallel (fileScan settings.lenient files root file)
      (fileScan settings.strictly files root file) := by
  refine Parallel.withResult _ fun isOut => ?_
  split
  · exact Parallel.empty
  · cases files.read? file with
    | none => exact Parallel.empty
    | some source => exact parallel_sourceScan settings file source

theorem parallel_scan (files : Files) (root : String) :
    Parallel (scan settings.lenient files root) (scan settings.strictly files root) :=
  Parallel.join fun file _ => parallel_fileScan settings files root file

end

/-! ## Whole scans -/

/-- Two splits of a list at its first element with a property are the same one. -/
theorem split_first_eq {α : Type} {p : α → Bool} {a b : List α} {x y : α} {c d : List α}
    (h : a ++ x :: c = b ++ y :: d) (ha : ∀ e ∈ a, p e = false) (hb : ∀ e ∈ b, p e = false)
    (hx : p x = true) (hy : p y = true) : a = b ∧ x = y := by
  induction a generalizing b with
  | nil =>
    cases b with
    | nil => exact ⟨rfl, (List.cons.inj h).1⟩
    | cons e b =>
      have he := hb e List.mem_cons_self
      rw [← (List.cons.inj h).1, hx] at he
      cases he
  | cons e a ih =>
    cases b with
    | nil =>
      have he := ha e List.mem_cons_self
      rw [(List.cons.inj h).1, hy] at he
      cases he
    | cons f b =>
      obtain ⟨hef, hrest⟩ := List.cons.inj h
      obtain ⟨hab, hxy⟩ := ih hrest (fun g hg => ha g (List.mem_cons_of_mem e hg))
        fun g hg => hb g (List.mem_cons_of_mem f hg)
      exact ⟨by rw [hef, hab], hxy⟩

/-- Without a mismatch the strict scan goes to the end. -/
theorem Parallel.eq_of_noMismatch {lenient strict : Scan} (h : Parallel lenient strict)
    (hclean : NoMismatch lenient.events) : strict = lenient := by
  cases h with
  | same _ => rfl
  | stopped m after _ warned _ =>
    have hwarning : m.warning ∈ lenient.events := by
      rw [warned]
      exact List.mem_append_right _ List.mem_cons_self
    have hno : true = false := hclean _ hwarning
    cases hno

/-- The strict scan ends where the lenient one reports its first mismatch. -/
theorem Parallel.stopped_at_first {lenient strict : Scan} (h : Parallel lenient strict)
    {before after : List Event} {message file handler : String}
    (hevents : lenient.events = before ++ .methodMismatch message file handler :: after)
    (hbefore : NoMismatch before) :
    ∃ m : Mismatch, message = "WARNING: " ++ m.message ∧ m.file = file ∧
      m.handler = handler ∧ strict.failure = some (.mismatch m) ∧ strict.events = before := by
  cases h with
  | same clean =>
    have hmem : Event.methodMismatch message file handler ∈ lenient.events := by
      rw [hevents]
      exact List.mem_append_right _ List.mem_cons_self
    have hno : true = false := clean _ hmem
    cases hno
  | stopped m _ clean warned failed =>
    obtain ⟨hsame, hfirst⟩ := split_first_eq (p := Event.isMismatch)
      (warned.symm.trans hevents) clean hbefore rfl rfl
    injection hfirst with hmessage hfile hhandler
    exact ⟨m, hmessage.symm, hfile, hhandler, failed, hsame⟩

/-- Where the lenient scan reports no mismatch, the strict scan is the same.  Where the first
mismatch that it reports carries a message, the strict scan has failed with that message and has
reported exactly what the lenient scan reports before. -/
theorem strict_scan_agrees_until_mismatch (settings : Settings) (files : Files) (root : String) :
    let lenient := scan settings.lenient files root
    let strict := scan settings.strictly files root
    (NoMismatch lenient.events → strict = lenient) ∧
      ∀ before after message file handler,
        lenient.events = before ++ .methodMismatch message file handler :: after →
        NoMismatch before →
        ∃ m : Mismatch, message = "WARNING: " ++ m.message ∧ m.file = file ∧
          m.handler = handler ∧ strict.failure = some (.mismatch m) ∧ strict.events = before := by
  intro lenient strict
  have hparallel : Parallel lenient strict := parallel_scan settings files root
  exact ⟨hparallel.eq_of_noMismatch, fun _ _ _ _ _ => hparallel.stopped_at_first⟩

section Example

/-- The block documents a method that the route does not declare. -/
def strayedSource : String :=
"class A:
    @uri_mapping('/a')
    def a(self):
        '''>>>openapi
        post: {}
        <<<openapi'''
"

def strayedTree : Files := .dir [("a.py", .file strayedSource)]

def strayedSettings : Settings := ⟨Markers.default, false, [], fun _ => ⟨0, 0⟩⟩

def strayedMessage : String :=
  "OpenAPI docstring method(s) ['post'] not declared in decorator for a at /a.py:3. " ++
    "Decorator methods: ['get']"

theorem strayed_stops_strict_scan :
    let lenient := scan strayedSettings.lenient strayedTree "/"
    let strict := scan strayedSettings.strictly strayedTree "/"
    lenient.endpoints.map (·.path) = ["/a"] ∧
      lenient.events = [.methodMismatch ("WARNING: " ++ strayedMessage) "/a.py" "a"] ∧
      ∃ m : Mismatch, "WARNING: " ++ strayedMessage = "WARNING: " ++ m.message ∧
        strict.failure = some (.mismatch m) ∧ strict.events = [] := by
  intro lenient strict
  have hlenient : lenient.endpoints.map (·.path) = ["/a"] ∧
      lenient.events = [.methodMismatch ("WARNING: " ++ strayedMessage) "/a.py" "a"] := by
    show (scan _ _ _).endpoints.map _ = _ ∧ (scan _ _ _).events = _
    decide +kernel
  obtain ⟨m, hmessage, -, -, hstrict⟩ :=
    (strict_scan_agrees_until_mismatch strayedSettings strayedTree "/").2 [] [] _ _ _ hlenient.2
      fun _ he => absurd he List.not_mem_nil
  exact ⟨hlenient.1, hlenient.2, m, hmessage, hstrict⟩

end Example

end Handler
end ApiSync
