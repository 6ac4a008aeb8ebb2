import ApiSync.Model.Scan
import ApiSync.Proofs.Model.WellFormed
/-!
# The registry of a session

A session reads files one after the other into one registry of type aliases, and a step that fails
leaves what it has noted so far.  What every step keeps holds of each registry that a session comes
to: the extensions of its records repeat no key.
-/

namespace ApiSync

open Fields (WellFormed Each)

namespace Alias

open Python

/-! ## Records of declarations -/

def Record.WellFormed (r : Record) : Prop := Fields.WellFormed r.extensions

theorem Options.wellFormed_addKeyword {o : Options} (h : WellFormed o.attributes)
    (keyword : String × Expr) :
    Gives (o.addKeyword keyword) fun p => WellFormed p.attributes := by
  refine (gives_self _).bind fun value _ => ?_
  have hset : (o.setKeyword keyword.1 value).attributes = o.attributes := by
    unfold Options.setKeyword
    split <;> rfl
  split
  · refine (wellFormed_constantDict? keyword.2).bind fun dict hdict => gives_pure ?_
    cases dict with
    | none =>
      show WellFormed (o.setKeyword keyword.1 value).attributes
      rw [hset]
      exact h
    | some fields => exact hdict fields rfl
  · refine gives_pure ?_
    rw [hset]
    exact h

theorem Options.wellFormed_ofCall (call : Call) :
    Gives (Options.ofCall call) fun o => WellFormed o.attributes := by
  unfold Options.ofCall
  extract_lets start rest
  have hrest : ∀ component, Gives (rest component) fun o => WellFormed o.attributes :=
    fun component => gives_foldlM Fields.wellFormed_nil fun o keyword _ h =>
      Options.wellFormed_addKeyword h keyword
  split
  · exact (gives_self _).bind fun component _ => hrest component
  · exact (gives_self _).bind fun component _ => hrest component

theorem Options.wellFormed_extensions {o : Options} (h : WellFormed o.attributes) :
    WellFormed o.extensions := by
  refine List.foldlRecOn o.attributes _ ?_ fun acc hacc e he =>
    hacc.set _ ((Fields.wellFormed_iff.mp h).2 e he)
  split
  · exact Fields.wellFormed_cons List.not_mem_nil trivial Fields.wellFormed_nil
  · exact Fields.wellFormed_nil

theorem wellFormed_factory? (e : Expr) :
    Gives (factory? e) fun f => ∀ factory, f = some factory →
      WellFormed factory.options.attributes := by
  rw [factory?]
  split
  · exact gives_pure fun _ h => nomatch h
  · split
    · exact gives_pure fun _ h => nomatch h
    · split
      · refine (Options.wellFormed_ofCall _).bind fun o ho => gives_pure fun factory h => ?_
        cases h
        exact ho
      · exact gives_pure fun _ h => nomatch h

namespace Declarations

def RecordsWellFormed (d : Declarations) : Prop := ∀ r ∈ d.records, r.WellFormed

theorem RecordsWellFormed.append {d : Declarations} (h : d.RecordsWellFormed) {f : Factory}
    (hf : WellFormed f.options.attributes) (name text file : String) :
    ∀ r ∈ d.records ++ [f.options.record name text file], r.WellFormed := by
  intro r hr
  rcases List.mem_append.mp hr with hold | hnew
  · exact h r hold
  · rw [List.mem_singleton.mp hnew]
    exact Options.wellFormed_extensions hf

theorem RecordsWellFormed.define {d : Declarations} (h : d.RecordsWellFormed)
    (name text : String) : (d.define name text).RecordsWellFormed := by
  rw [Declarations.define]
  split
  · exact h
  · exact h

theorem RecordsWellFormed.addPlain {d : Declarations} (h : d.RecordsWellFormed) (file : String)
    (s : Statement) : Gives (Declarations.addPlain file s d) RecordsWellFormed := by
  rw [Declarations.addPlain]
  split
  · exact gives_pure h
  · next name value _ =>
    extract_lets rest
    have hrest : ∀ factory : Option Factory,
        (∀ f, factory = some f → WellFormed f.options.attributes) →
        Gives (rest factory) RecordsWellFormed := by
      intro factory hfactory
      cases factory with
      | none => exact gives_pure (h.define _ _)
      | some f => exact gives_pure (h.append (hfactory f rfl) _ _ file)
    split
    · exact (gives_self _).bind fun factory heq => hrest factory fun f hf => by
        rw [← pure_eq_ok.mp heq] at hf
        cases hf
    · exact (wellFormed_factory? _).bind hrest

theorem RecordsWellFormed.addApplied {d : Declarations} (h : d.RecordsWellFormed) (file : String)
    (s : Statement) : Gives (Declarations.addApplied file s d) RecordsWellFormed := by
  unfold Declarations.addApplied
  split
  · refine (wellFormed_factory? _).bind fun factory hfactory => ?_
    split
    · exact gives_pure h
    · next f =>
      split
      · exact gives_pure h
      · split
        · exact gives_pure h
        · exact gives_pure (h.append (hfactory f rfl) _ _ file)
  · exact gives_pure h

theorem RecordsWellFormed.andThen {d : Declarations} (h : d.RecordsWellFormed)
    {step : Declarations → Except Failure Declarations} (hstep : Gives (step d) RecordsWellFormed) :
    (d.andThen step).RecordsWellFormed := by
  rw [Declarations.andThen]
  split
  · exact h
  · split
    · next d' hd => exact hstep d' hd
    · exact h

theorem recordsWellFormed_ofModule (file : String) (module : Module) :
    (ofModule file module).RecordsWellFormed := by
  have hplain : (module.foldl (fun d s => d.andThen (addPlain file s)) empty).RecordsWellFormed :=
    List.foldlRecOn module _ (fun _ h => absurd h List.not_mem_nil) fun _ h s _ =>
      RecordsWellFormed.andThen h (h.addPlain file s)
  exact List.foldlRecOn module _ hplain fun _ h s _ =>
    RecordsWellFormed.andThen h (h.addApplied file s)

end Declarations

/-! ## Steps on a registry -/

/-- No record has an extension with a repeated key. -/
def Registry.Sound (r : Registry) : Prop := Each Record.WellFormed r.records

namespace Loading

variable {α β σ : Type}

/-- The registry after a step, whether it fails or not. -/
def after (x : Loading α) (r : Registry) : Registry := (x.run.run r).2

/-- The step succeeds with the result and leaves the registry `r'`. -/
def Returns (x : Loading α) (r : Registry) (a : α) (r' : Registry) : Prop :=
  x.run.run r = (.ok a, r')

/-- A step from a sound registry leaves a sound one. -/
def Preserves (x : Loading α) : Prop := ∀ r, r.Sound → (x.after r).Sound

theorem returns_pure {a b : α} {r r' : Registry} :
    Returns (pure a) r b r' ↔ a = b ∧ r = r' := by
  constructor
  · intro h
    cases h
    exact ⟨rfl, rfl⟩
  · rintro ⟨rfl, rfl⟩
    rfl

theorem run_bind (x : Loading α) (f : α → Loading β) (r : Registry) :
    (x >>= f).run.run r = match x.run.run r with
      | (.ok a, m) => (f a).run.run m
      | (.error e, m) => (.error e, m) := by
  rw [ExceptT.run_bind, StateT.run_bind]
  cases h : x.run.run r with
  | mk result m => cases result <;> rfl

theorem returns_bind {x : Loading α} {f : α → Loading β} {r r' : Registry} {b : β} :
    Returns (x >>= f) r b r' ↔ ∃ a m, Returns x r a m ∧ Returns (f a) m b r' := by
  rw [Returns, run_bind]
  constructor
  · intro h
    split at h
    · next a m hx => exact ⟨a, m, hx, h⟩
    · cases h
  · rintro ⟨a, m, hx, hf⟩
    rw [hx]
    exact hf

theorem returns_get {r r' a : Registry} : Returns get r a r' ↔ a = r ∧ r' = r := by
  constructor
  · intro h
    cases h
    exact ⟨rfl, rfl⟩
  · rintro ⟨rfl, rfl⟩
    rfl

theorem returns_ofExcept {x : Except Failure α} {r r' : Registry} {a : α} :
    Returns (MonadExcept.ofExcept x) r a r' ↔ x = .ok a ∧ r = r' := by
  cases x with
  | error e =>
    constructor
    · intro h
      cases h
    · intro h
      cases h.1
  | ok b =>
    refine returns_pure.trans (and_congr_left fun _ => ?_)
    rw [Except.ok.injEq]

theorem preserves_pure (a : α) : Preserves (pure a) := fun _ h => h

theorem preserves_throw (f : Failure) : Preserves (throw f : Loading α) := fun _ h => h

theorem Preserves.bind {x : Loading α} {f : α → Loading β} (hx : Preserves x)
    (hf : ∀ a, Preserves (f a)) : Preserves (x >>= f) := by
  intro r hr
  have hm := hx r hr
  rw [after] at hm
  rw [after, run_bind]
  split
  · next a m heq =>
    rw [heq] at hm
    exact hf a m hm
  · next heq =>
    rw [heq] at hm
    exact hm

theorem preserves_get : Preserves (get : Loading Registry) := fun _ h => h

theorem preserves_modify {f : Registry → Registry} (h : ∀ r, r.Sound → (f r).Sound) :
    Preserves (modify f : Loading Unit) := h

theorem preserves_ofExcept (x : Except Failure α) :
    Preserves (MonadExcept.ofExcept x : Loading α) := by
  cases x with
  | error e => exact preserves_throw e
  | ok a => exact preserves_pure a

theorem preserves_foldlM {f : σ → α → Loading σ} {xs : List α} (s : σ)
    (h : ∀ t x, x ∈ xs → Preserves (f t x)) : Preserves (xs.foldlM f s) := by
  induction xs generalizing s with
  | nil => exact preserves_pure s
  | cons x xs ih =>
    rw [List.foldlM_cons]
    exact (h s x List.mem_cons_self).bind fun t =>
      ih t fun u y hy => h u y (List.mem_cons_of_mem x hy)

end Loading

open Loading

theorem Registry.Sound.addRecords {r : Registry} (h : r.Sound) {records : List Record}
    (hrecords : ∀ record ∈ records, record.WellFormed) :
    (records.foldl Registry.addRecord r).Sound :=
  List.foldlRecOn records _ h fun _ hr record hmem =>
    Each.set hr record.name (hrecords record hmem)

theorem preserves_addImport {load : String → Loading Table} (h : ∀ file, Preserves (load file))
    (files : Files) (file : String) (table : Table) (i : ImportFrom) :
    Preserves (addImport load files file table i) := by
  refine preserves_get.bind fun r => ?_
  split
  · exact preserves_pure table
  · next target _ => exact (h target).bind fun _ => preserves_pure _

theorem preserves_collect {load : String → Loading Table} (h : ∀ file, Preserves (load file))
    (files : Files) (file : String) (module : Module) :
    Preserves (collect load files file module) := by
  have hrecords := Declarations.recordsWellFormed_ofModule file module
  unfold collect
  dsimp only
  refine (preserves_modify fun r hr => hr.addRecords hrecords).bind fun _ => ?_
  split
  · exact preserves_throw _
  · exact (preserves_foldlM _ fun table i _ => preserves_addImport h files file table i).bind
      fun _ => Preserves.bind (preserves_modify fun _ hr => hr) fun _ => preserves_pure _

theorem preserves_loadFrom (files : Files) (fuel : Nat) (file : String) :
    Preserves (loadFrom files fuel file) := by
  induction fuel generalizing file with
  | zero => exact preserves_pure []
  | succ fuel ih =>
    rw [loadFrom]
    refine preserves_get.bind fun r => ?_
    split
    · exact preserves_pure _
    · refine Preserves.bind (preserves_modify fun _ hr => hr) fun _ => ?_
      split
      · exact preserves_pure []
      · exact preserves_throw _
      · split
        · exact preserves_pure []
        · exact preserves_collect ih files file _

theorem preserves_load (files : Files) (file : String) : Preserves (load files file) :=
  preserves_loadFrom files (loadFuel files) file

theorem preserves_register (files : Files) (file : String) (module : Module) :
    Preserves (register files file module) := by
  refine preserves_get.bind fun r => ?_
  split
  · exact preserves_pure _
  · exact Preserves.bind (preserves_modify fun _ hr => hr) fun _ =>
      preserves_collect (preserves_load files) files file module

end Alias

namespace Model

open Python Alias Alias.Loading

/-! ## Sessions -/

theorem preserves_addFile (files : Files) (markers : Markers) (table : AttributeTable) (s : Scan)
    (file : String) : Preserves (s.addFile files markers table file) := by
  rw [Scan.addFile]
  split
  · exact preserves_pure s
  · split
    · exact preserves_pure s
    · exact (preserves_register files file _).bind fun _ => preserves_ofExcept _

theorem preserves_scan (files : Files) (markers : Markers) (root : String) :
    Preserves (scan files markers root) := by
  rw [scan]
  split
  · exact preserves_pure _
  · exact (preserves_ofExcept _).bind fun table =>
      (preserves_foldlM _ fun s file _ => preserves_addFile files markers table s file).bind
      fun _ => preserves_get.bind fun _ => preserves_pure _

/-- The registries that a session comes to.  Its files may change between two steps. -/
inductive InSession : Registry → Prop
  | start (projectRoot : String) : InSession (Registry.empty projectRoot)
  | load {r : Registry} (h : InSession r) (files : Files) (file : String) :
      InSession ((Alias.load files file).after r)
  | register {r : Registry} (h : InSession r) (files : Files) (file : String) (module : Module) :
      InSession ((Alias.register files file module).after r)
  | scan {r : Registry} (h : InSession r) (files : Files) (markers : Markers) (root : String) :
      InSession ((scan files markers root).after r)

theorem InSession.sound {r : Registry} (h : InSession r) : r.Sound := by
  induction h with
  | start projectRoot => exact Fields.each_nil
  | load _ files file ih => exact preserves_load files file _ ih
  | register _ files file module ih => exact preserves_register files file module _ ih
  | scan _ files markers root ih => exact preserves_scan files markers root _ ih

end Model
end ApiSync
