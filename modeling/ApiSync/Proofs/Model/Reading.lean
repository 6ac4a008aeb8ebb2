import ApiSync.Proofs.Alias.Entering
import ApiSync.Proofs.Model.Session
/-!
# The classes that a scan reads

While a scan goes from file to file its registry grows, and a class is read with the aliases that
its file has by then.  The table of a file stays once it is made, so these are the aliases that the
registry holds for the file in the end.
-/

namespace ApiSync

namespace Model

open Python Alias Alias.Loading

/-! ## The classes of a tree -/

/-- The module of a source file that a scan reads. -/
def modelModule? (files : Files) (file : String) : Option Module :=
  if Text.hasPrefix (Path.baseName file) "_" then none else (files.read? file).bind parse

/-- The classes of source files, in the order in which a scan reads them. -/
def modelClasses (files : Files) (sources : List String) : List Definition :=
  sources.flatMap fun file => ((modelModule? files file).map classes).getD []

/-- The classes of a source file, read with the aliases that the registry holds for it. -/
def fileClasses (files : Files) (markers : Markers) (table : AttributeTable) (r : Registry)
    (file : String) : Except Failure (List Class) :=
  match modelModule? files file with
  | none => pure []
  | some module => (classes module).mapM
      (readClass markers table ((r.table? file).getD []) (typeVars module))

/-- The classes of all source files below a root, in the order in which a scan reads them. -/
def treeClasses (files : Files) (markers : Markers) (root : String) (r : Registry) :
    Except Failure (List Class) :=
  match files.pythonFiles root with
  | [] => pure []
  | sources => do
    let table ← attributes files root
    return (← sources.mapM (fileClasses files markers table r)).flatten

/-- The records of type aliases that a scan adds after the classes, if it finds a file at all. -/
def treeRecords (files : Files) (root : String) (r : Registry) : List Record :=
  if files.pythonFiles root = [] then [] else r.records.map (·.2)

theorem exists_of_mem_treeRecords {files : Files} {root : String} {r : Registry} {record : Record}
    (h : record ∈ treeRecords files root r) : ∃ e ∈ r.records, e.2 = record := by
  rw [treeRecords] at h
  split at h
  · exact absurd h List.not_mem_nil
  · exact List.mem_map.mp h

/-! ## What is read from a definition -/

/-- The class is what a scan reads from its definition. -/
def Class.IsRead (markers : Markers) (table : AttributeTable) (c : Class) : Prop :=
  ∃ aliases vars, readClass markers table aliases vars c.definition = .ok c

/-- The definitions have been read into the classes. -/
structure AreRead (markers : Markers) (table : AttributeTable) (ds : List Definition)
    (cs : List Class) : Prop where
  definitions : cs.map Class.definition = ds
  read : ∀ c ∈ cs, c.IsRead markers table

section

variable {files : Files} {markers : Markers} {table : AttributeTable}

theorem definition_of_readClass {aliases : Alias.Table} {vars : List String} {d : Definition}
    {c : Class} (h : readClass markers table aliases vars d = .ok c) : c.definition = d := by
  obtain ⟨decorators, -, h⟩ := bind_eq_ok.mp h
  obtain ⟨doc, -, h⟩ := bind_eq_ok.mp h
  obtain ⟨blocks, -, h⟩ := bind_eq_ok.mp h
  rw [← pure_eq_ok.mp h]

theorem isRead_of_readClass {aliases : Alias.Table} {vars : List String} {d : Definition}
    {c : Class} (h : readClass markers table aliases vars d = .ok c) : c.IsRead markers table :=
  ⟨aliases, vars, by rw [definition_of_readClass h, h]⟩

theorem read_of_isRead {c : Class} (h : c.IsRead markers table) :
    Decorators.read table c.definition = .ok c.decorators := by
  obtain ⟨aliases, vars, h⟩ := h
  obtain ⟨decorators, hread, h⟩ := bind_eq_ok.mp h
  obtain ⟨doc, -, h⟩ := bind_eq_ok.mp h
  obtain ⟨blocks, -, h⟩ := bind_eq_ok.mp h
  rw [← pure_eq_ok.mp h]
  exact hread

theorem AreRead.nil : AreRead markers table [] [] :=
  ⟨rfl, fun _ hc => absurd hc List.not_mem_nil⟩

theorem AreRead.append {ds es : List Definition} {cs bs : List Class}
    (hc : AreRead markers table ds cs) (hb : AreRead markers table es bs) :
    AreRead markers table (ds ++ es) (cs ++ bs) := by
  constructor
  · rw [List.map_append, hc.definitions, hb.definitions]
  · exact fun c hmem => (List.mem_append.mp hmem).elim (hc.read c) (hb.read c)

theorem areRead_of_mapM {aliases : Alias.Table} {vars : List String} {ds : List Definition}
    {cs : List Class} (h : ds.mapM (readClass markers table aliases vars) = .ok cs) :
    AreRead markers table ds cs := by
  induction ds generalizing cs with
  | nil =>
    rw [← pure_eq_ok.mp h]
    exact AreRead.nil
  | cons d ds ih =>
    obtain ⟨c, bs, hc, hbs, rfl⟩ := mapM_cons_eq_ok.mp h
    have hone : AreRead markers table [d] [c] := by
      refine ⟨congrArg (· :: []) (definition_of_readClass hc), fun b hb => ?_⟩
      rw [List.mem_singleton.mp hb]
      exact isRead_of_readClass hc
    exact hone.append (ih hbs)

theorem areRead_of_fileClasses {r : Registry} {file : String} {cs : List Class}
    (h : fileClasses files markers table r file = .ok cs) :
    AreRead markers table (((modelModule? files file).map classes).getD []) cs := by
  rw [fileClasses] at h
  cases hmodule : modelModule? files file with
  | none =>
    rw [hmodule] at h
    rw [← pure_eq_ok.mp h]
    exact AreRead.nil
  | some module =>
    rw [hmodule] at h
    exact areRead_of_mapM h

theorem areRead_of_mapM_fileClasses {r : Registry} {sources : List String}
    {css : List (List Class)} (h : sources.mapM (fileClasses files markers table r) = .ok css) :
    AreRead markers table (modelClasses files sources) css.flatten := by
  induction sources generalizing css with
  | nil =>
    rw [← pure_eq_ok.mp h]
    exact AreRead.nil
  | cons file rest ih =>
    obtain ⟨cs, bss, hcs, hbss, rfl⟩ := mapM_cons_eq_ok.mp h
    exact (areRead_of_fileClasses hcs).append (ih hbss)

theorem areRead_of_treeClasses {root : String} {r : Registry} {cs : List Class}
    (h : treeClasses files markers root r = .ok cs) :
    ∃ table, AreRead markers table (modelClasses files (files.pythonFiles root)) cs ∧
      (files.pythonFiles root ≠ [] → attributes files root = .ok table) := by
  rw [treeClasses] at h
  split at h
  · next hnone =>
    rw [hnone, ← pure_eq_ok.mp h]
    exact ⟨[], AreRead.nil, fun hne => absurd rfl hne⟩
  · obtain ⟨table, htable, h⟩ := bind_eq_ok.mp h
    obtain ⟨css, hcss, h⟩ := bind_eq_ok.mp h
    rw [← pure_eq_ok.mp h]
    exact ⟨table, areRead_of_mapM_fileClasses hcss, fun _ => htable⟩

/-! ## A scan reads them -/

theorem addModule_reads {s t : Scan} {aliases : Alias.Table} {module : Module}
    (h : s.addModule markers table aliases module = .ok t) :
    ∃ cs, (classes module).mapM (readClass markers table aliases (typeVars module)) = .ok cs ∧
      t = cs.foldl Scan.add s := by
  rw [Scan.addModule] at h
  generalize classes module = ds at h ⊢
  induction ds generalizing s with
  | nil => exact ⟨[], rfl, (pure_eq_ok.mp h).symm⟩
  | cons d ds ih =>
    rw [List.foldlM_cons] at h
    obtain ⟨u, hu, hrest⟩ := bind_eq_ok.mp h
    obtain ⟨c, hc, hadd⟩ := bind_eq_ok.mp hu
    obtain ⟨cs, hcs, ht⟩ := ih hrest
    refine ⟨c :: cs, mapM_cons_eq_ok.mpr ⟨c, cs, hc, hcs, rfl⟩, ?_⟩
    rw [ht, List.foldl_cons, ← pure_eq_ok.mp hadd]

/-- The tables that one registry holds are in the other as well. -/
def Grows (r r' : Registry) : Prop :=
  ∀ file table, r.table? file = some table → r'.table? file = some table

theorem Grows.refl (r : Registry) : Grows r r := fun _ _ h => h

theorem Grows.trans {r m r' : Registry} (h : Grows r m) (h' : Grows m r') : Grows r r' :=
  fun file table hr => h' file table (h file table hr)

/-- Reading a file gives the same classes with every registry that comes after it. -/
theorem addFile_reads {s t : Scan} {file : String} {r r' : Registry}
    (h : Returns (s.addFile files markers table file) r t r') :
    Grows r r' ∧ ∃ cs, t = cs.foldl Scan.add s ∧
      ∀ m, Grows r' m → fileClasses files markers table m file = .ok cs := by
  rw [Scan.addFile] at h
  simp only [fileClasses, modelModule?]
  by_cases hname : Text.hasPrefix (Path.baseName file) "_" = true
  · rw [if_pos hname] at h ⊢
    obtain ⟨rfl, rfl⟩ := returns_pure.mp h
    exact ⟨Grows.refl r, [], rfl, fun _ _ => rfl⟩
  · rw [if_neg hname] at h ⊢
    cases hparse : (files.read? file).bind parse with
    | none =>
      rw [hparse] at h
      obtain ⟨rfl, rfl⟩ := returns_pure.mp h
      exact ⟨Grows.refl r, [], rfl, fun _ _ => rfl⟩
    | some module =>
      rw [hparse] at h
      obtain ⟨aliases, m, hregister, hmodule⟩ := returns_bind.mp h
      obtain ⟨hadd, rfl⟩ := returns_ofExcept.mp hmodule
      obtain ⟨result, r₂, trace, hrun, hruns⟩ := performs_register files file module r
      rw [hregister] at hrun
      cases hrun
      obtain ⟨cs, hcs, ht⟩ := addModule_reads hadd
      refine ⟨fun _ _ hx => hruns.keeps hx, cs, ht, fun later hlater => ?_⟩
      dsimp only
      rw [hlater file aliases hruns.table?_of_ok]
      exact hcs

theorem addFiles_reads {s t : Scan} {sources : List String} {r r' : Registry}
    (h : Returns (sources.foldlM (Scan.addFile files markers table) s) r t r') :
    Grows r r' ∧ ∃ css, t = css.flatten.foldl Scan.add s ∧
      ∀ m, Grows r' m → sources.mapM (fileClasses files markers table m) = .ok css := by
  induction sources generalizing s r with
  | nil =>
    obtain ⟨rfl, rfl⟩ := returns_pure.mp h
    exact ⟨Grows.refl r, [], rfl, fun _ _ => rfl⟩
  | cons file rest ih =>
    rw [List.foldlM_cons] at h
    obtain ⟨u, m, hfile, hrest⟩ := returns_bind.mp h
    obtain ⟨hgrows, cs, hu, hcs⟩ := addFile_reads hfile
    obtain ⟨hlater, css, ht, hcss⟩ := ih hrest
    refine ⟨hgrows.trans hlater, cs :: css, ?_, fun last hlast => ?_⟩
    · rw [ht, hu, List.flatten_cons, List.foldl_append]
    · exact mapM_cons_eq_ok.mpr
        ⟨cs, css, hcs last (hlater.trans hlast), hcss last hlast, rfl⟩

/-- A scan that returns has added the classes of the tree, and then the type aliases. -/
theorem scan_reads {root : String} {r r' : Registry} {s : Scan}
    (h : Returns (scan files markers root) r s r') :
    ∃ cs, treeClasses files markers root r' = .ok cs ∧
      s = (treeRecords files root r').foldl (Scan.addAlias r' root)
        (cs.foldl Scan.add Scan.empty) := by
  rw [treeClasses, treeRecords]
  rw [scan] at h
  cases hsources : files.pythonFiles root with
  | nil =>
    rw [hsources] at h
    exact ⟨[], rfl, (returns_pure.mp h).1.symm⟩
  | cons file rest =>
    rw [hsources] at h
    obtain ⟨table, m, htable, h⟩ := returns_bind.mp h
    obtain ⟨t, m', hfiles, h⟩ := returns_bind.mp h
    obtain ⟨registry, m'', hget, h⟩ := returns_bind.mp h
    obtain ⟨hs, rfl⟩ := returns_pure.mp h
    obtain ⟨rfl, rfl⟩ := returns_get.mp hget
    obtain ⟨-, css, ht, hcss⟩ := addFiles_reads hfiles
    refine ⟨css.flatten, ?_, ?_⟩
    · refine bind_eq_ok.mpr ⟨table, (returns_ofExcept.mp htable).1, ?_⟩
      exact bind_eq_ok.mpr ⟨css, hcss _ (Grows.refl _), rfl⟩
    · rw [if_neg (List.cons_ne_nil file rest), ← hs, ← ht]

end

end Model
end ApiSync
