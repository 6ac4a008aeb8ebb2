import ApiSync.Proofs.Files.Walk
import ApiSync.Proofs.Model.Components
/-!
# Components in the order of the source files

The source files of a root are listed by their paths, and a scan reads them as they are listed.  Of
all files with a component of one name, the one with the greatest path decides on its schema.
-/

namespace ApiSync

namespace Model

open Python Alias Alias.Loading

/-! ## The last class of a name -/

section

variable {name : String}

theorem componentClass?_append (cs bs : List Class) :
    componentClass? name (cs ++ bs) = (componentClass? name bs).or (componentClass? name cs) := by
  rw [componentClass?, List.reverse_append, List.find?_append]
  rfl

variable {α : Type} {read : α → Except Failure (List Class)} {files : List α}
  {css : List (List Class)}

/-- A class that is read from one of the files is among those of all files. -/
theorem exists_componentClass?_flatten (hread : files.mapM read = .ok css) {file : α}
    (hfile : file ∈ files) {cs : List Class} {c : Class} (hcs : read file = .ok cs)
    (hc : componentClass? name cs = some c) : ∃ d, componentClass? name css.flatten = some d := by
  obtain ⟨front, back, rfl⟩ := List.append_of_mem hfile
  obtain ⟨before, others, -, hothers, rfl⟩ := mapM_append_eq_ok.mp hread
  obtain ⟨own, behind, hown, -, rfl⟩ := mapM_cons_eq_ok.mp hothers
  obtain rfl : own = cs := Except.ok.inj (hown.symm.trans hcs)
  refine exists_componentClass? (c := c) ?_ (generates_of_componentClass? hc)
  rw [List.flatten_append, List.flatten_cons]
  exact List.mem_append_right _ (List.mem_append_left _ (mem_of_componentClass? hc))

/-- With the files in ascending order, the last class of a name is that of the greatest file in
which there is one. -/
theorem exists_last_of_mapM {before : α → α → Prop} (hfiles : files.Pairwise before)
    (hread : files.mapM read = .ok css) {c : Class}
    (hc : componentClass? name css.flatten = some c) :
    ∃ file ∈ files, ∃ cs, read file = .ok cs ∧ componentClass? name cs = some c ∧
      ∀ other ∈ files, ∀ bs d, read other = .ok bs → componentClass? name bs = some d →
        other = file ∨ before other file := by
  induction files using List.reverseRecOn generalizing css with
  | nil =>
    rw [← pure_eq_ok.mp hread] at hc
    cases hc
  | append_singleton files file ih =>
    obtain ⟨hfront, -, hlast⟩ := List.pairwise_append.mp hfiles
    obtain ⟨front, back, hreadFront, hback, rfl⟩ := mapM_append_eq_ok.mp hread
    obtain ⟨cs, rest, hcs, hrest, rfl⟩ := mapM_cons_eq_ok.mp hback
    obtain rfl : [] = rest := pure_eq_ok.mp hrest
    rw [List.flatten_append, List.flatten_singleton, componentClass?_append,
      Option.or_eq_some_iff] at hc
    rcases hc with hc | ⟨hnone, hc⟩
    · refine ⟨file, List.mem_concat_self, cs, hcs, hc, fun other hother _ _ _ _ => ?_⟩
      rcases List.mem_append.mp hother with hother | hother
      · exact Or.inr (hlast other hother file (List.mem_singleton_self file))
      · exact Or.inl (List.mem_singleton.mp hother)
    · obtain ⟨own, hown, bs, hbs, hdefined, hgreatest⟩ := ih hfront hreadFront hc
      refine ⟨own, List.mem_append_left _ hown, bs, hbs, hdefined,
        fun other hother es d hes hd => ?_⟩
      rcases List.mem_append.mp hother with hother | hother
      · exact hgreatest other hother es d hes hd
      · -- the last file has no class of the name
        obtain rfl := List.mem_singleton.mp hother
        rw [← Except.ok.inj (hcs.symm.trans hes), hnone] at hd
        cases hd

end

/-! ## The file that decides -/

section

variable {files : Files} {markers : Markers} {root : String} {r r' : Registry} {s : Scan}

/-- The source file at the path makes a component of the name, and among its own classes `c` is the
last one that does. -/
structure Defines (files : Files) (markers : Markers) (root : String) (r : Registry)
    (name : String) (path : List String) (c : Class) : Prop where
  isSource : files.IsSource root path
  read : ∃ table cs, attributes files root = .ok table ∧
    fileClasses files markers table r (Files.inside root path) = .ok cs ∧
    componentClass? name cs = some c

/-- No source file with a greater path makes a component of the name. -/
structure DefinesLast (files : Files) (markers : Markers) (root : String) (r : Registry)
    (name : String) (path : List String) (c : Class) : Prop where
  defines : Defines files markers root r name path c
  greatest : ∀ other d, Defines files markers root r name other d →
    other = path ∨ Path.nameUnits other < Path.nameUnits path

/-- The classes of a tree are read from file to file. -/
theorem mapM_of_treeClasses {cs : List Class} (h : treeClasses files markers root r = .ok cs)
    (hsources : files.pythonFiles root ≠ []) {table : AttributeTable}
    (htable : attributes files root = .ok table) :
    ∃ css, (files.pythonFiles root).mapM (fileClasses files markers table r) = .ok css ∧
      css.flatten = cs := by
  rw [treeClasses] at h
  split at h
  · next hnone => exact absurd hnone hsources
  · obtain ⟨own, hown, h⟩ := bind_eq_ok.mp h
    obtain rfl : own = table := Except.ok.inj (hown.symm.trans htable)
    obtain ⟨css, hcss, hflat⟩ := bind_eq_ok.mp h
    exact ⟨css, hcss, pure_eq_ok.mp hflat⟩

/-- Of the files that make a component of one name, one has the greatest path, and a scan takes the
component from there. -/
theorem exists_definesLast {paths : List (List String)} (hlists : files.Lists root paths)
    (h : Returns (scan files markers root) r s r') {name : String} {path : List String} {c : Class}
    (hc : Defines files markers root r' name path c) :
    ∃ last d, DefinesLast files markers root r' name last d ∧
      Fields.get? s.components name = some (.map d.schema) := by
  obtain ⟨hsource, table, cs, htable, hcs, hclass⟩ := hc
  have hpath : path ∈ paths := (hlists.isSource path).mpr hsource
  have hsources : files.pythonFiles root ≠ [] := by
    rw [hlists.listed]
    exact List.ne_nil_of_mem (List.mem_map_of_mem hpath)
  obtain ⟨all, hall, hmade⟩ := madeFrom_of_scan h
  obtain ⟨css, hcss, rfl⟩ := mapM_of_treeClasses hall hsources htable
  rw [hlists.listed, List.mapM_map, Function.comp_def] at hcss
  obtain ⟨d, hd⟩ := exists_componentClass?_flatten hcss hpath hcs hclass
  obtain ⟨last, hlast, bs, hbs, hdlast, hgreatest⟩ :=
    exists_last_of_mapM hlists.ascending hcss hd
  have hdefines : Defines files markers root r' name last d :=
    ⟨(hlists.isSource last).mp hlast, table, bs, htable, hbs, hdlast⟩
  refine ⟨last, d, ⟨hdefines, fun other e hother => ?_⟩, hmade name d hd⟩
  obtain ⟨hotherSource, own, es, hown, hes, he⟩ := hother
  obtain rfl : own = table := Except.ok.inj (hown.symm.trans htable)
  exact hgreatest other ((hlists.isSource other).mpr hotherSource) es e hes he

end

/-- The source files of a root are the files below it whose names end in `.py`, each of them once,
in the strictly ascending order of their paths; there are none if the root is no directory.  So the
file with the greatest path among those that make a component of a name decides on its schema. -/
theorem sources_in_order_of_paths {files : Files} (h : Node.Proper files) (root : String) :
    (∃ paths, files.Lists root paths) ∧ (files.pythonFiles root).Nodup ∧
      (files.isDir root = false → files.pythonFiles root = []) ∧
      ∀ markers r s r', Returns (scan files markers root) r s r' →
        ∀ name path c, Defines files markers root r' name path c →
          ∃ last d, DefinesLast files markers root r' name last d ∧
            Fields.get? s.components name = some (.map d.schema) := by
  obtain ⟨paths, hlists⟩ := Files.exists_lists h root
  exact ⟨⟨paths, hlists⟩, hlists.nodup h, Files.pythonFiles_of_not_isDir,
    fun _ _ _ _ hscan _ _ _ hc => exists_definesLast hlists hscan hc⟩

/-! ## A component in two files -/

section Example

def memberSource : String :=
"@openapi.component
class User:
    pass
"

/-- The entries do not stand in the order of their names. -/
def memberTree : Files :=
  .dir [("models", .dir [("user.py", .file memberSource), ("notes.txt", .file ""),
    ("user", .dir [("base.py", .file memberSource)])])]

theorem proper_memberTree : Node.Proper memberTree := by
  have hbase : Node.Proper (.dir [("base.py", .file memberSource)]) :=
    .dir (List.forall_mem_singleton.mpr ⟨by decide, by decide, by decide, by decide⟩)
      (show ["base.py"].Nodup by decide) (List.forall_mem_singleton.mpr (.file memberSource))
  have hmodels : Node.Proper (.dir [("user.py", .file memberSource), ("notes.txt", .file ""),
      ("user", .dir [("base.py", .file memberSource)])]) := by
    refine .dir ?_ (show ["user.py", "notes.txt", "user"].Nodup by decide) ?_
    · simp only [List.forall_mem_cons]
      exact ⟨⟨by decide, by decide, by decide, by decide⟩,
        ⟨by decide, by decide, by decide, by decide⟩,
        ⟨by decide, by decide, by decide, by decide⟩, List.forall_mem_nil _⟩
    · simp only [List.forall_mem_cons]
      exact ⟨.file memberSource, .file "", hbase, List.forall_mem_nil _⟩
  exact .dir (List.forall_mem_singleton.mpr ⟨by decide, by decide, by decide, by decide⟩)
    (show ["models"].Nodup by decide) (List.forall_mem_singleton.mpr hmodels)

theorem pythonFiles_memberTree :
    memberTree.pythonFiles "/models" = ["/models/user/base.py", "/models/user.py"] := by
  have hnames : Path.names "/models" = ["models"] := by decide +kernel
  have hbelow : memberTree.below "/models" = .dir [("user.py", .file memberSource),
      ("notes.txt", .file ""), ("user", .dir [("base.py", .file memberSource)])] := by
    rw [Files.below, Files.at?, hnames]
    rfl
  have hbase : Node.walk (.dir [("base.py", .file memberSource)]) = [["base.py"]] :=
    Node.walk_alone ["base.py"] memberSource
  have hwalk : (memberTree.below "/models").walk =
      [["notes.txt"], ["user", "base.py"], ["user.py"]] := by
    have hperm : [("user.py", Node.file memberSource), ("notes.txt", .file ""),
        ("user", .dir [("base.py", .file memberSource)])].Perm [("notes.txt", .file ""),
        ("user", .dir [("base.py", .file memberSource)]), ("user.py", .file memberSource)] :=
      (List.Perm.swap _ _ _).trans ((List.Perm.swap _ _ _).cons _)
    rw [hbelow, Node.walk_perm hperm (by decide), Node.walk_of_sorted]
    · rw [List.flatMap_cons, List.flatMap_cons, hbase]
      rfl
    · simp only [List.pairwise_cons, List.forall_mem_cons]
      exact ⟨⟨by decide, by decide, List.forall_mem_nil _⟩, ⟨by decide, List.forall_mem_nil _⟩,
        List.forall_mem_nil _, .nil⟩
  rw [Files.pythonFiles_eq, hwalk]
  decide +kernel

theorem isSource_memberTree_iff {path : List String} : memberTree.IsSource "/models" path ↔
    path = ["user", "base.py"] ∨ path = ["user.py"] := by
  have hnames : Path.names "/models" = ["models"] ∧
      Path.names "/models/user/base.py" = ["models", "user", "base.py"] ∧
      Path.names "/models/user.py" = ["models", "user.py"] := by decide +kernel
  constructor
  · intro hsource
    have hinside := Files.names_inside proper_memberTree (Node.textAt_isSome.mpr hsource.isFile)
    obtain ⟨paths, hlists⟩ := Files.exists_lists proper_memberTree "/models"
    have hmem : Files.inside "/models" path ∈ memberTree.pythonFiles "/models" := by
      rw [hlists.listed]
      exact List.mem_map_of_mem ((hlists.isSource path).mpr hsource)
    rw [pythonFiles_memberTree, List.mem_pair] at hmem
    rcases hmem with heq | heq
    · rw [heq, hnames.1, hnames.2.1] at hinside
      exact Or.inl (List.cons.inj hinside).2.symm
    · rw [heq, hnames.1, hnames.2.2] at hinside
      exact Or.inr (List.cons.inj hinside).2.symm
  · rintro (rfl | rfl)
    · exact ⟨⟨memberSource, by rw [hnames.1]; rfl⟩, ["user"], "base", rfl⟩
    · exact ⟨⟨memberSource, by rw [hnames.1]; rfl⟩, [], "user", rfl⟩

/-- Whether the component is read from the file with the registry. -/
def readsMember (r : Registry) (path : List String) : Bool :=
  (attributes memberTree "/models").toOption.any fun table =>
    (fileClasses memberTree Markers.default table r
      (Files.inside "/models" path)).toOption.any fun cs => (componentClass? "User" cs).isSome

theorem exists_defines_of_readsMember {r : Registry} {path : List String}
    (h : readsMember r path = true) (hsource : memberTree.IsSource "/models" path) :
    ∃ c, Defines memberTree Markers.default "/models" r "User" path c := by
  rw [readsMember] at h
  cases htable : attributes memberTree "/models" with
  | error f =>
    rw [htable] at h
    cases h
  | ok table =>
    rw [htable, Except.toOption, Option.any_some] at h
    cases hcs : fileClasses memberTree Markers.default table r (Files.inside "/models" path) with
    | error f =>
      rw [hcs] at h
      cases h
    | ok cs =>
      rw [hcs, Except.toOption, Option.any_some] at h
      obtain ⟨c, hc⟩ := Option.isSome_iff_exists.mp h
      exact ⟨c, hsource, table, cs, htable, hcs, hc⟩

theorem sources_in_order_of_paths_member :
    Node.Proper memberTree ∧
      memberTree.pythonFiles "/models" = ["/models/user/base.py", "/models/user.py"] ∧
      (memberTree.pythonFiles "/models").Nodup ∧ ∃ s r' c,
        Returns (scan memberTree Markers.default "/models") (Registry.empty "/") s r' ∧
        (∃ d, Defines memberTree Markers.default "/models" r' "User" ["user", "base.py"] d) ∧
        DefinesLast memberTree Markers.default "/models" r' "User" ["user.py"] c ∧
        Fields.get? s.components "User" = some (.map c.schema) := by
  have hreads : ((modelsOf memberTree).1.toOption.isSome &&
      readsMember (modelsOf memberTree).2 ["user", "base.py"] &&
      readsMember (modelsOf memberTree).2 ["user.py"]) = true := by
    rw [modelsOf, scan, pythonFiles_memberTree]
    decide +kernel
  rw [Bool.and_eq_true, Bool.and_eq_true] at hreads
  obtain ⟨⟨hreturns, hbase⟩, huser⟩ := hreads
  obtain ⟨s, hs⟩ := Option.isSome_iff_exists.mp hreturns
  have hrun := returns_of_modelsOf hs
  obtain ⟨d, hd⟩ := exists_defines_of_readsMember hbase (isSource_memberTree_iff.mpr (.inl rfl))
  obtain ⟨c, hc⟩ := exists_defines_of_readsMember huser (isSource_memberTree_iff.mpr (.inr rfl))
  obtain ⟨-, hnodup, -, hlast⟩ := sources_in_order_of_paths proper_memberTree "/models"
  obtain ⟨last, e, he, hget⟩ := hlast _ _ s _ hrun "User" _ _ hc
  have hpath : last = ["user.py"] := by
    rcases isSource_memberTree_iff.mp he.defines.isSource with rfl | rfl
    · rcases he.greatest _ _ hc with heq | hlt
      · exact heq.symm
      · exact absurd hlt (by decide)
    · rfl
  exact ⟨proper_memberTree, pythonFiles_memberTree, hnodup, s, _, e, hrun, ⟨d, hd⟩,
    hpath ▸ he, hget⟩

end Example

end Model
end ApiSync
