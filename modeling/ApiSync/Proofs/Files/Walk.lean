import Mathlib.Data.List.Lex
import Mathlib.Data.List.Nodup
import ApiSync.Proofs.Files
import ApiSync.Proofs.Path
import ApiSync.Proofs.Text.Order
/-!
# A walk is determined by the files of the tree

In a proper tree no directory has two entries of one name.  Its walk lists each file once, in the
order of the names from the top, so two trees with the same files have the same walk, and it
stays the same away from the files in which they differ.

A walk sorts each directory by itself and goes into a directory where its name stands among those of
the files.  Taken over the whole tree, the paths ascend name by name and, within a name, unit by
unit: the files of `a` come before `a.py`, though the point comes before the slash.
-/

namespace ApiSync

/-- A path as it is compared: the units of each of its names. -/
def Path.nameUnits (path : List String) : List (List Nat) :=
  path.map fun name => Text.units name.toList

namespace Node

/-- A tree as a file system holds it: each directory has entries of different names, and a path
can lead through each of them. -/
inductive Proper : Node → Prop
  | file (text : String) : Proper (.file text)
  | dir {entries : List (String × Node)} (isName : ∀ e ∈ entries, Path.IsName e.1)
      (distinct : (entries.map Prod.fst).Nodup) (children : ∀ e ∈ entries, Proper e.2) :
      Proper (.dir entries)

variable {tree : Node} {entries : List (String × Node)} {path : List String}

theorem proper_empty : Proper empty :=
  .dir (fun _ h => absurd h List.not_mem_nil) List.nodup_nil fun _ h => absurd h List.not_mem_nil

theorem Proper.child {name : String} {node : Node} (h : Proper (.dir entries))
    (hchild : child? entries name = some node) : Path.IsName name ∧ Proper node := by
  cases h with
  | dir isName _ children =>
    exact ⟨isName _ (mem_of_child? hchild), children _ (mem_of_child? hchild)⟩

theorem Proper.find {node : Node} (h : Proper tree) (hfind : tree.find? path = some node) :
    (∀ n ∈ path, Path.IsName n) ∧ Proper node := by
  induction path generalizing tree with
  | nil =>
    obtain rfl : tree = node := Option.some.inj hfind
    exact ⟨fun _ hn => absurd hn List.not_mem_nil, h⟩
  | cons name path ih =>
    cases tree with
    | file text => cases hfind
    | dir entries =>
      obtain ⟨child, hchild, hrest⟩ := Option.bind_eq_some_iff.mp hfind
      obtain ⟨hname, hproper⟩ := h.child hchild
      obtain ⟨hnames, hnode⟩ := ih hproper hrest
      exact ⟨List.forall_mem_cons.mpr ⟨hname, hnames⟩, hnode⟩

/-! ## What a write keeps -/

/-! ## The files that a walk comes to -/

theorem child?_of_mem (h : (entries.map Prod.fst).Nodup) {e : String × Node}
    (he : e ∈ entries) : child? entries e.1 = some e.2 := by
  induction entries with
  | nil => cases he
  | cons d entries ih =>
    obtain ⟨hfresh, hrest⟩ := List.nodup_cons.mp h
    rw [child?_cons]
    obtain rfl | he := List.mem_cons.mp he
    · exact if_pos rfl
    · have hne : d.1 ≠ e.1 := fun heq => hfresh (heq ▸ List.mem_map_of_mem he)
      rw [if_neg hne, ih hrest he]

theorem textAt_isSome :
    (textAt tree path).isSome ↔ ∃ text, tree.find? path = some (.file text) := by
  rw [textAt]
  split
  · next text hfile => exact iff_of_true rfl ⟨text, hfile⟩
  · next hno =>
    refine iff_of_false Bool.false_ne_true ?_
    rintro ⟨text, hfile⟩
    exact hno text hfile

theorem mem_walk_iff (h : Proper tree) : path ∈ tree.walk ↔ (textAt tree path).isSome := by
  refine ⟨fun hmem => ?_, fun hsome => ?_⟩
  · induction h generalizing path with
    | file text =>
      obtain rfl : path = [] := List.mem_singleton.mp hmem
      rfl
    | @dir entries _ distinct children ih =>
      rw [walk, walkEntries_eq, List.mem_flatMap] at hmem
      obtain ⟨pair, hpair, hpath⟩ := hmem
      obtain ⟨e, he, rfl⟩ := List.mem_map.mp (List.mem_mergeSort.mp hpair)
      obtain ⟨rest, hrest, rfl⟩ := List.mem_map.mp hpath
      rw [textAt_dir_cons, child?_of_mem distinct he]
      exact ih e he hrest
  · obtain ⟨text, hfile⟩ := textAt_isSome.mp hsome
    exact mem_walk_of_find? hfile

/-! ## The order of a walk -/

/-- The order of a walk: the first names in which two paths differ decide. -/
def Before : List String → List String → Prop :=
  List.Lex fun a b => Text.nameLe a b = true ∧ a ≠ b

instance : Std.Asymm fun a b : String => Text.nameLe a b = true ∧ a ≠ b :=
  ⟨fun _ _ hab hba => hab.2 (Text.nameLe_antisymm hab.1 hba.1)⟩

theorem Before.asymm {a b : List String} (hab : Before a b) (hba : Before b a) : False :=
  Std.Asymm.asymm (r := List.Lex fun a b => Text.nameLe a b = true ∧ a ≠ b) a b hab hba

theorem Before.nameUnits_lt {p q : List String} (h : Before p q) :
    Path.nameUnits p < Path.nameUnits q := by
  induction h with
  | nil => exact List.Lex.nil
  | cons _ ih => exact List.Lex.cons ih
  | rel hnames =>
    refine List.Lex.rel (Text.lt_of_unitsLe hnames.1 fun hunits => hnames.2 ?_)
    exact String.toList_inj.mp (Text.units_inj hunits)

theorem pairwise_sorted {α : Type} (es : List (String × α)) :
    (es.mergeSort byName).Pairwise fun a b => byName a b = true :=
  @List.pairwise_mergeSort _ byName (fun _ _ _ => Text.nameLe_trans)
    (fun _ _ => Text.unitsLe_total _ _) es

theorem map_fst_walkEntries (entries : List (String × Node)) :
    (walkEntries entries).map Prod.fst = entries.map Prod.fst := by
  rw [walkEntries_eq, List.map_map]
  rfl

theorem pairwise_walk (h : Proper tree) : tree.walk.Pairwise Before := by
  induction h with
  | file text => exact List.pairwise_singleton _ _
  | @dir entries isName distinct children ih =>
    have hsorted := pairwise_sorted (walkEntries entries)
    have hdistinct : ((walkEntries entries).mergeSort byName).Pairwise fun a b => a.1 ≠ b.1 := by
      have hnames : (((walkEntries entries).mergeSort byName).map Prod.fst).Nodup := by
        rw [((List.mergeSort_perm _ _).map Prod.fst).nodup_iff, map_fst_walkEntries]
        exact distinct
      exact List.pairwise_map.mp hnames
    rw [walk, List.pairwise_flatMap]
    constructor
    · intro pair hpair
      rw [walkEntries_eq] at hpair
      obtain ⟨e, he, rfl⟩ := List.mem_map.mp (List.mem_mergeSort.mp hpair)
      exact List.pairwise_map.mpr ((ih e he).imp List.Lex.cons)
    · refine (hsorted.and hdistinct).imp fun hnames p hp q hq => ?_
      obtain ⟨front, -, rfl⟩ := List.mem_map.mp hp
      obtain ⟨back, -, rfl⟩ := List.mem_map.mp hq
      exact List.Lex.rel hnames

/-- The order in which a directory holds its entries makes no difference. -/
theorem walk_perm {entries' : List (String × Node)} (h : entries.Perm entries')
    (hdistinct : (entries.map Prod.fst).Nodup) : walk (.dir entries) = walk (.dir entries') := by
  have hwalks : (walkEntries entries).Perm (walkEntries entries') := by
    rw [walkEntries_eq, walkEntries_eq]
    exact h.map _
  have hnames : ((walkEntries entries).map Prod.fst).Nodup := by
    rw [map_fst_walkEntries]
    exact hdistinct
  have hperm := (List.mergeSort_perm _ byName).trans
    (hwalks.trans (List.mergeSort_perm _ byName).symm)
  rw [walk, walk, hperm.eq_of_pairwise (fun a b ha hb hab hba => ?_) (pairwise_sorted _)
    (pairwise_sorted _)]
  have hin : ∀ e ∈ (walkEntries entries').mergeSort byName, e ∈ walkEntries entries :=
    fun e he => hwalks.mem_iff.mpr (List.mem_mergeSort.mp he)
  exact List.inj_on_of_nodup_map hnames (List.mem_mergeSort.mp ha) (hin b hb)
    (Text.nameLe_antisymm hab hba)

theorem walk_of_sorted (h : entries.Pairwise fun a b => Text.nameLe a.1 b.1 = true) :
    walk (.dir entries) = entries.flatMap fun e => e.2.walk.map (e.1 :: ·) := by
  have hsorted : (walkEntries entries).Pairwise fun a b => byName a b = true := by
    rw [walkEntries_eq]
    exact List.pairwise_map.mpr h
  rw [walk, List.mergeSort_of_pairwise hsorted, walkEntries_eq, List.flatMap_map]

/-- Walks of trees with the same files of one kind agree on that kind. -/
theorem filter_walk_congr {other : Node} (h : Proper tree) (h' : Proper other)
    {kind : List String → Bool}
    (hsame : ∀ p, kind p = true → (textAt tree p).isSome = (textAt other p).isSome) :
    tree.walk.filter kind = other.walk.filter kind := by
  have hl := (pairwise_walk h).filter kind
  have hr := (pairwise_walk h').filter kind
  have hnodup {ps : List (List String)} (hps : ps.Pairwise Before) : ps.Nodup :=
    hps.imp fun hab heq => (heq ▸ hab).asymm (heq ▸ hab)
  refine List.Perm.eq_of_pairwise (fun _ _ _ _ hab hba => (hab.asymm hba).elim) hl hr ?_
  refine (List.perm_ext_iff_of_nodup (hnodup hl) (hnodup hr)).mpr fun p => ?_
  rw [List.mem_filter, List.mem_filter, mem_walk_iff h, mem_walk_iff h']
  exact and_congr_left fun hkind => by rw [hsame p hkind]

theorem isPythonFile_iff : isPythonFile path = true ↔
    ∃ above stem, path = above ++ [stem ++ ".py"] := by
  rw [isPythonFile, Option.any_eq_true]
  constructor
  · rintro ⟨name, hlast, hname⟩
    obtain ⟨above, rfl⟩ := List.getLast?_eq_some_iff.mp hlast
    obtain ⟨stem, rfl⟩ := Text.hasSuffix_iff.mp hname
    exact ⟨above, stem, rfl⟩
  · rintro ⟨above, stem, rfl⟩
    exact ⟨_, List.getLast?_concat, Text.hasSuffix_iff.mpr ⟨stem, rfl⟩⟩

/-! ## A tree of one file -/

/-- The tree with a single file. -/
def alone (path : List String) (text : String) : Node := put (.file text) path empty

theorem alone_cons (name : String) (path : List String) (text : String) :
    alone (name :: path) text = .dir [(name, alone path text)] := rfl

theorem find?_alone (front back : List String) (text : String) :
    (alone (front ++ back) text).find? front = some (alone back text) := by
  induction front with
  | nil => rfl
  | cons name front ih =>
    rw [List.cons_append, alone_cons, find?, child?_cons, if_pos rfl]
    exact ih

theorem walk_empty : empty.walk = [] := by
  rw [empty, walk, walkEntries, List.mergeSort_nil, List.flatMap_nil]

theorem walk_alone (path : List String) (text : String) : (alone path text).walk = [path] := by
  induction path with
  | nil => rfl
  | cons name path ih =>
    rw [alone_cons, walk, walkEntries_eq, List.map_singleton, List.mergeSort_singleton,
      List.flatMap_singleton, ih, List.map_singleton]

end Node

/-! ## The source files below a root -/

namespace Files

open Node

variable {files : Files} {root : String}

theorem read?_eq (files : Files) (path : String) :
    files.read? path = textAt files (Path.names path) := rfl

/-- What is at the root, with nothing in it if it is no directory of the tree. -/
def below (files : Files) (root : String) : Node := (files.at? root).getD Node.empty

/-- The path of a file below the root. -/
def inside (root : String) (path : List String) : String :=
  Path.ofNames (Path.names root ++ path)

theorem textAt_below (files : Files) (root : String) (path : List String) :
    textAt (files.below root) path = textAt files (Path.names root ++ path) := by
  rw [below, at?, textAt, textAt, find?_append]
  cases files.find? (Path.names root) with
  | none => cases path <;> rfl
  | some node => rfl

theorem proper_below (h : Proper files) : Proper (files.below root) := by
  rw [below, at?]
  cases hroot : files.find? (Path.names root) with
  | none => exact proper_empty
  | some node => exact (h.find hroot).2

theorem pythonFiles_eq (files : Files) (root : String) :
    files.pythonFiles root = ((files.below root).walk.filter isPythonFile).map (inside root) := by
  rw [pythonFiles, below]
  cases files.at? root with
  | none => rw [Option.getD_none, walk_empty]; rfl
  | some node =>
    cases node with
    | file text => rfl
    | dir entries => rfl

/-- The source files of a root are the files below it that are named so. -/
theorem mem_pythonFiles (h : Proper files) {file : String} :
    file ∈ files.pythonFiles root ↔ ∃ path, isPythonFile path = true ∧
      (textAt files (Path.names root ++ path)).isSome ∧ file = inside root path := by
  rw [pythonFiles_eq, List.mem_map]
  refine exists_congr fun path => ?_
  rw [List.mem_filter, mem_walk_iff (proper_below h), textAt_below, and_assoc, and_left_comm,
    eq_comm (a := file)]

/-- A source file has the names that lead to it. -/
theorem names_inside (h : Proper files) {path : List String}
    (hfile : (textAt files (Path.names root ++ path)).isSome) :
    Path.names (inside root path) = Path.names root ++ path := by
  obtain ⟨text, hfind⟩ := textAt_isSome.mp hfile
  exact Path.names_ofNames (h.find hfind).1

theorem isSome_read?_of_mem (h : Proper files) {file : String}
    (hfile : file ∈ files.pythonFiles root) : (files.read? file).isSome := by
  obtain ⟨path, -, hsome, rfl⟩ := (mem_pythonFiles h).mp hfile
  rw [read?_eq, names_inside h hsome]
  exact hsome

/-! ## Their order -/

/-- Below the root the path leads to a file whose name ends in `.py`. -/
structure IsSource (files : Files) (root : String) (path : List String) : Prop where
  isFile : ∃ text, files.find? (Path.names root ++ path) = some (.file text)
  named : ∃ above stem, path = above ++ [stem ++ ".py"]

/-- The source files of the root are those at the paths, and the paths ascend. -/
structure Lists (files : Files) (root : String) (paths : List (List String)) : Prop where
  listed : files.pythonFiles root = paths.map (inside root)
  isSource : ∀ path, path ∈ paths ↔ files.IsSource root path
  ascending : paths.Pairwise fun p q => Path.nameUnits p < Path.nameUnits q

theorem exists_lists (h : Proper files) (root : String) : ∃ paths, files.Lists root paths := by
  refine ⟨(files.below root).walk.filter isPythonFile, pythonFiles_eq files root, fun path => ?_,
    ?_⟩
  · rw [List.mem_filter, mem_walk_iff (proper_below h), textAt_below, textAt_isSome,
      isPythonFile_iff]
    exact ⟨fun ⟨hfile, hnamed⟩ => ⟨hfile, hnamed⟩, fun hsource => ⟨hsource.isFile, hsource.named⟩⟩
  · exact ((pairwise_walk (proper_below h)).filter isPythonFile).imp Before.nameUnits_lt

/-- No path is listed twice, and different paths are different texts. -/
theorem Lists.nodup {paths : List (List String)} (hlists : files.Lists root paths)
    (h : Proper files) : (files.pythonFiles root).Nodup := by
  have hnames : ∀ path ∈ paths, Path.names (inside root path) = Path.names root ++ path :=
    fun path hpath => names_inside h (textAt_isSome.mpr ((hlists.isSource path).mp hpath).isFile)
  rw [hlists.listed]
  refine List.pairwise_map.mpr (hlists.ascending.imp_of_mem fun {p q} hp hq hlt heq => ?_)
  have hsame : Path.names root ++ p = Path.names root ++ q := by
    rw [← hnames p hp, ← hnames q hq, heq]
  exact List.lt_irrefl _ (List.append_cancel_left hsame ▸ hlt)

/-- A root that is missing or a file has no source files. -/
theorem pythonFiles_of_not_isDir (h : files.isDir root = false) : files.pythonFiles root = [] := by
  rw [isDir] at h
  rw [pythonFiles]
  cases hroot : files.at? root with
  | none => rfl
  | some node =>
    rw [hroot] at h
    cases node with
    | file text => rfl
    | dir entries => cases h

/-! ## A change of one file -/

/-- The trees have the same files, but for the one at the path. -/
def SameBut (file : String) (files files' : Files) : Prop :=
  ∀ path, path ≠ Path.names file → textAt files path = textAt files' path

theorem SameBut.read? {file path : String} {files' : Files} (h : SameBut file files files')
    (hpath : Path.names path ≠ Path.names file) : files.read? path = files'.read? path :=
  h _ hpath

theorem sameBut_write {file : String} (h : Clear files (Path.names file)) (text : String) :
    SameBut file files (files.write file text) := fun path hpath => by
  rw [write, textAt_put h, if_neg hpath]

/-- A change of one file leaves the other source files and their order. -/
theorem pythonFiles_sameBut {file : String} {files' : Files} (h : Proper files)
    (h' : Proper files') (hsame : SameBut file files files') (root : String) :
    (files.pythonFiles root).filter (Path.names · ≠ Path.names file) =
      (files'.pythonFiles root).filter (Path.names · ≠ Path.names file) := by
  rw [pythonFiles_eq, pythonFiles_eq, List.filter_map, List.filter_map, List.filter_filter,
    List.filter_filter]
  congr 1
  refine filter_walk_congr (proper_below h) (proper_below h') fun path hkind => ?_
  rw [textAt_below, textAt_below]
  by_cases hpath : Path.names root ++ path = Path.names file
  · -- Such a path names the file itself, which the filter has taken out.
    have hname : Path.names (inside root path) = Path.names file := by
      rw [inside, hpath, Path.names_ofNames fun _ hn => Path.isName_of_mem_names hn]
    simp [hname] at hkind
  · rw [hsame _ hpath]

/-- The tree with only the file at the path, if there is one. -/
def alone (files : Files) (file : String) : Files :=
  match files.read? file with
  | some text => Node.alone (Path.names file) text
  | none => Node.empty

theorem read?_alone (files : Files) (file : String) :
    (files.alone file).read? file = files.read? file := by
  rw [read?_eq, alone]
  cases files.read? file with
  | none => exact textAt_empty _
  | some text =>
    have hfind := find?_alone (Path.names file) [] text
    rw [List.append_nil] at hfind
    rw [textAt, hfind]
    rfl

/-- Alone in its tree a source file is the only one. -/
theorem pythonFiles_alone (h : Proper files) {file : String}
    (hfile : file ∈ files.pythonFiles root) : (files.alone file).pythonFiles root = [file] := by
  have hread := isSome_read?_of_mem h hfile
  obtain ⟨path, hpython, hsome, rfl⟩ := (mem_pythonFiles h).mp hfile
  obtain ⟨text, htext⟩ := Option.isSome_iff_exists.mp hread
  have hbelow : (files.alone (inside root path)).below root = Node.alone path text := by
    rw [alone, htext, names_inside h hsome, below, at?]
    show ((Node.alone (Path.names root ++ path) text).find? (Path.names root)).getD _ = _
    rw [find?_alone]
    rfl
  rw [pythonFiles_eq, hbelow, walk_alone, List.filter_singleton, hpython]
  rfl

end Files
end ApiSync
