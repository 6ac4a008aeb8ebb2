import ApiSync.Files
import ApiSync.Proofs.Text
/-!
# Writing one file leaves the others alone

`Node.textAt` reads the file that the names lead to.  Writing a file replaces whatever stands in
its way, so a write is only harmless where no file stands above the new one and none below it.
A path that can be written is such a place, and so is one that holds a file already.
-/

namespace ApiSync

namespace Node

/-- The text of the file that the names lead to. -/
def textAt (tree : Node) (path : List String) : Option String :=
  match tree.find? path with
  | some (.file text) => some text
  | _ => none

theorem textAt_file_cons (text name : String) (rest : List String) :
    textAt (.file text) (name :: rest) = none := rfl

theorem textAt_empty (path : List String) : textAt empty path = none := by
  cases path <;> rfl

/-- Below a directory a file is found in the entry of its first name. -/
theorem textAt_dir_cons (entries : List (String × Node)) (name : String) (rest : List String) :
    textAt (.dir entries) (name :: rest) =
      textAt ((child? entries name).getD empty) rest := by
  rw [textAt, find?]
  cases child? entries name with
  | none => rw [Option.getD_none, textAt_empty]; rfl
  | some node => rfl

theorem child?_cons (e : String × Node) (entries : List (String × Node)) (name : String) :
    child? (e :: entries) name = if e.1 = name then some e.2 else child? entries name := by
  by_cases h : e.1 = name <;> simp [child?, h]

theorem child?_append_singleton (entries : List (String × Node)) (name : String) (node : Node)
    (other : String) :
    child? (entries ++ [(name, node)]) other =
      (child? entries other).or (if name = other then some node else none) := by
  induction entries with
  | nil => rw [List.nil_append, child?_cons]; rfl
  | cons e entries ih =>
    rw [List.cons_append, child?_cons, child?_cons, ih]
    by_cases h : e.1 = other
    · rw [if_pos h, if_pos h, Option.some_or]
    · rw [if_neg h, if_neg h]

theorem child?_map_replace (entries : List (String × Node)) (name : String) (node : Node)
    (other : String) :
    child? (entries.map fun e => if e.1 = name then (name, node) else e) other =
      if name = other then (child? entries other).map (fun _ => node)
      else child? entries other := by
  induction entries with
  | nil => simp [child?]
  | cons e entries ih =>
    rw [List.map_cons, child?_cons, child?_cons, ih]
    by_cases he : e.1 = name
    · by_cases ho : name = other <;> simp [he, ho]
    · by_cases ho : name = other
      · have hne : e.1 ≠ other := ho ▸ he
        simp [ho, hne]
      · simp [he, ho]

theorem any_eq_isSome_child? (entries : List (String × Node)) (name : String) :
    entries.any (·.1 = name) = (child? entries name).isSome := by
  induction entries with
  | nil => rfl
  | cons e entries ih =>
    rw [List.any_cons, child?_cons, ih]
    by_cases h : e.1 = name <;> simp [h]

theorem child?_setEntry (entries : List (String × Node)) (name : String) (node : Node)
    (other : String) :
    child? (setEntry entries name node) other =
      if name = other then some node else child? entries other := by
  rw [setEntry, any_eq_isSome_child?]
  split
  · next hsome =>
    rw [child?_map_replace]
    by_cases ho : name = other
    · obtain ⟨found, hfound⟩ := Option.isSome_iff_exists.mp hsome
      rw [if_pos ho, if_pos ho, ← ho, hfound, Option.map_some]
    · rw [if_neg ho, if_neg ho]
  · next hnone =>
    rw [child?_append_singleton]
    by_cases ho : name = other
    · rw [if_pos ho, ← ho, Option.not_isSome_iff_eq_none.mp hnone, Option.none_or, if_pos rfl]
    · rw [if_neg ho, if_neg ho, Option.or_none]

/-- No file stands in the way of one at the path: none above it and none below. -/
structure Clear (tree : Node) (path : List String) : Prop where
  above : ∀ front back, path = front ++ back → back ≠ [] → textAt tree front = none
  below : ∀ rest, rest ≠ [] → textAt tree (path ++ rest) = none

/-- After a file has been put in a clear place it is read there, and elsewhere all is as before. -/
theorem textAt_put {tree : Node} {path : List String} (h : Clear tree path) (text : String)
    (other : List String) :
    textAt (put (.file text) path tree) other =
      if other = path then some text else textAt tree other := by
  induction path generalizing tree other with
  | nil =>
    cases other with
    | nil => rfl
    | cons name rest =>
      rw [if_neg (List.cons_ne_nil name rest), put, textAt_file_cons]
      exact (h.below _ (List.cons_ne_nil name rest)).symm
  | cons name path ih =>
    cases tree with
    | file own =>
      have htop : textAt (.file own) [] = none := h.above [] (name :: path) rfl (by simp)
      cases htop
    | dir entries =>
      have hread := textAt_dir_cons entries name
      have hclear : Clear ((child? entries name).getD empty) path := by
        constructor
        · intro front back hpath hback
          rw [← hread]
          exact h.above (name :: front) back (by rw [hpath]; rfl) hback
        · intro rest hrest
          rw [← hread]
          exact h.below rest hrest
      cases other with
      | nil => rfl
      | cons first rest =>
        rw [put, textAt_dir_cons, textAt_dir_cons, entriesOf, child?_setEntry]
        by_cases hfirst : name = first
        · rw [if_pos hfirst, Option.getD_some, ih hclear, ← hfirst]
          simp
        · rw [if_neg hfirst, if_neg fun heq => hfirst (List.cons.inj heq).1.symm]

theorem find?_append (tree : Node) (front back : List String) :
    tree.find? (front ++ back) = (tree.find? front).bind (·.find? back) := by
  induction front generalizing tree with
  | nil => rfl
  | cons name front ih =>
    cases tree with
    | file text => rfl
    | dir entries =>
      rw [List.cons_append, find?, find?]
      cases child? entries name with
      | none => rfl
      | some node => exact ih node

theorem walkEntries_eq (entries : List (String × Node)) :
    walkEntries entries = entries.map fun e => (e.1, e.2.walk) := by
  induction entries with
  | nil => rfl
  | cons e entries ih => rw [walkEntries, ih]; rfl

theorem mem_of_child? {entries : List (String × Node)} {name : String} {node : Node}
    (h : child? entries name = some node) : (name, node) ∈ entries := by
  obtain ⟨e, hfound, rfl⟩ := Option.map_eq_some_iff.mp h
  have hname : e.1 = name := by simpa using List.find?_some hfound
  rw [← hname]
  exact List.mem_of_find?_eq_some hfound

/-- A walk comes to every file. -/
theorem mem_walk_of_find? {tree : Node} {path : List String} {text : String}
    (h : tree.find? path = some (.file text)) : path ∈ tree.walk := by
  induction path generalizing tree with
  | nil =>
    obtain rfl : tree = .file text := Option.some.inj h
    exact List.mem_singleton_self []
  | cons name path ih =>
    cases tree with
    | file own => cases h
    | dir entries =>
      obtain ⟨node, hchild, hnode⟩ := Option.bind_eq_some_iff.mp h
      rw [walk, walkEntries_eq, List.mem_flatMap]
      refine ⟨(name, node.walk), ?_, List.mem_map_of_mem (ih hnode)⟩
      exact List.mem_mergeSort.mpr (List.mem_map.mpr ⟨_, mem_of_child? hchild, rfl⟩)

/-- Below a file nothing is found. -/
theorem find?_file_append {tree : Node} {path : List String} {text : String}
    (h : tree.find? path = some (.file text)) {rest : List String} (hne : rest ≠ []) :
    tree.find? (path ++ rest) = none := by
  obtain ⟨name, rest, rfl⟩ := List.exists_cons_of_ne_nil hne
  rw [find?_append, h]
  rfl

/-- Where a file stands already, none stands in the way. -/
theorem clear_of_textAt {tree : Node} {path : List String} {text : String}
    (h : textAt tree path = some text) : Clear tree path := by
  have hfile : tree.find? path = some (.file text) := by
    rw [textAt] at h
    split at h
    · next own hown => rw [hown, Option.some.inj h]
    · cases h
  constructor
  · intro front back hpath hback
    rw [textAt]
    split
    · next own hown =>
      have hnone := find?_file_append hown hback
      rw [← hpath, hfile] at hnone
      cases hnone
    · rfl
  · intro rest hrest
    rw [textAt, find?_file_append hfile hrest]

end Node

namespace Files

/-- A path that can be written is clear. -/
theorem clear_of_canWrite {files : Files} {path : String} (h : files.canWrite path = true) :
    Node.Clear files (Path.names path) := by
  rw [canWrite, Bool.and_eq_true] at h
  obtain ⟨hdir, habove⟩ := h
  constructor
  · intro front back hpath hback
    have hlength : front.length < (Path.names path).length := by
      rw [hpath, List.length_append]
      have := List.length_pos_iff.mpr hback
      omega
    have hfront : front ∈ (List.range (Path.names path).length).map (Path.names path).take :=
      List.mem_map.mpr ⟨front.length, List.mem_range.mpr hlength, by rw [hpath, List.take_left]⟩
    have hisDir := List.all_eq_true.mp habove front hfront
    rw [Node.textAt]
    split
    · next own hown =>
      rw [hown] at hisDir
      cases hisDir
    · rfl
  · intro rest hrest
    rw [Node.textAt]
    cases hnode : Node.find? files (Path.names path) with
    | none => rw [Node.find?_append, hnode]; rfl
    | some node =>
      cases node with
      | file own => rw [Node.find?_file_append hnode hrest]
      | dir entries =>
        have hisDir : files.isDir path = true := by rw [isDir, at?, hnode]; rfl
        rw [hisDir] at hdir
        cases hdir

/-- What is read after a write to a clear path. -/
theorem read?_write {files : Files} {path : String} (h : Node.Clear files (Path.names path))
    (text other : String) :
    (files.write path text).read? other =
      if Path.names other = Path.names path then some text else files.read? other :=
  Node.textAt_put h text (Path.names other)

theorem clear_of_read? {files : Files} {path text : String} (h : files.read? path = some text) :
    Node.Clear files (Path.names path) := Node.clear_of_textAt h

end Files
end ApiSync
