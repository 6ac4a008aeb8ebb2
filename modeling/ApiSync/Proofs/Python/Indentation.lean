import ApiSync.Proofs.Text
import ApiSync.Python.Docstring
/-!
# The indentation of docstrings

The lines of a docstring after the first one are indented as the definition is.  The margin is the
smallest indentation of those with content, and every line loses it.  So the clean docstring does
not depend on how deep the definition stands, and the lines keep their places relative to each
other.
-/

namespace ApiSync
namespace Python

open Text

/-! ## Lines -/

def isBreak (c : Char) : Bool := c = '\n' || c = '\r'

theorem splitLines_crlf (cs : List Char) :
    splitLines ('\r' :: '\n' :: cs) = [] :: splitLines cs := by
  rw [splitLines]

theorem splitLines_break {c : Char} (hc : isBreak c = true) {cs : List Char}
    (h : c = '\r' → cs.head? ≠ some '\n') : splitLines (c :: cs) = [] :: splitLines cs := by
  have hif : (c = '\n' || c = '\r') = true := hc
  rw [splitLines, if_pos hif]
  rintro rest rfl rfl
  exact h rfl rfl

theorem splitLines_cons {c : Char} (hc : isBreak c = false) {cs first : List Char}
    {later : List (List Char)} (h : splitLines cs = first :: later) :
    splitLines (c :: cs) = (c :: first) :: later := by
  have hif : ¬(c = '\n' || c = '\r') = true := Bool.eq_false_iff.mp hc
  rw [splitLines, if_neg hif, h]
  rintro rest rfl rfl
  cases hc

/-- A text ends, or goes on with a pair of breaks, a break or another character. -/
@[elab_as_elim]
theorem lines_induction {P : List Char → Prop} (nil : P [])
    (pair : ∀ cs, P cs → P ('\r' :: '\n' :: cs))
    (lineBreak : ∀ c cs, isBreak c = true → (c = '\r' → cs.head? ≠ some '\n') → P cs → P (c :: cs))
    (char : ∀ c cs, isBreak c = false → P cs → P (c :: cs)) (cs : List Char) : P cs := by
  have hbreak (c : Char) (cs : List Char)
      (h : ∀ rest, c = '\r' → cs = '\n' :: rest → False) : c = '\r' → cs.head? ≠ some '\n' := by
    rintro rfl hhead
    obtain ⟨rest, rfl⟩ := List.head?_eq_some_iff.mp hhead
    exact h rest rfl rfl
  induction cs using splitLines.induct with
  | case1 => exact nil
  | case2 cs ih => exact pair cs ih
  | case3 c cs h hc ih => exact lineBreak c cs hc (hbreak c cs h) ih
  | case4 c cs h hc hnil ih => exact char c cs (Bool.eq_false_iff.mpr hc) ih
  | case5 c cs h hc first later hlines ih => exact char c cs (Bool.eq_false_iff.mpr hc) ih

theorem exists_splitLines (cs : List Char) : ∃ first later, splitLines cs = first :: later := by
  induction cs using lines_induction with
  | nil => exact ⟨[], [], rfl⟩
  | pair cs ih => exact ⟨[], splitLines cs, splitLines_crlf cs⟩
  | lineBreak c cs hc h ih => exact ⟨[], splitLines cs, splitLines_break hc h⟩
  | char c cs hc ih =>
    obtain ⟨first, later, hlines⟩ := ih
    exact ⟨c :: first, later, splitLines_cons hc hlines⟩

/-- No line holds a break. -/
theorem not_isBreak_of_mem_splitLines {cs line : List Char} (h : line ∈ splitLines cs) :
    ∀ c ∈ line, isBreak c = false := by
  induction cs using lines_induction generalizing line with
  | nil => simp_all [splitLines]
  | pair cs ih =>
    rw [splitLines_crlf] at h
    rcases List.mem_cons.mp h with rfl | hrest
    · simp
    · exact ih hrest
  | lineBreak c cs hc hnext ih =>
    rw [splitLines_break hc hnext] at h
    rcases List.mem_cons.mp h with rfl | hrest
    · simp
    · exact ih hrest
  | char c cs hc ih =>
    obtain ⟨first, later, hlines⟩ := exists_splitLines cs
    rw [splitLines_cons hc hlines] at h
    rcases List.mem_cons.mp h with rfl | hrest
    · have hfirst := ih (hlines ▸ List.mem_cons_self)
      simpa [hc] using hfirst
    · exact ih (hlines ▸ List.mem_cons_of_mem first hrest)

theorem splitLines_append {line : List Char} (h : ∀ c ∈ line, isBreak c = false)
    {cs first : List Char} {later : List (List Char)} (hlines : splitLines cs = first :: later) :
    splitLines (line ++ cs) = (line ++ first) :: later := by
  induction line with
  | nil => exact hlines
  | cons c line ih =>
    obtain ⟨hc, hline⟩ := List.forall_mem_cons.mp h
    exact splitLines_cons hc (ih hline)

/-- Lines without breaks are found again where they are joined. -/
theorem splitLines_joinWith {lines : List (List Char)} (hne : lines ≠ [])
    (h : ∀ line ∈ lines, ∀ c ∈ line, isBreak c = false) :
    splitLines (joinWith ['\n'] lines) = lines := by
  induction lines with
  | nil => exact absurd rfl hne
  | cons line rest ih =>
    obtain ⟨hline, hrest⟩ := List.forall_mem_cons.mp h
    by_cases hnil : rest = []
    · subst hnil
      have hlast : splitLines (line ++ []) = [line ++ []] := splitLines_append hline rfl
      simpa [joinWith] using hlast
    · have hbreak : splitLines ('\n' :: joinWith ['\n'] rest) = [] :: rest := by
        rw [splitLines_break rfl (by simp), ih hnil hrest]
      rw [joinWith_cons _ _ hnil, List.append_assoc, List.singleton_append,
        splitLines_append hline hbreak, List.append_nil]

/-! ## Tabs -/

theorem expandTabs_append (a b : List Char) : expandTabs (a ++ b) = expandTabs a ++ expandTabs b :=
  List.flatMap_append

theorem expandTabs_cons (c : Char) (cs : List Char) :
    expandTabs (c :: cs) = expandTabs [c] ++ expandTabs cs := expandTabs_append [c] cs

theorem expandTabs_break {c : Char} (hc : isBreak c = true) : expandTabs [c] = [c] := by
  have hne : c ≠ '\t' := by
    rintro rfl
    cases hc
  simp [expandTabs, hne]

theorem isBreak_of_mem_expandTabs {c d : Char} (hc : isBreak c = false) (hd : d ∈ expandTabs [c]) :
    isBreak d = false := by
  by_cases htab : c = '\t'
  · subst htab
    rw [show d = ' ' by simpa [expandTabs] using hd]
    rfl
  · rw [show d = c by simpa [expandTabs, htab] using hd]
    exact hc

theorem head?_expandTabs {cs : List Char} (h : cs.head? ≠ some '\n') :
    (expandTabs cs).head? ≠ some '\n' := by
  cases cs with
  | nil => exact h
  | cons c cs =>
    by_cases htab : c = '\t' <;> simp_all [expandTabs, List.replicate_succ]

/-- The lines of a text with expanded tabs are its lines with expanded tabs. -/
theorem splitLines_expandTabs (cs : List Char) :
    splitLines (expandTabs cs) = (splitLines cs).map expandTabs := by
  induction cs using lines_induction with
  | nil => rfl
  | pair cs ih =>
    show splitLines ('\r' :: '\n' :: expandTabs cs) = _
    rw [splitLines_crlf, splitLines_crlf, ih]
    rfl
  | lineBreak c cs hc h ih =>
    rw [expandTabs_cons, expandTabs_break hc, List.singleton_append,
      splitLines_break hc fun hr => head?_expandTabs (h hr), splitLines_break hc h, ih]
    rfl
  | char c cs hc ih =>
    obtain ⟨first, later, hlines⟩ := exists_splitLines cs
    rw [hlines] at ih
    rw [expandTabs_cons, splitLines_append (fun d hd => isBreak_of_mem_expandTabs hc hd) ih,
      splitLines_cons hc hlines, List.map_cons, expandTabs_cons c first]

/-! ## Margins -/

def HasContent (line : List Char) : Prop := ∃ c ∈ line, isBlank c = false

/-- How many blanks stand in front of a line. -/
def indent (line : List Char) : Nat := (line.takeWhile isBlank).length

/-- The smallest indentation of the lines with content. -/
structure IsMargin (lines : List (List Char)) (m : Nat) : Prop where
  le : ∀ line ∈ lines, HasContent line → m ≤ indent line
  attained : ∃ line ∈ lines, HasContent line ∧ indent line = m

theorem indentOf?_eq_some_iff {line : List Char} {m : Nat} :
    indentOf? line = some m ↔ HasContent line ∧ indent line = m := by
  rw [indentOf?, indent]
  by_cases h : line.all isBlank = true
  · have hblank : ¬HasContent line := by
      rintro ⟨c, hc, hcontent⟩
      rw [List.all_eq_true.mp h c hc] at hcontent
      cases hcontent
    simp [h, hblank]
  · have hcontent : HasContent line := by
      simpa [HasContent] using h
    simp [h, hcontent]

theorem margin?_eq_some_iff {lines : List (List Char)} {m : Nat} :
    margin? lines = some m ↔ IsMargin lines m := by
  rw [margin?, List.min?_eq_some_iff]
  constructor
  · rintro ⟨hmem, hle⟩
    obtain ⟨line, hline, hindent⟩ := List.mem_filterMap.mp hmem
    refine ⟨fun other hother hcontent => hle _ ?_, line, hline, indentOf?_eq_some_iff.mp hindent⟩
    exact List.mem_filterMap.mpr ⟨other, hother, indentOf?_eq_some_iff.mpr ⟨hcontent, rfl⟩⟩
  · rintro ⟨hle, line, hline, hindent⟩
    refine ⟨List.mem_filterMap.mpr ⟨line, hline, indentOf?_eq_some_iff.mpr hindent⟩, ?_⟩
    intro n hn
    obtain ⟨other, hother, hindent⟩ := List.mem_filterMap.mp hn
    obtain ⟨hcontent, rfl⟩ := indentOf?_eq_some_iff.mp hindent
    exact hle other hother hcontent

theorem exists_isMargin {lines : List (List Char)} (h : ∃ line ∈ lines, HasContent line) :
    ∃ m, IsMargin lines m := by
  obtain ⟨line, hline, hcontent⟩ := h
  cases hmargin : margin? lines with
  | some m => exact ⟨m, margin?_eq_some_iff.mp hmargin⟩
  | none =>
    rw [margin?, List.min?_eq_none_iff, List.filterMap_eq_nil_iff] at hmargin
    have := indentOf?_eq_some_iff.mpr ⟨hcontent, rfl⟩
    rw [hmargin line hline] at this
    cases this

/-! ## Deeper definitions -/

def spaces (n : Nat) : List Char := List.replicate n ' '

/-- Puts spaces in front of every line but the first. -/
def indentLater (n : Nat) : List Char → List Char
  | [] => []
  | '\r' :: '\n' :: cs => '\r' :: '\n' :: (spaces n ++ indentLater n cs)
  | c :: cs => if c = '\n' || c = '\r' then c :: (spaces n ++ indentLater n cs)
    else c :: indentLater n cs

theorem indentLater_break {c : Char} (hc : isBreak c = true) {cs : List Char}
    (h : c = '\r' → cs.head? ≠ some '\n') (n : Nat) :
    indentLater n (c :: cs) = c :: (spaces n ++ indentLater n cs) := by
  have hif : (c = '\n' || c = '\r') = true := hc
  rw [indentLater, if_pos hif]
  rintro rest rfl rfl
  exact h rfl rfl

theorem indentLater_cons {c : Char} (hc : isBreak c = false) (n : Nat) (cs : List Char) :
    indentLater n (c :: cs) = c :: indentLater n cs := by
  have hif : ¬(c = '\n' || c = '\r') = true := Bool.eq_false_iff.mp hc
  rw [indentLater, if_neg hif]
  rintro rest rfl rfl
  cases hc

theorem head?_indentLater (n : Nat) (cs : List Char) : (indentLater n cs).head? = cs.head? := by
  induction cs using lines_induction with
  | nil => rfl
  | pair cs _ => rw [indentLater]; rfl
  | lineBreak c cs hc h _ => rw [indentLater_break hc h]; rfl
  | char c cs hc _ => rw [indentLater_cons hc]; rfl

/-- The lines behind the first one have the spaces in front, and nothing else has changed. -/
theorem splitLines_indentLater (n : Nat) {cs first : List Char} {later : List (List Char)}
    (h : splitLines cs = first :: later) :
    splitLines (indentLater n cs) = first :: later.map (spaces n ++ ·) := by
  -- Behind a break the next line is one of the later ones as well.
  have hlater (cs : List Char) (ih : ∀ {first later}, splitLines cs = first :: later →
      splitLines (indentLater n cs) = first :: later.map (spaces n ++ ·)) :
      splitLines (spaces n ++ indentLater n cs) = (splitLines cs).map (spaces n ++ ·) := by
    obtain ⟨first, later, hlines⟩ := exists_splitLines cs
    have hspaces : ∀ c ∈ spaces n, isBreak c = false := by
      intro c hc
      rw [List.eq_of_mem_replicate hc]
      rfl
    rw [splitLines_append hspaces (ih hlines), hlines, List.map_cons]
  induction cs using lines_induction generalizing first later with
  | nil =>
    cases h
    rfl
  | pair cs ih =>
    rw [splitLines_crlf] at h
    cases h
    rw [indentLater, splitLines_crlf, hlater cs ih]
  | lineBreak c cs hc hnext ih =>
    rw [splitLines_break hc hnext] at h
    cases h
    have hhead : c = '\r' → (spaces n ++ indentLater n cs).head? ≠ some '\n' := by
      intro hr
      cases n with
      | zero => simpa [spaces, head?_indentLater] using hnext hr
      | succ n => simp [spaces, List.replicate_succ]
    rw [indentLater_break hc hnext, splitLines_break hc hhead, hlater cs ih]
  | char c cs hc ih =>
    obtain ⟨start, rest, hlines⟩ := exists_splitLines cs
    rw [splitLines_cons hc hlines] at h
    cases h
    rw [indentLater_cons hc, splitLines_cons hc (ih hlines)]

theorem expandTabs_spaces (n : Nat) (line : List Char) :
    expandTabs (spaces n ++ line) = spaces n ++ expandTabs line := by
  have hspaces : expandTabs (spaces n) = spaces n := by
    induction n with
    | zero => rfl
    | succ n ih => rw [spaces, List.replicate_succ, expandTabs_cons, ← spaces, ih]; rfl
  rw [expandTabs_append, hspaces]

theorem hasContent_spaces_append {n : Nat} {line : List Char} :
    HasContent (spaces n ++ line) ↔ HasContent line := by
  simp only [HasContent, List.mem_append]
  constructor
  · rintro ⟨c, hc | hc, hcontent⟩
    · rw [List.eq_of_mem_replicate hc] at hcontent
      cases hcontent
    · exact ⟨c, hc, hcontent⟩
  · rintro ⟨c, hc, hcontent⟩
    exact ⟨c, .inr hc, hcontent⟩

theorem indent_append_of_blank {lead : List Char} (h : ∀ c ∈ lead, isBlank c = true)
    (line : List Char) : indent (lead ++ line) = lead.length + indent line := by
  rw [indent, indent, List.takeWhile_append_of_pos h, List.length_append]

theorem indent_spaces_append (n : Nat) (line : List Char) :
    indent (spaces n ++ line) = n + indent line := by
  have hspaces : ∀ c ∈ spaces n, isBlank c = true := by
    intro c hc
    rw [List.eq_of_mem_replicate hc]
    rfl
  rw [indent_append_of_blank hspaces, spaces, List.length_replicate]

/-- The margin grows with the indentation. -/
theorem IsMargin.deeper {lines : List (List Char)} {m : Nat} (h : IsMargin lines m) (n : Nat) :
    IsMargin (lines.map (spaces n ++ ·)) (n + m) := by
  obtain ⟨line, hline, hcontent, hindent⟩ := h.attained
  constructor
  · intro other hother hcontent
    obtain ⟨line, hline, rfl⟩ := List.mem_map.mp hother
    have hle := h.le line hline (hasContent_spaces_append.mp hcontent)
    rw [indent_spaces_append]
    omega
  · refine ⟨spaces n ++ line, List.mem_map_of_mem hline, hasContent_spaces_append.mpr hcontent, ?_⟩
    rw [indent_spaces_append, hindent]

/-- The lines without their margin do not show how deep they stood. -/
theorem alignLines_eq {first : List Char} {later : List (List Char)} {m : Nat}
    (h : IsMargin later m) :
    alignLines (first :: later) = trimStart first :: later.map (·.drop m) := by
  rw [alignLines, margin?_eq_some_iff.mpr h, Option.getD_some]

theorem alignLines_spaces {first : List Char} {later : List (List Char)} {m : Nat}
    (h : IsMargin later m) (n : Nat) :
    alignLines (first :: later.map (spaces n ++ ·)) = alignLines (first :: later) := by
  rw [alignLines_eq (h.deeper n), alignLines_eq h, List.map_map]
  congr 1
  refine List.map_congr_left fun line _ => ?_
  show (spaces n ++ line).drop (n + m) = line.drop m
  rw [List.drop_append, spaces, List.length_replicate, Nat.add_sub_cancel_left,
    List.drop_eq_nil_of_le (by rw [List.length_replicate]; omega), List.nil_append]

/-! ## Empty lines at the ends -/

theorem exists_dropWhile (lines : List (List Char)) : ∃ k,
    lines = List.replicate k [] ++ lines.dropWhile (· = []) := by
  refine ⟨(lines.takeWhile (· = [])).length, ?_⟩
  have hempty : lines.takeWhile (· = []) =
      List.replicate (lines.takeWhile (· = [])).length [] := by
    refine List.eq_replicate_of_mem fun line hline => ?_
    simpa using List.mem_takeWhile_imp hline
  rw [← hempty, List.takeWhile_append_dropWhile]

/-- Only empty lines are dropped. -/
theorem exists_dropEmptyEnds (lines : List (List Char)) : ∃ before after,
    lines = List.replicate before [] ++ dropEmptyEnds lines ++ List.replicate after [] := by
  obtain ⟨before, hbefore⟩ := exists_dropWhile lines
  obtain ⟨after, hafter⟩ := exists_dropWhile (lines.dropWhile (· = [])).reverse
  refine ⟨before, after, ?_⟩
  have hrest := congrArg List.reverse hafter
  rw [List.reverse_reverse, List.reverse_append, List.reverse_replicate] at hrest
  rw [dropEmptyEnds, List.append_assoc, ← hrest, ← hbefore]

theorem dropEmptyEnds_eq (lines : List (List Char)) :
    dropEmptyEnds lines = (lines.dropWhile (· = [])).rdropWhile (· = []) := rfl

theorem head?_dropEmptyEnds (lines : List (List Char)) : (dropEmptyEnds lines).head? ≠ some [] := by
  intro h
  have hfirst := List.head?_dropWhile_not (fun line : List Char => decide (line = [])) lines
  have hhead : (lines.dropWhile (· = [])).head? = some [] := by
    rw [dropEmptyEnds_eq] at h
    obtain ⟨rest, hrest⟩ := List.rdropWhile_prefix (fun line : List Char => decide (line = []))
      (l := lines.dropWhile (· = []))
    rw [← hrest, List.head?_append, h]
    rfl
  rw [hhead] at hfirst
  simp at hfirst

theorem getLast?_dropEmptyEnds (lines : List (List Char)) :
    (dropEmptyEnds lines).getLast? ≠ some [] := by
  intro h
  rw [dropEmptyEnds, List.getLast?_reverse] at h
  have hfirst := List.head?_dropWhile_not (fun line : List Char => decide (line = []))
    (lines.dropWhile (· = [])).reverse
  rw [h] at hfirst
  simp at hfirst

/-! ## Clean docstrings -/

theorem cleanDocstring_eq {doc first : List Char} {later : List (List Char)}
    (h : splitLines doc = first :: later) :
    cleanDocstring doc = joinWith ['\n']
      (dropEmptyEnds (alignLines (expandTabs first :: later.map expandTabs))) := by
  rw [cleanDocstring, splitLines_expandTabs, h, List.map_cons]

theorem cleanDocstring_indentLater {doc first : List Char} {later : List (List Char)} {m : Nat}
    (h : splitLines doc = first :: later) (hm : IsMargin (later.map expandTabs) m) (n : Nat) :
    cleanDocstring (indentLater n doc) = cleanDocstring doc := by
  have hexpand : (later.map (spaces n ++ ·)).map expandTabs =
      (later.map expandTabs).map (spaces n ++ ·) := by
    rw [List.map_map, List.map_map]
    exact List.map_congr_left fun line _ => expandTabs_spaces n line
  rw [cleanDocstring_eq (splitLines_indentLater n h), cleanDocstring_eq h, hexpand,
    alignLines_spaces hm]

/-- A line with content has the whole margin in front, all of it blank. -/
theorem IsMargin.blank_of_mem_take {lines : List (List Char)} {m : Nat} (h : IsMargin lines m)
    {line : List Char} (hline : line ∈ lines) (hcontent : HasContent line) :
    (line.take m).length = m ∧ ∀ c ∈ line.take m, isBlank c = true := by
  have hle : m ≤ (line.takeWhile isBlank).length := h.le line hline hcontent
  have hlength := (List.takeWhile_prefix (l := line) isBlank).length_le
  have htake : (line.take m).length = m := by
    rw [List.length_take]
    omega
  refine ⟨htake, fun c hc => ?_⟩
  have hblanks : line.take m <+: line.takeWhile isBlank :=
    List.prefix_of_prefix_length_le (List.take_prefix m line) (List.takeWhile_prefix isBlank)
      (by rw [htake]; exact hle)
  exact List.mem_takeWhile_imp (hblanks.subset hc)

theorem IsMargin.hasContent_drop {lines : List (List Char)} {m : Nat} (h : IsMargin lines m)
    {line : List Char} (hline : line ∈ lines) (hcontent : HasContent line) :
    HasContent (line.drop m) := by
  obtain ⟨-, hblank⟩ := h.blank_of_mem_take hline hcontent
  obtain ⟨c, hc, hnot⟩ := hcontent
  rw [← List.take_append_drop m line, List.mem_append] at hc
  rcases hc with htake | hdrop
  · rw [hblank c htake] at hnot
    cases hnot
  · exact ⟨c, hdrop, hnot⟩

/-- The lines of a clean docstring are those that are left at the ends. -/
theorem splitLines_cleanDocstring {doc first : List Char} {later : List (List Char)} {m : Nat}
    (h : splitLines doc = first :: later) (hm : IsMargin (later.map expandTabs) m) :
    splitLines (cleanDocstring doc) = dropEmptyEnds
      (trimStart (expandTabs first) :: (later.map expandTabs).map (·.drop m)) := by
  have hlines : splitLines (expandTabs doc) = expandTabs first :: later.map expandTabs := by
    rw [splitLines_expandTabs, h, List.map_cons]
  rw [cleanDocstring_eq h, alignLines_eq hm]
  obtain ⟨before, after, hends⟩ := exists_dropEmptyEnds
    (trimStart (expandTabs first) :: (later.map expandTabs).map (·.drop m))
  refine splitLines_joinWith ?_ fun line hline c hc => ?_
  · -- Something is left of a line with content.
    intro hnil
    obtain ⟨line, hline, hcontent, -⟩ := hm.attained
    obtain ⟨c, hc, -⟩ := hm.hasContent_drop hline hcontent
    have hmem : line.drop m ∈ trimStart (expandTabs first) ::
        (later.map expandTabs).map (·.drop m) :=
      List.mem_cons_of_mem _ (List.mem_map_of_mem hline)
    rw [hends, hnil, List.append_nil, List.replicate_append_replicate] at hmem
    rw [List.eq_of_mem_replicate hmem] at hc
    exact List.not_mem_nil hc
  · have hmem : line ∈ trimStart (expandTabs first) :: (later.map expandTabs).map (·.drop m) := by
      rw [hends]
      exact List.mem_append_left _ (List.mem_append_right _ hline)
    rcases List.mem_cons.mp hmem with rfl | hlater
    · exact not_isBreak_of_mem_splitLines (hlines ▸ List.mem_cons_self) c
        ((List.dropWhile_suffix isBlank).subset hc)
    · obtain ⟨whole, hwhole, rfl⟩ := List.mem_map.mp hlater
      exact not_isBreak_of_mem_splitLines (hlines ▸ List.mem_cons_of_mem _ hwhole) c
        ((List.drop_suffix m whole).subset hc)

/-- A docstring with content behind its first line is cleaned alike however deep its definition
stands.  No line at its ends is empty, and each line, tabs counted as eight blanks, has lost the
smallest indentation of the later lines with content, so what is left of their indentation differs
as before. -/
theorem cleanDocstring_ignores_depth {doc first : List Char} {later : List (List Char)}
    (h : splitLines doc = first :: later) (hcontent : ∃ line ∈ later, HasContent line) :
    (∀ n, cleanDocstring (indentLater n doc) = cleanDocstring doc) ∧
      (splitLines (cleanDocstring doc)).head? ≠ some [] ∧
      (splitLines (cleanDocstring doc)).getLast? ≠ some [] ∧
      ∃ m, IsMargin (later.map expandTabs) m ∧
        (∃ before after, trimStart (expandTabs first) :: (later.map expandTabs).map (·.drop m) =
          List.replicate before [] ++ splitLines (cleanDocstring doc) ++
            List.replicate after []) ∧
        ∀ line ∈ later.map expandTabs, HasContent line →
          (line.take m).length = m ∧ (∀ c ∈ line.take m, isBlank c = true) ∧
            indent line = m + indent (line.drop m) := by
  obtain ⟨m, hm⟩ : ∃ m, IsMargin (later.map expandTabs) m := by
    obtain ⟨line, hline, c, hc, hnot⟩ := hcontent
    have hexpand : c ∈ expandTabs line := by
      refine List.mem_flatMap.mpr ⟨c, hc, ?_⟩
      rw [if_neg, List.mem_singleton]
      rintro rfl
      cases hnot
    exact exists_isMargin ⟨expandTabs line, List.mem_map_of_mem hline, c, hexpand, hnot⟩
  refine ⟨fun n => cleanDocstring_indentLater h hm n, ?_, ?_, m, hm, ?_, fun line hline hc => ?_⟩
  · rw [splitLines_cleanDocstring h hm]
    exact head?_dropEmptyEnds _
  · rw [splitLines_cleanDocstring h hm]
    exact getLast?_dropEmptyEnds _
  · rw [splitLines_cleanDocstring h hm]
    exact exists_dropEmptyEnds _
  · obtain ⟨hlength, hblank⟩ := hm.blank_of_mem_take hline hc
    have hindent := indent_append_of_blank hblank (line.drop m)
    rw [List.take_append_drop, hlength] at hindent
    exact ⟨hlength, hblank, hindent⟩

/-- Lines with all three kinds of breaks, tabs, and blank lines that are shorter and longer than the
margin. -/
def tabbedDoc : List Char :=
  "  Reads a guild.\r\n\tproperties:\r\t  id:\n   \n\t    type: integer\n\t\t\n   ".toList

theorem tabbedDoc_ignores_depth :
    (∀ n, cleanDocstring (indentLater n tabbedDoc) = cleanDocstring tabbedDoc) ∧
      (splitLines (cleanDocstring tabbedDoc)).getLast? ≠ some [] ∧
      cleanDocstring tabbedDoc =
        "Reads a guild.\nproperties:\n  id:\n\n    type: integer\n        ".toList := by
  have hlines : splitLines tabbedDoc = "  Reads a guild.".toList ::
      ["\tproperties:".toList, "\t  id:".toList, "   ".toList, "\t    type: integer".toList,
        "\t\t".toList, "   ".toList] := by decide
  obtain ⟨hdepth, -, hlast, -⟩ := cleanDocstring_ignores_depth hlines
    ⟨"\tproperties:".toList, List.mem_cons_self, 'p', by decide, by decide⟩
  exact ⟨hdepth, hlast, by decide⟩

end Python
end ApiSync
