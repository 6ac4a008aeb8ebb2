import ApiSync.Proofs.Annotation.Words
/-!
# Reading the arguments of a union between pipes

A union whose arguments name no model is read once more, as a union with pipes.  Marks and the
names between pipes are read on both sides of a separator, so the blanks around the members make
no difference here either.
-/

namespace ApiSync
namespace Annotation

open Text

/-! ## Marks -/

theorem splits_contains {mark : List Char} (hne : mark ≠ [])
    (h : mark.any isSeparator = false) :
    Splits (contains mark) (fun a b => a || b) where
  split := by
    intro c hc a b
    have hnot : c ∉ mark := by
      intro hmem
      exact List.any_eq_false.mp h c hmem hc
    exact contains_append_cons hne hnot a b
  left := fun b => by rw [contains_nil hne, Bool.false_or]
  right := fun a => by rw [contains_nil hne, Bool.or_false]

theorem splits_contains_char {c : Char} (h : isSeparator c = false) :
    Splits (fun text => text.contains c) (fun a b => a || b) where
  split := by
    intro d hd a b
    have hne : c ≠ d := by
      intro he
      rw [he, hd] at h
      cases h
    simp [hne]
  left := fun b => Bool.false_or _
  right := fun a => Bool.or_false _

/-! ## The names between pipes -/

section

variable {α : Type}

/-- Puts something in front of the first of the pieces. -/
def withFront (front : List α) : List (List α) → List (List α)
  | [] => [front]
  | piece :: pieces => (front ++ piece) :: pieces

/-- Two lists of pieces in a row: the last of the first and the first of the second are one. -/
def glue : List (List α) → List (List α) → List (List α)
  | [], others => others
  | [piece], others => withFront piece others
  | piece :: next :: pieces, others => piece :: glue (next :: pieces) others

theorem withFront_nil {pieces : List (List α)} (h : pieces ≠ []) :
    withFront [] pieces = pieces := by
  cases pieces with
  | nil => exact absurd rfl h
  | cons piece pieces => rfl

theorem glue_cons (piece : List α) {pieces : List (List α)} (h : pieces ≠ [])
    (others : List (List α)) : glue (piece :: pieces) others = piece :: glue pieces others := by
  cases pieces with
  | nil => exact absurd rfl h
  | cons next pieces => rfl

theorem glue_withFront (front : List α) {pieces : List (List α)} (h : pieces ≠ [])
    (others : List (List α)) :
    glue (withFront front pieces) others = withFront front (glue pieces others) := by
  cases pieces with
  | nil => exact absurd rfl h
  | cons piece pieces =>
    cases pieces with
    | nil =>
      show withFront (front ++ piece) others = withFront front (withFront piece others)
      cases others with
      | nil => rfl
      | cons other others =>
        show (front ++ piece ++ other) :: others = (front ++ (piece ++ other)) :: others
        rw [List.append_assoc]
    | cons next pieces => rfl

theorem glue_nil_left {pieces : List (List α)} (h : pieces ≠ []) : glue [[]] pieces = pieces :=
  withFront_nil h

theorem glue_nil_right {pieces : List (List α)} (h : pieces ≠ []) : glue pieces [[]] = pieces := by
  induction pieces with
  | nil => exact absurd rfl h
  | cons piece pieces ih =>
    by_cases hnil : pieces = []
    · rw [hnil]
      show [piece ++ []] = [piece]
      rw [List.append_nil]
    · rw [glue_cons piece hnil, ih hnil]

end

theorem splitAt_cons {sep c : Char} (h : c ≠ sep) (cs : List Char) :
    splitAt sep (c :: cs) = withFront [c] (splitAt sep cs) := by
  rw [splitAt, if_neg h]
  cases splitAt sep cs <;> rfl

/-- Splitting a text in two halves cuts one piece in two. -/
theorem splitAt_append (sep : Char) (a b : List Char) :
    splitAt sep (a ++ b) = glue (splitAt sep a) (splitAt sep b) := by
  induction a with
  | nil => exact (glue_nil_left (splitAt_ne_nil sep b)).symm
  | cons c a ih =>
    rw [List.cons_append]
    by_cases hc : c = sep
    · rw [splitAt, if_pos hc, splitAt, if_pos hc, ih, glue_cons [] (splitAt_ne_nil sep a)]
    · rw [splitAt_cons hc, splitAt_cons hc, ih, glue_withFront [c] (splitAt_ne_nil sep a)]

theorem map_glue {f : List Char → List String} {c : Char}
    (hf : ∀ a b, f (a ++ c :: b) = f a ++ f b) {pieces others : List (List Char)}
    (hp : pieces ≠ []) (ho : others ≠ []) :
    (glue pieces (withFront [c] others)).map f = glue (pieces.map f) (others.map f) := by
  induction pieces with
  | nil => exact absurd rfl hp
  | cons piece pieces ih =>
    by_cases hnil : pieces = []
    · obtain ⟨other, rest, rfl⟩ := List.exists_cons_of_ne_nil ho
      rw [hnil]
      show f (piece ++ c :: other) :: rest.map f = (f piece ++ f other) :: rest.map f
      rw [hf]
    · have hmap : pieces.map f ≠ [] := by
        intro h
        exact hnil (List.map_eq_nil_iff.mp h)
      rw [glue_cons piece hnil, List.map_cons, List.map_cons, glue_cons (f piece) hmap, ih hnil]

/-- The names in each of the pieces between the pipes of a text. -/
def pieceNames (text : List Char) : List (List String) :=
  (splitAt '|' text).map (modelNames unionKeywords)

theorem pieceNames_ne_nil (text : List Char) : pieceNames text ≠ [] := by
  intro h
  exact splitAt_ne_nil '|' text (List.map_eq_nil_iff.mp h)

theorem pieceNames_append_cons {c : Char} (h : isWordChar c = false) (hp : c ≠ '|')
    (a b : List Char) : pieceNames (a ++ c :: b) = glue (pieceNames a) (pieceNames b) := by
  rw [pieceNames, splitAt_append, splitAt_cons hp]
  exact map_glue (modelNames_append_cons h unionKeywords) (splitAt_ne_nil '|' a)
    (splitAt_ne_nil '|' b)

theorem splits_pieceNames : Splits pieceNames glue where
  split := by
    intro c hc a b
    have hp : c ≠ '|' := by
      intro he
      rw [he] at hc
      exact absurd hc (by decide)
    exact pieceNames_append_cons (not_isWordChar_of_isSeparator hc) hp a b
  left := fun b => glue_nil_left (pieceNames_ne_nil b)
  right := fun a => glue_nil_right (pieceNames_ne_nil a)

/-! ## The arguments read as a union with pipes -/

theorem modelsOf_splitAt (text : List Char) :
    modelsOf (splitAt '|' text) = (pieceNames text).filterMap List.head? := by
  rw [modelsOf, pieceNames, List.filterMap_map]
  rfl

/-- Whether a container is written in the text. -/
def hasContainer (text : List Char) : Bool := containerMarks.any fun m => contains m.toList text

/-- The models named between the pipes of a text, unless there is no pipe or a container. -/
def pipedModels (text : List Char) : List String :=
  if text.contains '|' && !hasContainer text then modelsOf (splitAt '|' text) else []

/-- The marks of containers start with letters that `Union` has not, and are not separated. -/
theorem eq_cons_of_mem_containerMarks {mark : String} (h : mark ∈ containerMarks) :
    ∃ first more, mark.toList = first :: more ∧ first ∉ "Union[".toList ∧
      (first :: more).any isSeparator = false := by
  have hcases : mark = "List[" ∨ mark = "Dict[" ∨ mark = "Tuple[" ∨ mark = "Set[" := by
    simpa [containerMarks] using h
  rcases hcases with rfl | rfl | rfl | rfl
  · exact ⟨'L', "ist[".toList, rfl, by decide, by decide⟩
  · exact ⟨'D', "ict[".toList, rfl, by decide, by decide⟩
  · exact ⟨'T', "uple[".toList, rfl, by decide, by decide⟩
  · exact ⟨'S', "et[".toList, rfl, by decide, by decide⟩

theorem hasContainer_congr {a b : List Char}
    (h : ∀ mark ∈ containerMarks, contains mark.toList a = contains mark.toList b) :
    hasContainer a = hasContainer b := by
  rw [hasContainer, hasContainer, Bool.eq_iff_iff, List.any_eq_true, List.any_eq_true]
  constructor
  · rintro ⟨mark, hmark, hin⟩
    exact ⟨mark, hmark, h mark hmark ▸ hin⟩
  · rintro ⟨mark, hmark, hin⟩
    exact ⟨mark, hmark, (h mark hmark).symm ▸ hin⟩

theorem pipedModels_congr {a b : List Char} (hpipe : a.contains '|' = b.contains '|')
    (hmarks : hasContainer a = hasContainer b) (hnames : pieceNames a = pieceNames b) :
    pipedModels a = pipedModels b := by
  rw [pipedModels, pipedModels, hpipe, hmarks, modelsOf_splitAt, modelsOf_splitAt, hnames]

theorem pipedModels_tidy (ms : List (List Char)) :
    pipedModels (commaJoin (tidy ms)) = pipedModels (commaJoin ms) := by
  refine pipedModels_congr ?_ ?_ (splits_pieceNames.tidyMembers ms)
  · exact (splits_contains_char (by decide)).tidyMembers ms
  · refine hasContainer_congr fun mark hmark => ?_
    obtain ⟨first, more, heq, -, hseparated⟩ := eq_cons_of_mem_containerMarks hmark
    rw [heq]
    exact (splits_contains (List.cons_ne_nil first more) hseparated).tidyMembers ms

/-- The head and the closing bracket of a union hold no pipe, no container and no name. -/
theorem pipedModels_unionOf (ms : List (List Char)) :
    pipedModels (unionOf ms) = pipedModels (commaJoin ms) := by
  rw [unionOf_eq]
  refine pipedModels_congr ?_ ?_ ?_
  · have hclose := (splits_contains_char (c := '|') (by decide)).concat (c := ']') (by decide)
      (commaJoin ms)
    rw [← hclose]
    simp
  · refine hasContainer_congr fun mark hmark => ?_
    obtain ⟨first, more, heq, hstart, hseparated⟩ := eq_cons_of_mem_containerMarks hmark
    rw [heq, contains_append_of_no_start hstart]
    exact (splits_contains (List.cons_ne_nil first more) hseparated).concat (by decide) _
  · have hhead : pieceNames "Union".toList = [[]] := by decide
    have hopen : pieceNames ("Union".toList ++ '[' :: (commaJoin ms ++ [']'])) =
        glue (pieceNames "Union".toList) (pieceNames (commaJoin ms ++ [']'])) :=
      pieceNames_append_cons (by decide) (by decide) _ _
    rw [hhead, glue_nil_left (pieceNames_ne_nil _), splits_pieceNames.concat (by decide)] at hopen
    exact hopen

end Annotation
end ApiSync
