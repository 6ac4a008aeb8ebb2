import ApiSync.Proofs.Annotation.Words
/-!
# Three ways to admit a missing value

`Optional[X]`, `Union[X, None]` and `X | None` put different text around the same annotation.
Each is unwrapped to the annotation, the pipe spelling up to the blanks around pipes inside it.
What is searched in the whole text, marks made of letters and the first enumeration, is found in
one of them where it is found in the annotation itself; the words differ by a `None` at the end.
-/

namespace ApiSync
namespace Annotation

open Text

def optionalOf (x : List Char) : List Char := "Optional[".toList ++ x ++ [']']

def unionWithNone (x : List Char) : List Char := unionOf [x, noneName]

def pipeWithNone (x : List Char) : List Char := x ++ " | None".toList

def nullSpellings (x : List Char) : List (List Char) :=
  [optionalOf x, unionWithNone x, pipeWithNone x]

theorem optionalOf_eq (x : List Char) : optionalOf x = "Optional[".toList ++ (x ++ [']']) :=
  List.append_assoc _ _ _

theorem unionWithNone_eq (x : List Char) :
    unionWithNone x = "Union[".toList ++ (x ++ ", None]".toList) := by
  have hjoin : commaJoin [x, noneName] = x ++ ", None".toList := List.append_assoc _ _ _
  rw [unionWithNone, unionOf_eq, hjoin, List.append_assoc]
  rfl

/-- The three spellings with other words in the place of the three names. -/
def spellings (optional union null x : List Char) : List (List Char) :=
  [optional ++ '[' :: (x ++ ']' :: []),
    union ++ '[' :: (x ++ ',' :: ([] ++ ' ' :: (null ++ ']' :: []))),
    x ++ ' ' :: ([] ++ '|' :: ([] ++ ' ' :: null))]

theorem nullSpellings_eq (x : List Char) :
    nullSpellings x = spellings "Optional".toList "Union".toList noneName x := by
  rw [nullSpellings, optionalOf_eq, unionWithNone_eq]
  rfl

theorem lowerAscii_spellings (optional union null x : List Char) :
    (spellings optional union null x).map lowerAscii =
      spellings (lowerAscii optional) (lowerAscii union) (lowerAscii null) (lowerAscii x) := by
  simp only [spellings, lowerAscii, List.map_cons, List.map_append, List.map_nil]
  rfl

/-! ## Searching the spellings -/

/-- A mark of word characters is found in a spelling where it is found in the annotation. -/
theorem contains_spellings {mark optional union null x s : List Char} (hne : mark ≠ [])
    (hmark : ∀ c ∈ mark, isWordChar c = true) (ho : contains mark optional = false)
    (hu : contains mark union = false) (hn : contains mark null = false)
    (hs : s ∈ spellings optional union null x) : contains mark s = contains mark x := by
  have hnot : ∀ {c : Char}, isWordChar c = false → c ∉ mark := by
    intro c hc hm
    rw [hmark c hm] at hc
    cases hc
  have hopen := hnot (c := '[') (by decide)
  have hclose := hnot (c := ']') (by decide)
  have hcomma := hnot (c := ',') (by decide)
  have hspace := hnot (c := ' ') (by decide)
  have hpipe := hnot (c := '|') (by decide)
  have hcases : s = optional ++ '[' :: (x ++ ']' :: []) ∨
      s = union ++ '[' :: (x ++ ',' :: ([] ++ ' ' :: (null ++ ']' :: []))) ∨
      s = x ++ ' ' :: ([] ++ '|' :: ([] ++ ' ' :: null)) := by
    simpa only [spellings, List.mem_cons, List.not_mem_nil, or_false] using hs
  rcases hcases with rfl | rfl | rfl
  · rw [contains_append_cons hne hopen, contains_append_cons hne hclose, ho, contains_nil hne,
      Bool.false_or, Bool.or_false]
  · rw [contains_append_cons hne hopen, contains_append_cons hne hcomma,
      contains_append_cons hne hspace, contains_append_cons hne hclose, hu, hn, contains_nil hne]
    simp
  · rw [contains_append_cons hne hspace, contains_append_cons hne hpipe,
      contains_append_cons hne hspace, hn, contains_nil hne]
    simp

/-- The names in a text, up to a character of no word and from there. -/
theorem modelName?_append_cons {c : Char} (h : isWordChar c = false) (a b : List Char) :
    modelName? (a ++ c :: b) = (modelName? a).or (modelName? b) := by
  rw [modelName?, modelNames_append_cons h, List.head?_append]
  rfl

theorem modelName?_optionalOf (x : List Char) : modelName? (optionalOf x) = modelName? x := by
  have hopen : modelName? ("Optional".toList ++ '[' :: (x ++ ']' :: [])) =
      modelName? (x ++ ']' :: []) := modelName?_append_cons (by decide) _ _
  have hclose : modelName? (x ++ ']' :: []) = (modelName? x).or none :=
    modelName?_append_cons (by decide) _ _
  rw [optionalOf_eq]
  exact hopen.trans (hclose.trans Option.or_none)

/-- Without a model in the annotation the null member is taken for one. -/
theorem modelName?_unionWithNone (x : List Char) :
    modelName? (unionWithNone x) = (modelName? x).or (some "None") := by
  have hopen : modelName? ("Union".toList ++ '[' :: (x ++ ',' :: " None]".toList)) =
      modelName? (x ++ ',' :: " None]".toList) := modelName?_append_cons (by decide) _ _
  rw [unionWithNone_eq]
  exact hopen.trans (modelName?_append_cons (by decide) _ _)

theorem modelName?_pipeWithNone (x : List Char) :
    modelName? (pipeWithNone x) = (modelName? x).or (some "None") :=
  modelName?_append_cons (by decide) _ _

/-! ## The first enumeration -/

def literalMark : List Char := "Literal[".toList

/-- The bracket of an enumeration in a balanced text is closed there. -/
theorem mem_of_cut?_literalMark {x before after : List Char} (h : square.Balanced x)
    (hcut : cut? literalMark x = some (before, after)) : ']' ∈ after := by
  have hcloses := h.closes
  have hopen : literalMark = "Literal".toList ++ '[' :: [] := rfl
  rw [eq_append_of_cut? hcut, hopen, List.append_assoc, List.append_assoc] at hcloses
  exact (Brackets.closes_of_append (Brackets.closes_of_append hcloses)).1 rfl

/-- The text of the first enumeration, up to its closing bracket. -/
def enumText? (text : List Char) : Option (List Char) :=
  (cut? literalMark text).bind fun (_, rest) => (cut? [']'] rest).map Prod.fst

theorem literalTokens_eq (text : List Char) :
    literalTokens text = match enumText? text with
      | none => []
      | some inside => sortNames (distinct ((splitAt ',' inside).filterMap enumToken?)) := by
  have hmark : "Literal[".toList = literalMark := rfl
  rw [literalTokens, enumText?, hmark]
  cases cut? literalMark text with
  | none => rfl
  | some pair =>
    rw [Option.bind_some]
    dsimp only
    cases cut? [']'] pair.2 with
    | none => rfl
    | some inner => rfl

/-- Without the mark of an enumeration there are no tokens. -/
theorem literalTokens_of_not_contains {text : List Char} (h : contains literalMark text = false) :
    literalTokens text = [] := by
  rw [contains, Option.isSome_eq_false_iff, Option.isNone_iff_eq_none] at h
  rw [literalTokens_eq, enumText?, h]
  rfl

theorem enumText?_append {x : List Char} (h : square.Balanced x) {c : Char} {b : List Char}
    (hc : c ∉ literalMark) (hb : cut? literalMark b = none) :
    enumText? (x ++ c :: b) = enumText? x := by
  rw [enumText?, enumText?, cut?_append_cons (by decide) hc]
  cases hcut : cut? literalMark x with
  | none =>
    rw [hb]
    rfl
  | some pair =>
    obtain ⟨before, after⟩ := pair
    dsimp only [Option.bind_some]
    rw [cut?_singleton_append (mem_of_cut?_literalMark h hcut)]
    cases cut? [']'] after <;> rfl

theorem enumText?_append_left {a : List Char} (h : 'L' ∉ a) (b : List Char) :
    enumText? (a ++ b) = enumText? b := by
  have hskip : cut? literalMark (a ++ b) =
      (cut? literalMark b).map fun (before, after) => (a ++ before, after) :=
    cut?_append_of_no_start h b
  rw [enumText?, enumText?, hskip]
  cases cut? literalMark b <;> rfl

theorem mem_nullSpellings {x s : List Char} :
    s ∈ nullSpellings x ↔ s = optionalOf x ∨ s = unionWithNone x ∨ s = pipeWithNone x := by
  simp only [nullSpellings, List.mem_cons, List.not_mem_nil, or_false]

theorem literalTokens_of_mem_nullSpellings {x s : List Char} (h : square.Balanced x)
    (hs : s ∈ nullSpellings x) : literalTokens s = literalTokens x := by
  have henum : enumText? s = enumText? x := by
    rcases mem_nullSpellings.mp hs with rfl | rfl | rfl
    · rw [optionalOf_eq, enumText?_append_left (by decide)]
      exact enumText?_append h (by decide) (by decide)
    · rw [unionWithNone_eq, enumText?_append_left (by decide)]
      exact enumText?_append h (by decide) (by decide)
    · exact enumText?_append h (by decide) (by decide)
  rw [literalTokens_eq, literalTokens_eq, henum]

/-! ## Unwrapping -/

theorem unwrapOptional_eq (text : List Char) :
    unwrapOptional text = match wrapped? "Optional".toList (trim text) with
      | some inner => ⟨inner, true⟩
      | none => match (wrapped? "Union".toList (trim text)).bind
          (fun inner => dropNone? unionOf (members inner)) with
        | some u => u
        | none => (dropNone? (joinWith " | ".toList) (pipePieces (trim text))).getD
            ⟨trim text, false⟩ := by
  rw [unwrapOptional]
  split
  · next hnil =>
    rw [hnil]
    rfl
  · rfl

/-- An annotation on one line that admits no missing value: balanced, without a comma at the top,
and `None` is not mentioned in it. -/
structure NullFree (x : List Char) : Prop where
  nonempty : x ≠ []
  trimmed : trim x = x
  oneLine : x.any isLineBreak = false
  member : IsMember x
  noNone : contains noneName x = false

/-- A member of a union as it stands between its separators: on one line, balanced, without a comma
at the top. -/
structure Written (m : List Char) : Prop where
  nonempty : m ≠ []
  trimmed : trim m = m
  oneLine : m.any isLineBreak = false
  member : IsMember m

theorem NullFree.written {x : List Char} (h : NullFree x) : Written x :=
  ⟨h.nonempty, h.trimmed, h.oneLine, h.member⟩

theorem written_noneName : Written noneName :=
  ⟨by decide, by decide, by decide, ⟨by decide, by decide⟩⟩

theorem wrapped?_of_afterOpening? {head text inside : List Char}
    (h : afterOpening? head (dropTyping text) = some (inside ++ [']'])) (hne : inside ≠ [])
    (ht : trim inside = inside) (hl : inside.any isLineBreak = false) :
    wrapped? head text = some inside := by
  rw [wrapped?, h, Option.bind_some, if_pos List.getLast?_concat]
  dsimp only
  rw [List.dropLast_concat, ht, if_neg hne, hl, if_neg Bool.false_ne_true]

theorem exists_of_wrapped? {head text core : List Char} (h : wrapped? head text = some core) :
    ∃ inside, afterOpening? head (dropTyping text) = some (inside ++ [']']) ∧
      core = trim inside := by
  obtain ⟨rest, hrest, hcore⟩ := Option.bind_eq_some_iff.mp h
  split at hcore
  · next hlast =>
    obtain ⟨inside, rfl⟩ := List.getLast?_eq_some_iff.mp hlast
    refine ⟨inside, hrest, ?_⟩
    dsimp only at hcore
    rw [List.dropLast_concat] at hcore
    split at hcore
    · next hblank =>
      split at hcore
      · rw [hblank, ← Option.some.inj hcore]
      · cases hcore
    · split at hcore
      · cases hcore
      · exact (Option.some.inj hcore).symm
  · cases hcore

theorem suffix_of_dropPrefix? {head cs rest : List Char} (h : dropPrefix? head cs = some rest) :
    rest <:+ cs := ⟨head, (eq_append_of_dropPrefix? h).symm⟩

theorem suffix_of_afterOpening? {head text inside : List Char}
    (h : afterOpening? head text = some inside) : '[' :: inside <:+ text := by
  obtain ⟨rest, hrest, hinside⟩ := Option.bind_eq_some_iff.mp h
  split at hinside
  · next tail heq =>
    have htail : tail = inside := by simpa using hinside
    have hstart : '[' :: inside <:+ rest := by
      rw [← htail, ← heq]
      exact List.dropWhile_suffix _
    exact hstart.trans (suffix_of_dropPrefix? hrest)
  · cases hinside

theorem dropTyping_suffix (text : List Char) : dropTyping text <:+ text := by
  rw [dropTyping]
  cases hprefix : dropPrefix? "typing.".toList text with
  | none => exact List.suffix_refl text
  | some rest => exact suffix_of_dropPrefix? hprefix

/-- Only a text that ends with a bracket is wrapped. -/
theorem wrapped?_eq_none {head text : List Char} {last : Char} (h : text.getLast? = some last)
    (hl : last ≠ ']') : wrapped? head text = none := by
  rw [wrapped?]
  cases hafter : afterOpening? head (dropTyping text) with
  | none => rfl
  | some rest =>
    have hnot : rest.getLast? ≠ some ']' := by
      intro hclosing
      obtain ⟨front, heq⟩ := ((List.suffix_cons _ _).trans (suffix_of_afterOpening? hafter)).trans
        (dropTyping_suffix text)
      rw [← heq, List.getLast?_append, hclosing] at h
      exact hl (by simpa using h.symm)
    rw [Option.bind_some, if_neg hnot]

/-- `Optional` is taken off whatever it is around, on one line and without blanks at the ends. -/
theorem unwrapOptional_of_afterOpening? {text x : List Char} (htrim : trim text = text)
    (h : afterOpening? "Optional".toList (dropTyping text) = some (x ++ [']'])) (hx : x ≠ [])
    (ht : trim x = x) (hl : x.any isLineBreak = false) : unwrapOptional text = ⟨x, true⟩ := by
  rw [unwrapOptional_eq, htrim, wrapped?_of_afterOpening? h hx ht hl]

theorem unwrapOptional_of_optional {x : List Char} (hx : x ≠ []) (ht : trim x = x)
    (hl : x.any isLineBreak = false) : unwrapOptional (optionalOf x) = ⟨x, true⟩ := by
  have htrim : trim (optionalOf x) = optionalOf x :=
    trim_of_ends (by decide) (by decide) ("ptional[".toList ++ x)
  have hafter : afterOpening? "Optional".toList (dropTyping (optionalOf x)) =
      some (x ++ [']']) := by
    rw [optionalOf_eq]
    rfl
  exact unwrapOptional_of_afterOpening? htrim hafter hx ht hl

/-! ### Unions -/

section

variable {ms : List (List Char)}

theorem members_of_written (h : ∀ m ∈ ms, Written m) : members (commaJoin ms) = ms := by
  rw [members_of_members fun m hm => (h m hm).member,
    tidy_eq_self (fun m hm => (h m hm).trimmed) fun m hm => (h m hm).nonempty]

theorem wrapped?_unionOf (hne : ms ≠ []) (h : ∀ m ∈ ms, Written m) :
    wrapped? "Union".toList (unionOf ms) = some (commaJoin ms) := by
  have hafter : afterOpening? "Union".toList (dropTyping (unionOf ms)) =
      some (commaJoin ms ++ [']']) := by
    rw [unionOf_eq]
    rfl
  obtain ⟨m, rest, rfl⟩ := List.exists_cons_of_ne_nil hne
  refine wrapped?_of_afterOpening? hafter ?_ ?_ ?_
  · exact joinWith_ne_nil_of_mem _ List.mem_cons_self (h m List.mem_cons_self).nonempty
  · exact trim_joinWith _ (fun n hn => (h n hn).trimmed) fun n hn => (h n hn).nonempty
  · have hall : (commaJoin (m :: rest)).all (!isLineBreak ·) = true :=
      all_commaJoin (by decide) (by decide) fun n hn => by
        rw [← List.not_any_eq_all_not, (h n hn).oneLine]
        rfl
    rw [← List.not_any_eq_all_not] at hall
    simpa using hall

/-- The null member of a union is dropped wherever it stands. -/
theorem unwrapOptional_unionOf (h : ∀ m ∈ ms, Written m) {u : Unwrapped}
    (hdrop : dropNone? unionOf ms = some u) : unwrapOptional (unionOf ms) = u := by
  have hne : ms ≠ [] := by
    rintro rfl
    cases hdrop
  have htrim : trim (unionOf ms) = unionOf ms :=
    trim_of_ends (by decide) (by decide) ("nion[".toList ++ commaJoin ms)
  have hopt : wrapped? "Optional".toList (unionOf ms) = none := by
    rw [unionOf_eq]
    rfl
  rw [unwrapOptional_eq, htrim, hopt, wrapped?_unionOf hne h]
  dsimp only
  rw [Option.bind_some, members_of_written h, hdrop]

end

section

variable {x : List Char}

theorem ne_noneName_of_pieces (h : noneName ∉ pipePieces x) : x ≠ noneName := by
  rintro rfl
  exact h (by decide)

/-- A union of which one member is left is unwrapped to that member. -/
theorem unwrapOptional_sole {ms : List (List Char)} (h : ∀ m ∈ ms, Written m)
    (hnone : noneName ∈ ms) (hsole : ms.filter (· ≠ noneName) = [x]) :
    unwrapOptional (unionOf ms) = ⟨x, true⟩ :=
  unwrapOptional_unionOf h (by rw [dropNone?, if_pos hnone, hsole])

theorem unwrapOptional_unionWithNone (h : Written x) (hx : noneName ∉ pipePieces x) :
    unwrapOptional (unionWithNone x) = ⟨x, true⟩ := by
  have hms : ∀ m ∈ [x, noneName], Written m := by
    simpa using ⟨h, written_noneName⟩
  refine unwrapOptional_sole hms (List.mem_cons_of_mem x List.mem_cons_self) ?_
  simp [ne_noneName_of_pieces hx]

/-! ### Pipes -/

theorem dropNone?_pipes (ms : List (List Char)) :
    dropNone? (joinWith " | ".toList) ms =
      if noneName ∈ ms ∧ ms.filter (· ≠ noneName) ≠ []
      then some ⟨joinWith " | ".toList (ms.filter (· ≠ noneName)), true⟩ else none := by
  rw [dropNone?]
  by_cases hmem : noneName ∈ ms
  · rw [if_pos hmem]
    cases ms.filter (· ≠ noneName) with
    | nil => rw [if_neg fun h => h.2 rfl]
    | cons m rest =>
      rw [if_pos ⟨hmem, List.cons_ne_nil m rest⟩]
      cases rest <;> rfl
  · rw [if_neg hmem, if_neg fun h => hmem h.1]

theorem unwrapOptional_of_pieces {text : List Char} {pieces : List (List Char)}
    (htrim : trim text = text) (hopt : wrapped? "Optional".toList text = none)
    (hunion : wrapped? "Union".toList text = none) (hmem : noneName ∈ pipePieces text)
    (hrest : (pipePieces text).filter (· ≠ noneName) = pieces) (hne : pieces ≠ []) :
    unwrapOptional text = ⟨joinWith " | ".toList pieces, true⟩ := by
  rw [unwrapOptional_eq, htrim, hopt, hunion, Option.bind_none]
  dsimp only
  rw [dropNone?_pipes, hrest, if_pos ⟨hmem, hne⟩]
  rfl

theorem pipePieces_ne_nil (text : List Char) : pipePieces text ≠ [] := fun hnil =>
  splitAt_ne_nil _ _ (List.map_eq_nil_iff.mp hnil)

theorem filter_pieces {pieces : List (List Char)} (h : noneName ∉ pieces) :
    pieces.filter (· ≠ noneName) = pieces := by
  rw [List.filter_eq_self]
  intro p hp
  have hpn : p ≠ noneName := fun he => h (he ▸ hp)
  simpa using hpn

/-- The annotation with one blank on each side of every pipe. -/
def spacedPipes (x : List Char) : List Char := joinWith " | ".toList (pipePieces x)

theorem pipePieces_pipeWithNone (x : List Char) :
    pipePieces (pipeWithNone x) = pipePieces x ++ [noneName] := by
  have hsplit : splitAt '|' (pipeWithNone x) =
      splitAt '|' (x ++ [' ']) ++ splitAt '|' " None".toList := by
    have hform : pipeWithNone x = (x ++ [' ']) ++ '|' :: " None".toList := by
      rw [List.append_assoc]
      rfl
    rw [hform, splitAt_append_cons]
  rw [pipePieces, hsplit, List.map_append, splitAt_append_blank (by decide) (by decide)]
  rfl

/-- No piece of a text that does not mention `None` is `None`. -/
theorem NullFree.noneName_not_mem (h : NullFree x) : noneName ∉ pipePieces x := by
  intro hmem
  obtain ⟨piece, hpiece, htrim⟩ := List.mem_map.mp hmem
  obtain ⟨a, b, hx⟩ := eq_append_of_mem_splitAt hpiece
  obtain ⟨lead, tail, -, -, hp⟩ := eq_append_trim piece
  have hcontains := contains_append (a ++ lead) noneName (tail ++ b)
  have hwhole : a ++ lead ++ noneName ++ (tail ++ b) = x := by
    rw [hx, hp, htrim]
    simp only [List.append_assoc]
  rw [hwhole, h.noNone] at hcontains
  cases hcontains

theorem unwrapOptional_pipeWithNone (h : Written x) (hx : noneName ∉ pipePieces x) :
    unwrapOptional (pipeWithNone x) = ⟨spacedPipes x, true⟩ := by
  have htrim : trim (pipeWithNone x) = pipeWithNone x :=
    trim_append_of_trim h.trimmed written_noneName.trimmed h.nonempty written_noneName.nonempty
      " | ".toList
  have hlast : (pipeWithNone x).getLast? = some 'e' := by
    rw [pipeWithNone, List.getLast?_append]
    rfl
  have hnone : ∀ head, wrapped? head (pipeWithNone x) = none := fun head =>
    wrapped?_eq_none hlast (by decide)
  refine unwrapOptional_of_pieces htrim (hnone _) (hnone _) ?_ ?_ (pipePieces_ne_nil x)
  · rw [pipePieces_pipeWithNone]
    exact List.mem_append_right _ List.mem_cons_self
  · rw [pipePieces_pipeWithNone, List.filter_append, filter_pieces hx]
    simp

end

end Annotation
end ApiSync
