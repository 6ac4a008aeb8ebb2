import ApiSync.Proofs.Annotation.Brackets
/-!
# Words and the models they name

What is read off a text on both sides of a separator by itself does not see the blanks around the
members of a union, nor the members without text.  Words are read so, since they end at every
other character.  The model that a member of a union names is its first capitalised word outside
the keywords: an `Optional[...]` wrapper makes no difference.
-/

namespace ApiSync
namespace Annotation

open Text

/-! ## Reading on both sides of a separator -/

/-- What stands between the members of a union and behind them. -/
def isSeparator (c : Char) : Bool := isBlank c || c = ',' || c = ']'

/-- A reading of texts that can be done on both sides of a separator and put together. -/
structure Splits {β : Type} (read : List Char → β) (join : β → β → β) : Prop where
  split : ∀ {c}, isSeparator c = true → ∀ a b, read (a ++ c :: b) = join (read a) (read b)
  left : ∀ b, join (read []) (read b) = read b
  right : ∀ a, join (read a) (read []) = read a

section

variable {β : Type} {read : List Char → β} {join : β → β → β}

theorem isSeparator_of_isBlank {c : Char} (h : isBlank c = true) : isSeparator c = true := by
  rw [isSeparator, h]
  rfl

theorem Splits.cons (h : Splits read join) {c : Char} (hc : isSeparator c = true)
    (b : List Char) : read (c :: b) = read b := by
  have hsplit := h.split hc [] b
  rw [List.nil_append, h.left] at hsplit
  exact hsplit

theorem Splits.concat (h : Splits read join) {c : Char} (hc : isSeparator c = true)
    (a : List Char) : read (a ++ [c]) = read a := by
  rw [h.split hc, h.right]

theorem Splits.blanks_append (h : Splits read join) {lead : List Char}
    (hl : ∀ c ∈ lead, isBlank c = true) (text : List Char) : read (lead ++ text) = read text := by
  induction lead with
  | nil => rfl
  | cons c lead ih =>
    rw [List.cons_append, h.cons (isSeparator_of_isBlank (hl c List.mem_cons_self))]
    exact ih fun d hd => hl d (List.mem_cons_of_mem c hd)

theorem Splits.append_blanks (h : Splits read join) (text : List Char) {tail : List Char}
    (ht : ∀ c ∈ tail, isBlank c = true) : read (text ++ tail) = read text := by
  induction tail using List.reverseRecOn with
  | nil => rw [List.append_nil]
  | append_singleton tail c ih =>
    have hc := ht c (List.mem_append_right tail List.mem_cons_self)
    rw [← List.append_assoc, h.concat (isSeparator_of_isBlank hc)]
    exact ih fun d hd => ht d (List.mem_append_left [c] hd)

theorem Splits.trim (h : Splits read join) (cs : List Char) : read (trim cs) = read cs := by
  obtain ⟨lead, tail, hlead, htail, heq⟩ := eq_append_trim cs
  conv_rhs => rw [heq]
  rw [h.append_blanks _ htail, h.blanks_append hlead]

/-- The members of a union are read one by one. -/
theorem Splits.members (h : Splits read join) (m : List Char) (ms : List (List Char)) :
    read (commaJoin (m :: ms)) = join (read m) (read (commaJoin ms)) := by
  by_cases hnil : ms = []
  · rw [hnil]
    exact (h.right m).symm
  · rw [commaJoin_cons m hnil, h.split (by decide), h.cons (by decide)]

theorem Splits.tidyMembers (h : Splits read join) (ms : List (List Char)) :
    read (commaJoin (tidy ms)) = read (commaJoin ms) := by
  induction ms with
  | nil => rfl
  | cons m ms ih =>
    by_cases hblank : Text.trim m = []
    · have hread : read m = read [] := by rw [← h.trim m, hblank]
      rw [tidy_cons_of_blank hblank, h.members, hread, h.left, ih]
    · rw [tidy_cons hblank, h.members, h.members, h.trim, ih]

end

/-! ## Words -/

theorem toNat_of_isWordChar {c : Char} (h : isWordChar c = true) :
    48 ≤ c.toNat ∧ c.toNat ≤ 122 := by
  have hupper : c.isUpper = decide ('A'.val ≤ c.val ∧ c.val ≤ 'Z'.val) := rfl
  have hlower : c.isLower = (decide ('a'.val ≤ c.val) && decide (c.val ≤ 'z'.val)) := rfl
  have hdigit : c.isDigit = (decide ('0'.val ≤ c.val) && decide (c.val ≤ '9'.val)) := rfl
  have halnum : c.isAlphanum = (c.isUpper || c.isLower || c.isDigit) := rfl
  rw [isWordChar, halnum, hupper, hlower, hdigit] at h
  simp only [Bool.or_eq_true, Bool.and_eq_true, decide_eq_true_eq,
    UInt32.le_iff_toNat_le] at h
  have hZ : 'Z'.val.toNat = 90 := rfl
  have hz : 'z'.val.toNat = 122 := rfl
  have hc : c.toNat = c.val.toNat := rfl
  rcases h with ((h | h) | h) | rfl
  · change 65 ≤ c.val.toNat ∧ c.val.toNat ≤ _ at h
    omega
  · change 97 ≤ c.val.toNat ∧ c.val.toNat ≤ _ at h
    omega
  · change 48 ≤ c.val.toNat ∧ c.val.toNat ≤ 57 at h
    omega
  · decide

theorem not_isWordChar_of_isBlank {c : Char} (h : isBlank c = true) : isWordChar c = false := by
  by_contra hw
  have hrange := toNat_of_isWordChar (Bool.not_eq_false _ ▸ hw)
  simp only [isBlank, Bool.or_eq_true, Bool.and_eq_true, decide_eq_true_eq] at h
  omega

theorem not_isWordChar_of_isSeparator {c : Char} (h : isSeparator c = true) :
    isWordChar c = false := by
  rw [isSeparator, Bool.or_eq_true, Bool.or_eq_true, decide_eq_true_eq, decide_eq_true_eq] at h
  rcases h with (h | rfl) | rfl
  · exact not_isWordChar_of_isBlank h
  · decide
  · decide

theorem words_cons_of_not {c : Char} (h : isWordChar c = false) (cs : List Char) :
    words (c :: cs) = words cs := by
  conv_lhs => unfold words
  rw [h, if_neg Bool.false_ne_true]

/-- A word character before none is a word of its own. -/
theorem words_cons_of_boundary {c : Char} (h : isWordChar c = true) {cs : List Char}
    (hcs : ∀ d rest, cs = d :: rest → isWordChar d = false) :
    words (c :: cs) = [c] :: words cs := by
  conv_lhs => unfold words
  rw [h, if_pos rfl]
  split
  · next d rest w ws hw =>
    rw [hcs d rest rfl, if_neg Bool.false_ne_true, hw]
  · rfl

/-- A word character before another one is part of its word. -/
theorem words_cons_cons {c d : Char} (hc : isWordChar c = true) (hd : isWordChar d = true)
    (cs : List Char) : ∃ w ws, words (d :: cs) = w :: ws ∧
      words (c :: d :: cs) = (c :: w) :: ws := by
  have hw : ∃ w ws, words (d :: cs) = w :: ws := by
    unfold words
    rw [hd, if_pos rfl]
    split
    · split
      · exact ⟨_, _, rfl⟩
      · exact ⟨_, _, rfl⟩
    · exact ⟨_, _, rfl⟩
  obtain ⟨w, ws, hws⟩ := hw
  refine ⟨w, ws, hws, ?_⟩
  conv_lhs => unfold words
  rw [hc, if_pos rfl, hws]
  simp only [hd, if_true]

/-- A word does not reach over a character that is none of a word. -/
theorem words_append_cons {c : Char} (h : isWordChar c = false) (a b : List Char) :
    words (a ++ c :: b) = words a ++ words b := by
  induction a with
  | nil => exact words_cons_of_not h b
  | cons x a ih =>
    rw [List.cons_append]
    cases hx : isWordChar x with
    | false => rw [words_cons_of_not hx, words_cons_of_not hx, ih]
    | true =>
      cases a with
      | nil =>
        have hb : ∀ d rest, [] ++ c :: b = d :: rest → isWordChar d = false := by
          intro d rest he
          cases he
          exact h
        rw [words_cons_of_boundary hx hb, ih, words_cons_of_boundary hx (by simp)]
        rfl
      | cons y a =>
        cases hy : isWordChar y with
        | false =>
          have hb : ∀ (z : List Char) d rest, y :: z = d :: rest → isWordChar d = false := by
            intro z d rest he
            cases he
            exact hy
          rw [List.cons_append] at ih ⊢
          rw [words_cons_of_boundary hx (hb _), words_cons_of_boundary hx (hb _), ih]
          rfl
        | true =>
          rw [List.cons_append] at ih ⊢
          obtain ⟨w, ws, hws, hall⟩ := words_cons_cons hx hy a
          obtain ⟨v, vs, hvs, hlong⟩ := words_cons_cons hx hy (a ++ c :: b)
          rw [hvs, hws, List.cons_append] at ih
          cases ih
          rw [hlong, hall, List.cons_append]

theorem splits_words : Splits words (fun a b => a ++ b) where
  split := fun hc => words_append_cons (not_isWordChar_of_isSeparator hc)
  left := fun b => List.nil_append (words b)
  right := fun a => List.append_nil (words a)

/-- A word character starts a word of its own or goes on with the first word behind it. -/
theorem words_cons_cases {c : Char} (h : isWordChar c = true) (cs : List Char) :
    words (c :: cs) = [c] :: words cs ∨
      ∃ w ws, words cs = w :: ws ∧ words (c :: cs) = (c :: w) :: ws := by
  cases cs with
  | nil =>
    refine Or.inl (words_cons_of_boundary h fun d rest he => ?_)
    cases he
  | cons d cs =>
    cases hd : isWordChar d with
    | false =>
      refine Or.inl (words_cons_of_boundary h fun e rest he => ?_)
      cases he
      exact hd
    | true => exact Or.inr (words_cons_cons h hd cs)

/-- A text that starts with a word character starts with its first word. -/
theorem words_eq_cons {c : Char} (h : isWordChar c = true) (cs : List Char) :
    ∃ w ws rest, words (c :: cs) = w :: ws ∧ c :: cs = w ++ rest := by
  induction cs generalizing c with
  | nil =>
    refine ⟨[c], [], [], words_cons_of_boundary h fun d rest he => ?_, rfl⟩
    cases he
  | cons d cs ih =>
    cases hd : isWordChar d with
    | false =>
      refine ⟨[c], words (d :: cs), d :: cs, words_cons_of_boundary h fun e rest he => ?_, rfl⟩
      cases he
      exact hd
    | true =>
      obtain ⟨w, ws, hws, hlong⟩ := words_cons_cons h hd cs
      obtain ⟨v, vs, rest, hvs, heq⟩ := ih hd
      rw [hws] at hvs
      cases hvs
      exact ⟨c :: w, ws, rest, hlong, by rw [heq, List.cons_append]⟩

/-- Each word stands in the text. -/
theorem eq_append_of_mem_words {w cs : List Char} (h : w ∈ words cs) :
    ∃ a b, cs = a ++ w ++ b := by
  induction cs with
  | nil => exact absurd h List.not_mem_nil
  | cons c cs ih =>
    have hlater : w ∈ words cs → ∃ a b, c :: cs = a ++ w ++ b := by
      intro hw
      obtain ⟨a, b, heq⟩ := ih hw
      exact ⟨c :: a, b, by rw [heq]; rfl⟩
    cases hc : isWordChar c with
    | false =>
      rw [words_cons_of_not hc] at h
      exact hlater h
    | true =>
      obtain ⟨v, vs, rest, hvs, heq⟩ := words_eq_cons hc cs
      rw [hvs] at h
      rcases List.mem_cons.mp h with rfl | hvs'
      · exact ⟨[], rest, heq⟩
      · refine hlater ?_
        rcases words_cons_cases hc cs with hsplit | ⟨u, us, hus, hlong⟩
        · rw [hsplit] at hvs
          cases hvs
          exact hvs'
        · rw [hlong] at hvs
          cases hvs
          rw [hus]
          exact List.mem_cons_of_mem u hvs'

/-! ## Names of models -/

theorem mem_modelNames_iff {exclude : List String} {text : List Char} {model : String} :
    model ∈ modelNames exclude text ↔
      model.toList ∈ words text ∧ startsUpper model.toList = true ∧ model ∉ exclude := by
  rw [modelNames, List.mem_filter, List.mem_map]
  constructor
  · rintro ⟨⟨w, hw, rfl⟩, hexclude⟩
    obtain ⟨hw, hupper⟩ := List.mem_filter.mp hw
    rw [String.toList_ofList]
    exact ⟨hw, hupper, by simpa using hexclude⟩
  · rintro ⟨hw, hupper, hexclude⟩
    exact ⟨⟨model.toList, List.mem_filter.mpr ⟨hw, hupper⟩, String.ofList_toList⟩,
      by simpa using hexclude⟩

theorem mem_modelNames_of_subset {exclude : List String} {a b : List Char} (h : words a ⊆ words b)
    {model : String} (hm : model ∈ modelNames exclude a) : model ∈ modelNames exclude b := by
  rw [mem_modelNames_iff] at hm ⊢
  exact ⟨h hm.1, hm.2⟩

theorem modelNames_eq_of_words {a b : List Char} (h : words a = words b) (exclude : List String) :
    modelNames exclude a = modelNames exclude b := by
  rw [modelNames, modelNames, h]

theorem modelNames_append_cons {c : Char} (h : isWordChar c = false) (exclude : List String)
    (a b : List Char) :
    modelNames exclude (a ++ c :: b) = modelNames exclude a ++ modelNames exclude b := by
  rw [modelNames, modelNames, modelNames, words_append_cons h]
  simp only [List.filter_append, List.map_append]

/-- What names no model in a union. -/
def unionKeywords : List String := typingKeywords ++ ["None"]

/-- A member names its first model, with or without a wrapper that makes it optional. -/
theorem memberModel?_eq (raw : List Char) :
    memberModel? raw = (modelNames unionKeywords raw).head? := by
  have htrim := modelNames_eq_of_words (splits_words.trim raw) unionKeywords
  unfold memberModel?
  dsimp only
  split
  · next rest hrest =>
    split
    · next hlast =>
      obtain ⟨inside, rfl⟩ := List.getLast?_eq_some_iff.mp hlast
      have hwhole := eq_append_of_dropPrefix? hrest
      have hnames : modelNames unionKeywords (trim raw) = modelNames unionKeywords inside := by
        rw [hwhole]
        show modelNames unionKeywords ("Optional".toList ++ '[' :: (inside ++ ']' :: [])) = _
        rw [modelNames_append_cons (by decide), modelNames_append_cons (by decide)]
        show [] ++ (_ ++ []) = _
        rw [List.append_nil, List.nil_append]
      rw [List.dropLast_concat, ← htrim, hnames]
      exact congrArg List.head? (modelNames_eq_of_words (splits_words.trim inside) unionKeywords)
    · rw [← htrim]
      rfl
  · rw [← htrim]
    rfl

/-- The models of a list are found in its members. -/
theorem exists_of_mem_memberModels {ms : List (List Char)} {model : String}
    (h : model ∈ memberModels ms) : ∃ m ∈ ms, model ∈ modelNames unionKeywords m := by
  obtain ⟨m, hm, hmodel⟩ := List.mem_filterMap.mp h
  rw [memberModel?_eq] at hmodel
  exact ⟨m, hm, List.mem_of_mem_head? hmodel⟩

theorem memberModel?_of_words {a b : List Char} (h : words a = words b) :
    memberModel? a = memberModel? b := by
  rw [memberModel?_eq, memberModel?_eq, modelNames_eq_of_words h]

theorem memberModel?_trim (m : List Char) : memberModel? (trim m) = memberModel? m :=
  memberModel?_of_words (splits_words.trim m)

/-- The model that each member names, if it names one: its first capitalised word that is neither
a typing construct nor `None`. -/
def modelsOf (ms : List (List Char)) : List String :=
  ms.filterMap fun m => (modelNames unionKeywords m).head?

theorem memberModels_eq (ms : List (List Char)) : memberModels ms = modelsOf ms := by
  rw [memberModels, modelsOf]
  congr 1
  exact funext memberModel?_eq

end Annotation
end ApiSync
