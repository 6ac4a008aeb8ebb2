import ApiSync.Alias.Table
import ApiSync.Proofs.Annotation.Tree
import ApiSync.Proofs.Annotation.UnionMembers
/-!
# The text of a tree of models

The text of a tree is a member of a list of members, and it is trimmed and holds no pipe.  Read up
to its first closing bracket it still names the leftmost model of the tree, since brackets are
closed only behind it; and a closing bracket is in it unless the tree is a name.
-/

namespace ApiSync
namespace Annotation

open Text
open Alias (startsWithWord)

theorem words_of_isWord {w : List Char} (h : IsWord w) : words w = [w] := by
  obtain ⟨c, ws, rfl⟩ := List.exists_cons_of_ne_nil h.nonempty
  have hchars := h.chars
  clear h
  induction ws generalizing c with
  | nil => exact words_cons_of_boundary (hchars c List.mem_cons_self) (by simp)
  | cons d ws ih =>
    have hd : ∀ e ∈ d :: ws, isWordChar e = true := fun e he =>
      hchars e (List.mem_cons_of_mem c he)
    obtain ⟨w, more, hshort, hlong⟩ :=
      words_cons_cons (hchars c List.mem_cons_self) (hd d List.mem_cons_self) ws
    rw [ih d hd] at hshort
    obtain ⟨rfl, rfl⟩ := List.cons.inj hshort
    exact hlong

/-- The only model that a model names is itself. -/
theorem IsModel.modelNames_self {w : String} (h : IsModel w) :
    modelNames unionKeywords w.toList = [w] := by
  have hkeyword : (!unionKeywords.contains w) = true := by simpa using h.noKeyword
  rw [modelNames, words_of_isWord h.word, List.filter_singleton, h.upper]
  show List.filter _ [String.ofList w.toList] = [w]
  rw [String.ofList_toList, List.filter_singleton, hkeyword]
  rfl

theorem not_mem_of_isWord {w : List Char} (h : IsWord w) {c : Char}
    (hc : isWordChar c = false) : c ∉ w := by
  intro hmem
  rw [h.chars c hmem] at hc
  cases hc

theorem trim_of_isWord {w : List Char} (h : IsWord w) : trim w = w := by
  have hblank : ∀ c ∈ w, isBlank c = false := by
    intro c hc
    rw [Bool.eq_false_iff]
    exact fun hb => not_mem_of_isWord h (not_isWordChar_of_isBlank hb) hc
  exact trim_eq_self_iff.mpr ⟨fun c hc => hblank c (List.mem_of_mem_head? hc),
    fun c hc => hblank c (List.mem_of_getLast? hc)⟩

namespace Tree

variable {t : Tree}

/-! ## Its characters -/

/-- What the text of a tree consists of: words and what stands between them. -/
def isTreeChar (c : Char) : Bool := isWordChar c || ['[', ']', '(', ')', ',', ' '].contains c

theorem all_text (h : t.OfModels) : t.text.all isTreeChar = true := by
  induction t with
  | name w =>
    rw [text_name, List.all_eq_true]
    exact fun c hc => by rw [isTreeChar, (h w List.mem_cons_self).word.chars c hc, Bool.true_or]
  | union first more hfirst hmore =>
    have hparts := h.members
    have hmembers : ∀ m ∈ (first :: more).map text, m.all isTreeChar = true :=
      List.forall_mem_map.mpr (List.forall_mem_cons.mpr
        ⟨hfirst (hparts first List.mem_cons_self),
          fun t ht => hmore t ht (hparts t (List.mem_cons_of_mem first ht))⟩)
    rw [text_union, unionOf_eq, List.all_append, List.all_append,
      all_commaJoin (by decide) (by decide) hmembers]
    decide
  | optional inner ih =>
    rw [text_optional, optionalOf_eq, List.all_append, List.all_append, ih h]
    decide
  | group inner ih =>
    rw [text_group, List.all_cons, List.all_append, ih h]
    decide

theorem not_mem_text (h : t.OfModels) {c : Char} (hc : isTreeChar c = false) :
    c ∉ t.text := by
  intro hmem
  rw [List.all_eq_true.mp (all_text h) c hmem] at hc
  cases hc

/-! ## As a member -/

theorem isMember_text (h : t.OfModels) : IsMember t.text := by
  induction t with
  | name w =>
    have hw := (h w List.mem_cons_self).word
    exact isMember_of_not_mem (not_mem_of_isWord hw (by decide)) (not_mem_of_isWord hw (by decide))
      (not_mem_of_isWord hw (by decide))
  | union first more hfirst hmore =>
    have hparts := h.members
    have hmembers : ∀ m ∈ (first :: more).map text, square.Balanced m := by
      refine List.forall_mem_map.mpr (List.forall_mem_cons.mpr ⟨?_, fun t ht => ?_⟩)
      · exact (hfirst (hparts first List.mem_cons_self)).balanced
      · exact (hmore t ht (hparts t (List.mem_cons_of_mem first ht))).balanced
    rw [text_union, unionOf_eq]
    exact isMember_subscript "Union".toList (by decide) (by decide) (by decide)
      (balanced_commaJoin (by decide) hmembers)
  | optional inner ih =>
    rw [text_optional, optionalOf_eq]
    exact isMember_subscript "Optional".toList (by decide) (by decide) (by decide)
      (ih h).balanced
  | group inner ih =>
    have hsame : (group inner).text.filter (!isParen ·) = inner.text.filter (!isParen ·) := by
      rw [text_group, List.filter_cons_of_neg (by decide), List.filter_append,
        List.filter_cons_of_neg (by decide), List.filter_nil, List.append_nil]
    exact (ih h).of_filter (by decide) (by decide) (by decide) hsame

theorem trim_text (h : t.OfModels) : trim t.text = t.text := by
  cases t using induct with
  | name w => exact trim_of_isWord (h w List.mem_cons_self).word
  | union first more =>
    rw [text_union]
    exact trim_of_ends (by decide) (by decide) ("nion[".toList ++ commaJoin _)
  | optional inner => exact trim_of_ends (by decide) (by decide) ("ptional[".toList ++ inner.text)
  | group inner => exact trim_of_ends (by decide) (by decide) inner.text

theorem text_ne_nil_of_models (h : t.OfModels) : t.text ≠ [] :=
  text_ne_nil fun w hw => (h w hw).word.nonempty

theorem tidy_texts {ts : List Tree} (h : ∀ t ∈ ts, t.OfModels) :
    tidy (ts.map text) = ts.map text := by
  induction ts with
  | nil => rfl
  | cons t ts ih =>
    have ht := h t List.mem_cons_self
    have htrim := trim_text ht
    have hne : trim t.text ≠ [] := by
      rw [htrim]
      exact text_ne_nil_of_models ht
    rw [List.map_cons, tidy_cons hne, htrim, ih fun u hu => h u (List.mem_cons_of_mem t hu)]

/-! ## Its leftmost model -/

/-- The first name of a tree. -/
def leftmost : Tree → String := fold id (·.headD "") id id

theorem leftmost_union (first : Tree) (more : List Tree) :
    (union first more).leftmost = first.leftmost := by
  rw [leftmost, fold_union]
  rfl

/-- Whether the tree is a name, in groups perhaps. -/
def isName : Tree → Bool := fold (fun _ => true) (fun _ => false) (fun _ => false) id

theorem isName_union (first : Tree) (more : List Tree) : (union first more).isName = false := by
  rw [isName, fold_union]

theorem bracket_mem_text (h : t.OfModels) : ']' ∈ t.text ↔ t.isName = false := by
  induction t with
  | name w =>
    have hnot := not_mem_of_isWord (h w List.mem_cons_self).word (c := ']') (by decide)
    exact iff_of_false hnot Bool.noConfusion
  | union first more =>
    refine iff_of_true ?_ (isName_union first more)
    rw [text_union]
    exact List.mem_append_right _ List.mem_cons_self
  | optional inner => exact iff_of_true (List.mem_append_right _ List.mem_cons_self) rfl
  | group inner ih =>
    rw [text_group]
    show _ ↔ inner.isName = false
    rw [← ih h]
    simp

/-- The text up to the next closing bracket. -/
def upToBracket (text : List Char) : List Char := text.takeWhile (· ≠ ']')

theorem upToBracket_append {a : List Char} (h : ']' ∉ a) (b : List Char) :
    upToBracket (a ++ b) = a ++ upToBracket b := takeWhile_append_of_not_mem h b

theorem modelNames_append_boundary {rest : List Char} (h : startsWithWord rest = false)
    (a : List Char) :
    modelNames unionKeywords (a ++ rest) =
      modelNames unionKeywords a ++ modelNames unionKeywords rest := by
  cases rest with
  | nil => rw [List.append_nil]; exact (List.append_nil _).symm
  | cons c rest =>
    have hrest : modelNames unionKeywords (c :: rest) = modelNames unionKeywords rest :=
      modelNames_append_cons h unionKeywords [] rest
    rw [modelNames_append_cons h, hrest]

theorem startsWithWord_upToBracket {rest : List Char} (h : startsWithWord rest = false) :
    startsWithWord (upToBracket rest) = false := by
  cases rest with
  | nil => rfl
  | cons c rest =>
    rw [upToBracket, List.takeWhile_cons]
    split
    · exact h
    · rfl

/-- A member ends where no word goes on. -/
theorem commaJoin_boundary (m : List Char) (ms : List (List Char)) (rest : List Char) :
    ∃ r, commaJoin (m :: ms) ++ ']' :: rest = m ++ r ∧ startsWithWord r = false := by
  by_cases hnil : ms = []
  · rw [hnil]
    exact ⟨']' :: rest, rfl, (by decide : isWordChar ']' = false)⟩
  · refine ⟨',' :: ' ' :: commaJoin ms ++ ']' :: rest, ?_, (by decide : isWordChar ',' = false)⟩
    rw [commaJoin_cons m hnil, List.append_assoc]

/-- The words of a construct in front name no model. -/
theorem modelNames_subscript {head : List Char} (hbracket : ']' ∉ head)
    (hnone : modelNames unionKeywords head = []) (inner : List Char) :
    modelNames unionKeywords (upToBracket (head ++ '[' :: inner)) =
      modelNames unionKeywords (upToBracket inner) := by
  have hopen : upToBracket ('[' :: inner) = '[' :: upToBracket inner := by
    rw [upToBracket, List.takeWhile_cons_of_pos (by decide)]
    rfl
  rw [upToBracket_append hbracket, hopen, modelNames_append_cons (by decide), hnone,
    List.nil_append]

theorem modelNames_upToBracket (h : t.OfModels) {rest : List Char}
    (hrest : startsWithWord rest = false) :
    (modelNames unionKeywords (upToBracket (t.text ++ rest))).head? = some t.leftmost := by
  -- The text behind varies: a part of the tree is followed by whatever closes it.
  induction t generalizing rest with
  | name w =>
    have hw := h w List.mem_cons_self
    rw [text_name, upToBracket_append (not_mem_of_isWord hw.word (by decide)),
      modelNames_append_boundary (startsWithWord_upToBracket hrest), hw.modelNames_self]
    rfl
  | union first more hfirst hmore =>
    obtain ⟨r, hr, hstop⟩ := commaJoin_boundary first.text (more.map text) rest
    have hform : (union first more).text ++ rest = "Union".toList ++ '[' :: (first.text ++ r) := by
      rw [text_union, unionOf_eq, List.append_assoc, List.append_assoc, ← hr]
      rfl
    rw [hform, modelNames_subscript (by decide) (by decide), leftmost_union]
    exact hfirst (h.members first List.mem_cons_self) hstop
  | optional inner ih =>
    have hform : (optional inner).text ++ rest =
        "Optional".toList ++ '[' :: (inner.text ++ ']' :: rest) := by
      rw [text_optional, optionalOf_eq, List.append_assoc, List.append_assoc]
      rfl
    rw [hform, modelNames_subscript (by decide) (by decide)]
    exact ih h (show isWordChar ']' = false by decide)
  | group inner ih =>
    have hform : (group inner).text ++ rest = ['('] ++ (inner.text ++ ')' :: rest) := by
      rw [text_group, List.cons_append, List.append_assoc]
      rfl
    have hopen : ∀ text, modelNames unionKeywords (['('] ++ text) =
        modelNames unionKeywords text :=
      modelNames_append_cons (by decide) unionKeywords []
    rw [hform, upToBracket_append (by decide), hopen]
    exact ih h (show isWordChar ')' = false by decide)

/-- A tree names its leftmost model, also if its text is cut at the first closing bracket. -/
theorem memberModel?_upToBracket (h : t.OfModels) :
    memberModel? (upToBracket t.text) = some t.leftmost := by
  have hall := modelNames_upToBracket h (show startsWithWord [] = false from rfl)
  rw [List.append_nil] at hall
  rw [memberModel?_eq]
  exact hall

end Tree
end Annotation
end ApiSync
