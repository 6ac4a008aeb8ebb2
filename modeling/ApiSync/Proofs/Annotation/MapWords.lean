import ApiSync.Proofs.Alias.Replacement
import ApiSync.Proofs.Annotation.TreeText
/-!
# Replacing the words of a text

A text is a sequence of words and of the characters between them, so what is known of the empty
text and is passed on by a character in front and by a word in front holds of every text.
`mapWords` replaces each word by another text.  Nothing that is put in for a word can join what
stands around it, so replacing words twice is replacing them once.
-/

namespace ApiSync
namespace Annotation

open Text
open Alias (startsWithWord startsWithWord_cons)

/-! ## Texts as words and the characters between them -/

theorem isWord_takeWhile {c : Char} (h : isWordChar c = true) (cs : List Char) :
    IsWord ((c :: cs).takeWhile isWordChar) := by
  constructor
  · rw [List.takeWhile_cons, if_pos h]
    exact List.cons_ne_nil _ _
  · exact fun d hd => List.all_eq_true.mp List.all_takeWhile d hd

theorem startsWithWord_dropWhile (cs : List Char) :
    startsWithWord (cs.dropWhile isWordChar) = false := by
  induction cs with
  | nil => rfl
  | cons c cs ih =>
    cases hc : isWordChar c with
    | false =>
      rw [List.dropWhile_cons, hc, if_neg Bool.false_ne_true]
      exact hc
    | true =>
      rw [List.dropWhile_cons, if_pos hc]
      exact ih

/-- What holds of the empty text and is passed on by a character that is none of a word and by a
word that is not going on holds of every text. -/
@[elab_as_elim]
theorem text_induction {motive : List Char → Prop} (nil : motive [])
    (cons : ∀ c cs, isWordChar c = false → motive cs → motive (c :: cs))
    (word : ∀ w cs, IsWord w → startsWithWord cs = false → motive cs → motive (w ++ cs))
    (text : List Char) : motive text := by
  induction hn : text.length using Nat.strongRecOn generalizing text with
  | ind n ih =>
    cases text with
    | nil => exact nil
    | cons c cs =>
      rw [List.length_cons] at hn
      cases hc : isWordChar c with
      | false => exact cons c cs hc (ih cs.length (by omega) cs rfl)
      | true =>
        have hrest : ((c :: cs).dropWhile isWordChar).length < n := by
          rw [List.dropWhile_cons, if_pos hc]
          have := (List.dropWhile_sublist (p := isWordChar) (l := cs)).length_le
          omega
        rw [← List.takeWhile_append_dropWhile (p := isWordChar) (l := c :: cs)]
        exact word _ _ (isWord_takeWhile hc cs) (startsWithWord_dropWhile _) (ih _ hrest _ rfl)

theorem startsWithWord_append_of_boundary {a cs : List Char} (ha : startsWithWord a = false)
    (hcs : startsWithWord cs = false) : startsWithWord (a ++ cs) = false := by
  cases a with
  | nil => exact hcs
  | cons c a => exact ha

/-- Behind a text that ends where no word goes on the words are read anew. -/
theorem words_append_boundary {cs : List Char} (h : startsWithWord cs = false) (a : List Char) :
    words (a ++ cs) = words a ++ words cs := by
  cases cs with
  | nil =>
    rw [List.append_nil]
    exact (List.append_nil _).symm
  | cons c cs => rw [words_append_cons h, words_cons_of_not h]

theorem words_word {w cs : List Char} (hw : IsWord w) (h : startsWithWord cs = false) :
    words (w ++ cs) = w :: words cs := by
  rw [words_append_boundary h, words_of_isWord hw, List.singleton_append]

theorem words_plain_append {a : List Char} (h : ∀ c ∈ a, isWordChar c = false) (b : List Char) :
    words (a ++ b) = words b := by
  induction a with
  | nil => rfl
  | cons c a ih =>
    obtain ⟨hc, ha⟩ := List.forall_mem_cons.mp h
    rw [List.cons_append, words_cons_of_not hc]
    exact ih ha

/-- Texts with something between them that is no part of words are read one by one. -/
theorem words_joinWith {sep : List Char} (hne : sep ≠ []) (hsep : sep.all (!isWordChar ·) = true)
    (ms : List (List Char)) : words (joinWith sep ms) = ms.flatMap words := by
  obtain ⟨c, rest, rfl⟩ := List.exists_cons_of_ne_nil hne
  have hplain : ∀ d ∈ c :: rest, isWordChar d = false := by simpa using hsep
  obtain ⟨hc, hrest⟩ := List.forall_mem_cons.mp hplain
  induction ms with
  | nil => rfl
  | cons m ms ih =>
    by_cases hnil : ms = []
    · subst hnil
      exact (List.append_nil _).symm
    · rw [joinWith_cons _ m hnil, List.append_assoc, List.cons_append, words_append_cons hc,
        words_plain_append hrest, ih, List.flatMap_cons]

theorem words_commaJoin (ms : List (List Char)) : words (commaJoin ms) = ms.flatMap words :=
  words_joinWith (List.cons_ne_nil ',' _) rfl ms

theorem isWord_of_mem_words {w text : List Char} (h : w ∈ words text) : IsWord w := by
  induction text using text_induction with
  | nil => cases h
  | cons c cs hc ih => exact ih (words_cons_of_not hc cs ▸ h)
  | word v cs hv hcs ih =>
    rw [words_word hv hcs] at h
    obtain rfl | hrest := List.mem_cons.mp h
    · exact hv
    · exact ih hrest

/-! ## Replacing each word -/

/-- What a word that has ended is replaced by. -/
def mapped (f : List Char → List Char) (word : List Char) : List Char :=
  if word = [] then [] else f word

/-- The text with each word replaced, where `word` has been read of the current one. -/
def mapWordsFrom (f : List Char → List Char) (word : List Char) : List Char → List Char
  | [] => mapped f word
  | c :: cs =>
    if isWordChar c then mapWordsFrom f (word ++ [c]) cs
    else mapped f word ++ c :: mapWordsFrom f [] cs

/-- The text with `f w` in the place of each maximal run `w` of word characters. -/
def mapWords (f : List Char → List Char) (text : List Char) : List Char := mapWordsFrom f [] text

section

variable (f g : List Char → List Char)

theorem mapWordsFrom_boundary {cs : List Char} (h : startsWithWord cs = false)
    (word : List Char) : mapWordsFrom f word cs = mapped f word ++ mapWords f cs := by
  cases cs with
  | nil =>
    show mapped f word = mapped f word ++ []
    rw [List.append_nil]
  | cons c cs =>
    have hc : isWordChar c = false := h
    rw [mapWords, mapWordsFrom, mapWordsFrom, hc, if_neg Bool.false_ne_true]
    rfl

theorem mapWordsFrom_append {w : List Char} (hw : ∀ c ∈ w, isWordChar c = true)
    (word cs : List Char) : mapWordsFrom f word (w ++ cs) = mapWordsFrom f (word ++ w) cs := by
  induction w generalizing word with
  | nil => rw [List.append_nil, List.nil_append]
  | cons c w ih =>
    obtain ⟨hc, hrest⟩ := List.forall_mem_cons.mp hw
    rw [List.cons_append, mapWordsFrom, if_pos hc, ih hrest, List.append_assoc,
      List.singleton_append]

theorem mapWords_nil : mapWords f [] = [] := rfl

theorem mapWords_cons {c : Char} (h : isWordChar c = false) (cs : List Char) :
    mapWords f (c :: cs) = c :: mapWords f cs := by
  rw [mapWords, mapWordsFrom, h, if_neg Bool.false_ne_true]
  rfl

theorem mapWords_word {w cs : List Char} (hw : IsWord w) (h : startsWithWord cs = false) :
    mapWords f (w ++ cs) = f w ++ mapWords f cs := by
  rw [mapWords, mapWordsFrom_append f hw.chars, List.nil_append, mapWordsFrom_boundary f h, mapped,
    if_neg hw.nonempty]

theorem mapWords_of_isWord {w : List Char} (hw : IsWord w) : mapWords f w = f w := by
  have hword : mapWords f (w ++ []) = f w ++ mapWords f [] := mapWords_word f hw rfl
  rwa [List.append_nil, mapWords_nil, List.append_nil] at hword

theorem startsWithWord_mapWords {cs : List Char} (h : startsWithWord cs = false) :
    startsWithWord (mapWords f cs) = false := by
  cases cs with
  | nil => rfl
  | cons c cs =>
    rw [mapWords_cons f h]
    exact h

theorem mapWords_append_boundary {cs : List Char} (h : startsWithWord cs = false)
    (a : List Char) : mapWords f (a ++ cs) = mapWords f a ++ mapWords f cs := by
  induction a using text_induction with
  | nil => rfl
  | cons c a hc ih => rw [List.cons_append, mapWords_cons f hc, mapWords_cons f hc, ih]; rfl
  | word w a hw ha ih =>
    rw [List.append_assoc, mapWords_word f hw (startsWithWord_append_of_boundary ha h),
      mapWords_word f hw ha, ih, List.append_assoc]

/-- What is put in for a word is read by itself when the words are replaced again. -/
theorem mapWords_mapWords (text : List Char) :
    mapWords g (mapWords f text) = mapWords (fun w => mapWords g (f w)) text := by
  induction text using text_induction with
  | nil => rfl
  | cons c cs hc ih => rw [mapWords_cons f hc, mapWords_cons g hc, mapWords_cons _ hc, ih]
  | word w cs hw hcs ih =>
    rw [mapWords_word f hw hcs, mapWords_append_boundary g (startsWithWord_mapWords f hcs),
      mapWords_word _ hw hcs, ih]

theorem words_mapWords (text : List Char) :
    words (mapWords f text) = (words text).flatMap fun w => words (f w) := by
  induction text using text_induction with
  | nil => rfl
  | cons c cs hc ih => rw [mapWords_cons f hc, words_cons_of_not hc, words_cons_of_not hc, ih]
  | word w cs hw hcs ih =>
    rw [mapWords_word f hw hcs, words_append_boundary (startsWithWord_mapWords f hcs),
      words_word hw hcs, ih, List.flatMap_cons]

variable {f g}

theorem mapWords_congr {text : List Char} (h : ∀ w ∈ words text, f w = g w) :
    mapWords f text = mapWords g text := by
  induction text using text_induction with
  | nil => rfl
  | cons c cs hc ih =>
    rw [words_cons_of_not hc] at h
    rw [mapWords_cons f hc, mapWords_cons g hc, ih h]
  | word w cs hw hcs ih =>
    rw [words_word hw hcs] at h
    obtain ⟨hfirst, hrest⟩ := List.forall_mem_cons.mp h
    rw [mapWords_word f hw hcs, mapWords_word g hw hcs, hfirst, ih hrest]

theorem mapWords_id (text : List Char) : mapWords id text = text := by
  induction text using text_induction with
  | nil => rfl
  | cons c cs hc ih => rw [mapWords_cons id hc, ih]
  | word w cs hw hcs ih => rw [mapWords_word id hw hcs, ih]; rfl

theorem mapWords_self {text : List Char} (h : ∀ w ∈ words text, f w = w) :
    mapWords f text = text :=
  (mapWords_congr h).trans (mapWords_id text)

end

end Annotation
end ApiSync
