import ApiSync.Alias.Table
import ApiSync.Proofs.Annotation.Tree
/-!
# Replacing a name in a text

A name is replaced where it stands as a whole word.  A word ends where no word character follows,
so each word of a text is replaced or stays as a whole, and the characters between words stay.
-/

namespace ApiSync
namespace Alias

open Text Annotation

section

variable {n type : List Char}

/-! ## Where a name stands -/

/-- A name does not start where no word does. -/
theorem isHere_of_boundary (hn : IsWord n) {cs : List Char} (h : startsWithWord cs = false)
    (afterWord : Bool) : isHere n afterWord cs = false := by
  obtain ⟨x, more, rfl⟩ := List.exists_cons_of_ne_nil hn.nonempty
  cases cs with
  | nil => rfl
  | cons c cs =>
    have hne : x ≠ c := by
      intro he
      have hx := hn.chars x List.mem_cons_self
      rw [he, show isWordChar c = false from h] at hx
      cases hx
    rw [isHere, dropPrefix?, if_neg hne]

/-- A name does not start inside a word. -/
theorem isHere_inside {c : Char} (hc : isWordChar c = true) (cs : List Char) :
    isHere n true (c :: cs) = false := by
  rw [isHere]
  cases dropPrefix? n (c :: cs) with
  | none => rfl
  | some rest => simp [startsWithWord, hc]

theorem getLast?_isWordChar (hn : IsWord n) (afterWord : Bool) :
    (n.getLast?.map isWordChar).getD afterWord = true := by
  rw [List.getLast?_eq_getLast_of_ne_nil hn.nonempty, Option.map_some, Option.getD_some]
  exact hn.chars _ (List.getLast_mem hn.nonempty)

theorem startsWithWord_cons {c : Char} (h : isWordChar c = false) (cs : List Char) :
    startsWithWord (c :: cs) = false := h

theorem startsWithWord_append {w : List Char} (hw : IsWord w) (cs : List Char) :
    startsWithWord (w ++ cs) = true := by
  obtain ⟨x, more, rfl⟩ := List.exists_cons_of_ne_nil hw.nonempty
  exact hw.chars x List.mem_cons_self

/-- At the start of a word stands the word itself and no other name. -/
theorem isHere_word (hn : IsWord n) {w : List Char} (hw : IsWord w) {cs : List Char}
    (hcs : startsWithWord cs = false) : isHere n false (w ++ cs) = decide (w = n) := by
  by_cases heq : w = n
  · rw [heq, isHere, dropPrefix?_append]
    dsimp only
    rw [getLast?_isWordChar hn, startsWithWord_append hn, hcs, decide_eq_true rfl]
    rfl
  · rw [decide_eq_false heq, isHere]
    cases hdrop : dropPrefix? n (w ++ cs) with
    | none => rfl
    | some rest =>
      dsimp only
      rw [getLast?_isWordChar hn]
      rcases List.append_eq_append_iff.mp (eq_append_of_dropPrefix? hdrop) with
        ⟨more, hmore, hrest⟩ | ⟨more, hmore, hrest⟩
      · -- A longer name would hold the character behind the word.
        cases more with
        | nil => exact absurd (by rw [hmore, List.append_nil]) heq
        | cons c more =>
          have hc := hn.chars c (hmore ▸ List.mem_append_right w List.mem_cons_self)
          rw [hrest] at hcs
          rw [show isWordChar c = false from hcs] at hc
          cases hc
      · cases more with
        | nil => exact absurd (by rw [hmore, List.append_nil]) heq
        | cons c more =>
          have hc := hw.chars c (hmore ▸ List.mem_append_right n List.mem_cons_self)
          rw [hrest, List.cons_append, show startsWithWord (c :: (more ++ cs)) = true from hc]
          simp

/-! ## Reading on behind a word -/

theorem replaceFrom_of_not_here {afterWord : Bool} {c : Char} {cs : List Char}
    (h : isHere n afterWord (c :: cs) = false) :
    replaceFrom n type afterWord 0 (c :: cs) = c :: replaceFrom n type (isWordChar c) 0 cs := by
  conv_lhs => unfold replaceFrom
  rw [if_neg (Nat.lt_irrefl 0), h, if_neg Bool.false_ne_true]

theorem replaceFrom_of_here {x : Char} {more : List Char} {afterWord : Bool} {c : Char}
    {cs : List Char} (h : isHere (x :: more) afterWord (c :: cs) = true) :
    replaceFrom (x :: more) type afterWord 0 (c :: cs) =
      type ++ replaceFrom (x :: more) type (isWordChar c) more.length cs := by
  conv_lhs => unfold replaceFrom
  rw [if_neg (Nat.lt_irrefl 0), if_pos h]

theorem replaceFrom_succ (afterWord : Bool) (skip : Nat) (c : Char) (cs : List Char) :
    replaceFrom n type afterWord (skip + 1) (c :: cs) =
      replaceFrom n type (isWordChar c) skip cs := by
  conv_lhs => unfold replaceFrom
  rw [if_pos (Nat.succ_pos skip), Nat.add_sub_cancel]

theorem replaceFrom_nil (hn : IsWord n) (afterWord : Bool) :
    replaceFrom n type afterWord 0 [] = [] := by
  rw [replaceFrom, isHere_of_boundary hn rfl]
  rfl

theorem replaceFrom_boundary (hn : IsWord n) {cs : List Char} (h : startsWithWord cs = false)
    (afterWord : Bool) :
    replaceFrom n type afterWord 0 cs = replaceFrom n type false 0 cs := by
  have hhere := isHere_of_boundary hn h
  cases cs with
  | nil => rw [replaceFrom_nil hn, replaceFrom_nil hn]
  | cons c cs => rw [replaceFrom_of_not_here (hhere _), replaceFrom_of_not_here (hhere _)]

theorem replaceFrom_cons (hn : IsWord n) {c : Char} (h : isWordChar c = false)
    (cs : List Char) :
    replaceFrom n type false 0 (c :: cs) = c :: replaceFrom n type false 0 cs := by
  rw [replaceFrom_of_not_here (isHere_of_boundary hn (startsWithWord_cons h cs) false), h]

/-- What belongs to a word that is replaced is passed over. -/
theorem replaceFrom_skip (hn : IsWord n) (ws : List Char) {cs : List Char}
    (h : startsWithWord cs = false) (afterWord : Bool) :
    replaceFrom n type afterWord ws.length (ws ++ cs) = replaceFrom n type false 0 cs := by
  induction ws generalizing afterWord with
  | nil => exact replaceFrom_boundary hn h afterWord
  | cons c ws ih =>
    rw [List.length_cons, List.cons_append, replaceFrom_succ]
    exact ih _

/-- What is left of a word that is not replaced stays. -/
theorem replaceFrom_inside (hn : IsWord n) {ws : List Char}
    (hws : ∀ c ∈ ws, isWordChar c = true) {cs : List Char} (h : startsWithWord cs = false) :
    replaceFrom n type true 0 (ws ++ cs) = ws ++ replaceFrom n type false 0 cs := by
  induction ws with
  | nil => exact replaceFrom_boundary hn h true
  | cons c ws ih =>
    have hc := hws c List.mem_cons_self
    rw [List.cons_append, replaceFrom_of_not_here (isHere_inside hc _), hc,
      ih fun d hd => hws d (List.mem_cons_of_mem c hd)]
    rfl

/-- A word is replaced or stays as a whole. -/
theorem replaceFrom_word (hn : IsWord n) {w : List Char} (hw : IsWord w) {cs : List Char}
    (h : startsWithWord cs = false) :
    replaceFrom n type false 0 (w ++ cs) =
      (if w = n then type else w) ++ replaceFrom n type false 0 cs := by
  have hhere := isHere_word hn hw h
  obtain ⟨c, ws, rfl⟩ := List.exists_cons_of_ne_nil hw.nonempty
  have hc := hw.chars c List.mem_cons_self
  rw [List.cons_append] at hhere ⊢
  by_cases heq : c :: ws = n
  · rw [if_pos heq]
    rw [decide_eq_true heq] at hhere
    subst heq
    rw [replaceFrom_of_here hhere, replaceFrom_skip hn ws h]
  · rw [decide_eq_false heq] at hhere
    rw [if_neg heq, replaceFrom_of_not_here hhere, hc,
      replaceFrom_inside hn (fun d hd => hw.chars d (List.mem_cons_of_mem c hd)) h]
    rfl

/-! ## Words that are no alias -/

/-- Only the word itself stands in a word, whatever characters a name has. -/
theorem isHere_other (hn : n ≠ []) {w : List Char} (hw : IsWord w) (hne : n ≠ w) :
    isHere n false w = false := by
  rw [isHere]
  cases hdrop : dropPrefix? n w with
  | none => rfl
  | some rest =>
    have hwhole := eq_append_of_dropPrefix? hdrop
    have hlast : isWordChar (n.getLast hn) = true :=
      hw.chars _ (hwhole ▸ List.mem_append_left rest (List.getLast_mem hn))
    dsimp only
    rw [List.getLast?_eq_getLast_of_ne_nil hn, Option.map_some, Option.getD_some, hlast]
    cases rest with
    | nil => exact absurd (hwhole.trans (List.append_nil n)).symm hne
    | cons c rest =>
      have hc : startsWithWord (c :: rest) = true :=
        hw.chars c (hwhole ▸ List.mem_append_right n List.mem_cons_self)
      rw [hc]
      simp

theorem replaceFrom_rest (hn : n ≠ []) {ws : List Char}
    (hws : ∀ c ∈ ws, isWordChar c = true) : replaceFrom n type true 0 ws = ws := by
  induction ws with
  | nil =>
    obtain ⟨x, more, rfl⟩ := List.exists_cons_of_ne_nil hn
    rfl
  | cons c ws ih =>
    have hc := hws c List.mem_cons_self
    rw [replaceFrom_of_not_here (isHere_inside hc ws), hc,
      ih fun d hd => hws d (List.mem_cons_of_mem c hd)]

theorem replaceFrom_other (hn : n ≠ []) {w : List Char} (hw : IsWord w) (hne : n ≠ w) :
    replaceFrom n type false 0 w = w := by
  have hhere := isHere_other hn hw hne
  obtain ⟨c, ws, rfl⟩ := List.exists_cons_of_ne_nil hw.nonempty
  rw [replaceFrom_of_not_here hhere, hw.chars c List.mem_cons_self,
    replaceFrom_rest hn fun d hd => hw.chars d (List.mem_cons_of_mem c hd)]

/-- A word that is no alias stays as it is. -/
theorem expand_word {table : Table} {w : String} (hw : IsWord w.toList)
    (h : ∀ n ∈ Fields.keys table, n ≠ "" ∧ n ≠ w) : expand table w = w := by
  have hpass : (table.filter (·.2 ≠ "")).foldl replaceName w.toList = w.toList := by
    refine List.foldlRecOn (motive := fun text => text = w.toList) _ _ rfl fun text ht e he => ?_
    obtain ⟨hne, hother⟩ := h e.1 (List.mem_map_of_mem (List.mem_filter.mp he).1)
    rw [ht, replaceName, replaceFrom_other (fun hnil => hne (String.toList_eq_nil_iff.mp hnil)) hw]
    exact fun heq => hother (String.toList_inj.mp heq)
  have hpasses : ∀ k, expandPasses (table.filter (·.2 ≠ "")) k w.toList = w.toList := by
    intro k
    cases k with
    | zero => rfl
    | succ k =>
      rw [expandPasses, hpass]
      exact if_pos rfl
  rw [expand, hpasses, String.ofList_toList]

end

end Alias
end ApiSync
