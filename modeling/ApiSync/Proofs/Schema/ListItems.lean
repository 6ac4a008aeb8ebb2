import ApiSync.Schema
import ApiSync.Proofs.Annotation.NullSpellings
/-!
# The item name of a list

The first `List[name]` of an annotation ends inside it, since its bracket is closed there.  So it
is the same in every text that goes on with something other than an opening bracket.
-/

namespace ApiSync
namespace Schema

open Text Annotation

/-- What may follow an annotation: nothing that a list, or the name of one, goes on with. -/
structure Ends (rest : List Char) : Prop where
  start : ∃ c b, rest = c :: b ∧ c ∉ "List".toList ∧ c ∉ "list".toList
  closed : (trimStart rest).head? ≠ some '['
  noItem : listItem? rest = none

theorem afterOpening?_append {head text rest : List Char} {c : Char} {b : List Char}
    (hrest : rest = c :: b) (hc : c ∉ head) (hopen : (trimStart rest).head? ≠ some '[') :
    afterOpening? head (text ++ rest) = (afterOpening? head text).map (· ++ rest) := by
  have hdrop : dropPrefix? head (text ++ rest) = (dropPrefix? head text).map (· ++ rest) := by
    rw [hrest]
    exact dropPrefix?_append_cons hc text b
  rw [afterOpening?, afterOpening?, hdrop]
  cases dropPrefix? head text with
  | none => rfl
  | some tail =>
    rw [Option.map_some, Option.bind_some, Option.bind_some]
    cases htail : trimStart tail with
    | nil =>
      have hblank : ∀ d ∈ tail, isBlank d = true := List.dropWhile_eq_nil_iff.mp htail
      have hskip : trimStart (tail ++ rest) = trimStart rest := by
        rw [trimStart, List.dropWhile_append_of_pos hblank, trimStart]
      rw [hskip]
      cases hstart : trimStart rest with
      | nil => rfl
      | cons d more =>
        rw [hstart] at hopen
        have hd : d ≠ '[' := fun he => hopen (he ▸ rfl)
        split
        · next heq =>
          cases heq
          exact absurd rfl hd
        · rfl
    | cons d more =>
      have hmem : d ∈ tail := (List.dropWhile_suffix _).subset (htail ▸ List.mem_cons_self)
      have hskip : trimStart (tail ++ rest) = d :: (more ++ rest) := by
        rw [trimStart, (dropWhile_append_of_mem hmem (not_isBlank_of_trimStart htail) rest).1,
          ← trimStart, htail, List.cons_append]
      rw [hskip]
      by_cases hd : d = '['
      · subst hd
        rfl
      · split
        · next heq =>
          cases heq
          exact absurd rfl hd
        · split
          · next heq =>
            cases heq
            exact absurd rfl hd
          · rfl

/-- The name that the brackets of a list hold, if they hold a single name. -/
def itemName? (inside : List Char) : Option (List Char) :=
  let body := trimStart inside
  let name := body.takeWhile isWordChar
  match name, trimStart (body.dropWhile isWordChar) with
  | c :: _, ']' :: _ => if c.isDigit then none else some name
  | _, _ => none

theorem listItemHere?_eq (text : List Char) :
    listItemHere? text = ((afterOpening? "List".toList text).or
      (afterOpening? "list".toList text)).bind itemName? := rfl

/-- A closing bracket ends the reading of the name. -/
theorem itemName?_append {inside : List Char} (h : ']' ∈ inside) (rest : List Char) :
    itemName? (inside ++ rest) = itemName? inside := by
  obtain ⟨hbody, hmem⟩ := dropWhile_append_of_mem (p := isBlank) h (by decide) rest
  have hname := takeWhile_append_of_mem (p := isWordChar) hmem (by decide) rest
  obtain ⟨hdrop, hin⟩ := dropWhile_append_of_mem (p := isWordChar) hmem (by decide) rest
  obtain ⟨hafter, hclose⟩ := dropWhile_append_of_mem (p := isBlank) hin (by decide) rest
  obtain ⟨d, more, hd⟩ := List.exists_cons_of_ne_nil (List.ne_nil_of_mem hclose)
  simp only [itemName?, trimStart]
  rw [hbody, hname, hdrop, hafter, hd, List.cons_append]
  cases ((inside.dropWhile isBlank).takeWhile isWordChar) with
  | nil => rfl
  | cons c name =>
    by_cases hbracket : d = ']'
    · subst hbracket
      rfl
    · split
      · next heq =>
        cases heq
        exact absurd rfl hbracket
      · split
        · next heq =>
          cases heq
          exact absurd rfl hbracket
        · rfl

theorem listItemHere?_append {text rest : List Char} (ht : square.Closes text) (h : Ends rest) :
    listItemHere? (text ++ rest) = listItemHere? text := by
  obtain ⟨c, b, hrest, hcapital, hsmall⟩ := h.start
  have hcloses : ∀ {head inside}, afterOpening? head text = some inside → ']' ∈ inside := by
    intro head inside hinside
    obtain ⟨front, heq⟩ := suffix_of_afterOpening? hinside
    rw [← heq] at ht
    exact (Brackets.closes_of_append ht).1 rfl
  rw [listItemHere?_eq, listItemHere?_eq, afterOpening?_append hrest hcapital h.closed,
    afterOpening?_append hrest hsmall h.closed]
  cases hfirst : afterOpening? "List".toList text with
  | some inside => exact itemName?_append (hcloses hfirst) rest
  | none =>
    cases hsecond : afterOpening? "list".toList text with
    | some inside => exact itemName?_append (hcloses hsecond) rest
    | none => rfl

theorem listItem?_append {text rest : List Char} (ht : square.Closes text) (h : Ends rest) :
    listItem? (text ++ rest) = listItem? text := by
  induction text with
  | nil => exact h.noItem
  | cons c text ih =>
    have hhere := listItemHere?_append ht h
    rw [List.cons_append] at hhere ⊢
    rw [listItem?, listItem?, hhere, ih ht.2]

theorem listItem?_of_mem_nullSpellings {x s : List Char} (h : square.Balanced x)
    (hs : s ∈ nullSpellings x) : listItem? s = listItem? x := by
  rcases mem_nullSpellings.mp hs with rfl | rfl | rfl
  · have hends : Ends [']'] := ⟨⟨']', [], rfl, by decide, by decide⟩, by decide, by decide⟩
    rw [optionalOf_eq]
    exact listItem?_append h.closes hends
  · have hends : Ends ", None]".toList :=
      ⟨⟨',', " None]".toList, rfl, by decide, by decide⟩, by decide, by decide⟩
    rw [unionWithNone_eq]
    exact listItem?_append h.closes hends
  · have hends : Ends " | None".toList :=
      ⟨⟨' ', "| None".toList, rfl, by decide, by decide⟩, by decide, by decide⟩
    exact listItem?_append h.closes hends

/-- The item name is what the text behind the bracket starts with. -/
theorem eq_takeWhile_of_itemName? {inside name : List Char} (h : itemName? inside = some name) :
    (trimStart inside).takeWhile isWordChar = name ∧ name ≠ [] := by
  simp only [itemName?] at h
  split at h
  · next c rest _ heq _ =>
    split at h
    · cases h
    · have hname : (trimStart inside).takeWhile isWordChar = name := by simpa using h
      refine ⟨hname, ?_⟩
      rw [← hname, heq]
      exact List.cons_ne_nil _ _
  · cases h

/-- The item name is read behind an opening bracket. -/
theorem exists_of_listItem? {text name : List Char} (h : listItem? text = some name) :
    ∃ front inside, text = front ++ '[' :: inside ∧ itemName? inside = some name := by
  induction text with
  | nil => cases h
  | cons c text ih =>
    rw [listItem?, Option.or_eq_some_iff] at h
    rcases h with hhere | ⟨-, hlater⟩
    · rw [listItemHere?_eq] at hhere
      obtain ⟨inside, hstart, hname⟩ := Option.bind_eq_some_iff.mp hhere
      have hsuffix : '[' :: inside <:+ c :: text := by
        rcases Option.or_eq_some_iff.mp hstart with hcapital | ⟨-, hsmall⟩
        · exact suffix_of_afterOpening? hcapital
        · exact suffix_of_afterOpening? hsmall
      obtain ⟨front, hfront⟩ := hsuffix
      exact ⟨front, inside, hfront.symm, hname⟩
    · obtain ⟨front, inside, heq, hname⟩ := ih hlater
      exact ⟨c :: front, inside, congrArg (c :: ·) heq, hname⟩

end Schema
end ApiSync
