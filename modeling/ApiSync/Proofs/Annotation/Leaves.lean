import ApiSync.Proofs.Annotation.TreeText
/-!
# Dotted names

A leaf of a union is a name or several of them with points between.  The model that it names is
the first of them that starts with a capital letter and is neither a typing construct nor `None`.
-/

namespace ApiSync
namespace Annotation

open Text

/-! ## Pieces joined by one character -/

section

variable {sep : Char} {ms : List (List Char)}

theorem joinWith_char (m : List Char) (h : ms ≠ []) :
    joinWith [sep] (m :: ms) = m ++ sep :: joinWith [sep] ms := by
  rw [joinWith_cons [sep] m h, List.append_assoc]
  rfl

/-- What holds of the pieces and of two texts with the separator between them holds of all the
pieces joined. -/
theorem joinWith_induction {P : List Char → Prop} (hne : ms ≠ []) (h : ∀ m ∈ ms, P m)
    (hjoin : ∀ a b, P a → P b → P (a ++ sep :: b)) : P (joinWith [sep] ms) := by
  induction ms with
  | nil => exact absurd rfl hne
  | cons m ms ih =>
    obtain ⟨hm, hms⟩ := List.forall_mem_cons.mp h
    by_cases hnil : ms = []
    · rw [hnil]
      exact hm
    · rw [joinWith_char m hnil]
      exact hjoin m _ hm (ih hnil hms)

/-- A reading that starts anew behind the separator reads the pieces one by one. -/
theorem flatMap_joinWith {β : Type} {read : List Char → List β} (hne : ms ≠ [])
    (hread : ∀ a b, read (a ++ sep :: b) = read a ++ read b) :
    read (joinWith [sep] ms) = ms.flatMap read := by
  induction ms with
  | nil => exact absurd rfl hne
  | cons m ms ih =>
    by_cases hnil : ms = []
    · rw [hnil, List.flatMap_singleton]
      rfl
    · rw [joinWith_char m hnil, hread, ih hnil, List.flatMap_cons]

end

/-! ## Leaves -/

/-- A name or several with points between them. -/
structure Leaf where
  parts : List String
  nonempty : parts ≠ []
  words : ∀ p ∈ parts, IsWord p.toList

namespace Leaf

def text (l : Leaf) : List Char := joinWith ['.'] (l.parts.map String.toList)

/-- The first part that may name a model. -/
def model? (l : Leaf) : Option String :=
  l.parts.find? fun p => startsUpper p.toList && !unionKeywords.contains p

variable (l : Leaf)

theorem texts_ne_nil : l.parts.map String.toList ≠ [] := fun h =>
  l.nonempty (List.map_eq_nil_iff.mp h)

theorem not_mem_text {c : Char} (hc : isWordChar c = false) (hdot : c ≠ '.') : c ∉ l.text := by
  refine not_mem_joinWith (fun h => hdot (List.mem_singleton.mp h)) fun m hm => ?_
  obtain ⟨p, hp, rfl⟩ := List.mem_map.mp hm
  exact not_mem_of_isWord (l.words p hp) hc

theorem text_ne_nil : l.text ≠ [] := by
  refine joinWith_induction (P := (· ≠ [])) l.texts_ne_nil (fun m hm => ?_) fun a b _ _ =>
    List.append_ne_nil_of_right_ne_nil a (List.cons_ne_nil _ b)
  obtain ⟨p, hp, rfl⟩ := List.mem_map.mp hm
  exact (l.words p hp).nonempty

theorem trim_text : trim l.text = l.text := by
  have hblank : ∀ c ∈ l.text, isBlank c = false := by
    intro c hc
    rw [Bool.eq_false_iff]
    intro hb
    refine l.not_mem_text (not_isWordChar_of_isBlank hb) (fun hdot => ?_) hc
    rw [hdot] at hb
    exact absurd hb (by decide)
  exact trim_eq_self_iff.mpr ⟨fun c hc => hblank c (List.mem_of_mem_head? hc),
    fun c hc => hblank c (List.mem_of_getLast? hc)⟩

theorem words_text : Annotation.words l.text = l.parts.map String.toList := by
  rw [text, flatMap_joinWith l.texts_ne_nil (words_append_cons (by decide)), List.flatMap_map]
  have hself : ∀ p ∈ l.parts, Annotation.words p.toList = [p.toList] := fun p hp =>
    words_of_isWord (l.words p hp)
  rw [List.flatMap_congr hself, List.map_eq_flatMap]

theorem modelNames_text : modelNames unionKeywords l.text =
    l.parts.filter fun p => startsUpper p.toList && !unionKeywords.contains p := by
  have hupper : ((l.parts.map String.toList).filter startsUpper).map String.ofList =
      l.parts.filter (startsUpper ∘ String.toList) := by
    rw [List.filter_map, List.map_map]
    exact (List.map_congr_left fun p _ => String.ofList_toList).trans (List.map_id _)
  rw [modelNames, words_text, hupper, List.filter_filter]
  exact List.filter_congr fun p _ => Bool.and_comm _ _

theorem head?_modelNames : (modelNames unionKeywords l.text).head? = l.model? := by
  rw [modelNames_text, List.head?_filter, model?]

end Leaf
end Annotation
end ApiSync
