import ApiSync.Proofs.Annotation.FirstUnion
/-!
# Where the members of a union stand

The commas at which a text is split are those where as much is closed as opened, whatever was
closed too early in between.  So every part of a text that opens what it closes does the same.
Flattening takes members out of the brackets of a nested union: such a member stood behind at
least one bracket of that union.
-/

namespace ApiSync
namespace Annotation

open Text

/-! ## Splitting a text that may close brackets too early -/

/-- No comma stands where as much is closed as opened. -/
def NoTopComma (text : List Char) : Prop := ∀ a b, text = a ++ ',' :: b → square.net a ≠ 0

theorem noTopComma_nil : NoTopComma [] := fun a b h => by simp at h

/-- A character goes to the end unless it is a comma that stands where as much is closed as
opened. -/
theorem NoTopComma.concat {text : List Char} {c : Char} (h : NoTopComma text)
    (hc : ¬(c = ',' ∧ square.net (text ++ [c]) = 0)) : NoTopComma (text ++ [c]) := by
  intro a b hab
  rcases List.eq_nil_or_concat b with rfl | ⟨b, d, rfl⟩
  · obtain ⟨rfl, hlast⟩ := List.append_inj' hab rfl
    obtain rfl : c = ',' := by simpa using hlast
    intro hzero
    refine hc ⟨rfl, ?_⟩
    rw [Brackets.net_append, hzero]
    rfl
  · rw [List.concat_eq_append, ← List.cons_append, ← List.append_assoc] at hab
    exact h a b (List.append_inj' hab rfl).1

theorem NoTopComma.part {a text b : List Char} (h : NoTopComma (a ++ (text ++ b)))
    (ha : square.net a = 0) : NoTopComma text := by
  rintro x y rfl
  have hnet := h (a ++ x) (y ++ b) (by simp)
  rwa [Brackets.net_append, ha, Int.zero_add] at hnet

/-- The parts of a text between commas. -/
structure PartsOf (parts : List (List Char)) (text : List Char) : Prop where
  nonempty : parts ≠ []
  joined : joinWith [','] parts = text
  even : ∀ m ∈ parts, square.net m = 0
  single : ∀ m ∈ parts, NoTopComma m

theorem net_comma_cons (cs : List Char) : square.net (',' :: cs) = square.net cs :=
  Brackets.net_plain (by decide) (by decide) cs

theorem net_joinWith {sep : List Char} (hsep : square.net sep = 0) {parts : List (List Char)}
    (h : ∀ m ∈ parts, square.net m = 0) : square.net (joinWith sep parts) = 0 := by
  induction parts with
  | nil => rfl
  | cons m parts ih =>
    obtain ⟨hm, hparts⟩ := List.forall_mem_cons.mp h
    by_cases hnil : parts = []
    · rw [hnil]
      exact hm
    · rw [joinWith_cons sep m hnil, Brackets.net_append, Brackets.net_append, hm, hsep, ih hparts]
      rfl

/-- The depth that the splitting counts is what has been opened more than closed. -/
theorem net_concat (text : List Char) (c : Char) :
    square.net (text ++ [c]) = if c = '[' then square.net text + 1
      else if c = ']' then square.net text - 1 else square.net text := by
  rw [Brackets.net_append]
  by_cases ho : c = '['
  · rw [if_pos ho, ho]
    rfl
  · rw [if_neg ho]
    by_cases hc : c = ']'
    · rw [if_pos hc, hc]
      rfl
    · rw [if_neg hc, Brackets.net_plain ho hc]
      exact Int.add_zero _

/-- Splitting cuts at every comma where as much is closed as opened, and nowhere else. -/
theorem splitMembers_eq_append {current : List Char} (hcurrent : NoTopComma current)
    (text : List Char) :
    ∃ front last, splitMembers (square.net current) current text = front ++ [last] ∧
      (∀ m ∈ front, square.net m = 0) ∧ (∀ m ∈ front ++ [last], NoTopComma m) ∧
      joinWith [','] (front ++ [last]) = current ++ text := by
  induction text generalizing current with
  | nil =>
    refine ⟨[], current, rfl, fun m hm => absurd hm List.not_mem_nil, fun m hm => ?_, ?_⟩
    · rw [List.mem_singleton.mp hm]
      exact hcurrent
    · rw [List.append_nil]
      rfl
  | cons c cs ih =>
    rw [splitMembers, ← net_concat]
    split
    · next hcut =>
      obtain ⟨rfl, hzero⟩ := hcut
      have hnet : square.net current = 0 := by
        rw [Brackets.net_append] at hzero
        rw [← hzero]
        exact (Int.add_zero _).symm
      obtain ⟨front, last, hsplit, heven, hsingle, hjoin⟩ := ih noTopComma_nil
      refine ⟨current :: front, last, ?_, ?_, ?_, ?_⟩
      · rw [hzero]
        exact congrArg (current :: ·) hsplit
      · exact List.forall_mem_cons.mpr ⟨hnet, heven⟩
      · rw [List.cons_append]
        exact List.forall_mem_cons.mpr ⟨hcurrent, hsingle⟩
      · rw [List.cons_append, joinWith_char current (by simp), hjoin]
        rfl
    · next hgo =>
      obtain ⟨front, last, hsplit, heven, hsingle, hjoin⟩ := ih (hcurrent.concat hgo)
      exact ⟨front, last, hsplit, heven, hsingle, by rw [hjoin, List.append_assoc]; rfl⟩

theorem joinWith_splitMembers (text : List Char) :
    joinWith [','] (splitMembers 0 [] text) = text := by
  obtain ⟨front, last, hsplit, -, -, hjoin⟩ := splitMembers_eq_append noTopComma_nil text
  rw [show square.net [] = 0 from rfl] at hsplit
  rw [hsplit]
  exact hjoin

theorem partsOf_splitMembers {text : List Char} (h : square.net text = 0) :
    PartsOf (splitMembers 0 [] text) text := by
  obtain ⟨front, last, hsplit, heven, hsingle, hjoin⟩ :=
    splitMembers_eq_append noTopComma_nil text
  rw [show square.net [] = 0 from rfl] at hsplit
  have hlast : square.net last = 0 := by
    rw [List.nil_append] at hjoin
    by_cases hnone : front = []
    · rw [hnone] at hjoin
      rw [← h, ← hjoin]
      rfl
    · rw [← hjoin, joinWith_append [','] hnone (List.cons_ne_nil last []), Brackets.net_append,
        Brackets.net_append, net_joinWith rfl heven] at h
      have hcomma : square.net [','] = 0 := rfl
      have hone : joinWith [','] [last] = last := rfl
      rw [hcomma, hone] at h
      omega
  rw [hsplit]
  refine ⟨by simp, hjoin, ?_, hsingle⟩
  intro m hm
  rcases List.mem_append.mp hm with hfront | hm
  · exact heven m hfront
  · rw [List.mem_singleton.mp hm]
    exact hlast

theorem members_eq_tidy (text : List Char) : members text = tidy (splitMembers 0 [] text) := rfl

/-- What becomes of the members of a text becomes of its parts. -/
theorem flatMap_members (become : List Char → List (List Char)) (text : List Char) :
    (members text).flatMap become =
      (splitMembers 0 [] text).flatMap fun m => if trim m = [] then [] else become (trim m) := by
  rw [members_eq_tidy]
  induction splitMembers 0 [] text with
  | nil => rfl
  | cons m parts ih =>
    rw [List.flatMap_cons, ← ih]
    by_cases hblank : trim m = []
    · rw [tidy_cons_of_blank hblank, if_pos hblank]
      rfl
    · rw [tidy_cons hblank, if_neg hblank, List.flatMap_cons]

/-! ## Standing in a text -/

/-- The part stands in the text behind at least so many brackets that are open there. -/
def StandsAt (depth : Int) (part text : List Char) : Prop :=
  ∃ a b, text = a ++ (part ++ b) ∧ depth ≤ square.net a

theorem StandsAt.trans {depth depth' : Int} {part middle text : List Char}
    (h : StandsAt depth part middle) (h' : StandsAt depth' middle text) :
    StandsAt (depth + depth') part text := by
  obtain ⟨a, b, rfl, ha⟩ := h
  obtain ⟨x, y, rfl, hx⟩ := h'
  refine ⟨x ++ a, b ++ y, by simp, ?_⟩
  rw [Brackets.net_append]
  omega

theorem StandsAt.mono {depth depth' : Int} {part text : List Char} (h : StandsAt depth part text)
    (hle : depth' ≤ depth) : StandsAt depth' part text := by
  obtain ⟨a, b, heq, ha⟩ := h
  exact ⟨a, b, heq, Int.le_trans hle ha⟩

theorem PartsOf.stands {parts : List (List Char)} {text : List Char} (h : PartsOf parts text)
    {m : List Char} (hm : m ∈ parts) : ∃ a b, text = a ++ (m ++ b) ∧ square.net a = 0 := by
  obtain ⟨-, rfl, heven, -⟩ := h
  induction parts with
  | nil => exact absurd hm List.not_mem_nil
  | cons first parts ih =>
    have hrest : ∀ n ∈ parts, square.net n = 0 := fun n hn =>
      heven n (List.mem_cons_of_mem first hn)
    by_cases hnil : parts = []
    · rw [hnil] at hm ⊢
      rw [List.mem_singleton.mp hm]
      exact ⟨[], [], (List.append_nil first).symm, rfl⟩
    · rw [joinWith_char first hnil]
      rcases List.mem_cons.mp hm with rfl | hm
      · exact ⟨[], _, rfl, rfl⟩
      · obtain ⟨a, b, heq, ha⟩ := ih hm hrest
        refine ⟨first ++ ',' :: a, b, by rw [heq]; simp, ?_⟩
        rw [Brackets.net_append, net_comma_cons, heven first List.mem_cons_self, ha]
        rfl

theorem net_of_blank {blanks : List Char} (h : ∀ c ∈ blanks, isBlank c = true) :
    square.net blanks = 0 :=
  Brackets.net_of_not_mem (not_mem_blanks (by decide) h) (not_mem_blanks (by decide) h)

/-- A member of a list as it comes out of the splitting. -/
structure IsPiece (m : List Char) : Prop where
  even : square.net m = 0
  single : NoTopComma m
  trimmed : trim m = m
  nonempty : m ≠ []

/-- The members of a text stand in it where as much is closed as opened. -/
theorem mem_members {text m : List Char} (h : square.net text = 0) (hm : m ∈ members text) :
    IsPiece m ∧ ∃ a b, text = a ++ (m ++ b) ∧ square.net a = 0 := by
  have hparts := partsOf_splitMembers h
  have hne : m ≠ [] := by simpa using (List.mem_filter.mp hm).2
  obtain ⟨part, hpart, rfl⟩ := mem_tidy hm
  obtain ⟨lead, tail, hlead, htail, heq⟩ := eq_append_trim part
  rw [List.append_assoc] at heq
  have heven := hparts.even part hpart
  have hsingle := hparts.single part hpart
  obtain ⟨a, b, htext, ha⟩ := hparts.stands hpart
  rw [heq, Brackets.net_append, Brackets.net_append, net_of_blank hlead, net_of_blank htail]
    at heven
  rw [heq] at hsingle
  refine ⟨⟨by omega, hsingle.part (net_of_blank hlead), trim_trim part, hne⟩,
    a ++ lead, tail ++ b, ?_, ?_⟩
  · rw [htext]
    conv_lhs => rw [heq]
    simp only [List.append_assoc]
  · rw [Brackets.net_append, ha, net_of_blank hlead]
    rfl

/-! ## Standing in a nested union -/

theorem net_unionName (qualified : Bool) {blanks : List Char}
    (h : ∀ c ∈ blanks, isBlank c = true) : square.net (unionName qualified ++ blanks) = 0 := by
  rw [Brackets.net_append, net_of_blank h]
  cases qualified <;> rfl

/-- What a nested union holds stands between its first bracket and a bracket that ends it. -/
theorem eq_append_of_nestedUnion? {m inside : List Char} (h : nestedUnion? m = some inside) :
    ∃ qualified blanks, (∀ c ∈ blanks, isBlank c = true) ∧
      m = (unionName qualified ++ blanks) ++ '[' :: (inside ++ [']']) := by
  obtain ⟨rest, hrest, hinside⟩ := Option.bind_eq_some_iff.mp h
  split at hinside
  · next hend =>
    obtain ⟨blanks, hblanks, heq⟩ := eq_append_of_opening hrest
    obtain ⟨front, hfront⟩ := List.getLast?_eq_some_iff.mp hend.1
    rw [hfront, List.dropLast_concat] at hinside
    obtain rfl : front = inside := Option.some.inj hinside
    refine ⟨startsWith "typing.".toList m, blanks, hblanks, ?_⟩
    rw [← hfront, List.append_assoc]
    exact heq
  · cases hinside

theorem net_of_nestedUnion? {m inside : List Char} (h : nestedUnion? m = some inside) :
    square.net inside = square.net m ∧ StandsAt 1 inside m ∧ inside.length < m.length := by
  obtain ⟨qualified, blanks, hblanks, heq⟩ := eq_append_of_nestedUnion? h
  have hhead := net_unionName qualified hblanks
  generalize unionName qualified ++ blanks = head at heq hhead
  subst heq
  have hopen : ∀ cs, square.net ('[' :: cs) = square.net cs + 1 := square.net_opening
  have hclose : square.net [']'] = -1 := rfl
  refine ⟨?_, ⟨head ++ ['['], [']'], by simp, ?_⟩, by simp; omega⟩
  · rw [Brackets.net_append, hopen, Brackets.net_append, hclose, hhead]
    omega
  · rw [Brackets.net_append, hhead]
    decide

/-- A member that flattening makes of a text is one of the text, or stood in a union among them
behind a bracket of that union; in any case it is no union itself. -/
theorem mem_flattenMembersFrom {fuel : Nat} {text f : List Char} (hnet : square.net text = 0)
    (hfuel : text.length ≤ fuel) (hf : f ∈ flattenMembersFrom fuel text) :
    IsPiece f ∧ nestedUnion? f = none ∧ (f ∈ members text ∨
      ∃ m ∈ members text, nestedUnion? m ≠ none ∧ StandsAt 1 f m) := by
  induction fuel generalizing text f with
  | zero =>
    rw [List.length_eq_zero_iff.mp (Nat.le_zero.mp hfuel)] at hf
    exact absurd hf List.not_mem_nil
  | succ fuel ih =>
    rw [flattenMembersFrom_succ] at hf
    obtain ⟨m, hm, hfm⟩ := List.mem_flatMap.mp hf
    obtain ⟨hpiece, a, b, htext, -⟩ := mem_members hnet hm
    rw [flattenMember] at hfm
    split at hfm
    · next inside hinside =>
      obtain ⟨heven, hstands, hshort⟩ := net_of_nestedUnion? hinside
      have hlength : m.length ≤ text.length := by
        rw [htext]
        simp only [List.length_append]
        omega
      have hsome : nestedUnion? m ≠ none := by rw [hinside]; exact Option.some_ne_none inside
      have hinner : square.net inside = 0 := heven.trans hpiece.even
      obtain ⟨hfpiece, hplain, hwhere⟩ := ih hinner (by omega) hfm
      refine ⟨hfpiece, hplain, Or.inr ⟨m, hm, hsome, ?_⟩⟩
      rcases hwhere with hmem | ⟨n, hn, -, hstands'⟩
      · obtain ⟨-, x, y, hxy, hx⟩ := mem_members hinner hmem
        have hfirst : StandsAt 0 f inside := ⟨x, y, hxy, Int.le_of_eq hx.symm⟩
        exact (hfirst.trans hstands).mono (by decide)
      · obtain ⟨-, x, y, hxy, hx⟩ := mem_members hinner hn
        have hmiddle : StandsAt 0 n inside := ⟨x, y, hxy, Int.le_of_eq hx.symm⟩
        exact ((hstands'.trans hmiddle).trans hstands).mono (by decide)
    · next hnone =>
      rw [List.mem_singleton.mp hfm]
      exact ⟨hpiece, hnone, Or.inl hm⟩

theorem mem_flattenMembers {text f : List Char} (hnet : square.net text = 0)
    (hf : f ∈ flattenMembers text) : IsPiece f ∧ nestedUnion? f = none ∧ (f ∈ members text ∨
      ∃ m ∈ members text, nestedUnion? m ≠ none ∧ StandsAt 1 f m) :=
  mem_flattenMembersFrom hnet (Nat.le_refl _) hf

end Annotation
end ApiSync
