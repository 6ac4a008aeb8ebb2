import ApiSync.Proofs.Annotation.NullSpellings
/-!
# A null member in any place

`Optional`, a union in brackets and a union with pipes are unwrapped to the same annotation, on
whichever side of it `None` stands.  A union in brackets keeps its other members in their order.

A union with pipes is put together again with one blank on each side of every pipe.  That is the
text as it was if each pipe had blanks of its own; a blank that two pipes share becomes two.
-/

namespace ApiSync
namespace Annotation

open Text

/-! ## Blanks around pipes -/

/-- On each side of every pipe stands one blank, and no other blank beside it. -/
def PipesSpaced (x : List Char) : Prop :=
  ∀ a b, x = a ++ '|' :: b →
    (∃ front, a = front ++ [' '] ∧ ∀ c ∈ front.getLast?, isBlank c = false) ∧
      ∃ rest, b = ' ' :: rest ∧ ∀ c ∈ rest.head?, isBlank c = false

theorem all_not_isBlank_iff {o : Option Char} :
    o.all (!isBlank ·) = true ↔ ∀ c ∈ o, isBlank c = false := by
  cases o <;> simp

/-- The places of the pipes one by one. -/
theorem pipesSpaced_iff {x : List Char} : PipesSpaced x ↔ ∀ i < x.length, x[i]? = some '|' →
    ((x.take i).getLast? = some ' ' ∧ (x.take i).dropLast.getLast?.all (!isBlank ·) = true) ∧
      (x.drop (i + 1)).head? = some ' ' ∧ (x.drop (i + 1)).tail.head?.all (!isBlank ·) = true := by
  simp only [all_not_isBlank_iff]
  constructor
  · intro h i hi hpipe
    have hx : x = x.take i ++ '|' :: x.drop (i + 1) := by
      obtain ⟨_, hget⟩ := List.getElem?_eq_some_iff.mp hpipe
      rw [← hget, List.getElem_cons_drop, List.take_append_drop]
    obtain ⟨⟨front, hfront, hlast⟩, rest, hrest, hnext⟩ := h _ _ hx
    rw [hfront, hrest, List.dropLast_concat]
    exact ⟨⟨List.getLast?_concat, hlast⟩, rfl, hnext⟩
  · rintro h a b rfl
    have hplace := h a.length (by simp) (by simp)
    rw [List.take_left, show (a ++ '|' :: b).drop (a.length + 1) = b by simp] at hplace
    obtain ⟨⟨hend, hlast⟩, hstart, hnext⟩ := hplace
    obtain ⟨front, rfl⟩ := List.getLast?_eq_some_iff.mp hend
    obtain ⟨rest, rfl⟩ := List.head?_eq_some_iff.mp hstart
    rw [List.dropLast_concat] at hlast
    exact ⟨⟨front, rfl, hlast⟩, rest, rfl, hnext⟩

instance : DecidablePred PipesSpaced := fun _ => decidable_of_iff _ pipesSpaced_iff.symm

section

variable {a b : List Char}

theorem pipePieces_cons (ha : '|' ∉ a) (b : List Char) :
    pipePieces (a ++ [' '] ++ '|' :: ' ' :: b) = trim a :: pipePieces b := by
  have hfirst : '|' ∉ a ++ [' '] := by simpa using ha
  rw [pipePieces, splitAt_append_cons, splitAt_of_not_mem hfirst, List.map_append,
    List.map_singleton, trim_append_of_blank (by decide),
    splitAt_cons_blank (by decide) (by decide)]
  rfl

/-- Behind the first pipe and its blank the pipes are spaced as well, if no other one is next. -/
theorem PipesSpaced.rest (h : PipesSpaced (a ++ [' '] ++ '|' :: ' ' :: b))
    (hb : ∀ c ∈ b.head?, isBlank c = false) (hpipe : b.head? ≠ some '|') : PipesSpaced b := by
  rintro x y rfl
  obtain ⟨⟨front, hfront, hlast⟩, hright⟩ := h (a ++ [' '] ++ '|' :: ' ' :: x) y (by simp)
  refine ⟨?_, hright⟩
  rcases List.eq_nil_or_concat x with rfl | ⟨x, d, rfl⟩
  · exact absurd rfl hpipe
  · rw [List.concat_eq_append] at hfront hb ⊢
    have hsplit : (a ++ [' '] ++ '|' :: ' ' :: x) ++ [d] = front ++ [' '] := by
      rw [← hfront]
      simp
    obtain ⟨rfl, hd⟩ := List.append_inj' hsplit rfl
    obtain rfl : d = ' ' := by simpa using hd
    refine ⟨x, rfl, fun c hc => hlast c ?_⟩
    have hx : x ≠ [] := by
      rintro rfl
      exact absurd (hb ' ' rfl) (by decide)
    have hsuffix : a ++ [' '] ++ '|' :: ' ' :: x = (a ++ [' '] ++ ['|', ' ']) ++ x := by simp
    rwa [hsuffix, List.getLast?_append_of_ne_nil _ hx]

end

/-- Putting the pieces together again gives the text back if no piece is empty. -/
theorem spacedPipes_eq_self {x : List Char} (ht : trim x = x) (hs : PipesSpaced x)
    (hp : [] ∉ pipePieces x) : spacedPipes x = x := by
  -- The text behind the first pipe is shorter, and its pieces are the other pieces.
  induction hlen : x.length using Nat.strong_induction_on generalizing x with
  | _ n ih =>
    by_cases hmem : '|' ∈ x
    · obtain ⟨p, q, rfl, hfirst⟩ := List.eq_append_cons_of_mem hmem
      obtain ⟨⟨a, rfl, ha⟩, b, rfl, hb⟩ := hs p q rfl
      have hnot : '|' ∉ a := fun h => hfirst (List.mem_append_left _ h)
      rw [pipePieces_cons hnot, List.mem_cons, not_or] at hp
      obtain ⟨hhead, hlast⟩ := trim_eq_self_iff.mp ht
      have hane : a ≠ [] := by
        rintro rfl
        exact absurd (hhead ' ' rfl) (by decide)
      have hbne : b ≠ [] := by
        rintro rfl
        exact absurd (hlast ' ' (by simp)) (by decide)
      have hatrim : trim a = a := by
        refine trim_eq_self_iff.mpr ⟨fun c hc => hhead c ?_, ha⟩
        rwa [List.append_assoc, List.head?_append_of_ne_nil a hane]
      have hbtrim : trim b = b := by
        refine trim_eq_self_iff.mpr ⟨hb, fun c hc => hlast c ?_⟩
        have hsuffix : a ++ [' '] ++ '|' :: ' ' :: b = (a ++ [' '] ++ ['|', ' ']) ++ b := by simp
        rwa [hsuffix, List.getLast?_append_of_ne_nil _ hbne]
      have hpipe : b.head? ≠ some '|' := by
        intro hstart
        obtain ⟨tail, rfl⟩ := List.head?_eq_some_iff.mp hstart
        refine hp.2 ?_
        rw [pipePieces, splitAt, if_pos rfl]
        exact List.mem_cons_self
      have hrest := ih b.length (by rw [← hlen]; simp; omega) hbtrim (hs.rest hb hpipe) hp.2 rfl
      rw [spacedPipes] at hrest ⊢
      rw [pipePieces_cons hnot, joinWith_cons _ _ (pipePieces_ne_nil b), hrest, hatrim]
      simp
    · rw [spacedPipes, pipePieces, splitAt_of_not_mem hmem]
      exact ht

theorem spacedPipes_eq_self_iff {x : List Char} (hne : x ≠ []) (ht : trim x = x)
    (hs : PipesSpaced x) : spacedPipes x = x ↔ [] ∉ pipePieces x := by
  refine ⟨fun hself hempty => ?_, spacedPipes_eq_self ht hs⟩
  obtain ⟨front, back, hpieces⟩ := List.append_of_mem hempty
  obtain ⟨hhead, hlast⟩ := trim_eq_self_iff.mp ht
  have hblank : isBlank ' ' ≠ false := by decide
  rw [spacedPipes, hpieces] at hself
  -- The empty piece has a separator on each side, or it stands at an end of the text.
  cases front with
  | nil =>
    cases back with
    | nil => exact hne hself.symm
    | cons next back =>
      rw [List.nil_append, joinWith_cons _ _ (List.cons_ne_nil next back)] at hself
      exact hblank (hhead ' ' (by rw [← hself]; rfl))
  | cons first front =>
    rw [joinWith_append _ (List.cons_ne_nil first front) (List.cons_ne_nil [] back)] at hself
    cases back with
    | nil =>
      have hend : x = (joinWith " | ".toList (first :: front) ++ [' ', '|']) ++ [' '] := by
        rw [← hself]
        simp [joinWith]
      exact hblank (hlast ' ' (by rw [hend, List.getLast?_concat]; rfl))
    | cons next back =>
      rw [joinWith_cons _ [] (List.cons_ne_nil next back)] at hself
      have hmiddle : x = (joinWith " | ".toList (first :: front) ++ [' ']) ++
          '|' :: (' ' :: ' ' :: '|' :: ' ' :: joinWith " | ".toList (next :: back)) := by
        rw [← hself]
        simp
      obtain ⟨-, rest, hrest, hnext⟩ := hs _ _ hmiddle
      obtain rfl := (List.cons.inj hrest).2
      exact hblank (hnext ' ' rfl)

/-! ## The spellings -/

/-- An annotation that admits no missing value, and in which blanks stand around pipes as they are
put there. -/
structure Unwrappable (x : List Char) : Prop where
  written : Written x
  noNull : noneName ∉ pipePieces x
  spaced : PipesSpaced x

def noneWithPipe (x : List Char) : List Char := "None | ".toList ++ x

section

variable {x : List Char}

theorem pipePieces_noneWithPipe (x : List Char) :
    pipePieces (noneWithPipe x) = noneName :: pipePieces x :=
  pipePieces_cons (a := noneName) (by decide) x

theorem unwrapOptional_typingOptional (h : Written x) :
    unwrapOptional ("typing.".toList ++ optionalOf x) = ⟨x, true⟩ := by
  have htrim : trim ("typing.".toList ++ optionalOf x) = "typing.".toList ++ optionalOf x :=
    trim_of_ends (by decide) (by decide) ("yping.Optional[".toList ++ x)
  have hafter : afterOpening? "Optional".toList (dropTyping ("typing.".toList ++ optionalOf x)) =
      some (x ++ [']']) := by
    rw [optionalOf_eq]
    rfl
  exact unwrapOptional_of_afterOpening? htrim hafter h.nonempty h.trimmed h.oneLine

theorem unwrapOptional_noneFirst (h : Written x) (hx : noneName ∉ pipePieces x) :
    unwrapOptional (unionOf [noneName, x]) = ⟨x, true⟩ := by
  have hms : ∀ m ∈ [noneName, x], Written m := by
    simpa using ⟨written_noneName, h⟩
  refine unwrapOptional_sole hms List.mem_cons_self ?_
  simp [ne_noneName_of_pieces hx]

theorem unwrapOptional_noneWithPipe (h : Written x) (hx : noneName ∉ pipePieces x) :
    unwrapOptional (noneWithPipe x) = ⟨spacedPipes x, true⟩ := by
  have htrim : trim (noneWithPipe x) = noneWithPipe x :=
    trim_append_of_trim written_noneName.trimmed h.trimmed written_noneName.nonempty h.nonempty
      " | ".toList
  refine unwrapOptional_of_pieces htrim rfl rfl ?_ ?_ (pipePieces_ne_nil x)
  · rw [pipePieces_noneWithPipe]
    exact List.mem_cons_self
  · rw [pipePieces_noneWithPipe, List.filter_cons_of_neg (by simp), filter_pieces hx]

theorem unwrapOptional_members {front back : List (List Char)} (hlen : 2 ≤ (front ++ back).length)
    (h : ∀ m ∈ front ++ back, Written m ∧ noneName ∉ pipePieces m) :
    unwrapOptional (unionOf (front ++ noneName :: back)) = ⟨unionOf (front ++ back), true⟩ := by
  have hwritten : ∀ m ∈ front ++ noneName :: back, Written m := by
    intro m hm
    by_cases hnull : m = noneName
    · exact hnull ▸ written_noneName
    · refine (h m ?_).1
      simpa [hnull] using hm
  have hkeep : ∀ m ∈ front ++ back, m ≠ noneName := fun m hm => ne_noneName_of_pieces (h m hm).2
  have hfilter : (front ++ noneName :: back).filter (· ≠ noneName) = front ++ back := by
    rw [List.filter_append, List.filter_cons_of_neg (by simp), ← List.filter_append,
      List.filter_eq_self]
    exact fun m hm => by simpa using hkeep m hm
  refine unwrapOptional_unionOf hwritten ?_
  rw [dropNone?, if_pos (by simp), hfilter]
  cases hms : front ++ back with
  | nil => simp [hms] at hlen
  | cons m rest =>
    cases rest with
    | nil => simp [hms] at hlen
    | cons n rest => rfl

end

/-- The spellings in brackets are unwrapped to the annotation, those with pipes as well unless two
pipes share a blank. -/
theorem unwrapOptional_agrees :
    (∀ x, Unwrappable x →
      (∀ s ∈ [optionalOf x, "typing.".toList ++ optionalOf x, unionOf [x, noneName],
          unionOf [noneName, x]], unwrapOptional s = ⟨x, true⟩) ∧
      ∀ s ∈ [pipeWithNone x, noneWithPipe x],
        (unwrapOptional s = ⟨x, true⟩ ↔ [] ∉ pipePieces x)) ∧
    ∀ front back, 2 ≤ (front ++ back).length → (∀ m ∈ front ++ back, Unwrappable m) →
      unwrapOptional (unionOf (front ++ noneName :: back)) = ⟨unionOf (front ++ back), true⟩ := by
  refine ⟨fun x h => ⟨?_, ?_⟩, fun front back hlen h => ?_⟩
  · simp only [List.forall_mem_cons]
    exact ⟨unwrapOptional_of_optional h.written.nonempty h.written.trimmed h.written.oneLine,
      unwrapOptional_typingOptional h.written, unwrapOptional_unionWithNone h.written h.noNull,
      unwrapOptional_noneFirst h.written h.noNull, fun s hs => absurd hs List.not_mem_nil⟩
  · have hpieces := spacedPipes_eq_self_iff h.written.nonempty h.written.trimmed h.spaced
    have hsame : ∀ s, unwrapOptional s = ⟨spacedPipes x, true⟩ →
        (unwrapOptional s = ⟨x, true⟩ ↔ [] ∉ pipePieces x) := by
      intro s hs
      rw [hs, Unwrapped.mk.injEq, ← hpieces]
      exact and_iff_left rfl
    simp only [List.forall_mem_cons]
    exact ⟨hsame _ (unwrapOptional_pipeWithNone h.written h.noNull),
      hsame _ (unwrapOptional_noneWithPipe h.written h.noNull),
      fun s hs => absurd hs List.not_mem_nil⟩
  · exact unwrapOptional_members hlen fun m hm => ⟨(h m hm).written, (h m hm).noNull⟩

/-- A union with a container, and one with members of which one is a union with pipes. -/
theorem unwrapOptional_agrees_of_union :
    unwrapOptional (pipeWithNone "Dict[str, A] | B".toList) = ⟨"Dict[str, A] | B".toList, true⟩ ∧
      unwrapOptional (unionOf ["List[A]".toList, noneName, "B | C".toList]) =
        ⟨unionOf ["List[A]".toList, "B | C".toList], true⟩ := by
  have hdict : Unwrappable "Dict[str, A] | B".toList :=
    ⟨⟨by decide, by decide, by decide, ⟨by decide, by decide⟩⟩, by decide, by decide⟩
  have hlist : Unwrappable "List[A]".toList :=
    ⟨⟨by decide, by decide, by decide, ⟨by decide, by decide⟩⟩, by decide, by decide⟩
  have hpipe : Unwrappable "B | C".toList :=
    ⟨⟨by decide, by decide, by decide, ⟨by decide, by decide⟩⟩, by decide, by decide⟩
  refine ⟨?_, ?_⟩
  · exact ((unwrapOptional_agrees.1 _ hdict).2 _ List.mem_cons_self).mpr (by decide)
  · exact unwrapOptional_agrees.2 ["List[A]".toList] ["B | C".toList] (by decide)
      (by simpa using ⟨hlist, hpipe⟩)

/-- Two pipes that share a blank. -/
theorem unwrapOptional_spaces_shared_blank :
    Unwrappable "A | | B".toList ∧
      unwrapOptional (pipeWithNone "A | | B".toList) = ⟨"A |  | B".toList, true⟩ ∧
      "A |  | B".toList ≠ "A | | B".toList :=
  ⟨⟨⟨by decide, by decide, by decide, ⟨by decide, by decide⟩⟩, by decide, by decide⟩, by decide,
    by decide⟩

end Annotation
end ApiSync
