import ApiSync.Proofs.Annotation.Flattening
/-!
# Brackets after rewriting

A wrapper is recognised by its name and a bracket at the end of the text, and that bracket may be
the partner of another one.  Then taking the wrapper off takes a bracket from each of two pairs:
`Optional[A] | List[B]` is unwrapped to `A] | List[B`.

Unwrapping keeps a text balanced exactly where the wrapper that is taken off is around the whole
text.  Flattening leaves more room, because the union around the members stays.  It keeps a text
balanced exactly where no member closes more brackets than are open in the first union when the
pass is over.
-/

namespace ApiSync
namespace Annotation

open Text

/-! ## The depth in joined texts -/

/-- A text that opens what it closes ends at the depth where it starts, unless it gets below the
outermost level. -/
theorem depthAfter?_of_even {cs : List Char} (h : square.net cs = 0) (depth : Nat) :
    square.depthAfter? depth cs = some depth ↔
      ∀ front, front <+: cs → 0 ≤ (depth : Int) + square.net front := by
  rw [Brackets.depthAfter?_eq_some_iff, h]
  exact and_iff_left (Int.add_zero _)

theorem depthAfter?_eq_none {cs : List Char} (h : square.net cs = 0) {depth : Nat}
    (hnot : square.depthAfter? depth cs ≠ some depth) : square.depthAfter? depth cs = none := by
  cases hdepth : square.depthAfter? depth cs with
  | none => rfl
  | some final =>
    have hfinal := (Brackets.depthAfter?_eq_some_iff.mp hdepth).2
    obtain rfl : final = depth := by omega
    exact absurd hdepth hnot

theorem depthAfter?_joinWith (sep : List Char) (ho : '[' ∉ sep) (hc : ']' ∉ sep)
    {ms : List (List Char)} (h : ∀ m ∈ ms, square.net m = 0) (depth : Nat) :
    square.depthAfter? depth (joinWith sep ms) = some depth ↔
      ∀ m ∈ ms, square.depthAfter? depth m = some depth := by
  induction ms with
  | nil => exact iff_of_true rfl fun m hm => absurd hm List.not_mem_nil
  | cons m ms ih =>
    obtain ⟨hm, hms⟩ := List.forall_mem_cons.mp h
    have hsep : square.depthAfter? depth sep = some depth :=
      Brackets.depthAfter?_of_not_mem ho hc depth
    rw [List.forall_mem_cons, ← ih hms]
    by_cases hnil : ms = []
    · subst hnil
      exact (and_iff_left rfl).symm
    · rw [joinWith_cons sep m hnil, List.append_assoc, Brackets.depthAfter?_append]
      by_cases hopen : square.depthAfter? depth m = some depth
      · rw [hopen, Option.bind_some, Brackets.depthAfter?_append, hsep, Option.bind_some]
        exact (and_iff_right rfl).symm
      · rw [depthAfter?_eq_none hm hopen]
        exact iff_of_false (by simp) fun hboth => by simpa using hboth.1

/-- A pair of brackets in a text, around what opens what it closes. -/
theorem balanced_around_iff {a head inside b : List Char} (ho : '[' ∉ head) (hc : ']' ∉ head)
    (h : square.net inside = 0) :
    square.Balanced (a ++ (head ++ '[' :: (inside ++ ']' :: b))) ↔ square.Balanced (a ++ b) ∧
      ∀ front, front <+: inside → 0 ≤ square.net a + 1 + square.net front := by
  rw [Brackets.Balanced, Brackets.Balanced, Brackets.depthAfter?_append,
    Brackets.depthAfter?_append square 0 a b]
  cases ha : square.depthAfter? 0 a with
  | none => exact iff_of_false (by simp) fun hboth => by simpa using hboth.1
  | some depth =>
    have hdepth : square.net a = depth := by
      have := (Brackets.depthAfter?_eq_some_iff.mp ha).2
      omega
    have hhead : square.depthAfter? depth head = some depth :=
      Brackets.depthAfter?_of_not_mem ho hc depth
    rw [Option.bind_some, Option.bind_some, Brackets.depthAfter?_append, hhead, Option.bind_some,
      hdepth]
    show square.depthAfter? depth (square.opening :: (inside ++ square.closing :: b)) = some 0 ↔ _
    rw [Brackets.depthAfter?_opening, Brackets.depthAfter?_append]
    have hinside := depthAfter?_of_even h (depth + 1)
    by_cases hopen : square.depthAfter? (depth + 1) inside = some (depth + 1)
    · rw [hopen, Option.bind_some, Brackets.depthAfter?_closing_succ]
      exact (and_iff_left (hinside.mp hopen)).symm
    · rw [depthAfter?_eq_none h hopen]
      exact iff_of_false (by simp) fun hboth => hopen (hinside.mpr hboth.2)

/-! ## Flattening -/

/-- No member that a pass writes into the first union closes more brackets than are open there. -/
def StaysOpen (text : List Char) : Prop :=
  ∀ u inside after, FirstUnion text u inside after → contains "Union[".toList inside = true →
    ∀ f ∈ flattenMembers inside, ∀ front, front <+: f →
      0 ≤ square.net u.before + 1 + square.net front

theorem not_mem_unionName (qualified : Bool) {blanks : List Char}
    (h : ∀ c ∈ blanks, isBlank c = true) :
    '[' ∉ unionName qualified ++ blanks ∧ ']' ∉ unionName qualified ++ blanks := by
  rw [List.mem_append, List.mem_append, not_or, not_or]
  refine ⟨⟨?_, not_mem_blanks (by decide) h⟩, ?_, not_mem_blanks (by decide) h⟩
  all_goals cases qualified <;> decide

section

variable {text inside after : List Char} {u : UnionStart}

theorem staysOpen_iff (h : FirstUnion text u inside after)
    (hunion : contains "Union[".toList inside = true) :
    StaysOpen text ↔ ∀ f ∈ flattenMembers inside, ∀ front, front <+: f →
      0 ≤ square.net u.before + 1 + square.net front := by
  constructor
  · exact fun hopen => hopen u inside after h hunion
  · intro hopen v inside' after' h' _
    obtain ⟨rfl, rfl, rfl⟩ := h.unique h'
    exact hopen

/-- The first union is balanced in itself, so it does not count. -/
theorem FirstUnion.balanced_iff (h : FirstUnion text u inside after) :
    square.Balanced text ↔ square.Balanced (u.before ++ after) := by
  obtain ⟨blanks, hblanks, heq⟩ := h.eq_append
  obtain ⟨ho, hc⟩ := not_mem_unionName u.qualified hblanks
  rw [heq, List.append_assoc, balanced_around_iff ho hc h.closed.net_eq]
  refine and_iff_left_of_imp fun haround front hfront => ?_
  have hbefore := haround.net_prefix (List.prefix_append u.before after)
  have hinside := h.closed.net_prefix hfront
  omega

theorem FirstUnion.balanced_flattenOnce_iff (h : FirstUnion text u inside after)
    (hunion : contains "Union[".toList inside = true) :
    square.Balanced (flattenOnce text) ↔ square.Balanced text ∧ StaysOpen text := by
  have heven : ∀ f ∈ flattenMembers inside, square.net f = 0 := fun f hf =>
    (mem_flattenMembers h.closed.net_eq hf).1.even
  have hjoin : square.net (commaJoin (flattenMembers inside)) = 0 := net_joinWith rfl heven
  have hname := not_mem_unionName u.qualified fun c (hc : c ∈ []) => absurd hc List.not_mem_nil
  rw [List.append_nil] at hname
  rw [flattenOnce_eq h hunion, UnionStart.followedBy, balanced_around_iff hname.1 hname.2 hjoin,
    h.balanced_iff, staysOpen_iff h hunion]
  refine and_congr_right fun haround => ?_
  obtain ⟨depth, hdepth⟩ := Int.eq_ofNat_of_zero_le
    (haround.net_prefix (List.prefix_append u.before after))
  have hlist := depthAfter?_joinWith [',', ' '] (by decide) (by decide) heven (depth + 1)
  rw [show joinWith [',', ' '] (flattenMembers inside) = commaJoin (flattenMembers inside) from rfl,
    depthAfter?_of_even hjoin] at hlist
  rw [hdepth]
  refine hlist.trans (forall₂_congr fun f hf => ?_)
  exact depthAfter?_of_even (heven f hf) (depth + 1)

end

/-- A pass keeps a text balanced exactly if it takes no member too far out. -/
theorem balanced_flattenOnce_iff {text : List Char} :
    square.Balanced (flattenOnce text) ↔ square.Balanced text ∧ StaysOpen text := by
  by_cases hfirst : ∃ u inside after, FirstUnion text u inside after ∧
      contains "Union[".toList inside = true
  · obtain ⟨u, inside, after, h, hunion⟩ := hfirst
    exact h.balanced_flattenOnce_iff hunion
  · have hsame := (flattenOnce_cases text).resolve_right hfirst
    rw [hsame]
    exact (and_iff_left fun u inside after h hunion =>
      absurd ⟨u, inside, after, h, hunion⟩ hfirst).symm

theorem balanced_iterate_flattenOnce_iff {text : List Char} (n : Nat) :
    square.Balanced (flattenOnce^[n] text) ↔
      square.Balanced text ∧ ∀ k < n, StaysOpen (flattenOnce^[k] text) := by
  induction n with
  | zero => exact (and_iff_left fun k hk => absurd hk (Nat.not_lt_zero k)).symm
  | succ n ih =>
    rw [Function.iterate_succ_apply', balanced_flattenOnce_iff, ih, and_assoc]
    refine and_congr_right fun _ => ?_
    constructor
    · rintro ⟨hbefore, hlast⟩ k hk
      rcases Nat.lt_succ_iff_lt_or_eq.mp hk with hlt | rfl
      · exact hbefore k hlt
      · exact hlast
    · exact fun hall => ⟨fun k hk => hall k (Nat.lt_succ_of_lt hk), hall n (Nat.lt_succ_self n)⟩

theorem balanced_flattenUnions_iff {text : List Char} (h : square.Balanced text) :
    square.Balanced (flattenUnions text) ↔
      ∀ k < flattenPasses, StaysOpen (flattenOnce^[k] (opened text)) := by
  have hopened : square.Balanced (opened text) :=
    h.of_filter (by decide) (by decide) (filter_opened text)
  rw [flattenUnions_eq_iterate, balanced_iterate_flattenOnce_iff]
  exact and_iff_right hopened

/-! ## Unwrapping -/

/-- What stands between the brackets of a wrapper, if nothing is put around it again: that of
`Optional`, or that of a union of which one member is left. -/
def stripped? (text : List Char) : Option (List Char) :=
  (wrapped? "Optional".toList (trim text)).or <|
    (wrapped? "Union".toList (trim text)).filter fun inside =>
      (members inside).contains noneName && ((members inside).filter (· ≠ noneName)).length == 1

/-! ### Pipes -/

def isSquare (c : Char) : Bool := c = '[' || c = ']'

theorem isSquare_of_isBlank {c : Char} (h : isBlank c = true) : isSquare c = false := by
  by_contra hsquare
  simp only [isSquare, Bool.or_eq_false_iff, decide_eq_false_iff_not, not_and_or, not_not]
    at hsquare
  rcases hsquare with rfl | rfl <;> cases h

theorem filter_isSquare_trim (cs : List Char) :
    (trim cs).filter isSquare = cs.filter isSquare := by
  have hblank (ds : List Char) :
      (ds.filter (!isBlank ·)).filter isSquare = ds.filter isSquare := by
    rw [List.filter_filter]
    refine List.filter_congr fun c _ => ?_
    cases hc : isBlank c with
    | false => simp
    | true => simp [isSquare_of_isBlank hc]
  rw [← hblank, filter_trim, hblank]

theorem balanced_trim {cs : List Char} : square.Balanced (trim cs) ↔ square.Balanced cs := by
  have h := filter_isSquare_trim cs
  exact ⟨Brackets.Balanced.of_filter (by decide) (by decide) h.symm,
    Brackets.Balanced.of_filter (by decide) (by decide) h⟩

theorem filter_joinWith {keep : Char → Bool} {sep : List Char} (hsep : sep.filter keep = [])
    (ms : List (List Char)) : (joinWith sep ms).filter keep = ms.flatMap (List.filter keep) := by
  induction ms with
  | nil => rfl
  | cons m ms ih =>
    by_cases hnil : ms = []
    · subst hnil
      exact (List.append_nil _).symm
    · rw [joinWith_cons sep m hnil, List.filter_append, List.filter_append, hsep, ih,
        List.append_nil, List.flatMap_cons]

/-- Pieces between pipes without `None` have the brackets of the text. -/
theorem filter_isSquare_pieces (text : List Char) :
    (joinWith " | ".toList ((pipePieces text).filter (· ≠ noneName))).filter isSquare =
      text.filter isSquare := by
  have hnone : ∀ ms : List (List Char), (ms.filter (· ≠ noneName)).flatMap (List.filter isSquare) =
      ms.flatMap (List.filter isSquare) := by
    intro ms
    induction ms with
    | nil => rfl
    | cons m ms ih =>
      by_cases hm : m = noneName
      · rw [List.filter_cons_of_neg (by simp [hm]), List.flatMap_cons, hm, ih]
        rfl
      · rw [List.filter_cons_of_pos (by simp [hm]), List.flatMap_cons, List.flatMap_cons, ih]
  have hpipe : ['|'].filter isSquare = [] := rfl
  have hjoin := filter_joinWith hpipe (splitAt '|' text)
  rw [joinWith_splitAt] at hjoin
  rw [filter_joinWith rfl, hnone, pipePieces, List.flatMap_map, hjoin]
  exact List.flatMap_congr fun m _ => filter_isSquare_trim m

theorem balanced_pipes {text : List Char} (h : square.Balanced text) :
    square.Balanced ((dropNone? (joinWith " | ".toList) (pipePieces text)).getD ⟨text, false⟩).inner
    := by
  rw [dropNone?_pipes]
  split
  · exact h.of_filter (by decide) (by decide) (filter_isSquare_pieces text)
  · exact h

/-! ### Unions -/

theorem balanced_iff_members {text : List Char} (h : square.net text = 0) :
    square.Balanced text ↔ ∀ m ∈ members text, square.Balanced m := by
  have hparts := partsOf_splitMembers h
  have hjoin := depthAfter?_joinWith [','] (by decide) (by decide) hparts.even 0
  rw [hparts.joined] at hjoin
  refine hjoin.trans ⟨fun hall m hm => ?_, fun hall part hpart => ?_⟩
  · obtain ⟨part, hpart, rfl⟩ := mem_tidy hm
    exact balanced_trim.mpr (hall part hpart)
  · refine balanced_trim.mp ?_
    by_cases hblank : trim part = []
    · rw [hblank]
      rfl
    · refine hall (trim part) (List.mem_filter.mpr ⟨List.mem_map_of_mem hpart, ?_⟩)
      simpa using hblank

/-- What a wrapper is around does not close more than the bracket that the wrapper opens. -/
structure Opened (inside : List Char) : Prop where
  even : square.net inside = 0
  under : ∀ front, front <+: inside → 0 ≤ 1 + square.net front

theorem opened_of_wrapped? {text core : List Char} (h : square.Balanced text)
    (hwrapped : wrapped? "Union".toList text = some core) : Opened core := by
  obtain ⟨inside, hafter, rfl⟩ := exists_of_wrapped? hwrapped
  obtain ⟨blanks, hblanks, heq⟩ := eq_append_of_opening hafter
  rw [← List.append_assoc] at heq
  have hinside : square.net inside = 0 := by
    have heven := h.net_eq
    rw [heq, Brackets.net_append, net_unionName _ hblanks] at heven
    have hopen := square.net_opening (inside ++ [']'])
    rw [Brackets.net_append] at hopen
    have hclose : square.net [']'] = -1 := rfl
    rw [show square.net ('[' :: (inside ++ [']'])) = _ from hopen] at heven
    omega
  obtain ⟨ho, hc⟩ := not_mem_unionName (startsWith "typing.".toList text) hblanks
  have haround := h
  rw [heq, ← List.nil_append (_ ++ _), balanced_around_iff ho hc hinside] at haround
  obtain ⟨lead, tail, hlead, htail, htrim⟩ := eq_append_trim inside
  have hblank := net_of_blank hlead
  refine ⟨?_, ?_⟩
  · rw [htrim, Brackets.net_append, Brackets.net_append, hblank, net_of_blank htail] at hinside
    omega
  · rintro front ⟨rest, hfront⟩
    have hunder := haround.2 (lead ++ front) ⟨rest ++ tail, by rw [htrim, ← hfront]; simp⟩
    rw [Brackets.net_append, hblank] at hunder
    have hnil : square.net [] = 0 := rfl
    omega

theorem Opened.balanced_unionOf {inside : List Char} (h : Opened inside) {ms : List (List Char)}
    (hms : ∀ m ∈ ms, m ∈ members inside) : square.Balanced (unionOf ms) := by
  have heven : ∀ m ∈ ms, square.net m = 0 := fun m hm => (mem_members h.even (hms m hm)).1.even
  have hjoin : square.net (commaJoin ms) = 0 := net_joinWith rfl heven
  have hunder : ∀ m ∈ ms, square.depthAfter? 1 m = some 1 := by
    intro m hm
    obtain ⟨-, a, b, heq, ha⟩ := mem_members h.even (hms m hm)
    rw [depthAfter?_of_even (heven m hm)]
    rintro front ⟨rest, rfl⟩
    have hfront := h.under (a ++ front) ⟨rest ++ b, by rw [heq]; simp⟩
    rw [Brackets.net_append, ha] at hfront
    omega
  have hlist := (depthAfter?_joinWith [',', ' '] (by decide) (by decide) heven 1).mpr hunder
  rw [unionOf_eq]
  show square.Balanced ([] ++ ("Union".toList ++ '[' :: (commaJoin ms ++ ']' :: [])))
  rw [balanced_around_iff (by decide) (by decide) hjoin]
  exact ⟨rfl, (depthAfter?_of_even hjoin 1).mp hlist⟩

/-- If the other members are `None`, a list is balanced if the one that is left is. -/
theorem balanced_iff_sole {inside m : List Char} (h : square.net inside = 0)
    (hsole : (members inside).filter (· ≠ noneName) = [m]) :
    square.Balanced inside ↔ square.Balanced m := by
  have hm : m ∈ (members inside).filter (· ≠ noneName) := hsole ▸ List.mem_cons_self
  rw [balanced_iff_members h]
  refine ⟨fun hall => hall m (List.mem_filter.mp hm).1, fun hbalanced n hn => ?_⟩
  by_cases hnull : n = noneName
  · rw [hnull]
    decide
  · have hleft : n ∈ (members inside).filter (· ≠ noneName) :=
      List.mem_filter.mpr ⟨hn, by simpa using hnull⟩
    rw [hsole] at hleft
    rw [List.mem_singleton.mp hleft]
    exact hbalanced

theorem forall_mem_filter_some {α : Type} {p : α → Bool} {P : α → Prop} {a : α} :
    (∀ b ∈ (some a).filter p, P b) ↔ (p a = true → P a) := by
  simp only [Option.mem_filter_iff, Option.mem_some_iff]
  constructor
  · exact fun h ha => h a ⟨rfl, ha⟩
  · rintro h b ⟨rfl, hb⟩
    exact h hb

/-- Unwrapping keeps a text balanced exactly if the wrapper that is stripped is around all of it. -/
theorem balanced_unwrapOptional_iff {text : List Char} (h : square.Balanced text) :
    square.Balanced (unwrapOptional text).inner ↔
      ∀ inside ∈ stripped? text, square.Balanced inside := by
  have hpipes := balanced_pipes (balanced_trim.mpr h)
  rw [unwrapOptional_eq, stripped?]
  cases wrapped? "Optional".toList (trim text) with
  | some inside => simp
  | none =>
    cases hunion : wrapped? "Union".toList (trim text) with
    | none => exact iff_of_true hpipes fun inside hin => by simp at hin
    | some inside =>
      have hopened := opened_of_wrapped? (balanced_trim.mpr h) hunion
      dsimp only
      rw [Option.bind_some, dropNone?, Option.none_or, forall_mem_filter_some,
        Bool.and_eq_true, List.contains_iff_mem, beq_iff_eq]
      by_cases hnone : noneName ∈ members inside
      · rw [if_pos hnone]
        have hmem : ∀ m ∈ (members inside).filter (· ≠ noneName), m ∈ members inside := fun m hm =>
          (List.mem_filter.mp hm).1
        cases hrest : (members inside).filter (· ≠ noneName) with
        | nil => exact iff_of_true hpipes fun hone => by simpa using hone.2
        | cons m rest =>
          cases rest with
          | nil =>
            rw [balanced_iff_sole hopened.even hrest]
            exact ⟨fun hm _ => hm, fun h => h ⟨hnone, rfl⟩⟩
          | cons n rest =>
            rw [hrest] at hmem
            exact iff_of_true (hopened.balanced_unionOf hmem) fun hone => by simpa using hone.2
      · rw [if_neg hnone]
        exact iff_of_true hpipes fun h => absurd h.1 hnone

/-! ## Both -/

/-- A balanced text stays balanced where no wrapper is stripped that another bracket closes, and no
pass takes a member out of more brackets than there are around it. -/
theorem rewriting_keeps_brackets_iff {text : List Char} (h : square.Balanced text) :
    (square.Balanced (unwrapOptional text).inner ↔
      ∀ inside ∈ stripped? text, square.Balanced inside) ∧
    (square.Balanced (flattenUnions text) ↔
      ∀ k < flattenPasses, StaysOpen (flattenOnce^[k] (opened text))) :=
  ⟨balanced_unwrapOptional_iff h, balanced_flattenUnions_iff h⟩

def nestedText : List Char := "Optional[Union[A, Union[List[B], C]]]".toList

/-- A wrapper that is around all of its text, and a union inside another one. -/
theorem rewriting_keeps_brackets_nested :
    (unwrapOptional nestedText).inner = "Union[A, Union[List[B], C]]".toList ∧
      square.Balanced (unwrapOptional nestedText).inner ∧
      flattenUnions nestedText = "Optional[Union[A, List[B], C]]".toList ∧
      ∀ k < flattenPasses, StaysOpen (flattenOnce^[k] (opened nestedText)) := by
  obtain ⟨hunwrapped, hflattened⟩ := @rewriting_keeps_brackets_iff nestedText (by decide)
  exact ⟨by decide, hunwrapped.mpr (by decide), by decide, hflattened.mp (by decide)⟩

/-- Wrappers with another type behind them. -/
theorem rewriting_breaks_brackets :
    (square.Balanced "Optional[A] | List[B]".toList ∧
      ¬square.Balanced (unwrapOptional "Optional[A] | List[B]".toList).inner) ∧
    square.Balanced "Union[Union[Union[A]] | List[List[B]]]".toList ∧
      ¬square.Balanced (flattenUnions "Union[Union[Union[A]] | List[List[B]]]".toList) := by
  decide

end Annotation
end ApiSync
