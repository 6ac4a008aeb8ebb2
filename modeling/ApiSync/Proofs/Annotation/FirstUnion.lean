import ApiSync.Proofs.Annotation.Nesting
import ApiSync.Proofs.Annotation.SubscriptUnions
import ApiSync.Proofs.Schema.ListItems
/-!
# The first union of a text

A pass rewrites what stands between the brackets of the first union.  The search for that union
does not look behind its opening bracket, so a rewritten text has its first union in the same
place, and the next pass goes on there.  All passes together are the iteration of one pass that
leaves the text as it is where it finds nothing to do.
-/

namespace ApiSync
namespace Annotation

open Text

/-! ## The opening bracket -/

theorem afterOpening?_eq_some_iff {head text inside : List Char} :
    afterOpening? head text = some inside ↔
      ∃ blanks, (∀ c ∈ blanks, isBlank c = true) ∧ text = head ++ (blanks ++ '[' :: inside) := by
  constructor
  · intro h
    obtain ⟨rest, hrest, hinside⟩ := Option.bind_eq_some_iff.mp h
    split at hinside
    · next tail heq =>
      have htail : tail = inside := by simpa using hinside
      refine ⟨rest.takeWhile isBlank, fun c hc => List.mem_takeWhile_imp hc, ?_⟩
      rw [eq_append_of_dropPrefix? hrest, ← htail, ← heq, trimStart,
        List.takeWhile_append_dropWhile]
    · cases hinside
  · rintro ⟨blanks, hblanks, rfl⟩
    have hstart : trimStart (blanks ++ '[' :: inside) = '[' :: inside := by
      rw [trimStart, List.dropWhile_append_of_pos hblanks]
      rfl
    rw [afterOpening?, dropPrefix?_append, Option.bind_some, hstart]
    rfl

theorem unionName_eq (qualified : Bool) :
    unionName qualified = (if qualified then "typing.".toList else []) ++ "Union".toList := by
  cases qualified <;> rfl

theorem not_mem_blanks {c : Char} (hc : isBlank c = false) {blanks : List Char}
    (h : ∀ c ∈ blanks, isBlank c = true) : c ∉ blanks := fun hmem =>
  Bool.false_ne_true (hc.symm.trans (h c hmem))

/-- The opening bracket of a union stands behind its name. -/
theorem eq_append_of_opening {text inside : List Char}
    (h : afterOpening? "Union".toList (dropTyping text) = some inside) :
    ∃ blanks, (∀ c ∈ blanks, isBlank c = true) ∧
      text = unionName (startsWith "typing.".toList text) ++ (blanks ++ '[' :: inside) := by
  obtain ⟨blanks, hblanks, heq⟩ := afterOpening?_eq_some_iff.mp h
  refine ⟨blanks, hblanks, ?_⟩
  rw [dropTyping] at heq
  rw [startsWith, unionName_eq, List.append_assoc, ← heq]
  cases hdrop : dropPrefix? "typing.".toList text with
  | none => rfl
  | some rest => exact eq_append_of_dropPrefix? hdrop

/-! ## Where the first union starts -/

/-- The text up to the first union, its name, and its opening bracket in front of another text. -/
def UnionStart.followedBy (u : UnionStart) (rest : List Char) : List Char :=
  u.before ++ (unionName u.qualified ++ '[' :: rest)

theorem eq_append_of_unionStart? {text : List Char} {u : UnionStart}
    (h : unionStart? text = some u) :
    ∃ blanks, (∀ c ∈ blanks, isBlank c = true) ∧
      text = u.before ++ (unionName u.qualified ++ (blanks ++ '[' :: u.rest)) := by
  induction text generalizing u with
  | nil => cases h
  | cons c cs ih =>
    rw [unionStart?] at h
    split at h
    · next rest hrest =>
      obtain ⟨blanks, hblanks, heq⟩ := eq_append_of_opening hrest
      cases h
      exact ⟨blanks, hblanks, heq⟩
    · obtain ⟨v, hv, rfl⟩ := Option.map_eq_some_iff.mp h
      obtain ⟨blanks, hblanks, heq⟩ := ih hv
      exact ⟨blanks, hblanks, by rw [heq]; rfl⟩

/-- Whether a union starts at a place is decided in front of a `U` that stands further on, unless
only `typing.` stands between. -/
theorem opening_append {front : List Char} (hne : front ≠ []) (ht : front ≠ "typing.".toList)
    (rest : List Char) :
    afterOpening? "Union".toList (dropTyping (front ++ 'U' :: rest)) =
      (afterOpening? "Union".toList (dropTyping front)).map (· ++ 'U' :: rest) := by
  have hdrop : dropTyping (front ++ 'U' :: rest) = dropTyping front ++ 'U' :: rest := by
    rw [dropTyping, dropTyping, dropPrefix?_append_cons (by decide)]
    cases dropPrefix? "typing.".toList front <;> rfl
  have hfront : dropTyping front ≠ [] := by
    rw [dropTyping]
    cases hprefix : dropPrefix? "typing.".toList front with
    | none => exact hne
    | some tail =>
      rintro rfl
      exact ht (by rw [eq_append_of_dropPrefix? hprefix, List.append_nil])
  obtain ⟨d, tail, htail⟩ := List.exists_cons_of_ne_nil hfront
  rw [hdrop, htail, List.cons_append]
  by_cases hd : d = 'U'
  · subst hd
    have hclosed : (trimStart ('U' :: rest)).head? ≠ some '[' := by
      rw [trimStart_cons (by decide), List.head?_cons]
      decide
    have hrest : 'U' ∉ "nion".toList := by decide
    exact Schema.afterOpening?_append rfl hrest hclosed
  · have hnone : ∀ cs, afterOpening? "Union".toList (d :: cs) = none := by
      intro cs
      show (if 'U' = d then _ else none : Option (List Char)).bind _ = none
      rw [if_neg (Ne.symm hd)]
      rfl
    rw [hnone, hnone]
    rfl

/-- What stands behind the opening bracket has no part in the search. -/
theorem unionStart?_followedBy {text : List Char} {u : UnionStart}
    (h : unionStart? text = some u) (rest : List Char) :
    unionStart? (u.followedBy rest) = some { u with rest := rest } := by
  induction text generalizing u with
  | nil => cases h
  | cons c cs ih =>
    rw [unionStart?] at h
    split at h
    · cases h
      cases startsWith "typing.".toList (c :: cs) <;> rfl
    · next hnone =>
      obtain ⟨v, hv, rfl⟩ := Option.map_eq_some_iff.mp h
      refine Frame.unionStart?_cons ?_ (ih hv)
      obtain ⟨blanks, hblanks, rfl⟩ := eq_append_of_unionStart? hv
      -- The same characters stand in front of the `U` of the union in both texts.
      have hform : ∀ tail, c :: (v.before ++ (unionName v.qualified ++ tail)) =
          (c :: (v.before ++ if v.qualified then "typing.".toList else [])) ++
            'U' :: ("nion".toList ++ tail) := by
        intro tail
        rw [unionName_eq, List.cons_append, List.append_assoc, List.append_assoc]
        rfl
      have hopens : afterOpening? "Union".toList
          (dropTyping ("typing.".toList ++ 'U' :: ("nion".toList ++ (blanks ++ '[' :: v.rest)))) =
            some v.rest := by
        rw [dropTyping, dropPrefix?_append]
        exact afterOpening?_eq_some_iff.mpr ⟨blanks, hblanks, rfl⟩
      rw [hform] at hnone
      rw [UnionStart.followedBy, hform]
      have hfront : c :: (v.before ++ if v.qualified then "typing.".toList else []) ≠
          "typing.".toList := by
        intro he
        rw [he, hopens] at hnone
        cases hnone
      rw [opening_append (List.cons_ne_nil _ _) hfront, Option.map_eq_none_iff] at hnone ⊢
      exact hnone

/-! ## Where it ends -/

theorem closing?_eq_some_iff {rest inside after : List Char} :
    closing? 0 rest = some (inside, after) ↔
      rest = inside ++ ']' :: after ∧ square.Balanced inside := by
  constructor
  · have hgeneral : ∀ {depth : Nat} {rest inside : List Char},
        closing? depth rest = some (inside, after) →
          rest = inside ++ ']' :: after ∧ square.depthAfter? depth inside = some 0 := by
      intro depth rest
      induction rest generalizing depth with
      | nil => exact fun h => nomatch h
      | cons c cs ih =>
        intro inside h
        rw [closing?] at h
        split at h
        · next hc =>
          cases h
          exact ⟨by rw [hc.1]; rfl, by rw [hc.2]; rfl⟩
        · next hc =>
          obtain ⟨⟨part, tail⟩, hpart, heq⟩ := Option.map_eq_some_iff.mp h
          cases heq
          obtain ⟨rfl, hdepth⟩ := ih hpart
          refine ⟨rfl, ?_⟩
          show square.depthAfter? depth (c :: part) = some 0
          by_cases ho : c = '['
          · rw [if_pos ho] at hdepth
            rw [show c = square.opening from ho, Brackets.depthAfter?_opening]
            exact hdepth
          · rw [if_neg ho] at hdepth
            by_cases hclose : c = ']'
            · rw [if_pos hclose] at hdepth
              cases depth with
              | zero => exact absurd ⟨hclose, rfl⟩ hc
              | succ depth =>
                rw [show c = square.closing from hclose, Brackets.depthAfter?_closing_succ]
                exact hdepth
            · rw [if_neg hclose] at hdepth
              rw [Brackets.depthAfter?_plain ho hclose]
              exact hdepth
    exact fun h => hgeneral h
  · rintro ⟨rfl, h⟩
    exact closing?_of_balanced h after

/-- The first union of a text with what stands between its brackets and behind them. -/
structure FirstUnion (text : List Char) (u : UnionStart) (inside after : List Char) : Prop where
  start : unionStart? text = some u
  rest : u.rest = inside ++ ']' :: after
  closed : square.Balanced inside

section

variable {text inside after : List Char} {u : UnionStart}

theorem FirstUnion.unique {v : UnionStart} {inside' after' : List Char}
    (h : FirstUnion text u inside after) (h' : FirstUnion text v inside' after') :
    u = v ∧ inside = inside' ∧ after = after' := by
  obtain rfl : u = v := Option.some.inj (h.start.symm.trans h'.start)
  exact ⟨rfl, h.closed.append_closing_inj h'.closed (h.rest.symm.trans h'.rest)⟩

theorem FirstUnion.eq_append (h : FirstUnion text u inside after) :
    ∃ blanks, (∀ c ∈ blanks, isBlank c = true) ∧
      text =
        (u.before ++ (unionName u.qualified ++ blanks)) ++ '[' :: (inside ++ ']' :: after) := by
  obtain ⟨blanks, hblanks, heq⟩ := eq_append_of_unionStart? h.start
  refine ⟨blanks, hblanks, ?_⟩
  rw [heq, h.rest]
  simp only [List.append_assoc]

/-- Another text in the place of what follows the opening bracket. -/
theorem FirstUnion.followedBy (h : FirstUnion text u inside after) {inside' after' : List Char}
    (hclosed : square.Balanced inside') :
    FirstUnion (u.followedBy (inside' ++ ']' :: after'))
      { u with rest := inside' ++ ']' :: after' } inside' after' :=
  ⟨unionStart?_followedBy h.start _, rfl, hclosed⟩

/-! ## Passes -/

theorem flattenFirst?_eq_some_iff {next : List Char} :
    flattenFirst? text = some next ↔ ∃ u inside after, FirstUnion text u inside after ∧
      contains "Union[".toList inside = true ∧
      next = u.followedBy (commaJoin (flattenMembers inside) ++ ']' :: after) := by
  have hform : ∀ (u : UnionStart) (inside after : List Char),
      u.before ++ (if u.qualified then "typing.".toList else []) ++
        unionOf (flattenMembers inside) ++ after =
          u.followedBy (commaJoin (flattenMembers inside) ++ ']' :: after) := by
    intro u inside after
    rw [UnionStart.followedBy, unionOf_eq, unionName_eq]
    simp only [List.append_assoc, List.singleton_append]
    rfl
  constructor
  · intro h
    obtain ⟨u, hu, hrest⟩ := Option.bind_eq_some_iff.mp h
    obtain ⟨⟨inside, after⟩, hclosing, hnext⟩ := Option.bind_eq_some_iff.mp hrest
    obtain ⟨heq, hbalanced⟩ := closing?_eq_some_iff.mp hclosing
    dsimp only at hnext
    split at hnext
    · next hunion =>
      refine ⟨u, inside, after, ⟨hu, heq, hbalanced⟩, hunion, ?_⟩
      rw [← hform, ← Option.some.inj hnext]
    · cases hnext
  · rintro ⟨u, inside, after, h, hunion, rfl⟩
    rw [flattenFirst?, h.start, Option.bind_some,
      closing?_eq_some_iff.mpr ⟨h.rest, h.closed⟩, Option.bind_some]
    dsimp only
    rw [if_pos hunion, hform]

/-- One pass over the first union. -/
def flattenOnce (text : List Char) : List Char := (flattenFirst? text).getD text

theorem flattenOnce_eq (h : FirstUnion text u inside after)
    (hunion : contains "Union[".toList inside = true) :
    flattenOnce text = u.followedBy (commaJoin (flattenMembers inside) ++ ']' :: after) := by
  rw [flattenOnce, flattenFirst?_eq_some_iff.mpr ⟨u, inside, after, h, hunion, rfl⟩]
  rfl

/-- A pass rewrites the first union if another one is in it, and else leaves the text alone. -/
theorem flattenOnce_cases (text : List Char) :
    flattenOnce text = text ∨ ∃ u inside after, FirstUnion text u inside after ∧
      contains "Union[".toList inside = true := by
  cases hfirst : flattenFirst? text with
  | none =>
    left
    rw [flattenOnce, hfirst]
    rfl
  | some next =>
    obtain ⟨u, inside, after, h, hunion, -⟩ := flattenFirst?_eq_some_iff.mp hfirst
    exact Or.inr ⟨u, inside, after, h, hunion⟩

/-- A pass that finds nothing to do changes nothing, so stopping early makes no difference. -/
theorem flattenPassesFrom_eq (n : Nat) (text : List Char) :
    flattenPassesFrom n text = flattenOnce^[n] text := by
  induction n generalizing text with
  | zero => rfl
  | succ n ih =>
    have hstop : flattenFirst? text = none → flattenOnce^[n + 1] text = text := by
      intro hnone
      refine Function.iterate_fixed ?_ (n + 1)
      rw [flattenOnce, hnone]
      rfl
    rw [flattenPassesFrom]
    split
    · split
      · next next hnext =>
        rw [ih, Function.iterate_succ_apply, flattenOnce, hnext]
        rfl
      · next hnone => exact (hstop hnone).symm
    · next hno =>
      refine (hstop ?_).symm
      by_contra hsome
      obtain ⟨next, hnext⟩ := Option.ne_none_iff_exists'.mp hsome
      obtain ⟨u, inside, after, h, hunion, -⟩ := flattenFirst?_eq_some_iff.mp hnext
      obtain ⟨blanks, -, heq⟩ := eq_append_of_unionStart? h.start
      have hparts : text = (u.before ++ (unionName u.qualified ++ (blanks ++ ['[']))) ++
          (inside ++ ']' :: after) := by
        rw [heq, h.rest]
        simp
      rw [hparts] at hno
      rw [not_contains_part (Bool.eq_false_iff.mpr hno)] at hunion
      cases hunion

theorem flattenUnions_eq_iterate (text : List Char) :
    flattenUnions text = flattenOnce^[flattenPasses] (opened text) :=
  flattenPassesFrom_eq flattenPasses (opened text)

end

end Annotation
end ApiSync
