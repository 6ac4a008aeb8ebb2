import ApiSync.Proofs.Glob.Signs
/-!
# Names that patterns match

The expression that a pattern is written as matches what the signs of the pattern match, as long as
no bracket lists a closing bracket.  A bracket that does so is read as one that lists nothing, with
the rest of its list and a closing bracket behind it, so that the names it matches are longer.
-/

namespace ApiSync
namespace Glob

/-- The characters with a meaning of their own in expressions. -/
def expressionMarks : List Nat :=
  ['.', '*', '+', '?', '(', ')', '|', '^', '$', '{', '['].map unitOf

namespace Sign

/-- No range of the bracket runs backwards. -/
def IsAscending : Sign → Prop
  | .among _ members => ¬ListsBackward members
  | _ => True

/-- A bracket with a closing bracket among its members, which is then the first one. -/
def ListsClose : Sign → Prop
  | .among _ members => members.head? = some (unitOf ']')
  | _ => False

instance : DecidablePred ListsClose
  | .among _ members => inferInstanceAs (Decidable (members.head? = some (unitOf ']')))
  | .run | .any | .unit _ => inferInstanceAs (Decidable False)

/-- Behind the first member the bracket lists nothing with a meaning of its own in expressions. -/
def IsOrdinary : Sign → Prop
  | .among _ members => ∀ u ∈ members.tail, u ∉ expressionMarks
  | _ => True

instance : DecidablePred IsOrdinary
  | .among _ members => inferInstanceAs (Decidable (∀ u ∈ members.tail, u ∉ expressionMarks))
  | .run | .any | .unit _ => inferInstanceAs (Decidable True)

/-- The signs that a sign is taken for. -/
def spread : Sign → List Sign
  | .among negated (first :: more) =>
    if first = unitOf ']' then .among negated [] :: (more ++ [unitOf ']']).map .unit
    else [.among negated (first :: more)]
  | sign => [sign]

/-- The units that one unit of a name is taken from. -/
def units : Sign → UnitSet
  | .run | .any => .everything
  | .among negated members => ⟨negated, (ranges? members).getD []⟩
  | .unit u => .only u

def term : Sign → Expression
  | .run => .times (.set .everything) 0 none
  | sign => .set sign.units

def tokens : Sign → List Token
  | .run => [.set .everything, .count 0 none]
  | sign => [.set sign.units]

/-- The tokens that a sign is written as, if behind a closing bracket it lists nothing with a
meaning of its own. -/
def written : Sign → Except Failure (List Token)
  | .among negated members =>
    if members.head? = some (unitOf ']') then
      pure (.set ⟨negated, []⟩ :: (members.tail ++ [unitOf ']']).map fun u => .set (.only u))
    else do return [.set (← setOf negated members)]
  | sign => pure sign.tokens

end Sign

/-- The name matches the signs that those of the pattern are taken for. -/
def MatchesSpread (name pattern : String) : Prop :=
  ∃ signs, Reads (Text.units pattern.toList) signs ∧
    SignsMatch (signs.flatMap Sign.spread) (Text.units name.toList)

theorem matchesSpread_iff {name pattern : String} {signs : List Sign}
    (h : Reads (Text.units pattern.toList) signs) :
    MatchesSpread name pattern ↔
      SignsMatch (signs.flatMap Sign.spread) (Text.units name.toList) :=
  exists_reads_iff h

/-! ## Writing tokens -/

theorem behind?_cons (mark u : Nat) (rest : List Nat) :
    behind? [mark] (u :: rest) = if u = mark then some rest else none := by
  have hprefix : [mark].isPrefixOf (u :: rest) = decide (u = mark) := by
    simp [List.isPrefixOf, eq_comm (a := u), beq_eq_decide]
  rw [behind?, hprefix]
  simp only [decide_eq_true_eq]
  rfl

theorem unmark_once {negated : Bool} {first : Nat} (h : negated = false → first ≠ unitOf '!')
    (more : List Nat) :
    unmark '!' (once negated (unitOf '!') ++ first :: more) = (negated, first :: more) := by
  cases negated with
  | true => rfl
  | false =>
    show unmark '!' (first :: more) = _
    rw [unmark, behind?_cons, if_neg (h rfl)]

theorem count?_eq_none {u : Nat} (h : u ∉ expressionMarks) (rest : List Nat) :
    count? (u :: rest) = none := by
  simp only [expressionMarks, List.map_cons, List.mem_cons, not_or] at h
  obtain ⟨-, hstar, hplus, hmaybe, -, -, -, -, -, hbrace, -⟩ := h
  rw [count?, if_neg hstar, if_neg hplus, if_neg hmaybe, if_neg hbrace]

theorem ofUnit_eq {u : Nat} (h : u ∉ expressionMarks) : Token.ofUnit u = .set (.only u) := by
  simp only [expressionMarks, List.map_cons, List.mem_cons, not_or] at h
  obtain ⟨hdot, -, -, -, -, hclosing, hbar, hstart, hstop, -⟩ := h
  rw [Token.ofUnit, if_neg hdot, if_neg hstart, if_neg hstop, if_neg hbar, if_neg hclosing]

theorem textTokens_eq {fuel : Nat} {units : List Nat} (hfuel : units.length ≤ fuel)
    (h : ∀ u ∈ units, u ∉ expressionMarks) :
    textTokens fuel units = .ok (units.map fun u => .set (.only u)) := by
  induction units generalizing fuel with
  | nil => cases fuel <;> rfl
  | cons u units ih =>
    obtain ⟨hu, hunits⟩ := List.forall_mem_cons.mp h
    obtain ⟨fuel, rfl⟩ := Nat.exists_eq_add_of_lt (Nat.lt_of_succ_le hfuel)
    have hopening : u ≠ unitOf '(' := fun heq => hu (heq ▸ by decide)
    have hbracket : u ≠ unitOf '[' := fun heq => hu (heq ▸ by decide)
    rw [textTokens, count?_eq_none hu]
    dsimp only
    rw [if_neg hopening, if_neg hbracket, ofUnit_eq hu, ih (by omega) hunits]
    rfl

theorem bracketTokens_eq {negated : Bool} {first : Nat} {more : List Nat}
    (hunmarked : negated = false → first ≠ unitOf '!')
    (hordinary : first = unitOf ']' → ∀ u ∈ more, u ∉ expressionMarks) :
    bracketTokens (once negated (unitOf '!') ++ first :: more) =
      (Sign.among negated (first :: more)).written := by
  rw [bracketTokens, unmark_once hunmarked, Sign.written, List.head?_cons]
  dsimp only
  rw [behind?_cons]
  by_cases hfirst : first = unitOf ']'
  · have hunits : ∀ u ∈ more ++ [unitOf ']'], u ∉ expressionMarks := by
      intro u hu
      rcases List.mem_append.mp hu with hmore | hlast
      · exact hordinary hfirst u hmore
      · rw [List.mem_singleton.mp hlast]
        decide
    rw [if_pos hfirst, if_pos (congrArg some hfirst)]
    dsimp only
    rw [textTokens_eq (Nat.le_refl _) hunits]
    rfl
  · rw [if_neg hfirst, if_neg fun h => hfirst (Option.some.inj h)]

/-- One step for each sign. -/
theorem tokensFrom_of_reads {units : List Nat} {signs : List Sign} (hreads : Reads units signs)
    (hordinary : ∀ sign ∈ signs, sign.ListsClose → sign.IsOrdinary) {fuel : Nat}
    (hfuel : units.length ≤ fuel) :
    tokensFrom fuel units = List.flatten <$> signs.mapM Sign.written := by
  induction fuel generalizing units signs with
  | zero =>
    obtain rfl : units = [] := List.length_eq_zero_iff.mp (Nat.le_zero.mp hfuel)
    cases hreads
    rfl
  | succ fuel ih =>
    have hstep {units : List Nat} {sign : Sign} {signs : List Sign} (hrest : Reads units signs)
        (hordinary : ∀ s ∈ sign :: signs, s.ListsClose → s.IsOrdinary)
        (hfuel : units.length ≤ fuel) :
        (do return (← sign.written) ++ (← tokensFrom fuel units)) =
          List.flatten <$> (sign :: signs).mapM Sign.written := by
      rw [ih hrest (List.forall_mem_cons.mp hordinary).2 hfuel, List.mapM_cons]
      cases sign.written with
      | error f => rfl
      | ok tokens => cases signs.mapM Sign.written <;> rfl
    cases hreads with
    | nil => rfl
    | run hrest =>
      rw [tokensFrom, if_pos rfl, ← hstep hrest hordinary (Nat.le_of_succ_le_succ hfuel)]
      rfl
    | any hrest =>
      rw [tokensFrom, if_neg (by decide), if_pos rfl,
        ← hstep hrest hordinary (Nat.le_of_succ_le_succ hfuel)]
      rfl
    | @among units negated first more rest signs hbracket hrest =>
      have hfound := bracket?_of_isBracket hbracket
      have hshorter : rest.length ≤ fuel :=
        Nat.le_trans (length_rest_le hfound) (Nat.le_of_succ_le_succ hfuel)
      have hlist : first = unitOf ']' → ∀ u ∈ more, u ∉ expressionMarks := fun hfirst =>
        (List.forall_mem_cons.mp hordinary).1 (congrArg some hfirst)
      rw [tokensFrom, if_neg (by decide), if_neg (by decide), if_pos rfl, hfound]
      dsimp only
      rw [bracketTokens_eq hbracket.unmarked hlist, hstep hrest hordinary hshorter]
    | unclosed hopen hrest =>
      rw [tokensFrom, if_neg (by decide), if_neg (by decide), if_pos rfl, bracket?_eq_none hopen,
        ← hstep hrest hordinary (Nat.le_of_succ_le_succ hfuel)]
      rfl
    | unit hu hrest =>
      simp only [List.mem_cons, List.not_mem_nil, or_false, not_or] at hu
      obtain ⟨hrun, hany, hopen⟩ := hu
      rw [tokensFrom, if_neg hrun, if_neg hany, if_neg hopen,
        ← hstep hrest hordinary (Nat.le_of_succ_le_succ hfuel)]
      rfl

/-! ## Sets of units -/

theorem not_lists_nil {u : Nat} : ¬Lists u [] := fun h => nomatch h

theorem lists_range {u low high : Nat} {rest : List Nat} :
    Lists u (low :: unitOf '-' :: high :: rest) ↔ (low ≤ u ∧ u ≤ high) ∨ Lists u rest := by
  constructor
  · intro h
    cases h with
    | range hlow hhigh => exact .inl ⟨hlow, hhigh⟩
    | behindRange hlater => exact .inr hlater
    | member hdash => exact absurd rfl (hdash high rest)
    | behindMember hdash _ => exact absurd rfl (hdash high rest)
  · rintro (⟨hlow, hhigh⟩ | hlater)
    · exact .range hlow hhigh
    · exact .behindRange hlater

theorem lists_member {u a : Nat} {rest : List Nat}
    (hdash : ∀ high more, rest ≠ unitOf '-' :: high :: more) :
    Lists u (a :: rest) ↔ u = a ∨ Lists u rest := by
  constructor
  · intro h
    cases h with
    | range _ _ => exact absurd rfl (hdash _ _)
    | behindRange _ => exact absurd rfl (hdash _ _)
    | member _ => exact .inl rfl
    | behindMember _ hlater => exact .inr hlater
  · rintro (rfl | hlater)
    · exact .member hdash
    · exact .behindMember hdash hlater

/-- Whether a unit is in one of the ranges. -/
def inRanges (u : Nat) (ranges : List (Nat × Nat)) : Bool :=
  ranges.any fun (low, high) => low ≤ u && u ≤ high

theorem inRanges_cons {u low high : Nat} {ranges : List (Nat × Nat)} :
    inRanges u ((low, high) :: ranges) = true ↔
      (low ≤ u ∧ u ≤ high) ∨ inRanges u ranges = true := by
  simp [inRanges]

theorem inRanges_cons_self {u a : Nat} {ranges : List (Nat × Nat)} :
    inRanges u ((a, a) :: ranges) = true ↔ u = a ∨ inRanges u ranges = true := by
  rw [inRanges_cons, ← Nat.le_antisymm_iff, eq_comm]

theorem lists_iff_inRanges {u : Nat} {units : List Nat} {ranges : List (Nat × Nat)}
    (h : ranges? units = some ranges) : Lists u units ↔ inRanges u ranges = true := by
  have hnil : Lists u [] ↔ inRanges u [] = true := iff_of_false not_lists_nil Bool.false_ne_true
  have hlast (high : Nat) (more : List Nat) : [] ≠ unitOf '-' :: high :: more :=
    (List.cons_ne_nil _ _).symm
  fun_induction ranges? units generalizing ranges with
  | case1 =>
    obtain rfl := Option.some.inj h
    exact hnil
  | case2 a =>
    obtain rfl := Option.some.inj h
    rw [lists_member hlast, inRanges_cons_self, hnil]
  | case3 a b =>
    obtain rfl := Option.some.inj h
    have hnext (high : Nat) (more : List Nat) : [b] ≠ unitOf '-' :: high :: more :=
      fun h => List.cons_ne_nil high more (List.cons.inj h).2.symm
    rw [lists_member hnext, lists_member hlast, inRanges_cons_self, inRanges_cons_self, hnil]
  | case4 low high rest hle ih =>
    obtain ⟨ranges, hrest, rfl⟩ := Option.map_eq_some_iff.mp h
    have hlater : Lists u rest ↔ inRanges u ranges = true := ih hrest
    rw [lists_range, inRanges_cons, hlater]
  | case5 low high rest hlt => cases h
  | case6 a dash b rest hne ih =>
    obtain ⟨ranges, hrest, rfl⟩ := Option.map_eq_some_iff.mp h
    have hdash : ∀ high more, dash :: b :: rest ≠ unitOf '-' :: high :: more :=
      fun _ _ hcons => hne (List.cons.inj hcons).1
    have hlater : Lists u (dash :: b :: rest) ↔ inRanges u ranges = true := ih hrest
    rw [lists_member hdash, inRanges_cons_self, hlater]

theorem member_iff {negated : Bool} {ranges : List (Nat × Nat)} {u : Nat} :
    (UnitSet.mk negated ranges).member u = true ↔ (inRanges u ranges = true ↔ negated = false) := by
  have hmember : (UnitSet.mk negated ranges).member u = (negated != inRanges u ranges) := rfl
  rw [hmember]
  cases negated <;> cases inRanges u ranges <;> decide

/-! ## Matching signs -/

theorem signsMatch_run {signs : List Sign} {units : List Nat} :
    SignsMatch (.run :: signs) units ↔
      ∃ stretch rest, units = stretch ++ rest ∧ SignsMatch signs rest := by
  constructor
  · intro h
    cases h with
    | run stretch hrest => exact ⟨stretch, _, rfl, hrest⟩
    | one hfits _ => exact hfits.elim
  · rintro ⟨stretch, rest, rfl, hrest⟩
    exact .run stretch hrest

theorem signsMatch_one {sign : Sign} (h : sign ≠ .run) {signs : List Sign} {units : List Nat} :
    SignsMatch (sign :: signs) units ↔
      ∃ u rest, units = u :: rest ∧ sign.Fits u ∧ SignsMatch signs rest := by
  constructor
  · intro hmatch
    cases hmatch with
    | run stretch _ => exact absurd rfl h
    | one hfits hrest => exact ⟨_, _, rfl, hfits, hrest⟩
  · rintro ⟨u, rest, rfl, hfits, hrest⟩
    exact .one hfits hrest

/-- A sign that stands for one unit is written as the set of the units that it matches. -/
theorem member_units_iff {sign : Sign} (hrun : sign ≠ .run) (hascending : sign.IsAscending)
    (u : Nat) : sign.units.member u = true ↔ sign.Fits u := by
  cases sign with
  | run => exact absurd rfl hrun
  | any => exact iff_of_true rfl trivial
  | unit v =>
    rw [Sign.units, UnitSet.only, member_iff, inRanges_cons_self]
    simp [inRanges, Sign.Fits]
  | among negated members =>
    cases hranges : ranges? members with
    | none => exact absurd ((ranges?_eq_none_iff _).mp hranges) hascending
    | some ranges =>
      rw [Sign.units, hranges, Option.getD_some, member_iff, ← lists_iff_inRanges hranges]
      rfl

/-- The terms of the signs, one behind the other. -/
def sequence : List Sign → Expression
  | [] => .empty
  | sign :: signs => .chain sign.term (sequence signs)

theorem run_sequence {signs : List Sign} (hascending : ∀ sign ∈ signs, sign.IsAscending)
    {text : List Nat} {i : Nat} (hi : i ≤ text.length) :
    (sequence signs).run text false i (fun j => j == text.length) = true ↔
      SignsMatch signs (text.drop i) := by
  induction signs generalizing i with
  | nil =>
    have hend : (sequence []).run text false i (fun j => j == text.length) =
        (i == text.length) := rfl
    rw [hend, beq_iff_eq]
    constructor
    · rintro rfl
      rw [List.drop_length]
      exact .nil
    · intro h
      generalize hrest : text.drop i = rest at h
      cases h
      exact Nat.le_antisymm hi (List.drop_eq_nil_iff.mp hrest)
  | cons sign signs ih =>
    obtain ⟨hsign, hsigns⟩ := List.forall_mem_cons.mp hascending
    have hchain : (sequence (sign :: signs)).run text false i (fun j => j == text.length) =
        sign.term.run text false i fun j =>
          (sequence signs).run text false j fun k => k == text.length := rfl
    rw [hchain]
    by_cases hrun : sign = .run
    · rw [hrun, Sign.term, Expression.run_stretch hi, signsMatch_run]
      refine exists_congr fun stretch => exists_congr fun rest =>
        and_congr_right fun htext => ?_
      obtain ⟨hinside, hrest⟩ := Expression.drop_of_append hi htext
      rw [ih hsigns hinside, hrest]
    · have hterm : sign.term = .set sign.units := by
        cases sign <;> first | rfl | exact absurd rfl hrun
      rw [hterm, Expression.run_set, signsMatch_one hrun]
      refine exists_congr fun u => exists_congr fun rest => and_congr_right fun htext => ?_
      obtain ⟨hinside, hrest⟩ := Expression.drop_of_cons hi htext
      rw [member_units_iff hrun hsign]
      exact and_congr_right fun _ => by rw [← hrest]; exact ih hsigns hinside

/-! ## Reading signs -/

/-- The row goes on with the expression. -/
structure Row.Extends (row row' : Row) (e : Expression) : Prop where
  before : row'.before = row.before
  run : ∀ text i next, row'.behindBar.run text false i next =
    row.behindBar.run text false i fun j => e.run text false j next

theorem exists_step_sign (sign : Sign) (row : Row) (outer : List (GroupKind × Row)) :
    ∃ row', sign.tokens.foldlM Reading.step ⟨row, outer⟩ = .ok ⟨row', outer⟩ ∧
      row.Extends row' sign.term := by
  cases sign with
  | run =>
    exact ⟨⟨row.before, .chain row.behindBar (.times (.set .everything) 0 none), none⟩, rfl, rfl,
      fun _ _ _ => rfl⟩
  | any => exact ⟨row.add (.set .everything) true, rfl, rfl, fun _ _ _ => rfl⟩
  | among negated members => exact ⟨row.add (.set _) true, rfl, rfl, fun _ _ _ => rfl⟩
  | unit u => exact ⟨row.add (.set (.only u)) true, rfl, rfl, fun _ _ _ => rfl⟩

theorem exists_read_signs (signs : List Sign) (row : Row) (outer : List (GroupKind × Row)) :
    ∃ row', (signs.flatMap Sign.tokens).foldlM Reading.step ⟨row, outer⟩ = .ok ⟨row', outer⟩ ∧
      row.Extends row' (sequence signs) := by
  induction signs generalizing row with
  | nil => exact ⟨row, rfl, rfl, fun _ _ _ => rfl⟩
  | cons sign signs ih =>
    obtain ⟨next, hsign, hnext⟩ := exists_step_sign sign row outer
    obtain ⟨last, hsigns, hlast⟩ := ih next
    refine ⟨last, ?_, hlast.before.trans hnext.before, fun text i onward => ?_⟩
    · rw [List.flatMap_cons, foldlM_append_of_ok hsign, hsigns]
    · rw [hlast.run, hnext.run]
      rfl

theorem filterMap_name?_signs (signs : List Sign) :
    (signs.flatMap Sign.tokens).filterMap Token.name? = [] := by
  rw [List.filterMap_flatMap, List.flatMap_eq_nil_iff]
  intro sign _
  cases sign <;> rfl

/-- The tokens of signs between the two ends of a name. -/
theorem exists_ofTokens_signs {signs : List Sign}
    (hascending : ∀ sign ∈ signs, sign.IsAscending) :
    ∃ e, Expression.ofTokens (.start :: (signs.flatMap Sign.tokens ++ [.stop])) = .ok e ∧
      ∀ text, e.isFound text = true ↔ SignsMatch signs text := by
  obtain ⟨⟨before, terms, last⟩, hread, hbefore, hrun⟩ :=
    exists_read_signs signs (Row.empty.add .start false) []
  obtain rfl : before = none := hbefore
  have hfold : (Token.start :: (signs.flatMap Sign.tokens ++ [.stop])).foldlM Reading.step
      ⟨.empty, []⟩ = .ok ⟨Row.add ⟨none, terms, last⟩ .stop false, []⟩ :=
    foldlM_append_of_ok hread [.stop]
  have hnames : (Token.start :: (signs.flatMap Sign.tokens ++ [.stop])).filterMap
      Token.name? = [] := by
    rw [List.filterMap_cons_none rfl, List.filterMap_append, filterMap_name?_signs]
    rfl
  refine ⟨(Row.add ⟨none, terms, last⟩ .stop false).whole, ?_, fun text => ?_⟩
  · rw [Expression.ofTokens, hnames, if_neg (not_not_intro List.nodup_nil), hfold]
    rfl
  · have hplace (i : Nat) :
        (Row.add ⟨none, terms, last⟩ .stop false).whole.run text false i (fun _ => true) =
          (i == 0 && (sequence signs).run text false i fun j => j == text.length) := by
      have hstop := hrun text i fun j => j == text.length && true
      simp only [Bool.and_true] at hstop
      have hend : (Row.add ⟨none, terms, last⟩ .stop false).whole.run text false i
          (fun _ => true) = (Row.behindBar ⟨none, terms, last⟩).run text false i
            fun j => j == text.length && true := rfl
      simp only [hend, Bool.and_true, hstop]
      rfl
    have hsequence := run_sequence hascending (Nat.zero_le text.length)
    rw [List.drop_zero] at hsequence
    rw [← hsequence, Expression.isFound, List.any_eq_true]
    simp only [hplace, Bool.and_eq_true, beq_iff_eq]
    constructor
    · intro h
      obtain ⟨_, -, rfl, hrun⟩ := h
      exact hrun
    · intro h
      exact ⟨0, List.mem_range.mpr (Nat.succ_pos _), rfl, h⟩

/-! ## Signs taken for others -/

theorem exists_of_listsClose {sign : Sign} (h : sign.ListsClose) :
    ∃ negated more, sign = .among negated (unitOf ']' :: more) := by
  cases sign with
  | run | any | unit u => exact h.elim
  | among negated members =>
    obtain ⟨more, rfl⟩ := List.head?_eq_some_iff.mp h
    exact ⟨negated, more, rfl⟩

theorem spread_close (negated : Bool) (more : List Nat) :
    (Sign.among negated (unitOf ']' :: more)).spread =
      .among negated [] :: (more ++ [unitOf ']']).map .unit := by
  rw [Sign.spread, if_pos rfl]

theorem spread_eq_self {sign : Sign} (h : ¬sign.ListsClose) : sign.spread = [sign] := by
  cases sign with
  | run | any | unit u => rfl
  | among negated members =>
    cases members with
    | nil => rfl
    | cons first more => exact if_neg fun hfirst => h (congrArg some hfirst)

theorem flatMap_spread {signs : List Sign} (h : ∀ sign ∈ signs, ¬sign.ListsClose) :
    signs.flatMap Sign.spread = signs := by
  induction signs with
  | nil => rfl
  | cons sign signs ih =>
    obtain ⟨hsign, hsigns⟩ := List.forall_mem_cons.mp h
    rw [List.flatMap_cons, spread_eq_self hsign, ih hsigns]
    rfl

theorem isAscending_of_mem_spread {sign other : Sign} (h : ¬sign.ListsClose → sign.IsAscending)
    (hother : other ∈ sign.spread) : other.IsAscending := by
  by_cases hclose : sign.ListsClose
  · obtain ⟨negated, more, rfl⟩ := exists_of_listsClose hclose
    rw [spread_close] at hother
    rcases List.mem_cons.mp hother with rfl | hunit
    · exact nofun
    · obtain ⟨u, -, rfl⟩ := List.mem_map.mp hunit
      exact trivial
  · rw [spread_eq_self hclose] at hother
    rw [List.mem_singleton.mp hother]
    exact h hclose

theorem isAscending_of_mem_flatMap_spread {signs : List Sign}
    (h : ∀ sign ∈ signs, ¬sign.ListsClose → sign.IsAscending) :
    ∀ other ∈ signs.flatMap Sign.spread, other.IsAscending := by
  intro other hother
  obtain ⟨sign, hsign, hmem⟩ := List.mem_flatMap.mp hother
  exact isAscending_of_mem_spread (h sign hsign) hmem

/-! ## Lengths -/

theorem singles_cons {sign : Sign} (h : sign ≠ .run) (signs : List Sign) :
    singles (sign :: signs) = sign :: singles signs :=
  List.filter_cons_of_pos (decide_eq_true h)

theorem signsMatch_of_singles {signs : List Sign} {units : List Nat}
    (h : SignsMatch (singles signs) units) : SignsMatch signs units := by
  induction signs generalizing units with
  | nil => exact h
  | cons sign signs ih =>
    by_cases hrun : sign = .run
    · rw [hrun] at h ⊢
      exact .run [] (ih h)
    · rw [singles_cons hrun, signsMatch_one hrun] at h
      obtain ⟨u, rest, rfl, hfits, hrest⟩ := h
      exact .one hfits (ih hrest)

/-- A name has a unit for each sign that is no run. -/
theorem length_singles_le {signs : List Sign} {units : List Nat} (h : SignsMatch signs units) :
    (singles signs).length ≤ units.length := by
  induction h with
  | nil => exact Nat.le_refl 0
  | run stretch _ ih => exact Nat.le_trans ih (List.length_append ▸ Nat.le_add_left _ _)
  | @one sign _ signs _ hfits _ ih =>
    have hrun : sign ≠ .run := fun hrun => by
      rw [hrun] at hfits
      exact hfits
    rw [singles_cons hrun]
    exact Nat.succ_le_succ ih

/-- It has no others if there is nothing for the runs. -/
theorem length_eq_of_singles {signs : List Sign} {units : List Nat}
    (h : SignsMatch (singles signs) units) : units.length = (singles signs).length := by
  induction signs generalizing units with
  | nil =>
    cases h
    rfl
  | cons sign signs ih =>
    by_cases hrun : sign = .run
    · rw [hrun] at h ⊢
      exact ih h
    · rw [singles_cons hrun, signsMatch_one hrun] at h
      obtain ⟨u, rest, rfl, -, hrest⟩ := h
      rw [singles_cons hrun, List.length_cons, List.length_cons, ih hrest]

theorem singles_append (signs others : List Sign) :
    singles (signs ++ others) = singles signs ++ singles others :=
  List.filter_append signs others

theorem singles_units (units : List Nat) : singles (units.map .unit) = units.map .unit := by
  refine List.filter_eq_self.mpr fun sign hsign => decide_eq_true ?_
  obtain ⟨u, -, rfl⟩ := List.mem_map.mp hsign
  exact nofun

theorem length_singles_lt_spread {sign : Sign} (h : sign.ListsClose) :
    (singles [sign]).length < (singles sign.spread).length := by
  obtain ⟨negated, more, rfl⟩ := exists_of_listsClose h
  have hbracket (members : List Nat) : Sign.among negated members ≠ .run := nofun
  rw [spread_close, singles_cons (hbracket _), singles_cons (hbracket _), singles_units,
    List.length_cons, List.length_cons, List.length_map, List.length_append]
  exact Nat.succ_lt_succ (Nat.succ_pos _)

theorem length_singles_le_flatMap (signs : List Sign) :
    (singles signs).length ≤ (singles (signs.flatMap Sign.spread)).length := by
  induction signs with
  | nil => exact Nat.le_refl 0
  | cons sign signs ih =>
    have hsign : (singles [sign]).length ≤ (singles sign.spread).length := by
      by_cases hclose : sign.ListsClose
      · exact Nat.le_of_lt (length_singles_lt_spread hclose)
      · rw [spread_eq_self hclose]
    have hcons : singles (sign :: signs) = singles [sign] ++ singles signs :=
      singles_append [sign] signs
    rw [hcons, List.flatMap_cons, singles_append, List.length_append, List.length_append]
    exact Nat.add_le_add hsign ih

theorem length_singles_lt_flatMap {signs : List Sign} {sign : Sign} (hsign : sign ∈ signs)
    (hclose : sign.ListsClose) :
    (singles signs).length < (singles (signs.flatMap Sign.spread)).length := by
  obtain ⟨before, after, rfl⟩ := List.append_of_mem hsign
  have hbefore := length_singles_le_flatMap before
  have hafter := length_singles_le_flatMap after
  have hlonger := length_singles_lt_spread hclose
  simp only [List.append_cons before sign after, List.flatMap_append, List.flatMap_cons,
    List.flatMap_nil, List.append_nil, singles_append, List.length_append]
  omega

/-! ## Patterns -/

theorem setOf_eq {negated : Bool} {members : List Nat} (h : ¬ListsBackward members) :
    setOf negated members = .ok (Sign.among negated members).units := by
  rw [setOf, Sign.units]
  cases hranges : ranges? members with
  | none => exact absurd ((ranges?_eq_none_iff _).mp hranges) h
  | some ranges => rfl

theorem flatMap_tokens_units (units : List Nat) :
    (units.map Sign.unit).flatMap Sign.tokens = units.map fun u => .set (.only u) := by
  rw [List.flatMap_map, List.map_eq_flatMap]
  rfl

theorem written_eq {sign : Sign} (h : ¬sign.ListsClose → sign.IsAscending) :
    sign.written = .ok (sign.spread.flatMap Sign.tokens) := by
  by_cases hclose : sign.ListsClose
  · obtain ⟨negated, more, rfl⟩ := exists_of_listsClose hclose
    have hempty : ranges? [] = some [] := by rw [ranges?]
    have hbracket : (Sign.among negated []).tokens = [.set ⟨negated, []⟩] := by
      show [Token.set ⟨negated, (ranges? []).getD []⟩] = _
      rw [hempty, Option.getD_some]
    rw [Sign.written, if_pos List.head?_cons, spread_close, List.flatMap_cons,
      flatMap_tokens_units, hbracket]
    rfl
  · rw [spread_eq_self hclose]
    cases sign with
    | run | any | unit u => rfl
    | among negated members =>
      have hhead : members.head? ≠ some (unitOf ']') := hclose
      rw [Sign.written, if_neg hhead, setOf_eq (h hclose)]
      rfl

theorem needs_written (sign : Sign) :
    Needs Failure.badGlob (sign.ListsClose ∨ sign.IsAscending) sign.written := by
  cases sign with
  | run | any | unit u => exact (needs_pure _).congr (iff_of_true trivial (.inr trivial))
  | among negated members =>
    rw [Sign.written]
    by_cases hhead : members.head? = some (unitOf ']')
    · rw [if_pos hhead]
      exact (needs_pure _).congr (iff_of_true trivial (.inl hhead))
    · rw [if_neg hhead]
      refine ((needs_setOf negated members).bind_pure _).congr ?_
      exact ⟨.inr, fun h => h.resolve_left hhead⟩

theorem tokensOf_eq {pattern : String} {signs : List Sign}
    (hreads : Reads (Text.units pattern.toList) signs)
    (hordinary : ∀ sign ∈ signs, sign.ListsClose → sign.IsOrdinary)
    (hascending : ∀ sign ∈ signs, ¬sign.ListsClose → sign.IsAscending) :
    tokensOf pattern =
      .ok (.start :: ((signs.flatMap Sign.spread).flatMap Sign.tokens ++ [.stop])) := by
  have hwritten : signs.mapM Sign.written =
      .ok (signs.map fun sign => sign.spread.flatMap Sign.tokens) :=
    mapM_eq_ok_map fun sign hsign => written_eq (hascending sign hsign)
  rw [tokensOf, tokensFrom_of_reads hreads hordinary (Nat.le_refl _), hwritten,
    List.flatMap_assoc]
  rfl

theorem isMatch_eq {pattern : String} {signs : List Sign}
    (hreads : Reads (Text.units pattern.toList) signs)
    (hascending : ∀ sign ∈ signs, sign.IsAscending)
    (hordinary : ∀ sign ∈ signs, sign.ListsClose → sign.IsOrdinary) (name : String) :
    ∃ matched, isMatch name pattern = .ok matched ∧
      (matched = true ↔ SignsMatch (signs.flatMap Sign.spread) (Text.units name.toList)) := by
  obtain ⟨e, hread, hfound⟩ := exists_ofTokens_signs
    (isAscending_of_mem_flatMap_spread fun sign hsign _ => hascending sign hsign)
  refine ⟨e.isFound (Text.units name.toList), ?_, hfound _⟩
  rw [isMatch, parse, tokensOf_eq hreads hordinary fun sign hsign _ => hascending sign hsign]
  show (Expression.ofTokens _ >>= _) = _
  rw [hread]
  rfl

/-- A pattern that means nothing else in expressions is broken exactly if a bracket of it lists a
range that runs backwards. -/
theorem isBroken_iff {pattern : String}
    (hordinary : ∀ sign, HasSign pattern sign → sign.ListsClose → sign.IsOrdinary) :
    IsBroken pattern ↔
      ∃ sign, HasSign pattern sign ∧ ¬sign.ListsClose ∧ ¬sign.IsAscending := by
  obtain ⟨signs, hreads⟩ := exists_reads (Text.units pattern.toList)
  simp only [hasSign_iff hreads] at hordinary ⊢
  constructor
  · intro hbroken
    refine Classical.byContradiction fun hnone => hbroken ?_
    simp only [not_exists, not_and, Classical.not_not] at hnone
    obtain ⟨e, hread, -⟩ :=
      exists_ofTokens_signs (isAscending_of_mem_flatMap_spread hnone)
    exact ⟨_, tokensOf_eq hreads hordinary hnone, (needs_ofTokens _).holds hread⟩
  · intro h hread
    obtain ⟨sign, hsign, hclose, hbackward⟩ := h
    obtain ⟨tokens, htokens, -⟩ := hread
    have hneeds : Needs Failure.badGlob (∀ s ∈ signs, s.ListsClose ∨ s.IsAscending)
        (signs.mapM Sign.written) := needs_mapM needs_written signs
    have hfails := hneeds.fails fun h => (h sign hsign).elim hclose hbackward
    rw [tokensOf, tokensFrom_of_reads hreads hordinary (Nat.le_refl _), hfails] at htokens
    cases htokens

/-- A pattern in which no bracket lists a closing bracket matches the names that it matches by the
rules.  A bracket that does is taken for one that lists nothing with text behind it.  Then the names
that match with nothing for the runs are missed. -/
theorem isMatch_iff_matches {pattern : String}
    (hascending : ∀ sign, HasSign pattern sign → sign.IsAscending) :
    ((∀ sign, HasSign pattern sign → ¬sign.ListsClose) → ∀ name, ∃ matched,
      isMatch name pattern = .ok matched ∧ (matched = true ↔ Matches name pattern)) ∧
    ((∀ sign, HasSign pattern sign → sign.ListsClose → sign.IsOrdinary) → ∀ name,
      (∃ matched, isMatch name pattern = .ok matched ∧
        (matched = true ↔ MatchesSpread name pattern)) ∧
      ((∃ sign, HasSign pattern sign ∧ sign.ListsClose) → MatchesBriefly name pattern →
        Matches name pattern ∧ isMatch name pattern = .ok false)) := by
  obtain ⟨signs, hreads⟩ := exists_reads (Text.units pattern.toList)
  simp only [hasSign_iff hreads] at hascending ⊢
  have hmatch := isMatch_eq hreads hascending
  constructor
  · intro hclose name
    obtain ⟨matched, hresult, hiff⟩ :=
      hmatch (fun sign hsign h => absurd h (hclose sign hsign)) name
    refine ⟨matched, hresult, ?_⟩
    rw [hiff, flatMap_spread hclose, matches_iff hreads]
  · intro hordinary name
    obtain ⟨matched, hresult, hiff⟩ := hmatch hordinary name
    refine ⟨⟨matched, hresult, hiff.trans (matchesSpread_iff hreads).symm⟩, ?_⟩
    intro hlists hbrief
    obtain ⟨sign, hsign, hclose⟩ := hlists
    have hmatches := (matchesBriefly_iff hreads).mp hbrief
    refine ⟨(matches_iff hreads).mpr (signsMatch_of_singles hmatches), ?_⟩
    rw [hresult, Except.ok.injEq, Bool.eq_false_iff, Ne, hiff]
    -- the bracket takes more than the one unit that is there for it
    intro hspread
    have hlonger := length_singles_lt_flatMap hsign hclose
    have hunits := length_singles_le hspread
    rw [length_eq_of_singles hmatches] at hunits
    exact absurd hunits (Nat.not_le.mpr hlonger)

theorem reads_negated :
    Reads (Text.units "[!a-c]*[?".toList)
      [.among true (['a', '-', 'c'].map unitOf), .run, .unit (unitOf '['), .any] := by
  have hbracket : IsBracket (Text.units "!a-c]*[?".toList) true (unitOf 'a')
      (['-', 'c'].map unitOf) (Text.units "*[?".toList) := ⟨rfl, nofun, by decide⟩
  have hopen : ∀ negated first more rest,
      ¬IsBracket (Text.units "?".toList) negated first more rest :=
    fun _ _ _ _ h => absurd h.mem (by decide)
  exact .among hbracket (.run (.unclosed hopen (.any .nil)))

theorem reads_close : Reads (Text.units "[]a]".toList) [.among false ([']', 'a'].map unitOf)] := by
  have hbracket : IsBracket (Text.units "]a]".toList) false (unitOf ']') (['a'].map unitOf) [] :=
    ⟨rfl, fun _ => by decide, by decide⟩
  exact .among hbracket .nil

theorem signsMatch_close :
    SignsMatch [.among false ([']', 'a'].map unitOf)] (Text.units "]".toList) :=
  .one (iff_of_true (.member nofun) rfl) .nil

theorem isMatch_iff_matches_for_two_brackets :
    isMatch "d/e[f" "[!a-c]*[?" = .ok true ∧ isMatch "]" "[]a]" = .ok false := by
  have hnot : ¬Lists (unitOf 'd') (['a', '-', 'c'].map unitOf) := by
    intro h
    rcases lists_range.mp h with ⟨-, hhigh⟩ | hlater
    · exact absurd hhigh (by decide)
    · cases hlater
  have hmatch : Matches "d/e[f" "[!a-c]*[?" := by
    rw [matches_iff reads_negated]
    exact .one (iff_of_false hnot (by decide))
      (.run ("/e".toList.map unitOf) (.one rfl (.one trivial .nil)))
  have hascending : ∀ sign, HasSign "[!a-c]*[?" sign → sign.IsAscending := by
    simp only [hasSign_iff reads_negated, List.forall_mem_cons]
    refine ⟨fun h => ?_, trivial, trivial, trivial, nofun⟩
    cases h with
    | here hlt => exact absurd hlt (by decide)
    | behindRange later => cases later
    | behindMember hdash _ => exact hdash rfl
  have hclose : ∀ sign, HasSign "[!a-c]*[?" sign → ¬sign.ListsClose := by
    simp only [hasSign_iff reads_negated, List.forall_mem_cons]
    exact ⟨by decide, id, id, id, nofun⟩
  obtain ⟨matched, hresult, hiff⟩ := (isMatch_iff_matches hascending).1 hclose "d/e[f"
  refine ⟨by rw [hresult, hiff.mpr hmatch], ?_⟩
  have hother : ∀ sign, HasSign "[]a]" sign → sign.IsAscending := by
    simp only [hasSign_iff reads_close, List.forall_mem_singleton]
    exact nofun
  refine ((isMatch_iff_matches hother).2 ?_ "]").2 ?_ ?_ |>.2
  · simp only [hasSign_iff reads_close, List.forall_mem_singleton]
    exact fun _ => by decide
  · exact ⟨_, (hasSign_iff reads_close).mpr List.mem_cons_self, rfl⟩
  · exact (matchesBriefly_iff reads_close).mpr signsMatch_close

theorem isMatch_misses_close :
    (∀ sign, HasSign "[]a]" sign → sign.IsAscending) ∧ Matches "]" "[]a]" ∧
      isMatch "]" "[]a]" = .ok false := by
  simp only [hasSign_iff reads_close, matches_iff reads_close, List.forall_mem_singleton]
  refine ⟨nofun, signsMatch_close, by decide +kernel⟩

end Glob
end ApiSync
