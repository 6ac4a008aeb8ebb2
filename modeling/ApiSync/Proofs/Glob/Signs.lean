import Mathlib.Data.List.TakeWhile
import ApiSync.Proofs.Glob
/-!
# Signs of patterns

By the rules of shells a pattern is read from the left as a sequence of signs: a run of any units,
any one unit, a bracket, or a unit that stands for itself.  A bracket lists at least one member, so
that a closing bracket right at its start is a member.  Patterns and names are sequences of 16-bit
units here.  Every pattern has exactly one reading.
-/

namespace ApiSync
namespace Glob

inductive Sign where
  | run
  | any
  | among (negated : Bool) (members : List Nat)
  | unit (u : Nat)
deriving DecidableEq, Repr

/-! ## Reading signs -/

/-- The unit, or nothing. -/
def once (present : Bool) (u : Nat) : List Nat := if present then [u] else []

/-- Behind an opening bracket stands a list of members, with a `!` in front if it is negated, up to
the first closing bracket that is not the first member; and the rest. -/
structure IsBracket (units : List Nat) (negated : Bool) (first : Nat) (more rest : List Nat) :
    Prop where
  text : units = once negated (unitOf '!') ++ first :: (more ++ unitOf ']' :: rest)
  unmarked : negated = false → first ≠ unitOf '!'
  ends : unitOf ']' ∉ more

/-- How a pattern reads.  An opening bracket that no other one closes stands for itself. -/
inductive Reads : List Nat → List Sign → Prop
  | nil : Reads [] []
  | run {units : List Nat} {signs : List Sign} (hrest : Reads units signs) :
      Reads (unitOf '*' :: units) (.run :: signs)
  | any {units : List Nat} {signs : List Sign} (hrest : Reads units signs) :
      Reads (unitOf '?' :: units) (.any :: signs)
  | among {units : List Nat} {negated : Bool} {first : Nat} {more rest : List Nat}
      {signs : List Sign} (hbracket : IsBracket units negated first more rest)
      (hrest : Reads rest signs) :
      Reads (unitOf '[' :: units) (.among negated (first :: more) :: signs)
  | unclosed {units : List Nat} {signs : List Sign}
      (hopen : ∀ negated first more rest, ¬IsBracket units negated first more rest)
      (hrest : Reads units signs) : Reads (unitOf '[' :: units) (.unit (unitOf '[') :: signs)
  | unit {u : Nat} {units : List Nat} {signs : List Sign}
      (hu : u ∉ [unitOf '*', unitOf '?', unitOf '[']) (hrest : Reads units signs) :
      Reads (u :: units) (.unit u :: signs)

/-! ## Matching signs -/

/-- What the members of a bracket list: the units of the ranges, and the other members.  A dash
between two members makes a range of them. -/
inductive Lists (u : Nat) : List Nat → Prop
  | range {low high : Nat} {rest : List Nat} (hlow : low ≤ u) (hhigh : u ≤ high) :
      Lists u (low :: unitOf '-' :: high :: rest)
  | behindRange {low high : Nat} {rest : List Nat} (hlater : Lists u rest) :
      Lists u (low :: unitOf '-' :: high :: rest)
  | member {rest : List Nat} (hdash : ∀ high more, rest ≠ unitOf '-' :: high :: more) :
      Lists u (u :: rest)
  | behindMember {a : Nat} {rest : List Nat}
      (hdash : ∀ high more, rest ≠ unitOf '-' :: high :: more) (hlater : Lists u rest) :
      Lists u (a :: rest)

/-- Whether a sign that stands for one unit matches it. -/
def Sign.Fits (u : Nat) : Sign → Prop
  | .run => False
  | .any => True
  | .among negated members => Lists u members ↔ negated = false
  | .unit v => u = v

/-- The signs match a whole name. -/
inductive SignsMatch : List Sign → List Nat → Prop
  | nil : SignsMatch [] []
  | run (stretch : List Nat) {signs : List Sign} {units : List Nat}
      (hrest : SignsMatch signs units) : SignsMatch (.run :: signs) (stretch ++ units)
  | one {sign : Sign} {u : Nat} {signs : List Sign} {units : List Nat} (hfits : sign.Fits u)
      (hrest : SignsMatch signs units) : SignsMatch (sign :: signs) (u :: units)

def HasSign (pattern : String) (sign : Sign) : Prop :=
  ∃ signs, Reads (Text.units pattern.toList) signs ∧ sign ∈ signs

def Matches (name pattern : String) : Prop :=
  ∃ signs, Reads (Text.units pattern.toList) signs ∧ SignsMatch signs (Text.units name.toList)

/-- The signs that are no runs. -/
def singles (signs : List Sign) : List Sign := signs.filter (· ≠ .run)

/-- The name matches with nothing for the runs. -/
def MatchesBriefly (name pattern : String) : Prop :=
  ∃ signs, Reads (Text.units pattern.toList) signs ∧
    SignsMatch (singles signs) (Text.units name.toList)

/-! ## Brackets -/

theorem exists_once (u : Nat) (units : List Nat) :
    ∃ present rest, units = once present u ++ rest ∧ (present = false → rest.head? ≠ some u) := by
  cases units with
  | nil => exact ⟨false, [], rfl, fun _ h => Option.some_ne_none u h.symm⟩
  | cons a rest =>
    by_cases ha : a = u
    · exact ⟨true, rest, by rw [ha]; rfl, fun h => absurd h.symm Bool.false_ne_true⟩
    · exact ⟨false, a :: rest, rfl, fun _ h => ha (Option.some.inj h)⟩

theorem take_takeWhile {present : Bool} {u : Nat} {rest : List Nat}
    (h : present = false → rest.head? ≠ some u) :
    ((once present u ++ rest).takeWhile (· = u)).take 1 = once present u := by
  cases present with
  | true => simp [once]
  | false =>
    cases rest with
    | nil => rfl
    | cons a rest =>
      have ha : a ≠ u := fun ha => h rfl (by rw [ha]; rfl)
      simp [once, ha]

/-- What `bracket?` looks at, from left to right. -/
theorem bracket?_once {negated closes : Bool} {rest : List Nat}
    (hnegated : negated = false → (once closes (unitOf ']') ++ rest).head? ≠ some (unitOf '!'))
    (hcloses : closes = false → rest.head? ≠ some (unitOf ']')) :
    bracket? (once negated (unitOf '!') ++ (once closes (unitOf ']') ++ rest)) =
      if (rest.takeWhile (· ≠ unitOf ']')).length < rest.length then
        some (once negated (unitOf '!') ++ once closes (unitOf ']') ++
          rest.takeWhile (· ≠ unitOf ']'),
          rest.drop ((rest.takeWhile (· ≠ unitOf ']')).length + 1))
      else none := by
  rw [bracket?, take_takeWhile hnegated, List.drop_left, take_takeWhile hcloses, List.drop_left]

theorem takeWhile_ne {u : Nat} {body : List Nat} (h : u ∉ body) (rest : List Nat) :
    (body ++ u :: rest).takeWhile (· ≠ u) = body := by
  have hbody : ∀ a ∈ body, decide (a ≠ u) = true :=
    fun a ha => decide_eq_true fun heq => h (heq ▸ ha)
  rw [List.takeWhile_append_of_pos hbody, List.takeWhile_cons_of_neg (by simp), List.append_nil]

/-- Members up to the first closing bracket, and the rest. -/
theorem bracket?_closed {negated closes : Bool} {body rest : List Nat}
    (hnegated : negated = false →
      (once closes (unitOf ']') ++ (body ++ unitOf ']' :: rest)).head? ≠ some (unitOf '!'))
    (hcloses : closes = false → body ≠ []) (hends : unitOf ']' ∉ body) :
    bracket? (once negated (unitOf '!') ++
        (once closes (unitOf ']') ++ (body ++ unitOf ']' :: rest))) =
      some (once negated (unitOf '!') ++ once closes (unitOf ']') ++ body, rest) := by
  have hhead : closes = false → (body ++ unitOf ']' :: rest).head? ≠ some (unitOf ']') := by
    intro hfalse
    obtain ⟨a, more, rfl⟩ := List.exists_cons_of_ne_nil (hcloses hfalse)
    exact fun h => hends (Option.some.inj h ▸ List.mem_cons_self)
  have hdrop : (body ++ unitOf ']' :: rest).drop (body.length + 1) = rest := by
    rw [← List.drop_drop, List.drop_left]
    rfl
  rw [bracket?_once hnegated hhead, takeWhile_ne hends, hdrop, if_pos]
  rw [List.length_append, List.length_cons]
  omega

theorem bracket?_of_isBracket {units : List Nat} {negated : Bool} {first : Nat}
    {more rest : List Nat} (h : IsBracket units negated first more rest) :
    bracket? units = some (once negated (unitOf '!') ++ first :: more, rest) := by
  obtain ⟨rfl, hunmarked, hends⟩ := h
  have hmarked (tail : List Nat) :
      negated = false → (first :: tail).head? ≠ some (unitOf '!') :=
    fun hfalse h => hunmarked hfalse (Option.some.inj h)
  by_cases hfirst : first = unitOf ']'
  · have hclosed : bracket? (once negated (unitOf '!') ++
        (once true (unitOf ']') ++ (more ++ unitOf ']' :: rest))) =
        some (once negated (unitOf '!') ++ once true (unitOf ']') ++ more, rest) :=
      bracket?_closed (hfirst ▸ hmarked _) (fun h => absurd h.symm Bool.false_ne_true) hends
    rw [List.append_assoc] at hclosed
    rw [hfirst]
    exact hclosed
  · have hinside : unitOf ']' ∉ first :: more :=
      mt List.mem_cons.mp (not_or.mpr ⟨Ne.symm hfirst, hends⟩)
    have hclosed : bracket? (once negated (unitOf '!') ++
        (once false (unitOf ']') ++ (first :: more ++ unitOf ']' :: rest))) =
        some (once negated (unitOf '!') ++ once false (unitOf ']') ++ first :: more, rest) :=
      bracket?_closed (hmarked _) (fun _ => List.cons_ne_nil _ _) hinside
    rw [List.append_assoc] at hclosed
    exact hclosed

theorem exists_isBracket {units : List Nat} {found : List Nat × List Nat}
    (h : bracket? units = some found) :
    ∃ negated first more rest, IsBracket units negated first more rest := by
  obtain ⟨negated, behind, rfl, hnegated⟩ := exists_once (unitOf '!') units
  obtain ⟨closes, tail, rfl, hcloses⟩ := exists_once (unitOf ']') behind
  have hmem : unitOf ']' ∈ tail := by
    refine Decidable.byContradiction fun hnot => ?_
    have hall : tail.takeWhile (· ≠ unitOf ']') = tail :=
      List.takeWhile_eq_self_iff.mpr fun a ha => decide_eq_true fun heq => hnot (heq ▸ ha)
    rw [bracket?_once hnegated hcloses, hall, if_neg (Nat.lt_irrefl _)] at h
    exact Option.some_ne_none found h.symm
  obtain ⟨body, rest, rfl, hends⟩ := List.eq_append_cons_of_mem hmem
  cases closes with
  | true =>
    refine ⟨negated, unitOf ']', body, rest, rfl, fun _ => by decide, hends⟩
  | false =>
    cases body with
    | nil => exact absurd rfl (hcloses rfl)
    | cons first more =>
      refine ⟨negated, first, more, rest, rfl, fun hfalse heq => hnegated hfalse ?_, fun hmore =>
        hends (List.mem_cons_of_mem _ hmore)⟩
      exact congrArg some heq

theorem bracket?_eq_none {units : List Nat}
    (h : ∀ negated first more rest, ¬IsBracket units negated first more rest) :
    bracket? units = none := by
  refine Option.eq_none_iff_forall_ne_some.mpr fun found hfound => ?_
  obtain ⟨negated, first, more, rest, hbracket⟩ := exists_isBracket hfound
  exact h negated first more rest hbracket

/-- There is one way to read a bracket. -/
theorem IsBracket.unique {units : List Nat} {negated negated' : Bool} {first first' : Nat}
    {more more' rest rest' : List Nat} (h : IsBracket units negated first more rest)
    (h' : IsBracket units negated' first' more' rest') :
    negated = negated' ∧ first = first' ∧ more = more' ∧ rest = rest' := by
  have hsame := (bracket?_of_isBracket h).symm.trans (bracket?_of_isBracket h')
  obtain ⟨hbody, hrest⟩ := Prod.mk.inj (Option.some.inj hsame)
  have hnegated : negated = negated' := by
    cases negated with
    | true =>
      cases negated' with
      | true => rfl
      | false => exact absurd (List.cons.inj hbody).1.symm (h'.unmarked rfl)
    | false =>
      cases negated' with
      | true => exact absurd (List.cons.inj hbody).1 (h.unmarked rfl)
      | false => rfl
  subst hnegated
  obtain ⟨hfirst, hmore⟩ := List.cons.inj (List.append_cancel_left hbody)
  exact ⟨rfl, hfirst, hmore, hrest⟩

theorem IsBracket.mem {units : List Nat} {negated : Bool} {first : Nat} {more rest : List Nat}
    (h : IsBracket units negated first more rest) : unitOf ']' ∈ units := by
  rw [h.text, ← List.cons_append]
  exact List.mem_append_right _ (List.mem_append_right _ List.mem_cons_self)

/-! ## Readings -/

/-- Every pattern has a reading. -/
theorem exists_reads (units : List Nat) : ∃ signs, Reads units signs := by
  induction hlength : units.length using Nat.strongRecOn generalizing units with
  | ind n ih =>
    subst hlength
    cases units with
    | nil => exact ⟨[], .nil⟩
    | cons u units =>
      obtain ⟨signs, hsigns⟩ := ih units.length (Nat.lt_succ_self _) units rfl
      by_cases hspecial : u ∈ [unitOf '*', unitOf '?', unitOf '[']
      · simp only [List.mem_cons, List.not_mem_nil, or_false] at hspecial
        rcases hspecial with rfl | rfl | rfl
        · exact ⟨_, .run hsigns⟩
        · exact ⟨_, .any hsigns⟩
        · by_cases hbracket : ∃ negated first more rest, IsBracket units negated first more rest
          · obtain ⟨negated, first, more, rest, hbracket⟩ := hbracket
            have hshorter : rest.length < (unitOf '[' :: units).length :=
              Nat.lt_succ_of_le (length_rest_le (bracket?_of_isBracket hbracket))
            obtain ⟨behind, hbehind⟩ := ih rest.length hshorter rest rfl
            exact ⟨_, .among hbracket hbehind⟩
          · simp only [not_exists] at hbracket
            exact ⟨_, .unclosed hbracket hsigns⟩
      · exact ⟨_, .unit hspecial hsigns⟩

/-- It has only one. -/
theorem Reads.unique {units : List Nat} {signs signs' : List Sign} (h : Reads units signs)
    (h' : Reads units signs') : signs = signs' := by
  induction h generalizing signs' with
  | nil =>
    cases h'
    rfl
  | run _ ih =>
    cases h' with
    | run hrest => rw [ih hrest]
    | unit hu _ => exact absurd (by simp) hu
  | any _ ih =>
    cases h' with
    | any hrest => rw [ih hrest]
    | unit hu _ => exact absurd (by simp) hu
  | among hbracket _ ih =>
    cases h' with
    | among hother hrest =>
      obtain ⟨rfl, rfl, rfl, rfl⟩ := hbracket.unique hother
      rw [ih hrest]
    | unclosed hopen _ => exact absurd hbracket (hopen _ _ _ _)
    | unit hu _ => exact absurd (by simp) hu
  | unclosed hopen _ ih =>
    cases h' with
    | among hother _ => exact absurd hother (hopen _ _ _ _)
    | unclosed _ hrest => rw [ih hrest]
    | unit hu _ => exact absurd (by simp) hu
  | unit hu _ ih =>
    cases h' with
    | run _ => exact absurd (by simp) hu
    | any _ => exact absurd (by simp) hu
    | among _ _ => exact absurd (by simp) hu
    | unclosed _ _ => exact absurd (by simp) hu
    | unit _ hrest => rw [ih hrest]

/-- What holds of one reading holds of the pattern. -/
theorem exists_reads_iff {units : List Nat} {signs : List Sign} (h : Reads units signs)
    {P : List Sign → Prop} : (∃ others, Reads units others ∧ P others) ↔ P signs := by
  refine ⟨?_, fun hP => ⟨signs, h, hP⟩⟩
  rintro ⟨others, hothers, hP⟩
  rwa [h.unique hothers]

section Pattern

variable {name pattern : String} {signs : List Sign}
  (h : Reads (Text.units pattern.toList) signs)
include h

theorem hasSign_iff {sign : Sign} : HasSign pattern sign ↔ sign ∈ signs :=
  exists_reads_iff h

theorem matches_iff : Matches name pattern ↔ SignsMatch signs (Text.units name.toList) :=
  exists_reads_iff h

theorem matchesBriefly_iff :
    MatchesBriefly name pattern ↔ SignsMatch (singles signs) (Text.units name.toList) :=
  exists_reads_iff h

end Pattern

end Glob
end ApiSync
