import ApiSync.Glob
import ApiSync.Proofs.Glob.Expression
/-!
# Patterns that cannot be read

A pattern cannot be read if what it is written as is no expression.  The patterns are tried one
after the other, so those behind the first one that matches do not count.
-/

namespace ApiSync
namespace Glob

/-- A range that runs backwards among the members listed in a bracket. -/
inductive ListsBackward : List Nat → Prop
  | here {low high : Nat} {rest : List Nat} (h : high < low) :
      ListsBackward (low :: unitOf '-' :: high :: rest)
  | behindRange {low high : Nat} {rest : List Nat} (later : ListsBackward rest) :
      ListsBackward (low :: unitOf '-' :: high :: rest)
  | behindMember {a b c : Nat} {rest : List Nat} (h : b ≠ unitOf '-')
      (later : ListsBackward (b :: c :: rest)) : ListsBackward (a :: b :: c :: rest)

/-! ## Reading a pattern -/

theorem ranges?_eq_none_iff (units : List Nat) : ranges? units = none ↔ ListsBackward units := by
  fun_induction ranges? units with
  | case1 => exact iff_of_false nofun nofun
  | case2 a => exact iff_of_false nofun nofun
  | case3 a b => exact iff_of_false nofun nofun
  | case4 low high rest hle ih =>
    rw [Option.map_eq_none_iff, ih]
    refine ⟨.behindRange, fun h => ?_⟩
    cases h with
    | here hlt => omega
    | behindRange later => exact later
    | behindMember hne _ => exact absurd rfl hne
  | case5 low high rest hlt => exact iff_of_true rfl (.here (Nat.not_le.mp hlt))
  | case6 a dash b rest hne ih =>
    rw [Option.map_eq_none_iff, ih]
    refine ⟨.behindMember hne, fun h => ?_⟩
    cases h with
    | here _ => exact absurd rfl hne
    | behindRange _ => exact absurd rfl hne
    | behindMember _ later => exact later

theorem needs_setOf (negated : Bool) (members : List Nat) :
    Needs Failure.badGlob (¬ListsBackward members) (setOf negated members) := by
  rw [setOf, ← ranges?_eq_none_iff]
  cases ranges? members with
  | none => exact needs_throw.congr (iff_of_false id fun h => h rfl)
  | some ranges => exact (needs_pure _).congr (iff_of_true trivial nofun)

theorem failsAs_setOf (negated : Bool) (members : List Nat) :
    FailsAs Failure.badGlob (setOf negated members) := fun _ hf =>
  (needs_setOf negated members).eq_of_error hf

theorem failsAs_textTokens (fuel : Nat) (units : List Nat) :
    FailsAs Failure.badGlob (textTokens fuel units) := by
  induction fuel generalizing units with
  | zero => exact failsAs_pure _
  | succ fuel ih =>
    cases units with
    | nil => exact failsAs_pure _
    | cons u units =>
      rw [textTokens]
      repeat' split
      · exact failsAs_throw
      · exact (ih _).bind fun _ => failsAs_pure _
      · exact (ih _).bind fun _ => failsAs_pure _
      · exact failsAs_throw
      · exact (failsAs_setOf _ _).bind fun _ => (ih _).bind fun _ => failsAs_pure _
      · exact failsAs_throw
      · exact (ih _).bind fun _ => failsAs_pure _

theorem failsAs_bracketTokens (body : List Nat) :
    FailsAs Failure.badGlob (bracketTokens body) := by
  rw [bracketTokens]
  repeat' split
  · exact (failsAs_textTokens _ _).bind fun _ => failsAs_pure _
  · exact (failsAs_setOf _ _).bind fun _ => failsAs_pure _

theorem failsAs_tokensFrom (fuel : Nat) (units : List Nat) :
    FailsAs Failure.badGlob (tokensFrom fuel units) := by
  induction fuel generalizing units with
  | zero => exact failsAs_pure _
  | succ fuel ih =>
    cases units with
    | nil => exact failsAs_pure _
    | cons u units =>
      have hplain (front : List Token) :
          FailsAs Failure.badGlob (do return front ++ (← tokensFrom fuel units)) :=
        (ih units).bind fun _ => failsAs_pure _
      rw [tokensFrom]
      repeat' split
      · exact hplain [.set .everything, .count 0 none]
      · exact hplain [.set .everything]
      · exact hplain [.set (.only u)]
      · exact (failsAs_bracketTokens _).bind fun _ => (ih _).bind fun _ => failsAs_pure _
      · exact hplain [.set (.only u)]

theorem length_rest_le {cs body rest : List Nat} (h : bracket? cs = some (body, rest)) :
    rest.length ≤ cs.length := by
  simp only [bracket?] at h
  split at h
  · obtain ⟨-, rfl⟩ := Prod.mk.inj (Option.some.inj h)
    simp only [List.length_drop]
    omega
  · cases h

/-- The pattern is written as tokens that are no expression, or not as tokens at all. -/
def IsBroken (pattern : String) : Prop :=
  ¬∃ tokens, tokensOf pattern = .ok tokens ∧ IsExpression tokens

theorem needs_parse (pattern : String) :
    Needs Failure.badGlob (¬IsBroken pattern) (parse pattern) := by
  have htokens : FailsAs Failure.badGlob (tokensOf pattern) :=
    (failsAs_tokensFrom _ _).bind fun _ => failsAs_pure _
  rw [IsBroken, Classical.not_not, parse]
  cases hread : tokensOf pattern with
  | error f =>
    obtain rfl := htokens f hread
    exact needs_throw.congr (iff_of_false id (by simp))
  | ok tokens =>
    refine (needs_ofTokens tokens).congr ?_
    simp

theorem needs_isMatch (name pattern : String) :
    Needs Failure.badGlob (¬IsBroken pattern) (isMatch name pattern) :=
  (needs_parse pattern).bind_pure _

/-- What stands behind a bracket that closes at once opens a group here. -/
example : isMatch "a.py" "[](]" = .error .badGlob := by rfl

/-! ## Trying patterns -/

/-- The pattern keeps the file out, by its path from the root or by its name. -/
def Excludes (root file pattern : String) : Prop :=
  isMatch (Path.relative root file) pattern = .ok true ∨
    isMatch (Path.baseName file) pattern = .ok true

/-- The patterns in front of the first one that keeps the file out, and that one, can be read. -/
def Tries (root file : String) (patterns : List String) : Prop :=
  ∀ before pattern after, patterns = before ++ pattern :: after →
    (∀ earlier ∈ before, ¬Excludes root file earlier) → ¬IsBroken pattern

theorem tries_cons {root file pattern : String} {patterns : List String} :
    Tries root file (pattern :: patterns) ↔
      ¬IsBroken pattern ∧ (¬Excludes root file pattern → Tries root file patterns) := by
  constructor
  · intro h
    refine ⟨h [] pattern patterns rfl fun _ hmem => absurd hmem List.not_mem_nil, ?_⟩
    intro hnot before later after heq hbefore
    refine h (pattern :: before) later after (by rw [heq]; rfl) ?_
    exact List.forall_mem_cons.mpr ⟨hnot, hbefore⟩
  · rintro ⟨hfirst, hrest⟩ before later after heq hbefore
    cases before with
    | nil =>
      obtain ⟨rfl, -⟩ := List.cons.inj heq
      exact hfirst
    | cons earlier before =>
      obtain ⟨rfl, htail⟩ := List.cons.inj heq
      obtain ⟨hnot, hbefore⟩ := List.forall_mem_cons.mp hbefore
      exact hrest hnot before later after htail hbefore

theorem isIgnored_cons (root file : String) (patterns : List String) {pattern : String}
    (h : ¬IsBroken pattern) :
    (Excludes root file pattern → isIgnored file root (pattern :: patterns) = .ok true) ∧
      (¬Excludes root file pattern →
        isIgnored file root (pattern :: patterns) = isIgnored file root patterns) := by
  obtain ⟨byPath, hpath⟩ := (needs_isMatch (Path.relative root file) pattern).succeeds h
  obtain ⟨byName, hname⟩ := (needs_isMatch (Path.baseName file) pattern).succeeds h
  rw [Excludes, hpath, hname, isIgnored, anyMatch, hpath, hname, isIgnored]
  cases byPath <;> cases byName <;> simp [bind, Except.bind, pure, Except.pure]

/-- Whether a file is kept out can be told exactly if the patterns that are tried can be read. -/
theorem needs_isIgnored (root file : String) (patterns : List String) :
    Needs Failure.badGlob (Tries root file patterns) (isIgnored file root patterns) := by
  induction patterns with
  | nil =>
    refine (needs_pure false).congr (iff_of_true trivial ?_)
    intro before pattern after heq
    exact absurd heq (by simp)
  | cons pattern patterns ih =>
    rw [tries_cons]
    by_cases hbroken : IsBroken pattern
    · refine ⟨fun h => absurd hbroken h.1, fun _ => ?_⟩
      have hfails : isMatch (Path.relative root file) pattern = .error .badGlob :=
        (needs_isMatch _ pattern).fails fun h => h hbroken
      rw [isIgnored, anyMatch, hfails]
      rfl
    · obtain ⟨hout, hin⟩ := isIgnored_cons root file patterns hbroken
      by_cases hexcludes : Excludes root file pattern
      · rw [hout hexcludes]
        exact (needs_pure true).congr
          (iff_of_true trivial ⟨hbroken, fun hnot => absurd hexcludes hnot⟩)
      · rw [hin hexcludes]
        exact ih.congr ⟨fun h => ⟨hbroken, fun _ => h⟩, fun h => h.2 hexcludes⟩

/-- A file is kept out by the patterns exactly if one of them does so. -/
theorem isIgnored_eq_ok {root file : String} {patterns : List String} {isOut : Bool}
    (h : isIgnored file root patterns = .ok isOut) :
    isOut = true ↔ ∃ pattern ∈ patterns, Excludes root file pattern := by
  induction patterns with
  | nil =>
    obtain rfl : false = isOut := Except.ok.inj h
    simp
  | cons pattern patterns ih =>
    have hbroken : ¬IsBroken pattern :=
      (tries_cons.mp ((needs_isIgnored root file (pattern :: patterns)).holds h)).1
    obtain ⟨hout, hin⟩ := isIgnored_cons root file patterns hbroken
    by_cases hexcludes : Excludes root file pattern
    · rw [hout hexcludes] at h
      obtain rfl : true = isOut := Except.ok.inj h
      exact iff_of_true rfl ⟨pattern, List.mem_cons_self, hexcludes⟩
    · rw [hin hexcludes] at h
      rw [ih h]
      simp [hexcludes]

end Glob
end ApiSync
