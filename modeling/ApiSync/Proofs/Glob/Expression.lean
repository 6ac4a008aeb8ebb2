import ApiSync.Glob.Expression
import ApiSync.Proofs.Failing
/-!
# Expressions that can be read

The rules by which tokens make an expression, and that reading accepts what they admit and nothing
else.  The reader keeps a row for each group that is still open.  What it holds is by the rules at
any time, so that the whole is an expression if no group is left open at the end.
-/

namespace ApiSync
namespace Glob

/-- The tokens make the inside of a group, or a whole expression.  A count may follow where the
last of them says so. -/
inductive Forms : Bool → List Token → Prop
  | nil : Forms false []
  | set {isCountable : Bool} {tokens : List Token} (s : UnitSet)
      (hfront : Forms isCountable tokens) : Forms true (tokens ++ [.set s])
  | start {isCountable : Bool} {tokens : List Token} (hfront : Forms isCountable tokens) :
      Forms false (tokens ++ [.start])
  | stop {isCountable : Bool} {tokens : List Token} (hfront : Forms isCountable tokens) :
      Forms false (tokens ++ [.stop])
  | bar {isCountable : Bool} {tokens : List Token} (hfront : Forms isCountable tokens) :
      Forms false (tokens ++ [.bar])
  | count {tokens : List Token} (least : Nat) (most : Option Nat) (hfront : Forms true tokens) :
      Forms false (tokens ++ [.count least most])
  | group {isCountable isCountable' : Bool} {tokens inside : List Token} (kind : GroupKind)
      (name : Option String) (hfront : Forms isCountable tokens)
      (hinside : Forms isCountable' inside) :
      Forms kind.isCountable (tokens ++ .opening kind name :: (inside ++ [.closing]))

structure IsExpression (tokens : List Token) : Prop where
  forms : ∃ isCountable, Forms isCountable tokens
  distinct : (tokens.filterMap Token.name?).Nodup

namespace Reading

theorem isSome_last_add (row : Row) (term : Expression) (isCountable : Bool) :
    (row.add term isCountable).last.isSome = isCountable := by
  cases isCountable <;> rfl

/-! ## What the rules admit -/

/-- A group by the rules is read into a row of its own. -/
theorem foldlM_of_forms {isCountable : Bool} {tokens : List Token} (h : Forms isCountable tokens)
    (outer : List (GroupKind × Row)) :
    ∃ row : Row, tokens.foldlM step ⟨.empty, outer⟩ = .ok ⟨row, outer⟩ ∧
      row.last.isSome = isCountable := by
  induction h generalizing outer with
  | nil => exact ⟨.empty, rfl, rfl⟩
  | set s _ ih =>
    obtain ⟨row, hrow, -⟩ := ih outer
    rw [foldlM_append_of_ok hrow]
    exact ⟨row.add (.set s) true, rfl, rfl⟩
  | start _ ih =>
    obtain ⟨row, hrow, -⟩ := ih outer
    rw [foldlM_append_of_ok hrow]
    exact ⟨row.add .start false, rfl, rfl⟩
  | stop _ ih =>
    obtain ⟨row, hrow, -⟩ := ih outer
    rw [foldlM_append_of_ok hrow]
    exact ⟨row.add .stop false, rfl, rfl⟩
  | bar _ ih =>
    obtain ⟨row, hrow, -⟩ := ih outer
    rw [foldlM_append_of_ok hrow]
    exact ⟨⟨some row.whole, .empty, none⟩, rfl, rfl⟩
  | count least most _ ih =>
    obtain ⟨⟨before, terms, last⟩, hrow, hlast⟩ := ih outer
    obtain ⟨term, rfl⟩ := Option.isSome_iff_exists.mp hlast
    rw [foldlM_append_of_ok hrow]
    exact ⟨⟨before, .chain terms (.times term least most), none⟩, rfl, rfl⟩
  | group kind name _ _ ihfront ihinside =>
    obtain ⟨row, hrow, -⟩ := ihfront outer
    obtain ⟨inner, hinner, -⟩ := ihinside ((kind, row) :: outer)
    have hopening : step ⟨row, outer⟩ (.opening kind name) =
        .ok ⟨.empty, (kind, row) :: outer⟩ := rfl
    refine ⟨row.add (kind.around inner.whole) kind.isCountable, ?_, isSome_last_add _ _ _⟩
    rw [foldlM_append_of_ok hrow, List.foldlM_cons, hopening]
    exact foldlM_append_of_ok hinner [.closing]

/-! ## What is read -/

/-- What has been read, group by group, is by the rules. -/
inductive Opened : List Token → Reading → Prop
  | whole {tokens : List Token} {row : Row} (hrow : Forms row.last.isSome tokens) :
      Opened tokens ⟨row, []⟩
  | group {tokens inside : List Token} {row front : Row} {outer : List (GroupKind × Row)}
      (kind : GroupKind) (name : Option String) (hfront : Opened tokens ⟨front, outer⟩)
      (hinside : Forms row.last.isSome inside) :
      Opened (tokens ++ .opening kind name :: inside) ⟨row, (kind, front) :: outer⟩

/-- More tokens in the group that is being read. -/
theorem Opened.extend {tokens more : List Token} {row row' : Row}
    {outer : List (GroupKind × Row)} (h : Opened tokens ⟨row, outer⟩)
    (hmore : ∀ inside, Forms row.last.isSome inside → Forms row'.last.isSome (inside ++ more)) :
    Opened (tokens ++ more) ⟨row', outer⟩ := by
  cases h with
  | whole hrow => exact .whole (hmore _ hrow)
  | group kind name hfront hinside =>
    rw [List.append_assoc]
    exact .group kind name hfront (hmore _ hinside)

theorem Opened.step {tokens : List Token} {reading reading' : Reading} {token : Token}
    (h : Opened tokens reading) (hstep : reading.step token = .ok reading') :
    Opened (tokens ++ [token]) reading' := by
  obtain ⟨row, outer⟩ := reading
  cases token with
  | set s =>
    obtain rfl := Except.ok.inj hstep
    exact h.extend fun _ => .set s
  | start =>
    obtain rfl := Except.ok.inj hstep
    exact h.extend fun _ => .start
  | stop =>
    obtain rfl := Except.ok.inj hstep
    exact h.extend fun _ => .stop
  | bar =>
    obtain rfl := Except.ok.inj hstep
    exact h.extend fun _ => .bar
  | count least most =>
    obtain ⟨before, terms, last⟩ := row
    cases last with
    | none => cases hstep
    | some term =>
      obtain rfl := Except.ok.inj hstep
      exact h.extend fun _ => .count least most
  | opening kind name =>
    obtain rfl := Except.ok.inj hstep
    exact .group kind name h .nil
  | closing =>
    cases h with
    | whole _ => cases hstep
    | group kind name hfront hinside =>
      obtain rfl := Except.ok.inj hstep
      rw [List.append_assoc]
      refine hfront.extend fun _ h => ?_
      rw [isSome_last_add]
      exact .group kind name h hinside

theorem opened_of_foldlM {tokens : List Token} {reading : Reading}
    (h : tokens.foldlM step ⟨.empty, []⟩ = .ok reading) : Opened tokens reading := by
  have hrun (read more : List Token) (before : Reading) (hbefore : Opened read before)
      (hmore : more.foldlM step before = .ok reading) : Opened (read ++ more) reading := by
    induction more generalizing read before with
    | nil =>
      obtain rfl := Except.ok.inj hmore
      rwa [List.append_nil]
    | cons token more ih =>
      obtain ⟨after, hstep, hafter⟩ := bind_eq_ok.mp hmore
      rw [List.append_cons]
      exact ih (read ++ [token]) after (hbefore.step hstep) hafter
  exact hrun [] tokens ⟨.empty, []⟩ (.whole .nil) h

theorem failsAs_step (reading : Reading) (token : Token) :
    FailsAs Failure.badGlob (reading.step token) := by
  obtain ⟨⟨before, terms, last⟩, outer⟩ := reading
  cases token with
  | count least most =>
    cases last with
    | none => exact failsAs_throw
    | some term => exact failsAs_pure _
  | closing =>
    cases outer with
    | nil => exact failsAs_throw
    | cons group outer => exact failsAs_pure _
  | set s | start | stop | bar => exact failsAs_pure _
  | opening kind name => exact failsAs_pure _

end Reading

/-- Tokens are read exactly if they are by the rules and no name is used twice. -/
theorem needs_ofTokens (tokens : List Token) :
    Needs Failure.badGlob (IsExpression tokens) (Expression.ofTokens tokens) := by
  rw [Expression.ofTokens]
  by_cases hdistinct : (tokens.filterMap Token.name?).Nodup
  · rw [if_neg (not_not_intro hdistinct)]
    constructor
    · intro h
      obtain ⟨isCountable, hforms⟩ := h.forms
      obtain ⟨row, hread, -⟩ := Reading.foldlM_of_forms hforms []
      exact ⟨row.whole, by rw [hread]; rfl⟩
    · intro hnot
      cases hread : tokens.foldlM Reading.step ⟨.empty, []⟩ with
      | error f =>
        rw [failsAs_foldlM Reading.failsAs_step tokens _ f hread]
        rfl
      | ok reading =>
        obtain ⟨row, outer⟩ := reading
        cases Reading.opened_of_foldlM hread with
        | whole hrow => exact absurd ⟨⟨_, hrow⟩, hdistinct⟩ hnot
        | group kind name _ _ => rfl
  · rw [if_pos hdistinct]
    exact needs_throw.congr (iff_of_false id fun h => hdistinct h.distinct)

/-! ## Matching without groups -/

namespace Expression

variable {text : List Nat} {i : Nat}

/-- The position behind a stretch of the text. -/
theorem drop_of_append {stretch rest : List Nat} (hi : i ≤ text.length)
    (h : text.drop i = stretch ++ rest) :
    i + stretch.length ≤ text.length ∧ text.drop (i + stretch.length) = rest := by
  have hlength := congrArg List.length h
  rw [List.length_drop, List.length_append] at hlength
  refine ⟨by omega, ?_⟩
  rw [← List.drop_drop, h, List.drop_left]

theorem drop_of_cons {u : Nat} {rest : List Nat} (hi : i ≤ text.length)
    (h : text.drop i = u :: rest) : i + 1 ≤ text.length ∧ text.drop (i + 1) = rest := by
  have happend : text.drop i = [u] ++ rest := h
  exact drop_of_append hi happend

theorem run_set {s : UnitSet} {next : Nat → Bool} :
    (Expression.set s).run text false i next = true ↔
      ∃ u rest, text.drop i = u :: rest ∧ s.member u = true ∧ next (i + 1) = true := by
  have hbeside : beside? text false i = text[i]?.map (·, i + 1) := rfl
  rw [run, hbeside]
  cases hdrop : text.drop i with
  | nil =>
    rw [List.getElem?_eq_none (List.drop_eq_nil_iff.mp hdrop)]
    exact iff_of_false Bool.false_ne_true fun ⟨_, _, h, _⟩ => List.cons_ne_nil _ _ h.symm
  | cons u rest =>
    have hu : text[i]? = some u := by rw [← List.head?_drop, hdrop, List.head?_cons]
    rw [hu, Option.map_some, Option.any_some, Bool.and_eq_true]
    constructor
    · intro h
      exact ⟨u, rest, rfl, h⟩
    · intro h
      obtain ⟨_, _, hcons, hmember⟩ := h
      obtain ⟨rfl, -⟩ := List.cons.inj hcons
      exact hmember

theorem moves_everything {fuel : Nat} {next : Nat → Bool} (hi : i ≤ text.length)
    (hfuel : text.length ≤ i + fuel) :
    moves ((Expression.set .everything).run text false) fuel i next = true ↔
      ∃ stretch rest, text.drop i = stretch ++ rest ∧ next (i + stretch.length) = true := by
  induction fuel generalizing i with
  | zero =>
    have hdrop : text.drop i = [] := List.drop_eq_nil_iff.mpr hfuel
    rw [moves, hdrop]
    constructor
    · intro h
      exact ⟨[], [], rfl, h⟩
    · intro h
      obtain ⟨stretch, rest, happend, hnext⟩ := h
      rwa [(List.append_eq_nil_iff.mp happend.symm).1] at hnext
  | succ fuel ih =>
    have hmoved : (i + 1 != i) = true := by simp
    have hfuel' : text.length ≤ i + 1 + fuel := by omega
    rw [moves, Bool.or_eq_true, run_set]
    constructor
    · intro h
      rcases h with hhere | ⟨u, rest, hdrop, -, hmoves⟩
      · exact ⟨[], text.drop i, rfl, hhere⟩
      · obtain ⟨hinside, hrest⟩ := drop_of_cons hi hdrop
        rw [hmoved, Bool.true_and] at hmoves
        obtain ⟨stretch, behind, happend, h⟩ := (ih hinside hfuel').mp hmoves
        refine ⟨u :: stretch, behind, ?_, ?_⟩
        · rw [hdrop, ← hrest, List.cons_append, ← happend]
        · rwa [List.length_cons, ← Nat.add_assoc, Nat.add_right_comm]
    · intro h
      obtain ⟨stretch, rest, happend, hnext⟩ := h
      cases stretch with
      | nil => exact .inl hnext
      | cons u stretch =>
        obtain ⟨hinside, hrest⟩ := drop_of_cons hi happend
        rw [List.length_cons, ← Nat.add_assoc, Nat.add_right_comm] at hnext
        refine .inr ⟨u, stretch ++ rest, happend, rfl, ?_⟩
        rw [hmoved, Bool.true_and]
        exact (ih hinside hfuel').mpr ⟨stretch, rest, hrest, hnext⟩

theorem run_stretch {next : Nat → Bool} (hi : i ≤ text.length) :
    (Expression.times (.set .everything) 0 none).run text false i next = true ↔
      ∃ stretch rest, text.drop i = stretch ++ rest ∧ next (i + stretch.length) = true :=
  moves_everything hi (Nat.le_add_left _ _)

end Expression

end Glob
end ApiSync
