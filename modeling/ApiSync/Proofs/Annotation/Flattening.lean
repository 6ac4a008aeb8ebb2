import ApiSync.Proofs.Annotation.MemberParts
/-!
# Flattening twice

Flattening opens pipe groups first and rewrites the first union then, each in ten passes.

Rewriting a union leaves characters out and puts a blank behind each comma, and the parentheses
stay as they are.  So it never makes a pipe group where there was none, and the groups of a
flattened text are those that were left.

A pass leaves no nested union in the list that it writes.  The bracket that closes the union may
come earlier in that list than before, because a member may close a bracket that it does not open.
Then the last member is cut short and may be a nested union once more.  That member came from
inside a nested union, so it is nested less deeply than what was there before the pass.
-/

namespace ApiSync
namespace Annotation

open Text

/-! ## What a pass leaves out -/

/-- Characters other than parentheses are left out, and blanks are put behind commas. -/
inductive Thins : List Char → List Char → Prop
  | nil : Thins [] []
  | keep {a b : List Char} (c : Char) (rest : Thins a b) : Thins (c :: a) (c :: b)
  | drop {a b : List Char} {c : Char} (plain : isParen c = false) (rest : Thins a b) :
      Thins (c :: a) b
  | space {a b : List Char} (rest : Thins a b) : Thins (',' :: a) (',' :: ' ' :: b)

namespace Thins

variable {a b a' b' : List Char}

theorem refl (a : List Char) : Thins a a := by
  induction a with
  | nil => exact .nil
  | cons c a ih => exact .keep c ih

theorem append (h : Thins a b) (h' : Thins a' b') : Thins (a ++ a') (b ++ b') := by
  induction h with
  | nil => exact h'
  | keep c rest ih => exact .keep c ih
  | drop plain rest ih => exact .drop plain ih
  | space rest ih => exact .space ih

theorem of_plain (h : ∀ c ∈ a, isParen c = false) : Thins a [] := by
  induction a with
  | nil => exact .nil
  | cons c a ih =>
    obtain ⟨hc, ha⟩ := List.forall_mem_cons.mp h
    exact .drop hc (ih ha)

theorem of_ne_nil (h : Thins a b) (hb : b ≠ []) : a ≠ [] := by
  rintro rfl
  cases h
  exact hb rfl

/-- A character that stands in the result was there before, with what is around it. -/
theorem exists_of_append {text x y : List Char} {c : Char} (h : Thins text (x ++ c :: y))
    (hblank : c ≠ ' ') (hcomma : c ≠ ',') :
    ∃ x' y', text = x' ++ c :: y' ∧ Thins x' x ∧ Thins y' y := by
  generalize hwhole : x ++ c :: y = whole at h
  induction h generalizing x with
  | nil => exact absurd hwhole (List.append_ne_nil_of_right_ne_nil x (List.cons_ne_nil c y))
  | @keep a b d rest ih =>
    cases x with
    | nil =>
      obtain ⟨rfl, rfl⟩ := List.cons.inj hwhole
      exact ⟨[], a, rfl, .nil, rest⟩
    | cons e x =>
      obtain ⟨rfl, hrest⟩ := List.cons.inj hwhole
      obtain ⟨x', y', rfl, hx, hy⟩ := ih hrest
      exact ⟨e :: x', y', rfl, .keep e hx, hy⟩
  | @drop a b d plain rest ih =>
    obtain ⟨x', y', rfl, hx, hy⟩ := ih hwhole
    exact ⟨d :: x', y', rfl, .drop plain hx, hy⟩
  | @space a b rest ih =>
    cases x with
    | nil => exact absurd (List.cons.inj hwhole).1 hcomma
    | cons e x =>
      obtain ⟨rfl, hrest⟩ := List.cons.inj hwhole
      cases x with
      | nil => exact absurd (List.cons.inj hrest).1 hblank
      | cons e x =>
        obtain ⟨rfl, hafter⟩ := List.cons.inj hrest
        obtain ⟨x', y', rfl, hx, hy⟩ := ih hafter
        exact ⟨',' :: x', y', rfl, .space hx, hy⟩

/-- Parentheses are kept. -/
theorem plain_of_plain (h : Thins a b) (hb : ∀ c ∈ b, isParen c = false) :
    ∀ c ∈ a, isParen c = false := by
  induction h with
  | nil => exact hb
  | keep c rest ih =>
    obtain ⟨hc, hrest⟩ := List.forall_mem_cons.mp hb
    exact List.forall_mem_cons.mpr ⟨hc, ih hrest⟩
  | drop plain rest ih => exact List.forall_mem_cons.mpr ⟨plain, ih hb⟩
  | space rest ih =>
    obtain ⟨hc, hrest⟩ := List.forall_mem_cons.mp hb
    exact List.forall_mem_cons.mpr ⟨hc, ih (List.forall_mem_cons.mp hrest).2⟩

end Thins

theorem hasInnerPipe_iff {inside : List Char} :
    hasInnerPipe inside = true ↔ ∃ x y, inside = x ++ '|' :: y ∧ x ≠ [] ∧ y ≠ [] := by
  rw [hasInnerPipe, List.contains_iff_mem]
  constructor
  · intro h
    cases inside with
    | nil => cases h
    | cons c rest =>
      obtain ⟨x, y, hxy⟩ := List.append_of_mem h
      have hrest : rest ≠ [] := by
        rintro rfl
        cases h
      have hwhole := List.dropLast_append_getLast hrest
      rw [show rest.dropLast = x ++ '|' :: y from hxy] at hwhole
      refine ⟨c :: x, y ++ [rest.getLast hrest], ?_, List.cons_ne_nil _ _, by simp⟩
      rw [List.append_assoc] at hwhole
      exact congrArg (c :: ·) hwhole.symm
  · rintro ⟨x, y, rfl, hx, hy⟩
    obtain ⟨c, x, rfl⟩ := List.exists_cons_of_ne_nil hx
    have hdrop : ((c :: x ++ '|' :: y).drop 1).dropLast = x ++ '|' :: y.dropLast := by
      show (x ++ '|' :: y).dropLast = _
      rw [List.dropLast_append_of_ne_nil (List.cons_ne_nil _ _), List.dropLast_cons_of_ne_nil hy]
    rw [hdrop]
    exact List.mem_append_right x List.mem_cons_self

theorem Thins.hasPipeGroup {a b : List Char} (h : Thins a b)
    (hgroup : Annotation.hasPipeGroup b = true) : Annotation.hasPipeGroup a = true := by
  obtain ⟨x, inside, y, rfl, hplain, hpipe⟩ := exists_of_hasPipeGroup hgroup
  obtain ⟨p, q, rfl, hp, hq⟩ := hasInnerPipe_iff.mp hpipe
  obtain ⟨x', rest, rfl, -, hrest⟩ := h.exists_of_append (by decide) (by decide)
  obtain ⟨inside', y', rfl, hinside, -⟩ := hrest.exists_of_append (by decide) (by decide)
  have hplain' := hinside.plain_of_plain hplain
  obtain ⟨p', q', rfl, hp', hq'⟩ := hinside.exists_of_append (by decide) (by decide)
  exact hasPipeGroup_of_group hplain'
    (hasInnerPipe_iff.mpr ⟨p', q', rfl, hp'.of_ne_nil hp, hq'.of_ne_nil hq⟩) x' y'

/-! ### Members -/

theorem plain_of_blank {blanks : List Char} (h : ∀ c ∈ blanks, isBlank c = true) :
    ∀ c ∈ blanks, isParen c = false := by
  intro c hc
  by_contra hparen
  have hblank := h c hc
  simp only [isParen, Bool.or_eq_false_iff, decide_eq_false_iff_not, not_and_or, not_not] at hparen
  rcases hparen with rfl | rfl <;> cases hblank

/-- The blanks around a text can be left out. -/
theorem Thins.of_trim {text b : List Char} (h : Thins (trim text) b) : Thins text b := by
  obtain ⟨lead, tail, hlead, htail, heq⟩ := eq_append_trim text
  have hwhole := ((Thins.of_plain (plain_of_blank hlead)).append h).append
    (Thins.of_plain (plain_of_blank htail))
  rw [← heq, List.nil_append, List.append_nil] at hwhole
  exact hwhole

theorem commaJoin_append {ms ns : List (List Char)} (hm : ms ≠ []) (hn : ns ≠ []) :
    commaJoin (ms ++ ns) = commaJoin ms ++ ',' :: ' ' :: commaJoin ns := by
  have hjoin := joinWith_append [',', ' '] hm hn
  rw [List.append_assoc] at hjoin
  exact hjoin

/-- Parts that are replaced by members of their own, between commas. -/
theorem thins_commaJoin {parts : List (List Char)} {become : List Char → List (List Char)}
    (h : ∀ m ∈ parts, Thins m (commaJoin (become m))) :
    Thins (joinWith [','] parts) (commaJoin (parts.flatMap become)) := by
  induction parts with
  | nil => exact .nil
  | cons m parts ih =>
    obtain ⟨hm, hparts⟩ := List.forall_mem_cons.mp h
    have hrest := ih hparts
    rw [List.flatMap_cons]
    by_cases hnil : parts = []
    · subst hnil
      rw [List.flatMap_nil, List.append_nil]
      exact hm
    · rw [joinWith_char m hnil]
      by_cases hnone : parts.flatMap become = []
      · rw [hnone] at hrest
        rw [hnone, List.append_nil]
        have hleft := hm.append (.drop (c := ',') (by decide) hrest)
        rwa [show commaJoin [] = [] from rfl, List.append_nil] at hleft
      · by_cases hgone : become m = []
        · rw [hgone] at hm ⊢
          exact hm.append (.drop (c := ',') (by decide) hrest)
        · rw [commaJoin_append hgone hnone]
          exact hm.append (.space hrest)

theorem thins_members {become : List Char → List (List Char)}
    (h : ∀ m, Thins m (commaJoin (become m))) (text : List Char) :
    Thins text (commaJoin ((members text).flatMap become)) := by
  have hparts : ∀ m ∈ splitMembers 0 [] text,
      Thins m (commaJoin (if trim m = [] then [] else become (trim m))) := by
    intro m _
    apply Thins.of_trim
    split
    · next hblank =>
      rw [hblank]
      exact .nil
    · exact h (trim m)
  have hjoin := thins_commaJoin hparts
  rwa [joinWith_splitMembers, ← flatMap_members] at hjoin

theorem plain_unionName (qualified : Bool) {blanks : List Char}
    (h : ∀ c ∈ blanks, isBlank c = true) :
    ∀ c ∈ unionName qualified ++ blanks, isParen c = false := by
  have hname : (unionName qualified).all (!isParen ·) = true := by cases qualified <;> rfl
  have hplain : ∀ c ∈ unionName qualified, isParen c = false := by simpa using hname
  exact List.forall_mem_append.mpr ⟨hplain, plain_of_blank h⟩

theorem thins_flattenMembersFrom (fuel : Nat) (text : List Char) :
    Thins text (commaJoin (flattenMembersFrom fuel text)) := by
  induction fuel generalizing text with
  | zero =>
    have hself : ∀ m, Thins m (commaJoin ((fun m => [m]) m)) := Thins.refl
    have h := thins_members hself text
    rwa [List.flatMap_singleton'] at h
  | succ fuel ih =>
    rw [flattenMembersFrom_succ]
    refine thins_members (fun m => ?_) text
    cases hnested : nestedUnion? m with
    | none =>
      rw [flattenMember_of_none hnested]
      exact Thins.refl m
    | some inside =>
      obtain ⟨qualified, blanks, hblanks, rfl⟩ := eq_append_of_nestedUnion? hnested
      have hclose : Thins (inside ++ [']']) (commaJoin (flattenMembersFrom fuel inside) ++ []) :=
        (ih inside).append (.drop (by decide) .nil)
      have hname := Thins.of_plain (plain_unionName qualified hblanks)
      rw [List.append_nil] at hclose
      rw [flattenMember, hnested]
      exact hname.append (.drop (by decide) hclose)

theorem thins_flattenOnce (text : List Char) : Thins text (flattenOnce text) := by
  rcases flattenOnce_cases text with hsame | ⟨u, inside, after, h, hunion⟩
  · rw [hsame]
    exact Thins.refl text
  · obtain ⟨blanks, hblanks, heq⟩ := eq_append_of_unionStart? h.start
    have hrest : Thins (inside ++ ']' :: after)
        (commaJoin (flattenMembers inside) ++ ']' :: after) :=
      (thins_flattenMembersFrom _ inside).append (Thins.refl _)
    have hopen : Thins (blanks ++ '[' :: (inside ++ ']' :: after))
        ('[' :: (commaJoin (flattenMembers inside) ++ ']' :: after)) :=
      (Thins.of_plain (plain_of_blank hblanks)).append (.keep '[' hrest)
    rw [flattenOnce_eq h hunion, UnionStart.followedBy]
    conv_lhs => rw [heq, h.rest]
    exact (Thins.refl _).append ((Thins.refl _).append hopen)

/-- Passes over the first union make no pipe groups. -/
theorem not_hasPipeGroup_iterate_flattenOnce {text : List Char}
    (h : hasPipeGroup text = false) (n : Nat) : hasPipeGroup (flattenOnce^[n] text) = false := by
  induction n with
  | zero => exact h
  | succ n ih =>
    rw [Function.iterate_succ_apply']
    by_contra hgroup
    rw [Bool.not_eq_false] at hgroup
    have hbefore := (thins_flattenOnce _).hasPipeGroup hgroup
    rw [ih] at hbefore
    cases hbefore

/-! ## The bracket that ends a flattened union -/

/-- A comma at the top of a text stands where as much is closed as opened. -/
theorem exists_of_hasTop {depth final : Nat} {cs : List Char}
    (h : square.depthAfter? depth cs = some final) (htop : hasTop ',' depth cs = true) :
    ∃ a b, cs = a ++ ',' :: b ∧ (depth : Int) + square.net a = 0 := by
  induction cs generalizing depth with
  | nil => cases htop
  | cons c cs ih =>
    obtain ⟨hnext, hstep⟩ := depthAfter?_square h
    rw [hasTop, Bool.or_eq_true, Bool.and_eq_true, decide_eq_true_eq, decide_eq_true_eq] at htop
    rcases htop with ⟨rfl, hzero⟩ | hlater
    · refine ⟨[], cs, rfl, ?_⟩
      rw [hzero] at hstep
      simp only [Char.reduceEq, if_false] at hstep
      rw [← hstep]
      rfl
    · obtain ⟨a, b, rfl, ha⟩ := ih hnext hlater
      refine ⟨c :: a, b, rfl, ?_⟩
      rw [hstep] at ha
      show (depth : Int) + ((if c = '[' then 1 else if c = ']' then -1 else 0) +
        square.net a) = 0
      by_cases ho : c = '['
      · rw [if_pos ho] at ha ⊢
        omega
      · rw [if_neg ho] at ha ⊢
        by_cases hc : c = ']'
        · rw [if_pos hc] at ha ⊢
          omega
        · rw [if_neg hc] at ha ⊢
          omega

theorem isMember_of_balanced {m : List Char} (h : square.Balanced m) (hsingle : NoTopComma m) :
    IsMember m := by
  refine ⟨h, ?_⟩
  by_contra htop
  rw [Bool.not_eq_false] at htop
  obtain ⟨a, b, heq, ha⟩ := exists_of_hasTop h htop
  exact hsingle a b heq (by rw [← ha]; exact (Int.zero_add _).symm)

/-- A piece that is not balanced closes a bracket that it does not open. -/
theorem IsPiece.exists_unmatched {f : List Char} (h : IsPiece f) (hf : ¬square.Balanced f) :
    ∃ front y, f = front ++ ']' :: y ∧ square.Balanced front := by
  have hnone : square.depthAfter? 0 f = none := by
    cases hdepth : square.depthAfter? 0 f with
    | none => rfl
    | some final =>
      have hfinal := (Brackets.depthAfter?_eq_some_iff.mp hdepth).2
      rw [h.even] at hfinal
      obtain rfl : final = 0 := by omega
      exact absurd hdepth hf
  exact Brackets.exists_unmatched hnone

/-- The part of a list of members in front of the bracket that ends it is a list of members as
well.  The last of them is cut short if it closes a bracket that it does not open. -/
theorem exists_of_closing?_commaJoin {fs : List (List Char)} (h : ∀ f ∈ fs, IsPiece f)
    {rest inside after : List Char}
    (hclosing : closing? 0 (commaJoin fs ++ ']' :: rest) = some (inside, after)) :
    ∃ ms, inside = commaJoin ms ∧ (ms = [] → fs = []) ∧
      ∀ m ∈ ms, IsMember m ∧ (m ∈ fs ∨ ∃ f ∈ fs, ∃ y, f = m ++ ']' :: y) := by
  induction fs generalizing inside with
  | nil =>
    refine ⟨[], ?_, fun _ => rfl, fun m hm => absurd hm List.not_mem_nil⟩
    cases hclosing
    rfl
  | cons f fs ih =>
    obtain ⟨hf, hfs⟩ := List.forall_mem_cons.mp h
    by_cases hbalanced : square.Balanced f
    · have hmember := isMember_of_balanced hbalanced hf.single
      by_cases hnil : fs = []
      · subst hnil
        rw [show commaJoin [f] = f from rfl, closing?_of_balanced hbalanced] at hclosing
        cases hclosing
        exact ⟨[f], rfl, fun h => absurd h (List.cons_ne_nil _ _), by simpa using hmember⟩
      · have hfront : square.Balanced (f ++ [',', ' ']) := hbalanced.append (by decide)
        rw [commaJoin_cons f hnil] at hclosing
        have hsplit : f ++ ',' :: ' ' :: commaJoin fs ++ ']' :: rest =
            (f ++ [',', ' ']) ++ (commaJoin fs ++ ']' :: rest) := by simp
        rw [hsplit, closing?_append hfront] at hclosing
        obtain ⟨⟨part, tail⟩, hpart, heq⟩ := Option.map_eq_some_iff.mp hclosing
        cases heq
        obtain ⟨ms, rfl, hsome, hms⟩ := ih hfs hpart
        refine ⟨f :: ms, ?_, fun h => absurd h (List.cons_ne_nil _ _), ?_⟩
        · rw [commaJoin_cons f fun h => hnil (hsome h)]
          simp
        · refine List.forall_mem_cons.mpr ⟨⟨hmember, Or.inl List.mem_cons_self⟩, fun m hm => ?_⟩
          obtain ⟨hm, hwhere⟩ := hms m hm
          refine ⟨hm, ?_⟩
          rcases hwhere with hmem | ⟨g, hg, hcut⟩
          · exact Or.inl (List.mem_cons_of_mem f hmem)
          · exact Or.inr ⟨g, List.mem_cons_of_mem f hg, hcut⟩
    · obtain ⟨front, y, rfl, hfront⟩ := hf.exists_unmatched hbalanced
      have hsingle : NoTopComma front := hf.single.part (a := []) rfl
      obtain ⟨more, hmore⟩ : ∃ more,
          commaJoin ((front ++ ']' :: y) :: fs) ++ ']' :: rest = front ++ ']' :: more := by
        by_cases hnil : fs = []
        · subst hnil
          exact ⟨y ++ ']' :: rest, by simp [commaJoin, joinWith]⟩
        · exact ⟨y ++ ',' :: ' ' :: commaJoin fs ++ ']' :: rest, by
            rw [commaJoin_cons _ hnil]
            simp⟩
      rw [hmore, closing?_of_balanced hfront] at hclosing
      have hinside : front = inside := congrArg Prod.fst (Option.some.inj hclosing)
      refine ⟨[front], hinside.symm, fun h => absurd h (List.cons_ne_nil _ _), fun m hm => ?_⟩
      rw [List.mem_singleton.mp hm]
      exact ⟨isMember_of_balanced hfront hsingle,
        Or.inr ⟨front ++ ']' :: y, List.mem_cons_self, y, rfl⟩⟩

/-! ## Unions that are left after some passes -/

/-- In the nested unions of the first union no place is behind more than `n` brackets that are
open there. -/
def UnionsWithin (n : Nat) (text : List Char) : Prop :=
  ∀ u inside after, FirstUnion text u inside after → ∀ m ∈ members inside, nestedUnion? m ≠ none →
    ∀ front, front <+: m → square.net front ≤ n

section

variable {text inside after : List Char} {u : UnionStart}

theorem FirstUnion.isMember (h : FirstUnion text u inside after) {m : List Char}
    (hm : m ∈ members inside) : IsMember m := by
  obtain ⟨hpiece, a, b, heq, ha⟩ := mem_members h.closed.net_eq hm
  exact isMember_of_balanced ((heq ▸ h.closed).part ha hpiece.even) hpiece.single

/-- The brackets of the first union itself are one level. -/
theorem unionsWithin_of_nestsWithin {n : Nat} (h : square.NestsWithin (n + 1) text) :
    UnionsWithin n text := by
  intro u inside after hu m hm _ front hfront
  obtain ⟨blanks, -, heq⟩ := hu.eq_append
  rw [heq] at h
  obtain ⟨-, a, b, hinside, -⟩ := mem_members hu.closed.net_eq hm
  exact h.inside hu.closed m ⟨a, b, by rw [hinside, List.append_assoc]⟩ (hu.isMember hm).balanced
    front hfront

/-- A nested union that is found after a pass was found before it, in another nested union. -/
theorem FirstUnion.exists_around (h : FirstUnion text u inside after) {v : UnionStart}
    {inside' after' : List Char}
    (h' : FirstUnion (u.followedBy (commaJoin (flattenMembers inside) ++ ']' :: after)) v inside'
      after') {m : List Char} (hm : m ∈ members inside') (hnested : nestedUnion? m ≠ none) :
    ∃ n ∈ members inside, nestedUnion? n ≠ none ∧ StandsAt 1 m n := by
  have hpieces : ∀ f ∈ flattenMembers inside, IsPiece f := fun f hf =>
    (mem_flattenMembers h.closed.net_eq hf).1
  obtain rfl : v = { u with rest := commaJoin (flattenMembers inside) ++ ']' :: after } :=
    Option.some.inj (h'.start.symm.trans (unionStart?_followedBy h.start _))
  obtain ⟨ms, rfl, -, hms⟩ := exists_of_closing?_commaJoin hpieces
    (closing?_eq_some_iff.mpr ⟨h'.rest, h'.closed⟩)
  rw [members_of_members fun n hn => (hms n hn).1] at hm
  obtain ⟨n, hn, rfl⟩ := mem_tidy hm
  obtain ⟨-, hmem | ⟨f, hf, y, rfl⟩⟩ := hms n hn
  · obtain ⟨hpiece, hplain, -⟩ := mem_flattenMembers h.closed.net_eq hmem
    rw [hpiece.trimmed] at hnested
    exact absurd hplain hnested
  · have hunbalanced : ¬square.Balanced (n ++ ']' :: y) := by
      intro hbalanced
      have hnone : square.depthAfter? 0 (n ++ ']' :: y) = none :=
        Brackets.depthAfter?_append_closing (hms n hn).1.balanced
      exact absurd (hbalanced.symm.trans hnone) (Option.some_ne_none 0)
    obtain ⟨-, -, hmem | ⟨around, haround, hunion, hstands⟩⟩ :=
      mem_flattenMembers h.closed.net_eq hf
    · exact absurd (h.isMember hmem).balanced hunbalanced
    · obtain ⟨lead, tail, hlead, -, heq⟩ := eq_append_trim n
      refine ⟨around, haround, hunion, ?_⟩
      have hfirst : StandsAt 0 (trim n) (n ++ ']' :: y) := by
        refine ⟨lead, tail ++ ']' :: y, ?_, Int.le_of_eq (net_of_blank hlead).symm⟩
        conv_lhs => rw [heq]
        simp only [List.append_assoc]
      exact (hfirst.trans hstands).mono (by decide)

/-- A pass takes one level off the unions that are left. -/
theorem UnionsWithin.pass {n : Nat} (hn : UnionsWithin (n + 1) text)
    (h : FirstUnion text u inside after) (hunion : contains "Union[".toList inside = true) :
    UnionsWithin n (flattenOnce text) := by
  rw [flattenOnce_eq h hunion]
  rintro v inside' after' h' m hm hnested front ⟨tail, rfl⟩
  obtain ⟨around, haround, hsome, a, b, rfl, ha⟩ := h.exists_around h' hm hnested
  have hnet := hn u inside after h _ haround hsome (a ++ front) ⟨tail ++ b, by simp⟩
  rw [Brackets.net_append] at hnet
  omega

/-- Where no nested unions are left, one pass writes the list as the next one does. -/
theorem UnionsWithin.settled (h : UnionsWithin 0 text) :
    flattenOnce (flattenOnce text) = flattenOnce text := by
  rcases flattenOnce_cases text with hsame | ⟨u, inside, after, hu, hunion⟩
  · rw [hsame, hsame]
  · have hplain : ∀ m ∈ members inside, nestedUnion? m = none := by
      intro m hm
      by_contra hsome
      obtain ⟨part, hpart⟩ := Option.ne_none_iff_exists'.mp hsome
      obtain ⟨qualified, blanks, hblanks, heq⟩ := eq_append_of_nestedUnion? hpart
      have hnet := h u inside after hu m hm hsome ((unionName qualified ++ blanks) ++ ['['])
        ⟨part ++ [']'], by rw [heq]; simp⟩
      rw [Brackets.net_append, net_unionName qualified hblanks] at hnet
      exact absurd hnet (by decide)
    have hflat : flattenMembers inside = members inside := by
      unfold flattenMembers
      cases inside.length with
      | zero => rfl
      | succ fuel =>
        rw [flattenMembersFrom_succ]
        exact flatMap_flattenMember hplain fuel
    have htrimmed : ∀ m ∈ members inside, trim m = m := fun m hm =>
      (mem_members hu.closed.net_eq hm).1.trimmed
    have hmembers : ∀ m ∈ members inside, IsPlainMember m := fun m hm =>
      ⟨hu.isMember hm, by rw [htrimmed m hm]; exact hplain m hm⟩
    have hagain : flattenMembers (commaJoin (members inside)) = members inside := by
      rw [flattenMembers_commaJoin hmembers, members_eq_tidy, tidy_tidy]
    have hnext : FirstUnion (u.followedBy (commaJoin (members inside) ++ ']' :: after))
        { u with rest := commaJoin (members inside) ++ ']' :: after }
          (commaJoin (members inside)) after :=
      hu.followedBy (balanced_commaJoin (by decide) fun m hm => (hu.isMember hm).balanced)
    rw [flattenOnce_eq hu hunion, hflat]
    by_cases hleft : contains "Union[".toList (commaJoin (members inside)) = true
    · rw [flattenOnce_eq hnext hleft, hagain]
      rfl
    · rcases flattenOnce_cases (u.followedBy (commaJoin (members inside) ++ ']' :: after)) with
        hsame | ⟨v, inside', after', h', hunion'⟩
      · exact hsame
      · obtain ⟨-, rfl, -⟩ := hnext.unique h'
        exact absurd hunion' hleft

/-- Passes as many as unions are nested in the first union, and one more, leave nothing to do. -/
theorem UnionsWithin.iterate {n : Nat} (h : UnionsWithin n text) :
    flattenOnce (flattenOnce^[n + 1] text) = flattenOnce^[n + 1] text := by
  induction n generalizing text with
  | zero => exact h.settled
  | succ n ih =>
    rw [Function.iterate_succ_apply]
    rcases flattenOnce_cases text with hsame | ⟨u, inside, after, hu, hunion⟩
    · have hfixed := Function.iterate_fixed hsame (n + 1)
      rw [hsame, hfixed, hsame]
    · exact ih (h.pass hu hunion)

end

/-! ## Flattening what is flat -/

/-- What is flattened holds no groups, and no unions nested in its first one. -/
theorem flattenUnions_idempotent {text : List Char} (hround : round.NestsWithin flattenPasses text)
    (hsquare : square.NestsWithin flattenPasses text) :
    flattenUnions (flattenUnions text) = flattenUnions text := by
  have hgroups : hasPipeGroup (opened text) = false := by
    rw [opened, openGroupPasses_eq]
    exact not_hasPipeGroup_iterate hround
  have hopened : opened (flattenUnions text) = flattenUnions text := by
    rw [opened, openGroupPasses_eq]
    refine Function.iterate_fixed (openGroups_of_not_hasPipeGroup ?_) flattenPasses
    rw [flattenUnions_eq_iterate]
    exact not_hasPipeGroup_iterate_flattenOnce hgroups flattenPasses
  have hnests : square.NestsWithin flattenPasses (opened text) :=
    hsquare.of_filter (by decide) (by decide) (filter_opened text)
  have hfixed : flattenOnce (flattenUnions text) = flattenUnions text := by
    rw [flattenUnions_eq_iterate]
    exact (unionsWithin_of_nestsWithin (n := 9) hnests).iterate
  rw [flattenUnions_eq_iterate (flattenUnions text), hopened]
  exact Function.iterate_fixed hfixed flattenPasses

/-- The first member only looks like a union as a whole; its last bracket is one of another. -/
theorem flattenUnions_idempotent_beside :
    flattenUnions (flattenUnions "Union[Union[(A | B), Union[C] | Union[D, Union[E]]], F]".toList) =
      flattenUnions "Union[Union[(A | B), Union[C] | Union[D, Union[E]]], F]".toList :=
  flattenUnions_idempotent (Brackets.nestsWithin_of_count (by decide))
    (Brackets.nestsWithin_of_count (by decide))

example : flattenUnions "Union[Union[(A | B), Union[C] | Union[D, Union[E]]], F]".toList =
    "Union[A | B, C] | Union[D, E, F]".toList := by decide

end Annotation
end ApiSync
