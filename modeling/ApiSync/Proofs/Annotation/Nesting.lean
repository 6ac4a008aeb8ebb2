import ApiSync.Proofs.Annotation.Groups
/-!
# How deep brackets nest

Brackets of one kind are counted: those opened minus those closed.  A text is balanced if no
prefix closes more than it opens and the whole opens what it closes.  It nests within a bound if
no place in a balanced part of it has more brackets around it; brackets without a partner do not
count.

Each pass over the groups opens the innermost ones, so a group that is left after `n` passes has
been around a group that was left after one pass less.  Texts whose parentheses nest within `n`
have no groups after `n` passes.
-/

namespace ApiSync
namespace Annotation

open Text

theorem forall_prefix_cons {α : Type} {P : List α → Prop} {c : α} {cs : List α} :
    (∀ front, front <+: c :: cs → P front) ↔ P [] ∧ ∀ front, front <+: cs → P (c :: front) := by
  constructor
  · intro h
    refine ⟨h [] List.nil_prefix, fun front hf => ?_⟩
    exact h (c :: front) (List.cons_prefix_cons.mpr ⟨rfl, hf⟩)
  · rintro ⟨hnil, hcons⟩ front hf
    rcases List.prefix_cons_iff.mp hf with rfl | ⟨tail, rfl, htail⟩
    · exact hnil
    · exact hcons tail htail

namespace Brackets

/-! ## Brackets opened minus brackets closed -/

def net (p : Brackets) : List Char → Int
  | [] => 0
  | c :: cs => (if c = p.opening then 1 else if c = p.closing then -1 else 0) + p.net cs

variable {p : Brackets}

theorem net_opening (p : Brackets) (cs : List Char) : p.net (p.opening :: cs) = p.net cs + 1 := by
  rw [net, if_pos rfl, Int.add_comm]

theorem net_closing (p : Brackets) (cs : List Char) : p.net (p.closing :: cs) = p.net cs - 1 := by
  rw [net, if_neg p.distinct.symm, if_pos rfl]
  omega

theorem net_plain {c : Char} (ho : c ≠ p.opening) (hc : c ≠ p.closing) (cs : List Char) :
    p.net (c :: cs) = p.net cs := by
  rw [net, if_neg ho, if_neg hc, Int.zero_add]

theorem net_append (p : Brackets) (a b : List Char) : p.net (a ++ b) = p.net a + p.net b := by
  induction a with
  | nil => exact (Int.zero_add _).symm
  | cons c a ih =>
    rw [List.cons_append, net, net, ih]
    omega

/-- Characters that are no brackets of the kind can be left out. -/
theorem net_filter {keep : Char → Bool} (ho : keep p.opening = true) (hc : keep p.closing = true)
    (cs : List Char) : p.net (cs.filter keep) = p.net cs := by
  induction cs with
  | nil => rfl
  | cons c cs ih =>
    by_cases hkeep : keep c = true
    · rw [List.filter_cons_of_pos hkeep, net, net, ih]
    · have hco : c ≠ p.opening := fun he => hkeep (he ▸ ho)
      have hcc : c ≠ p.closing := fun he => hkeep (he ▸ hc)
      rw [List.filter_cons_of_neg hkeep, net_plain hco hcc, ih]

theorem net_le_count (p : Brackets) (cs : List Char) : p.net cs ≤ cs.count p.opening := by
  induction cs with
  | nil => exact Int.le_refl 0
  | cons c cs ih =>
    rw [net, List.count_cons]
    by_cases ho : c = p.opening
    · simp only [ho, if_true, beq_self_eq_true]
      omega
    · simp only [ho, if_false, beq_iff_eq]
      split <;> omega

/-- The depth at the end of a text is what the text opens more than it closes, if no prefix of it
closes more than is open. -/
theorem depthAfter?_eq_some_iff {depth final : Nat} {cs : List Char} :
    p.depthAfter? depth cs = some final ↔
      (∀ front, front <+: cs → 0 ≤ depth + p.net front) ∧ depth + p.net cs = final := by
  induction cs generalizing depth with
  | nil =>
    have hnil : p.net [] = 0 := rfl
    rw [depthAfter?, Option.some_inj, hnil]
    constructor
    · rintro rfl
      refine ⟨fun front hf => ?_, by omega⟩
      rw [List.prefix_nil.mp hf, hnil]
      omega
    · rintro ⟨-, h⟩
      omega
  | cons c cs ih =>
    have hnil : (0 : Int) ≤ depth + p.net [] := by
      show (0 : Int) ≤ depth + 0
      omega
    rw [forall_prefix_cons (P := fun front => 0 ≤ (depth : Int) + p.net front)]
    by_cases ho : c = p.opening
    · subst ho
      rw [depthAfter?_opening, ih, net_opening]
      simp only [net_opening]
      constructor
      · rintro ⟨hfronts, hend⟩
        exact ⟨⟨hnil, fun front hf => by have := hfronts front hf; omega⟩, by omega⟩
      · rintro ⟨⟨-, hfronts⟩, hend⟩
        exact ⟨fun front hf => by have := hfronts front hf; omega, by omega⟩
    · by_cases hc : c = p.closing
      · subst hc
        rw [net_closing]
        simp only [net_closing]
        cases depth with
        | zero =>
          rw [depthAfter?_closing_zero]
          constructor
          · intro h
            cases h
          · rintro ⟨⟨-, hfronts⟩, -⟩
            have hfirst := hfronts [] List.nil_prefix
            rw [show p.net [] = 0 from rfl] at hfirst
            omega
        | succ depth =>
          rw [depthAfter?_closing_succ, ih]
          constructor
          · rintro ⟨hfronts, hend⟩
            exact ⟨⟨hnil, fun front hf => by have := hfronts front hf; omega⟩, by omega⟩
          · rintro ⟨⟨-, hfronts⟩, hend⟩
            exact ⟨fun front hf => by have := hfronts front hf; omega, by omega⟩
      · rw [depthAfter?_plain ho hc, ih, net_plain ho hc]
        simp only [net_plain ho hc, hnil, true_and]

theorem net_of_not_mem {cs : List Char} (ho : p.opening ∉ cs) (hc : p.closing ∉ cs) :
    p.net cs = 0 := by
  have hend := (depthAfter?_eq_some_iff.mp (depthAfter?_of_not_mem ho hc 0)).2
  omega

theorem balanced_iff {text : List Char} :
    p.Balanced text ↔ (∀ front, front <+: text → 0 ≤ p.net front) ∧ p.net text = 0 := by
  rw [Balanced, depthAfter?_eq_some_iff]
  simp only [Int.natCast_zero, Int.zero_add]

theorem Balanced.net_eq {text : List Char} (h : p.Balanced text) : p.net text = 0 :=
  (balanced_iff.mp h).2

theorem Balanced.net_prefix {text front : List Char} (h : p.Balanced text)
    (hf : front <+: text) : 0 ≤ p.net front :=
  (balanced_iff.mp h).1 front hf

/-- A part of a balanced text that opens what it closes, and starts where nothing is open, is
balanced. -/
theorem Balanced.part {a m b : List Char} (h : p.Balanced (a ++ (m ++ b))) (ha : p.net a = 0)
    (hm : p.net m = 0) : p.Balanced m := by
  refine balanced_iff.mpr ⟨fun front hf => ?_, hm⟩
  have hwhole : a ++ front <+: a ++ (m ++ b) :=
    (List.prefix_append_right_inj a).mpr (hf.trans (List.prefix_append m b))
  have hnet := h.net_prefix hwhole
  rw [net_append, ha, Int.zero_add] at hnet
  exact hnet

/-- A balanced text in a pair of brackets is balanced. -/
theorem Balanced.enclosed {text : List Char} (h : p.Balanced text) :
    p.Balanced (p.opening :: (text ++ [p.closing])) := by
  refine balanced_iff.mpr ⟨?_, ?_⟩
  · refine forall_prefix_cons.mpr ⟨Int.le_refl 0, fun front hf => ?_⟩
    rw [net_opening]
    rcases List.prefix_concat_iff.mp hf with rfl | hfront
    · rw [net_append, h.net_eq, net_closing]
      exact Int.le_refl 0
    · have := h.net_prefix hfront
      omega
  · rw [net_opening, net_append, h.net_eq, net_closing]
    rfl

/-- A text that closes more than it opens does so first behind a balanced part. -/
theorem exists_unmatched {depth : Nat} {cs : List Char} (h : p.depthAfter? depth cs = none) :
    ∃ front rest, cs = front ++ p.closing :: rest ∧ p.depthAfter? depth front = some 0 := by
  induction cs generalizing depth with
  | nil => cases h
  | cons c cs ih =>
    by_cases ho : c = p.opening
    · subst ho
      rw [depthAfter?_opening] at h
      obtain ⟨front, rest, rfl, hfront⟩ := ih h
      exact ⟨p.opening :: front, rest, rfl, by rw [depthAfter?_opening, hfront]⟩
    · by_cases hc : c = p.closing
      · subst hc
        cases depth with
        | zero => exact ⟨[], cs, rfl, rfl⟩
        | succ depth =>
          rw [depthAfter?_closing_succ] at h
          obtain ⟨front, rest, rfl, hfront⟩ := ih h
          exact ⟨p.closing :: front, rest, rfl, by rw [depthAfter?_closing_succ, hfront]⟩
      · rw [depthAfter?_plain ho hc] at h
        obtain ⟨front, rest, rfl, hfront⟩ := ih h
        exact ⟨c :: front, rest, rfl, by rw [depthAfter?_plain ho hc, hfront]⟩

theorem depthAfter?_append_closing {front rest : List Char} (h : p.Balanced front) :
    p.depthAfter? 0 (front ++ p.closing :: rest) = none := by
  rw [depthAfter?_append, h, Option.bind_some, depthAfter?_closing_zero]

/-- There is one balanced part in front of the first bracket without a partner. -/
theorem Balanced.append_closing_inj {a b as bs : List Char} (ha : p.Balanced a)
    (hb : p.Balanced b) (h : a ++ p.closing :: as = b ++ p.closing :: bs) : a = b ∧ as = bs := by
  have hlonger : ∀ {x y middle : List Char}, p.Balanced y → y = x ++ p.closing :: middle →
      p.Balanced x → False := by
    intro x y middle hy hyx hx
    rw [hyx, Balanced, depthAfter?_append_closing hx] at hy
    cases hy
  rcases List.append_eq_append_iff.mp h with ⟨middle, hba, hrest⟩ | ⟨middle, hab, hrest⟩
  · cases middle with
    | nil => exact ⟨by rw [hba, List.append_nil], by simpa using hrest⟩
    | cons c middle =>
      have hc : c = p.closing := (List.cons.inj hrest).1.symm
      exact (hlonger hb (hc ▸ hba) ha).elim
  · cases middle with
    | nil => exact ⟨by rw [hab, List.append_nil], by simpa using hrest.symm⟩
    | cons c middle =>
      have hc : c = p.closing := (List.cons.inj hrest).1.symm
      exact (hlonger ha (hc ▸ hab) hb).elim

/-! ## The bound on the nesting -/

/-- No place in a balanced part of the text has more than `n` brackets around it. -/
def NestsWithin (p : Brackets) (n : Nat) (text : List Char) : Prop :=
  ∀ part, part <:+: text → p.Balanced part → ∀ front, front <+: part → p.net front ≤ n

theorem nestsWithin_of_count {n : Nat} {text : List Char} (h : text.count p.opening ≤ n) :
    p.NestsWithin n text := by
  intro part hpart _ front hfront
  have hcount := (hfront.isInfix.trans hpart).sublist.count_le p.opening
  have := p.net_le_count front
  omega

/-- One bracket is around all that stands in a pair of them. -/
theorem NestsWithin.inside {n : Nat} {a inside b : List Char}
    (h : p.NestsWithin (n + 1) (a ++ p.opening :: (inside ++ p.closing :: b)))
    (hb : p.Balanced inside) : p.NestsWithin n inside := by
  intro part hpart _ front hfront
  obtain ⟨x, y, rfl⟩ := hpart
  have hpair : p.opening :: ((x ++ part ++ y) ++ [p.closing]) <:+:
      a ++ p.opening :: ((x ++ part ++ y) ++ p.closing :: b) := ⟨a, b, by simp⟩
  have hplace : p.opening :: (x ++ front) <+: p.opening :: ((x ++ part ++ y) ++ [p.closing]) := by
    obtain ⟨rest, rfl⟩ := hfront
    exact ⟨rest ++ y ++ [p.closing], by simp⟩
  have hnet := h _ hpair hb.enclosed _ hplace
  have hx : 0 ≤ p.net x := hb.net_prefix ⟨part ++ y, by simp⟩
  rw [net_opening, net_append] at hnet
  omega

/-- Characters that are no brackets of the kind make no difference. -/
theorem NestsWithin.of_filter {keep : Char → Bool} (ho : keep p.opening = true)
    (hc : keep p.closing = true) {n : Nat} {a b : List Char} (hab : a.filter keep = b.filter keep)
    (h : p.NestsWithin n b) : p.NestsWithin n a := by
  rintro part ⟨x, y, rfl⟩ hpart front ⟨rest, rfl⟩
  rw [List.filter_append, List.filter_append, List.filter_append] at hab
  obtain ⟨bc, b₁, rfl, hbc, -⟩ := List.filter_eq_append_iff.mp hab.symm
  obtain ⟨b₂, b₃, rfl, -, hb₃⟩ := List.filter_eq_append_iff.mp hbc
  obtain ⟨b₄, b₅, rfl, hb₄, hb₅⟩ := List.filter_eq_append_iff.mp hb₃
  have hsame : (b₄ ++ b₅).filter keep = (front ++ rest).filter keep := by
    rw [List.filter_append, List.filter_append, hb₄, hb₅]
  have hnet := h (b₄ ++ b₅) ⟨b₂, b₁, by simp⟩ (hpart.of_filter ho hc hsame) b₄
    (List.prefix_append _ _)
  rw [← net_filter ho hc, hb₄, net_filter ho hc] at hnet
  exact hnet

end Brackets

/-! ## Groups that are left after some passes -/

/-- A group stands somewhere in the text. -/
theorem exists_of_hasPipeGroup {text : List Char} (h : hasPipeGroup text = true) :
    ∃ a inside b, text = a ++ '(' :: (inside ++ ')' :: b) ∧ (∀ c ∈ inside, isParen c = false) ∧
      hasInnerPipe inside = true := by
  induction text with
  | nil => cases h
  | cons c cs ih =>
    rw [hasPipeGroup, Bool.or_eq_true, Option.isSome_iff_exists] at h
    rcases h with ⟨⟨inside, b⟩, hhere⟩ | hlater
    · obtain ⟨heq, hinside, hpipe⟩ := eq_append_of_pipeGroup? hhere
      exact ⟨[], inside, b, heq, hinside, hpipe⟩
    · obtain ⟨a, inside, b, rfl, hinside, hpipe⟩ := ih hlater
      exact ⟨c :: a, inside, b, rfl, hinside, hpipe⟩

theorem hasPipeGroup_of_group {inside : List Char} (h : ∀ c ∈ inside, isParen c = false)
    (hpipe : hasInnerPipe inside = true) (a b : List Char) :
    hasPipeGroup (a ++ '(' :: (inside ++ ')' :: b)) = true := by
  induction a with
  | nil =>
    rw [List.nil_append, hasPipeGroup, pipeGroup?_innermost h hpipe]
    rfl
  | cons c a ih => rw [List.cons_append, hasPipeGroup, ih, Bool.or_true]

/-- A balanced part in front of a bracket without a partner is what a pass makes of such a part. -/
theorem exists_of_openGroups_closing {text inside b : List Char}
    (h : openGroups text = inside ++ ')' :: b) (hb : round.Balanced inside) :
    ∃ v rest, text = v ++ ')' :: rest ∧ round.Balanced v ∧ openGroups v = inside := by
  have hnone : round.depthAfter? 0 text = none := by
    rw [← depthAfter?_openGroups, h]
    exact Brackets.depthAfter?_append_closing hb
  obtain ⟨v, rest, heq, hv⟩ := Brackets.exists_unmatched hnone
  have hclose : openGroups (')' :: rest) = ')' :: openGroups rest := by
    rw [openGroups_cons, pipeGroup?_of_ne (by decide)]
  have hsplit : openGroups v ++ ')' :: openGroups rest = inside ++ ')' :: b := by
    rw [← h, heq, openGroups_append (Brackets.Balanced.closes hv)]
    exact congrArg (openGroups v ++ ·) hclose.symm
  exact ⟨v, rest, heq, hv, ((balanced_openGroups hv).append_closing_inj hb hsplit).1⟩

/-- A pair of parentheses that is there after a pass was there before, and was no group. -/
theorem exists_of_openGroups {text a inside b : List Char}
    (h : openGroups text = a ++ '(' :: (inside ++ ')' :: b)) (hb : round.Balanced inside) :
    ∃ a₀ v b₀, text = a₀ ++ '(' :: (v ++ ')' :: b₀) ∧ round.Balanced v ∧ openGroups v = inside ∧
      pipeGroup? ('(' :: (v ++ ')' :: b₀)) = none := by
  -- A group takes several characters at once, so the induction is on the length.
  induction hlen : text.length using Nat.strong_induction_on generalizing text a with
  | _ n ih =>
    cases text with
    | nil =>
      rw [show openGroups [] = [] from rfl] at h
      simp at h
    | cons c cs =>
      rw [openGroups_cons] at h
      cases hgroup : pipeGroup? (c :: cs) with
      | none =>
        rw [hgroup] at h
        dsimp only at h
        cases a with
        | nil =>
          obtain ⟨rfl, hcs⟩ := List.cons.inj h
          obtain ⟨v, rest, rfl, hv, hopened⟩ := exists_of_openGroups_closing hcs hb
          exact ⟨[], v, rest, rfl, hv, hopened, hgroup⟩
        | cons d a =>
          obtain ⟨rfl, hcs⟩ := List.cons.inj h
          obtain ⟨a₀, v, b₀, rfl, hrest⟩ := ih cs.length (by rw [← hlen]; simp) hcs rfl
          exact ⟨c :: a₀, v, b₀, rfl, hrest⟩
      | some pair =>
        obtain ⟨group, after⟩ := pair
        obtain ⟨heq, hplain, -⟩ := eq_append_of_pipeGroup? hgroup
        rw [hgroup] at h
        dsimp only at h
        have hshort : after.length < n := by
          rw [← hlen, heq]
          simp
          omega
        rcases List.append_eq_append_iff.mp h with ⟨middle, rfl, hafter⟩ | ⟨middle, hin, hafter⟩
        · obtain ⟨a₀, v, b₀, hb₀, hrest⟩ := ih _ hshort hafter rfl
          exact ⟨'(' :: (group ++ ')' :: a₀), v, b₀, by rw [heq, hb₀]; simp, hrest⟩
        · cases middle with
          | nil =>
            obtain ⟨a₀, v, b₀, hb₀, hrest⟩ := ih _ hshort hafter.symm (a := []) rfl
            exact ⟨'(' :: (group ++ ')' :: a₀), v, b₀, by rw [heq, hb₀]; simp, hrest⟩
          | cons d middle =>
            -- The parenthesis would stand inside the group.
            have hd : '(' = d := (List.cons.inj hafter).1
            have hmem : '(' ∈ group := by
              rw [hin, hd]
              simp
            cases hplain '(' hmem

theorem exists_of_iterate_openGroups {n : Nat} {text a inside b : List Char}
    (h : openGroups^[n] text = a ++ '(' :: (inside ++ ')' :: b)) (hb : round.Balanced inside) :
    ∃ a₀ v b₀, text = a₀ ++ '(' :: (v ++ ')' :: b₀) ∧ round.Balanced v ∧
      openGroups^[n] v = inside := by
  induction n generalizing a inside b with
  | zero => exact ⟨a, inside, b, h, hb, rfl⟩
  | succ n ih =>
    rw [Function.iterate_succ_apply'] at h
    obtain ⟨a₁, v₁, b₁, h₁, hv₁, hopened, -⟩ := exists_of_openGroups h hb
    obtain ⟨a₀, v, b₀, heq, hv, hiterate⟩ := ih h₁ hv₁
    exact ⟨a₀, v, b₀, heq, hv, by rw [Function.iterate_succ_apply', hiterate, hopened]⟩

/-- Passes as many as parentheses are nested leave no groups. -/
theorem not_hasPipeGroup_iterate {n : Nat} {text : List Char} (h : round.NestsWithin n text) :
    hasPipeGroup (openGroups^[n] text) = false := by
  by_contra hleft
  rw [Bool.not_eq_false] at hleft
  obtain ⟨a, inside, b, heq, hplain, hpipe⟩ := exists_of_hasPipeGroup hleft
  have hbalanced : round.Balanced inside := depthAfter?_of_plain hplain 0
  induction n generalizing text a inside b with
  | zero =>
    have hgroup : '(' :: (inside ++ [')']) <:+: text := ⟨a, b, by rw [show text = _ from heq]; simp⟩
    have hnet := h _ hgroup hbalanced.enclosed ['('] ⟨inside ++ [')'], rfl⟩
    exact absurd hnet (by decide)
  | succ n ih =>
    rw [Function.iterate_succ_apply'] at heq
    obtain ⟨a₁, u, b₁, h₁, hu, hopened, hnone⟩ := exists_of_openGroups heq hbalanced
    obtain ⟨a₀, v, b₀, rfl, hv, hiterate⟩ := exists_of_iterate_openGroups h₁ hu
    -- What the pass opened inside the group are groups that were left before it.
    have hinner : hasPipeGroup (openGroups^[n] v) = true := by
      rw [hiterate]
      by_contra hno
      have hsame := openGroups_of_not_hasPipeGroup (Bool.eq_false_iff.mpr hno)
      rw [hsame] at hopened
      rw [hopened, pipeGroup?_innermost hplain hpipe] at hnone
      cases hnone
    obtain ⟨x, w, y, hxy, hw, hwpipe⟩ := exists_of_hasPipeGroup hinner
    exact ih (h.inside hv) hinner x w y hxy hw hwpipe (depthAfter?_of_plain hw 0)

end Annotation
end ApiSync
