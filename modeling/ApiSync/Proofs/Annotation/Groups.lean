import Mathlib.Logic.Function.Iterate
import ApiSync.Proofs.Annotation.Brackets
/-!
# Opening pipe groups

A pass drops the parentheses of each group with a pipe inside.  In a balanced text no group
reaches over the end, so a pass over a list of members is a pass over each of them.  All that a
pass takes away are pairs of parentheses: the text stays balanced, and what it is split into at
the top stays the same.
-/

namespace ApiSync
namespace Annotation

open Text

/-! ## Groups at the start of a text -/

theorem pipeGroup?_of_ne {c : Char} (h : c ≠ '(') (cs : List Char) :
    pipeGroup? (c :: cs) = none := by
  unfold pipeGroup?
  split
  · next rest heq =>
    cases heq
    exact absurd rfl h
  · rfl

/-- The text up to the next parenthesis, and what follows from there. -/
def inGroup (cs : List Char) : List Char := cs.takeWhile (!isParen ·)

def fromParen (cs : List Char) : List Char := cs.dropWhile (!isParen ·)

theorem inGroup_append_fromParen (cs : List Char) : inGroup cs ++ fromParen cs = cs :=
  List.takeWhile_append_dropWhile

/-- The group with this inside, if the text after it starts with a closing parenthesis. -/
def closedGroup? (inside : List Char) : List Char → Option (List Char × List Char)
  | ')' :: after => if hasInnerPipe inside then some (inside, after) else none
  | _ => none

theorem pipeGroup?_open (cs : List Char) :
    pipeGroup? ('(' :: cs) =
      if (fromParen cs).head? = some ')' ∧ hasInnerPipe (inGroup cs) = true
      then some (inGroup cs, (fromParen cs).tail) else none := by
  have hclosed : pipeGroup? ('(' :: cs) = closedGroup? (inGroup cs) (fromParen cs) := rfl
  rw [hclosed]
  cases hfrom : fromParen cs with
  | nil => rfl
  | cons d after =>
    by_cases hd : d = ')'
    · subst hd
      simp [closedGroup?]
    · rw [if_neg (by simp [hd]), closedGroup?]
      intro rest heq
      cases heq
      exact hd rfl

/-- A group is a pair of parentheses around what holds a pipe and no parentheses. -/
theorem eq_append_of_pipeGroup? {text inside after : List Char}
    (h : pipeGroup? text = some (inside, after)) :
    text = '(' :: (inside ++ ')' :: after) ∧ (∀ c ∈ inside, isParen c = false) ∧
      hasInnerPipe inside = true := by
  cases text with
  | nil => cases h
  | cons c cs =>
    by_cases hc : c = '('
    · subst hc
      rw [pipeGroup?_open] at h
      split at h
      · next hgroup =>
        obtain ⟨hin, htail⟩ : inGroup cs = inside ∧ (fromParen cs).tail = after := by
          simpa using h
        obtain ⟨rest, hrest⟩ := List.head?_eq_some_iff.mp hgroup.1
        rw [hrest, List.tail_cons] at htail
        refine ⟨?_, fun c hc => ?_, ?_⟩
        · rw [← hin, ← htail, ← hrest, inGroup_append_fromParen]
        · rw [← hin, inGroup] at hc
          simpa using List.mem_takeWhile_imp hc
        · rw [← hin]
          exact hgroup.2
      · cases h
    · rw [pipeGroup?_of_ne hc] at h
      cases h

/-- A pair of parentheses around no others and a pipe is a group. -/
theorem pipeGroup?_innermost {inside : List Char} (h : ∀ c ∈ inside, isParen c = false)
    (hpipe : hasInnerPipe inside = true) (after : List Char) :
    pipeGroup? ('(' :: (inside ++ ')' :: after)) = some (inside, after) := by
  have hall : ∀ c ∈ inside, (!isParen c) = true := fun c hc => by rw [h c hc]; rfl
  have hin : inGroup (inside ++ ')' :: after) = inside := by
    rw [inGroup, List.takeWhile_append_of_pos hall]
    exact List.append_nil inside
  have hfrom : fromParen (inside ++ ')' :: after) = ')' :: after := by
    rw [fromParen, List.dropWhile_append_of_pos hall]
    rfl
  rw [pipeGroup?_open, hin, hfrom, if_pos ⟨rfl, hpipe⟩]
  rfl

/-- A parenthesis further on decides whether there is a group, whatever follows the text. -/
theorem pipeGroup?_append {c : Char} {cs : List Char}
    (h : c = '(' → ∃ d ∈ cs, isParen d = true) (rest : List Char) :
    pipeGroup? (c :: (cs ++ rest)) =
      (pipeGroup? (c :: cs)).map fun (inside, after) => (inside, after ++ rest) := by
  by_cases hc : c = '('
  · obtain ⟨d, hd, hparen⟩ := h hc
    have hstop : (!isParen d) = false := by
      rw [hparen]
      rfl
    have htake : inGroup (cs ++ rest) = inGroup cs := takeWhile_append_of_mem hd hstop rest
    have hdrop : fromParen (cs ++ rest) = fromParen cs ++ rest ∧ d ∈ fromParen cs :=
      dropWhile_append_of_mem hd hstop rest
    obtain ⟨e, after, he⟩ := List.exists_cons_of_ne_nil (List.ne_nil_of_mem hdrop.2)
    rw [hc, pipeGroup?_open, pipeGroup?_open, htake, hdrop.1, he]
    rw [List.cons_append, List.head?_cons, List.head?_cons, List.tail_cons, List.tail_cons]
    split <;> rfl
  · rw [pipeGroup?_of_ne hc, pipeGroup?_of_ne hc]
    rfl

/-! ## One pass -/

/-- Fuel for the whole text is enough. -/
theorem openGroupsFrom_eq {n m : Nat} {text : List Char} (hn : text.length ≤ n)
    (hm : text.length ≤ m) : openGroupsFrom n text = openGroupsFrom m text := by
  induction n generalizing m text with
  | zero =>
    have hnil : text = [] := List.length_eq_zero_iff.mp (by omega)
    rw [hnil]
    cases m <;> rfl
  | succ n ih =>
    cases text with
    | nil => cases m <;> rfl
    | cons c cs =>
      rw [List.length_cons] at hn hm
      obtain ⟨m, rfl⟩ : ∃ k, m = k + 1 := ⟨m - 1, by omega⟩
      rw [openGroupsFrom, openGroupsFrom]
      cases hgroup : pipeGroup? (c :: cs) with
      | none =>
        dsimp only
        rw [ih (m := m) (by omega) (by omega)]
      | some pair =>
        obtain ⟨inside, after⟩ := pair
        have hlen := congrArg List.length (eq_append_of_pipeGroup? hgroup).1
        rw [List.length_cons, List.length_cons, List.length_append, List.length_cons] at hlen
        dsimp only
        rw [ih (m := m) (by omega) (by omega)]

theorem openGroups_cons (c : Char) (cs : List Char) :
    openGroups (c :: cs) = match pipeGroup? (c :: cs) with
      | some (inside, after) => inside ++ openGroups after
      | none => c :: openGroups cs := by
  rw [openGroups, List.length_cons, openGroupsFrom]
  cases hgroup : pipeGroup? (c :: cs) with
  | none => rfl
  | some pair =>
    obtain ⟨inside, after⟩ := pair
    have hlen := congrArg List.length (eq_append_of_pipeGroup? hgroup).1
    rw [List.length_cons, List.length_cons, List.length_append, List.length_cons] at hlen
    dsimp only
    rw [openGroupsFrom_eq (m := after.length) (by omega) (by omega), openGroups]

/-- Groups of a text stay inside it if each of its parentheses is closed there. -/
theorem openGroups_append {a : List Char} (h : round.Closes a) (b : List Char) :
    openGroups (a ++ b) = openGroups a ++ openGroups b := by
  -- A group takes several characters at once, so the induction is on the length.
  induction hlen : a.length using Nat.strong_induction_on generalizing a with
  | _ n ih =>
    cases a with
    | nil => rfl
    | cons c cs =>
      rw [List.length_cons] at hlen
      have hparen : c = '(' → ∃ d ∈ cs, isParen d = true := fun hc =>
        ⟨')', h.1 hc, by decide⟩
      rw [List.cons_append, openGroups_cons, openGroups_cons, pipeGroup?_append hparen]
      cases hgroup : pipeGroup? (c :: cs) with
      | none =>
        rw [Option.map_none]
        dsimp only
        rw [ih cs.length (by omega) h.2 rfl, List.cons_append]
      | some pair =>
        obtain ⟨inside, after⟩ := pair
        have heq := (eq_append_of_pipeGroup? hgroup).1
        have hshort := congrArg List.length heq
        rw [List.length_cons, List.length_cons, List.length_append, List.length_cons] at hshort
        have hafter : round.Closes after := by
          rw [heq] at h
          exact (Brackets.closes_of_append h.2).2
        rw [Option.map_some]
        dsimp only
        rw [ih after.length (by omega) hafter rfl, List.append_assoc]

/-- A text without parentheses has no groups to open. -/
theorem openGroups_of_none {text : List Char} (h : '(' ∉ text) : openGroups text = text := by
  induction text with
  | nil => rfl
  | cons c cs ih =>
    have hne : c ≠ '(' := fun hc => h (hc ▸ List.mem_cons_self)
    rw [openGroups_cons, pipeGroup?_of_ne hne]
    exact congrArg (c :: ·) (ih fun hcs => h (List.mem_cons_of_mem c hcs))

/-! ## What a pass keeps -/

/-- A pass drops parentheses and nothing else. -/
theorem filter_openGroups (text : List Char) :
    (openGroups text).filter (!isParen ·) = text.filter (!isParen ·) := by
  unfold openGroups
  generalize text.length = fuel
  induction fuel generalizing text with
  | zero => rfl
  | succ fuel ih =>
    cases text with
    | nil => rfl
    | cons c cs =>
      rw [openGroupsFrom]
      cases hgroup : pipeGroup? (c :: cs) with
      | none =>
        dsimp only
        rw [List.filter_cons, List.filter_cons, ih]
      | some pair =>
        obtain ⟨inside, after⟩ := pair
        have heq := (eq_append_of_pipeGroup? hgroup).1
        dsimp only
        rw [heq, List.filter_append, ih, List.filter_cons_of_neg (by decide), List.filter_append,
          List.filter_cons_of_neg (by decide)]

theorem depthAfter?_of_plain {inside : List Char} (h : ∀ c ∈ inside, isParen c = false)
    (depth : Nat) : round.depthAfter? depth inside = some depth := by
  have hnot : ∀ {c : Char}, isParen c = true → c ∉ inside := fun hc hmem =>
    Bool.false_ne_true ((h _ hmem).symm.trans hc)
  exact Brackets.depthAfter?_of_not_mem (hnot (by decide)) (hnot (by decide)) depth

/-- The parentheses that a pass drops are those of whole groups. -/
theorem depthAfter?_openGroups (depth : Nat) (text : List Char) :
    round.depthAfter? depth (openGroups text) = round.depthAfter? depth text := by
  unfold openGroups
  generalize text.length = fuel
  induction fuel generalizing text depth with
  | zero => rfl
  | succ fuel ih =>
    cases text with
    | nil => rfl
    | cons c cs =>
      rw [openGroupsFrom]
      cases hgroup : pipeGroup? (c :: cs) with
      | none =>
        dsimp only
        have hhead : ∀ cs, round.depthAfter? depth (c :: cs) =
            (round.depthAfter? depth [c]).bind fun d => round.depthAfter? d cs :=
          round.depthAfter?_append depth [c]
        rw [hhead, hhead cs]
        congr 1
        exact funext fun d => ih d cs
      | some pair =>
        obtain ⟨inside, after⟩ := pair
        obtain ⟨heq, hinside, -⟩ := eq_append_of_pipeGroup? hgroup
        dsimp only
        rw [heq, Brackets.depthAfter?_append, depthAfter?_of_plain hinside, Option.bind_some, ih]
        show _ = round.depthAfter? depth (round.opening :: (inside ++ round.closing :: after))
        rw [Brackets.depthAfter?_opening, Brackets.depthAfter?_append,
          depthAfter?_of_plain hinside, Option.bind_some, Brackets.depthAfter?_closing_succ]

theorem balanced_openGroups {text : List Char} (h : round.Balanced text) :
    round.Balanced (openGroups text) := by
  rw [Brackets.Balanced, depthAfter?_openGroups]
  exact h

theorem IsMember.of_filter {keep : Char → Bool} (hcomma : keep ',' = true) (ho : keep '[' = true)
    (hc : keep ']' = true) {a b : List Char} (hab : a.filter keep = b.filter keep)
    (h : IsMember b) : IsMember a where
  balanced := h.balanced.of_filter ho hc hab
  single := by
    rw [← hasTop_filter hcomma ho hc, hab, hasTop_filter hcomma ho hc]
    exact h.single

/-! ## All passes -/

theorem openGroups_of_not_hasPipeGroup {text : List Char} (h : hasPipeGroup text = false) :
    openGroups text = text := by
  induction text with
  | nil => rfl
  | cons c cs ih =>
    rw [hasPipeGroup, Bool.or_eq_false_iff] at h
    have hnone : pipeGroup? (c :: cs) = none := by simpa using h.1
    rw [openGroups_cons, hnone]
    exact congrArg (c :: ·) (ih h.2)

/-- A pass that finds no group changes nothing, so stopping early makes no difference. -/
theorem openGroupPasses_eq (n : Nat) (text : List Char) :
    openGroupPasses n text = openGroups^[n] text := by
  induction n generalizing text with
  | zero => rfl
  | succ n ih =>
    rw [openGroupPasses]
    split
    · rw [ih, Function.iterate_succ_apply]
    · next hnone =>
      have hfixed := openGroups_of_not_hasPipeGroup (Bool.eq_false_iff.mpr hnone)
      exact (Function.iterate_fixed hfixed (n + 1)).symm

theorem openGroups_commaJoin {ms : List (List Char)} (h : ∀ m ∈ ms, round.Balanced m) :
    openGroups (commaJoin ms) = commaJoin (ms.map openGroups) := by
  induction ms with
  | nil => rfl
  | cons m ms ih =>
    have hms := ih fun n hn => h n (List.mem_cons_of_mem m hn)
    by_cases hnil : ms = []
    · rw [hnil]
      rfl
    · have hcloses := (h m List.mem_cons_self).closes
      have hsep : openGroups (',' :: ' ' :: commaJoin ms) =
          ',' :: ' ' :: openGroups (commaJoin ms) := by
        rw [openGroups_cons, pipeGroup?_of_ne (by decide)]
        dsimp only
        rw [openGroups_cons, pipeGroup?_of_ne (by decide)]
      rw [commaJoin_cons m hnil, openGroups_append hcloses, hsep, hms, List.map_cons,
        commaJoin_cons _ (by simpa using hnil)]

/-- A pass over a union is a pass over each of its members. -/
theorem openGroups_unionOf {ms : List (List Char)} (h : ∀ m ∈ ms, round.Balanced m) :
    openGroups (unionOf ms) = unionOf (ms.map openGroups) := by
  have hjoin := balanced_commaJoin (by decide) h
  have hhead : round.Balanced "Union[".toList := by decide
  have hopen : openGroups "Union[".toList = "Union[".toList := openGroups_of_none (by decide)
  have hclose : openGroups [']'] = [']'] := openGroups_of_none (by decide)
  rw [unionOf_eq, openGroups_append hhead.closes,
    openGroups_append hjoin.closes, openGroups_commaJoin h,
    hopen, hclose, unionOf_eq]

/-- What the passes make of a text. -/
def opened (text : List Char) : List Char := openGroupPasses flattenPasses text

theorem opened_unionOf {ms : List (List Char)} (h : ∀ m ∈ ms, round.Balanced m) :
    opened (unionOf ms) = unionOf (ms.map opened) := by
  have hiterate : ∀ n, openGroups^[n] (unionOf ms) = unionOf (ms.map openGroups^[n]) ∧
      ∀ m ∈ ms, round.Balanced (openGroups^[n] m) := by
    intro n
    induction n with
    | zero => exact ⟨by rw [Function.iterate_zero, List.map_id]; rfl, h⟩
    | succ n ih =>
      have hbalanced : ∀ m ∈ ms.map openGroups^[n], round.Balanced m := by
        intro m hm
        obtain ⟨a, ha, rfl⟩ := List.mem_map.mp hm
        exact ih.2 a ha
      refine ⟨?_, fun m hm => ?_⟩
      · rw [Function.iterate_succ_apply', ih.1, openGroups_unionOf hbalanced, List.map_map,
          Function.iterate_succ']
      · rw [Function.iterate_succ_apply']
        exact balanced_openGroups (ih.2 m hm)
  have hopened : opened = openGroups^[flattenPasses] := funext (openGroupPasses_eq flattenPasses)
  rw [hopened]
  exact (hiterate flattenPasses).1

/-- The passes drop parentheses and nothing else. -/
theorem filter_opened (text : List Char) :
    (opened text).filter (!isParen ·) = text.filter (!isParen ·) := by
  have hiterate : ∀ n, (openGroups^[n] text).filter (!isParen ·) = text.filter (!isParen ·) := by
    intro n
    induction n with
    | zero => rfl
    | succ n ih =>
      rw [Function.iterate_succ_apply', filter_openGroups]
      exact ih
  rw [opened, openGroupPasses_eq]
  exact hiterate flattenPasses

theorem isMember_opened {m : List Char} (h : IsMember m) : IsMember (opened m) :=
  h.of_filter (by decide) (by decide) (by decide) (filter_opened m)

theorem not_hasPipeGroup {text : List Char} (h : '|' ∉ text) : hasPipeGroup text = false := by
  induction text with
  | nil => rfl
  | cons c cs ih =>
    have hcs : '|' ∉ cs := fun hm => h (List.mem_cons_of_mem c hm)
    have hnone : pipeGroup? (c :: cs) = none := by
      cases hgroup : pipeGroup? (c :: cs) with
      | none => rfl
      | some pair =>
        obtain ⟨inside, after⟩ := pair
        obtain ⟨heq, -, hpipe⟩ := eq_append_of_pipeGroup? hgroup
        have hmem : '|' ∈ inside := by
          rw [hasInnerPipe, List.contains_iff_mem] at hpipe
          exact List.mem_of_mem_drop (List.dropLast_subset _ hpipe)
        rw [heq] at h
        exact absurd (List.mem_cons_of_mem _ (List.mem_append_left _ hmem)) h
    rw [hasPipeGroup, hnone, ih hcs]
    rfl

theorem opened_of_no_pipe {text : List Char} (h : '|' ∉ text) : opened text = text := by
  have hfixed := openGroups_of_not_hasPipeGroup (not_hasPipeGroup h)
  rw [opened, openGroupPasses_eq]
  exact Function.iterate_fixed hfixed flattenPasses

end Annotation
end ApiSync
