import ApiSync.Proofs.Annotation.Leaves
import ApiSync.Proofs.Annotation.TreeUnion
/-!
# Unions written with pipes

A pass opens the innermost groups of a text, so it takes one level off the nesting, and as many
passes as the groups are deep leave the text without its parentheses.  What stands between the
pipes then are the leaves of the union, with blanks around them.
-/

namespace ApiSync
namespace Annotation

open Text

/-! ## Groups in one another -/

/-- The text without parentheses. -/
def bare (text : List Char) : List Char := text.filter (!isParen ·)

/-- Parentheses that are nested at most so deep, each pair around a pipe between other text. -/
inductive Nested : Nat → List Char → Prop
  | nil {n : Nat} : Nested n []
  | char {n : Nat} {c : Char} {cs : List Char} (plain : isParen c = false) (rest : Nested n cs) :
      Nested n (c :: cs)
  | group {n : Nat} {inside after : List Char} (inner : Nested n inside)
      (pipe : hasInnerPipe (bare inside) = true) (rest : Nested (n + 1) after) :
      Nested (n + 1) ('(' :: (inside ++ ')' :: after))

section

variable {n : Nat} {text : List Char}

theorem bare_append (a b : List Char) : bare (a ++ b) = bare a ++ bare b := List.filter_append a b

theorem bare_cons {c : Char} (h : isParen c = false) (cs : List Char) :
    bare (c :: cs) = c :: bare cs := List.filter_cons_of_pos (by rw [h]; rfl)

theorem bare_eq_self (h : ∀ c ∈ text, isParen c = false) : bare text = text :=
  List.filter_eq_self.mpr fun c hc => by rw [h c hc]; rfl

theorem nested_of_plain (n : Nat) (h : ∀ c ∈ text, isParen c = false) : Nested n text := by
  induction text with
  | nil => exact .nil
  | cons c cs ih =>
    obtain ⟨hc, hcs⟩ := List.forall_mem_cons.mp h
    exact .char hc (ih hcs)

theorem Nested.append {a b : List Char} (ha : Nested n a) (hb : Nested n b) :
    Nested n (a ++ b) := by
  induction ha with
  | nil => exact hb
  | char plain rest ih => exact .char plain (ih hb)
  | @group n inside after inner pipe rest ihi ihr =>
    rw [List.cons_append, List.append_assoc]
    exact .group inner pipe (ihr hb)

theorem Nested.depthAfter? (h : Nested n text) (depth : Nat) :
    round.depthAfter? depth text = some depth := by
  induction h generalizing depth with
  | nil => rfl
  | @char n c cs plain rest ih =>
    have hopen : c ≠ round.opening := by
      rintro rfl
      cases plain
    have hclose : c ≠ round.closing := by
      rintro rfl
      cases plain
    rw [Brackets.depthAfter?_plain hopen hclose]
    exact ih depth
  | @group n inside after inner pipe rest ihi ihr =>
    show round.depthAfter? depth (round.opening :: (inside ++ round.closing :: after)) = _
    rw [Brackets.depthAfter?_opening, Brackets.depthAfter?_append, ihi, Option.bind_some,
      Brackets.depthAfter?_closing_succ, ihr]

theorem Nested.closes (h : Nested n text) : round.Closes text :=
  Brackets.closes_of_depthAfter? (h.depthAfter? 0)

/-- Nesting of no depth is no nesting. -/
theorem Nested.plain (h : Nested 0 text) : ∀ c ∈ text, isParen c = false := by
  generalize hn : 0 = n at h
  induction h with
  | nil => exact fun _ hc => absurd hc List.not_mem_nil
  | char plain rest ih => exact List.forall_mem_cons.mpr ⟨plain, ih hn⟩
  | group inner pipe rest ihi ihr => cases hn

/-- The first parenthesis is one that opens. -/
theorem Nested.fromParen (h : Nested n text) (hparen : ¬∀ c ∈ text, isParen c = false)
    (more : List Char) : ∃ rest, fromParen (text ++ more) = '(' :: rest := by
  induction h with
  | nil => exact absurd (fun _ hc => absurd hc List.not_mem_nil) hparen
  | @char n c cs plain rest ih =>
    obtain ⟨rest, hrest⟩ := ih fun hcs => hparen (List.forall_mem_cons.mpr ⟨plain, hcs⟩)
    refine ⟨rest, ?_⟩
    rw [← hrest, List.cons_append]
    exact List.dropWhile_cons_of_pos (by rw [plain]; rfl)
  | group inner pipe rest ihi ihr => exact ⟨_, rfl⟩

/-- A group without another one inside is opened. -/
theorem openGroups_innermost {inside : List Char} (h : ∀ c ∈ inside, isParen c = false)
    (hpipe : hasInnerPipe inside = true) (after : List Char) :
    openGroups ('(' :: (inside ++ ')' :: after)) = inside ++ openGroups after := by
  rw [openGroups_cons, pipeGroup?_innermost h hpipe]

/-- A group around another one is kept. -/
theorem openGroups_around {inside : List Char} (h : Nested n inside)
    (hparen : ¬∀ c ∈ inside, isParen c = false) (after : List Char) :
    openGroups ('(' :: (inside ++ ')' :: after)) =
      '(' :: (openGroups inside ++ ')' :: openGroups after) := by
  obtain ⟨rest, hrest⟩ := h.fromParen hparen (')' :: after)
  have hclose : openGroups (')' :: after) = ')' :: openGroups after := by
    rw [openGroups_cons, pipeGroup?_of_ne (by decide)]
  rw [openGroups_cons, pipeGroup?_open, hrest, if_neg (by simp)]
  dsimp only
  rw [openGroups_append h.closes, hclose]

/-- A pass takes one level off the nesting. -/
theorem Nested.after_openGroups (h : Nested (n + 1) text) : Nested n (openGroups text) := by
  generalize hm : n + 1 = m at h
  induction h generalizing n with
  | nil => exact .nil
  | @char m c cs plain rest ih =>
    have hne : c ≠ '(' := by
      rintro rfl
      cases plain
    rw [openGroups_cons, pipeGroup?_of_ne hne]
    exact .char plain (ih hm)
  | @group m inside after inner pipe rest ihi ihr =>
    obtain rfl : n = m := Nat.succ.inj hm
    by_cases hplain : ∀ c ∈ inside, isParen c = false
    · rw [bare_eq_self hplain] at pipe
      rw [openGroups_innermost hplain pipe]
      exact inner.append (ihr rfl)
    · cases n with
      | zero => exact absurd inner.plain hplain
      | succ n =>
        rw [openGroups_around inner hplain]
        refine .group (ihi rfl) ?_ (ihr rfl)
        rw [bare, filter_openGroups]
        exact pipe

theorem Nested.iterate_openGroups (h : Nested n text) :
    ∀ c ∈ openGroups^[n] text, isParen c = false := by
  induction n generalizing text with
  | zero => exact h.plain
  | succ n ih => exact ih h.after_openGroups

/-- The passes open all groups that are nested no deeper than there are passes. -/
theorem Nested.opened_eq (h : Nested flattenPasses text) : opened text = bare text := by
  have hplain : ∀ c ∈ opened text, isParen c = false := by
    rw [opened, openGroupPasses_eq]
    exact h.iterate_openGroups
  rw [← bare_eq_self hplain]
  exact filter_opened text

end

/-! ## The members of a union -/

/-- A member of a union between pipes with the leaves that it has: a leaf, or two members or more
in parentheses, nested at most so deep.  Blanks may stand around it. -/
inductive Piped : Nat → List Leaf → List Char → Prop
  | leaf (n : Nat) (l : Leaf) : Piped n [l] l.text
  | padded {n : Nat} {ls : List Leaf} {text before after : List Char} (inner : Piped n ls text)
      (hbefore : ∀ c ∈ before, isBlank c = true) (hafter : ∀ c ∈ after, isBlank c = true) :
      Piped n ls (before ++ (text ++ after))
  | group {n : Nat} (ms : List (List Leaf × List Char)) (two : 2 ≤ ms.length)
      (members : ∀ m ∈ ms, Piped n m.1 m.2) :
      Piped (n + 1) (ms.flatMap Prod.fst) ('(' :: (joinWith ['|'] (ms.map Prod.snd) ++ [')']))

/-- The models that are named between the pipes of a text once its parentheses are gone. -/
def pipedNames (text : List Char) : List String :=
  (pieceNames (bare text)).filterMap List.head?

section

variable {n : Nat} {ls : List Leaf} {text : List Char}

theorem isParen_of_isBlank {c : Char} (h : isBlank c = true) : isParen c = false := by
  rw [Bool.eq_false_iff]
  intro hp
  rw [isParen, Bool.or_eq_true, decide_eq_true_eq, decide_eq_true_eq] at hp
  rcases hp with rfl | rfl <;> cases h

theorem bare_padded {before after : List Char} (hb : ∀ c ∈ before, isBlank c = true)
    (ha : ∀ c ∈ after, isBlank c = true) :
    bare (before ++ (text ++ after)) = before ++ (bare text ++ after) := by
  rw [bare_append, bare_append, bare_eq_self fun c hc => isParen_of_isBlank (hb c hc),
    bare_eq_self fun c hc => isParen_of_isBlank (ha c hc)]

theorem Leaf.isParen_text (l : Leaf) : ∀ c ∈ l.text, isParen c = false := by
  intro c hc
  rw [Bool.eq_false_iff]
  intro hp
  rw [isParen, Bool.or_eq_true, decide_eq_true_eq, decide_eq_true_eq] at hp
  rcases hp with rfl | rfl <;> exact l.not_mem_text (by decide) (by decide) hc

/-- Between two texts that are not empty a pipe is inside. -/
theorem hasInnerPipe_append {a b : List Char} (ha : a ≠ []) (hb : b ≠ []) :
    hasInnerPipe (a ++ '|' :: b) = true := by
  obtain ⟨x, a, rfl⟩ := List.exists_cons_of_ne_nil ha
  have hlast : ('|' :: b).dropLast = '|' :: b.dropLast := List.dropLast_cons_of_ne_nil hb
  rw [hasInnerPipe, List.cons_append, List.drop_one, List.tail_cons,
    List.dropLast_append_of_ne_nil (List.cons_ne_nil _ _), hlast, List.contains_iff_mem]
  exact List.mem_append_right a List.mem_cons_self

theorem bare_group (inside : List Char) : bare ('(' :: (inside ++ [')'])) = bare inside := by
  show bare (inside ++ [')']) = bare inside
  rw [bare_append]
  exact List.append_nil _

/-! ### What holds of members holds of the texts that they are joined to -/

theorem texts_ne_nil {ms : List (List Leaf × List Char)} (h : 2 ≤ ms.length) :
    ms.map Prod.snd ≠ [] := by
  intro hnil
  rw [List.map_eq_nil_iff.mp hnil] at h
  exact absurd h (by decide)

theorem bare_joinWith_ne_nil {texts : List (List Char)} (hne : texts ≠ [])
    (h : ∀ t ∈ texts, bare t ≠ []) : bare (joinWith ['|'] texts) ≠ [] := by
  refine joinWith_induction (P := fun t => bare t ≠ []) hne h fun a b _ _ => ?_
  rw [bare_append, bare_cons (by decide)]
  exact List.append_ne_nil_of_right_ne_nil _ (List.cons_ne_nil _ _)

theorem hasInnerPipe_joinWith {texts : List (List Char)} (two : 2 ≤ texts.length)
    (h : ∀ t ∈ texts, bare t ≠ []) : hasInnerPipe (bare (joinWith ['|'] texts)) = true := by
  cases texts with
  | nil => exact absurd two (by decide)
  | cons first texts =>
    have hne : texts ≠ [] := by
      rintro rfl
      exact absurd two (Nat.not_succ_le_self 1)
    obtain ⟨hfirst, hrest⟩ := List.forall_mem_cons.mp h
    rw [joinWith_char first hne, bare_append, bare_cons (by decide)]
    exact hasInnerPipe_append hfirst (bare_joinWith_ne_nil hne hrest)

theorem pipedNames_append (a b : List Char) :
    pipedNames (a ++ '|' :: b) = pipedNames a ++ pipedNames b := by
  rw [pipedNames, bare_append, bare_cons (by decide), pieceNames, splitAt_append_cons,
    List.map_append, List.filterMap_append]
  rfl

theorem splits_pieceNames_bare : Splits (fun text => pieceNames (bare text)) glue where
  split := by
    intro c hc a b
    have hplain : isParen c = false := by
      rw [Bool.eq_false_iff]
      intro hp
      rw [isParen, Bool.or_eq_true, decide_eq_true_eq, decide_eq_true_eq] at hp
      rcases hp with rfl | rfl <;> cases hc
    rw [bare_append, bare_cons hplain]
    exact splits_pieceNames.split hc _ _
  left := fun b => splits_pieceNames.left (bare b)
  right := fun a => splits_pieceNames.right (bare a)

theorem pipedNames_padded {before after : List Char} (hb : ∀ c ∈ before, isBlank c = true)
    (ha : ∀ c ∈ after, isBlank c = true) (text : List Char) :
    pipedNames (before ++ (text ++ after)) = pipedNames text := by
  have hnames := (splits_pieceNames_bare.blanks_append hb (text ++ after)).trans
    (splits_pieceNames_bare.append_blanks text ha)
  exact congrArg (List.filterMap List.head?) hnames

/-! ### What a member has in it -/

theorem Piped.bare_ne_nil (h : Piped n ls text) : bare text ≠ [] := by
  induction h with
  | leaf n l =>
    rw [bare_eq_self l.isParen_text]
    exact l.text_ne_nil
  | padded inner hb ha ih =>
    rw [bare_padded hb ha]
    exact List.append_ne_nil_of_right_ne_nil _ (List.append_ne_nil_of_left_ne_nil ih _)
  | group ms two members ih =>
    rw [bare_group]
    exact bare_joinWith_ne_nil (texts_ne_nil two) (List.forall_mem_map.mpr ih)

theorem Piped.not_mem_bracket (h : Piped n ls text) : '[' ∉ text := by
  induction h with
  | leaf n l => exact l.not_mem_text (by decide) (by decide)
  | @padded n ls text before after inner hb ha ih =>
    intro hmem
    have hblank : isBlank '[' = false := by decide
    rcases List.mem_append.mp hmem with hmem | hmem
    · exact Bool.false_ne_true (hblank.symm.trans (hb _ hmem))
    · rcases List.mem_append.mp hmem with hmem | hmem
      · exact ih hmem
      · exact Bool.false_ne_true (hblank.symm.trans (ha _ hmem))
  | group ms two members ih =>
    have hjoin : '[' ∉ joinWith ['|'] (ms.map Prod.snd) :=
      not_mem_joinWith (by decide) (List.forall_mem_map.mpr ih)
    simpa using hjoin

theorem Piped.nested (h : Piped n ls text) : Nested n text := by
  induction h with
  | leaf n l => exact nested_of_plain n l.isParen_text
  | @padded n ls text before after inner hb ha ih =>
    have hplain {cs : List Char} (h : ∀ c ∈ cs, isBlank c = true) : Nested n cs :=
      nested_of_plain n fun c hc => isParen_of_isBlank (h c hc)
    exact (hplain hb).append (ih.append (hplain ha))
  | group ms two members ih =>
    refine .group ?_ (hasInnerPipe_joinWith (by simpa using two) ?_) .nil
    · exact joinWith_induction (texts_ne_nil two) (List.forall_mem_map.mpr ih)
        fun a b ha hb => ha.append (.char (by decide) hb)
    · exact List.forall_mem_map.mpr fun m hm => (members m hm).bare_ne_nil

theorem pipedNames_joinWith {ms : List (List Leaf × List Char)} (hne : ms.map Prod.snd ≠ [])
    (h : ∀ m ∈ ms, pipedNames m.2 = m.1.filterMap Leaf.model?) :
    pipedNames (joinWith ['|'] (ms.map Prod.snd)) =
      (ms.flatMap Prod.fst).filterMap Leaf.model? := by
  rw [flatMap_joinWith hne pipedNames_append, List.flatMap_map, List.filterMap_flatMap]
  exact List.flatMap_congr h

/-- The models between the pipes are those of the leaves. -/
theorem Piped.pipedNames_eq (h : Piped n ls text) :
    pipedNames text = ls.filterMap Leaf.model? := by
  induction h with
  | leaf n l =>
    have hpipe : '|' ∉ l.text := l.not_mem_text (by decide) (by decide)
    rw [pipedNames, bare_eq_self l.isParen_text, ← modelsOf_splitAt,
      splitAt_of_not_mem hpipe, modelsOf, List.filterMap_cons, List.filterMap_cons,
      l.head?_modelNames]
    rfl
  | padded inner hb ha ih => rw [pipedNames_padded hb ha, ih]
  | group ms two members ih =>
    rw [pipedNames, bare_group]
    exact pipedNames_joinWith (texts_ne_nil two) ih

end

/-! ## The whole union -/

/-- A union of two or more members between pipes, with groups nested at most ten deep. -/
def IsPipeUnion (ls : List Leaf) (text : List Char) : Prop :=
  ∃ ms : List (List Leaf × List Char), 2 ≤ ms.length ∧ (∀ m ∈ ms, Piped 10 m.1 m.2) ∧
    ls = ms.flatMap Prod.fst ∧ text = joinWith ['|'] (ms.map Prod.snd)

theorem pipeModels_of_no_brackets {text : List Char} (hpipe : '|' ∈ text) (hround : '(' ∉ text)
    (hsquare : '[' ∉ text) :
    pipeModels text = (pieceNames text).filterMap List.head? := by
  have hmarks : containerMarks.any (fun m => contains m.toList text) = false := by
    rw [List.any_eq_false]
    intro mark hmark
    have hin : '[' ∈ mark.toList := by
      have hall : ∀ m ∈ containerMarks, '[' ∈ m.toList := by decide
      exact hall mark hmark
    rw [contains_of_not_mem hin hsquare]
    exact Bool.false_ne_true
  have hparens : dropParens (trim text) = trim text := by
    have hnot : '(' ∉ trim text := fun hmem => hround ((mem_trim (by decide)).mp hmem)
    unfold dropParens
    split
    · next rest heq => exact absurd (heq ▸ List.mem_cons_self) hnot
    · rfl
  rw [pipeModels, hmarks, List.contains_iff_mem.mpr hpipe, hparens, memberModels_eq,
    modelsOf_splitAt, splits_pieceNames.trim]
  rfl

/-- A union with pipes names the models of its leaves. -/
theorem IsPipeUnion.unionModels {ls : List Leaf} {text : List Char} (h : IsPipeUnion ls text) :
    Annotation.unionModels text = ls.filterMap Leaf.model? := by
  obtain ⟨ms, two, members, rfl, rfl⟩ := h
  have hne := texts_ne_nil two
  have hnested : Nested flattenPasses (joinWith ['|'] (ms.map Prod.snd)) :=
    joinWith_induction hne (List.forall_mem_map.mpr fun m hm => (members m hm).nested)
      fun a b ha hb => ha.append (.char (by decide) hb)
  have hbracket : '[' ∉ bare (joinWith ['|'] (ms.map Prod.snd)) := fun hmem =>
    not_mem_joinWith (by decide)
      (List.forall_mem_map.mpr fun m hm => (members m hm).not_mem_bracket)
      (List.mem_filter.mp hmem).1
  have hpipe : '|' ∈ bare (joinWith ['|'] (ms.map Prod.snd)) := by
    have hinner : hasInnerPipe (bare (joinWith ['|'] (ms.map Prod.snd))) = true :=
      hasInnerPipe_joinWith (by simpa using two)
        (List.forall_mem_map.mpr fun m hm => (members m hm).bare_ne_nil)
    rw [hasInnerPipe, List.contains_iff_mem] at hinner
    exact List.mem_of_mem_drop (List.dropLast_subset _ hinner)
  have hround : '(' ∉ bare (joinWith ['|'] (ms.map Prod.snd)) := fun hmem =>
    absurd (List.mem_filter.mp hmem).2 (by decide)
  have hflat : flattenUnions (joinWith ['|'] (ms.map Prod.snd)) =
      bare (joinWith ['|'] (ms.map Prod.snd)) := by
    have hmark : contains "Union[".toList (bare (joinWith ['|'] (ms.map Prod.snd))) = false :=
      contains_of_not_mem (c := '[') (by decide) hbracket
    show flattenPassesFrom flattenPasses (opened (joinWith ['|'] (ms.map Prod.snd))) = _
    rw [hnested.opened_eq, flattenPasses, flattenPassesFrom, hmark, if_neg Bool.false_ne_true]
  have hnames := pipedNames_joinWith hne fun m hm => (members m hm).pipedNames_eq
  rw [unionModels_eq, hflat, argumentModels, unionArguments?_of_not_mem hbracket,
    if_neg (by simp), pipeModels_of_no_brackets hpipe hround hbracket]
  exact hnames

end Annotation
end ApiSync
