import ApiSync.Proofs.Annotation.Leaves
import ApiSync.Proofs.Annotation.TreeUnion
/-!
# Unions written with subscripts

A member of a union is a leaf or a union again.  Flattening puts the leaves of a nested union in
its place, so what stands between the brackets of the first union in the end are all leaves of the
union, in their order, and no bracket comes before the one that closes it.
-/

namespace ApiSync
namespace Annotation

open Text

/-! ## Members and their leaves -/

def unionName (qualified : Bool) : List Char :=
  if qualified then "typing.Union".toList else "Union".toList

/-- A union with this text between its brackets. -/
def subscript (qualified : Bool) (inside : List Char) : List Char :=
  unionName qualified ++ '[' :: (inside ++ [']'])

/-- A member of a union between commas with the leaves that it has: a leaf, or members in the
brackets of a union.  Blanks may stand around it. -/
inductive Subscripted : List Leaf → List Char → Prop
  | leaf (l : Leaf) : Subscripted [l] l.text
  | padded {ls : List Leaf} {text before after : List Char} (inner : Subscripted ls text)
      (hbefore : ∀ c ∈ before, isBlank c = true) (hafter : ∀ c ∈ after, isBlank c = true) :
      Subscripted ls (before ++ (text ++ after))
  | union (qualified : Bool) (ms : List (List Leaf × List Char)) (nonempty : ms ≠ [])
      (members : ∀ m ∈ ms, Subscripted m.1 m.2) :
      Subscripted (ms.flatMap Prod.fst)
        (subscript qualified (joinWith [','] (ms.map Prod.snd)))

section

variable {ls : List Leaf} {text before after inside : List Char} {qualified : Bool}

theorem not_mem_padded {c : Char} (hc : isBlank c = false) (hb : ∀ c ∈ before, isBlank c = true)
    (ha : ∀ c ∈ after, isBlank c = true) (h : c ∉ text) : c ∉ before ++ (text ++ after) := by
  have hblank {cs : List Char} (hcs : ∀ c ∈ cs, isBlank c = true) : c ∉ cs := fun hmem =>
    Bool.false_ne_true (hc.symm.trans (hcs c hmem))
  simp only [List.mem_append, not_or]
  exact ⟨hblank hb, h, hblank ha⟩

theorem not_mem_subscript {c : Char} (hname : c ∉ "typing.Union[]".toList) (h : c ∉ inside) :
    c ∉ subscript qualified inside := by
  have hin : c ∉ unionName qualified ∧ c ≠ '[' ∧ c ≠ ']' := by
    cases qualified
    · simp at hname
      simp [unionName, hname]
    · simp at hname
      simp [unionName, hname]
  simp only [subscript, List.mem_append, List.mem_cons, List.not_mem_nil, not_or]
  exact ⟨hin.1, hin.2.1, h, hin.2.2, not_false⟩

theorem trim_padded (hb : ∀ c ∈ before, isBlank c = true) (ha : ∀ c ∈ after, isBlank c = true) :
    trim (before ++ (text ++ after)) = trim text := by
  rw [trim_append_left hb, trim_append_right ha]

theorem isMember_padded (hb : ∀ c ∈ before, isBlank c = true) (ha : ∀ c ∈ after, isBlank c = true)
    (h : IsMember text) : IsMember (before ++ (text ++ after)) := by
  have hnone {cs : List Char} (hcs : ∀ c ∈ cs, isBlank c = true) : cs.filter (!isBlank ·) = [] :=
    List.filter_eq_nil_iff.mpr fun c hc => by rw [hcs c hc]; exact Bool.false_ne_true
  have hfilter : (before ++ (text ++ after)).filter (!isBlank ·) = text.filter (!isBlank ·) := by
    rw [List.filter_append, List.filter_append, hnone hb, hnone ha, List.append_nil,
      List.nil_append]
  exact h.of_filter (by decide) (by decide) (by decide) hfilter

theorem trim_subscript : trim (subscript qualified inside) = subscript qualified inside := by
  cases qualified
  · exact trim_of_ends (by decide) (by decide) ("nion[".toList ++ inside)
  · exact trim_of_ends (by decide) (by decide) ("yping.Union[".toList ++ inside)

theorem afterOpening?_subscript (qualified : Bool) (inside after : List Char) :
    afterOpening? "Union".toList (dropTyping (subscript qualified inside ++ after)) =
      some (inside ++ ']' :: after) := by
  rw [subscript, List.append_assoc, List.cons_append, List.append_assoc]
  cases qualified <;> rfl

theorem nestedUnion?_subscript (h : inside ≠ []) :
    nestedUnion? (subscript qualified inside) = some inside := by
  have hafter := afterOpening?_subscript qualified inside []
  rw [List.append_nil] at hafter
  rw [nestedUnion?, hafter, Option.bind_some, List.dropLast_concat,
    if_pos ⟨List.getLast?_concat, h⟩]

/-! ### The members between the commas -/

theorem splitMembers_joinWith {texts : List (List Char)} (hne : texts ≠ [])
    (h : ∀ t ∈ texts, IsMember t) : splitMembers 0 [] (joinWith [','] texts) = texts := by
  induction texts with
  | nil => exact absurd rfl hne
  | cons t texts ih =>
    obtain ⟨ht, htexts⟩ := List.forall_mem_cons.mp h
    by_cases hnil : texts = []
    · have hsplit := splitMembers_append ht.balanced ht.single [] []
      rw [List.append_nil] at hsplit
      rw [hnil]
      exact hsplit
    · rw [joinWith_char t hnil]
      show splitMembers ((0 : Nat) : Int) [] (t ++ _) = _
      rw [splitMembers_append ht.balanced ht.single]
      show splitMembers 0 t _ = _
      rw [splitMembers_comma, ih hnil htexts]

theorem members_joinWith {texts : List (List Char)} (hne : texts ≠ [])
    (h : ∀ t ∈ texts, IsMember t) (htrim : ∀ t ∈ texts, trim t ≠ []) :
    members (joinWith [','] texts) = texts.map trim := by
  rw [members, splitMembers_joinWith hne h, List.filter_eq_self]
  exact List.forall_mem_map.mpr fun t ht => by simpa using htrim t ht

theorem balanced_joinWith {texts : List (List Char)} (hne : texts ≠ [])
    (h : ∀ t ∈ texts, square.Balanced t) : square.Balanced (joinWith [','] texts) := by
  have hcomma : square.Balanced [','] := by decide
  exact joinWith_induction hne h fun a b ha hb => ha.append (hcomma.append hb)

variable {ms : List (List Leaf × List Char)}

theorem snds_ne_nil (h : ms ≠ []) : ms.map Prod.snd ≠ [] := fun hnil =>
  h (List.map_eq_nil_iff.mp hnil)

/-! ### What a member is like -/

theorem Leaf.isMember (l : Leaf) : IsMember l.text :=
  isMember_of_not_mem (l.not_mem_text (by decide) (by decide))
    (l.not_mem_text (by decide) (by decide)) (l.not_mem_text (by decide) (by decide))

theorem Subscripted.isMember (h : Subscripted ls text) : IsMember text := by
  induction h with
  | leaf l => exact l.isMember
  | padded inner hb ha ih => exact isMember_padded hb ha ih
  | union qualified ms nonempty members ih =>
    refine isMember_subscript _ ?_ ?_ ?_ (balanced_joinWith (snds_ne_nil nonempty)
      (List.forall_mem_map.mpr fun m hm => (ih m hm).balanced))
    all_goals cases qualified <;> decide

theorem Subscripted.trim_ne_nil (h : Subscripted ls text) : trim text ≠ [] := by
  induction h with
  | leaf l =>
    rw [l.trim_text]
    exact l.text_ne_nil
  | padded inner hb ha ih =>
    rw [trim_padded hb ha]
    exact ih
  | union qualified ms nonempty members ih =>
    rw [trim_subscript, subscript]
    exact List.append_ne_nil_of_right_ne_nil _ (List.cons_ne_nil _ _)

theorem Subscripted.leaves_ne_nil (h : Subscripted ls text) : ls ≠ [] := by
  induction h with
  | leaf l => exact List.cons_ne_nil _ _
  | padded inner hb ha ih => exact ih
  | union qualified ms nonempty members ih =>
    obtain ⟨m, rest, rfl⟩ := List.exists_cons_of_ne_nil nonempty
    exact List.append_ne_nil_of_left_ne_nil (ih m List.mem_cons_self) _

theorem Subscripted.no_pipe (h : Subscripted ls text) : '|' ∉ text := by
  induction h with
  | leaf l => exact l.not_mem_text (by decide) (by decide)
  | padded inner hb ha ih => exact not_mem_padded (by decide) hb ha ih
  | union qualified ms nonempty members ih =>
    exact not_mem_subscript (by decide)
      (not_mem_joinWith (by decide) (List.forall_mem_map.mpr ih))

theorem contains_subscript (qualified : Bool) (a inside b : List Char) :
    contains "Union[".toList (a ++ (subscript qualified inside ++ b)) = true := by
  have hname : ∃ front,
      subscript qualified inside = front ++ "Union[".toList ++ (inside ++ [']']) := by
    cases qualified
    · exact ⟨[], rfl⟩
    · exact ⟨"typing.".toList, rfl⟩
  obtain ⟨front, hfront⟩ := hname
  have hwhole := Text.contains_append (a ++ front) "Union[".toList (inside ++ [']'] ++ b)
  rw [hfront]
  simpa only [List.append_assoc] using hwhole

/-- What is not found in a text is not found in a part of it. -/
theorem not_contains_part {mark a text b : List Char}
    (h : contains mark (a ++ (text ++ b)) = false) : contains mark text = false := by
  rw [Bool.eq_false_iff]
  intro hin
  obtain ⟨⟨x, y⟩, hcut⟩ := Option.isSome_iff_exists.mp hin
  have hwhole := Text.contains_append (a ++ x) mark (y ++ b)
  rw [eq_append_of_cut? hcut] at h
  simp only [List.append_assoc] at h hwhole
  exact Bool.false_ne_true (h.symm.trans hwhole)

/-- A member in which no union is found is a leaf. -/
theorem Subscripted.of_no_union (h : Subscripted ls text)
    (hno : contains "Union[".toList text = false) :
    ls.map Leaf.text = [trim text] ∧ ']' ∉ text := by
  induction h with
  | leaf l => exact ⟨by rw [l.trim_text]; rfl, l.not_mem_text (by decide) (by decide)⟩
  | @padded ls text before after inner hb ha ih =>
    obtain ⟨hleaf, hbracket⟩ := ih (not_contains_part hno)
    rw [trim_padded hb ha]
    exact ⟨hleaf, not_mem_padded (by decide) hb ha hbracket⟩
  | union qualified ms nonempty members ih =>
    have hmark := contains_subscript qualified [] (joinWith [','] (ms.map Prod.snd)) []
    rw [List.append_nil, List.nil_append, hno] at hmark
    cases hmark

/-! ## Flattening -/

theorem Subscripted.members_eq (hne : ms ≠ []) (h : ∀ m ∈ ms, Subscripted m.1 m.2) :
    members (joinWith [','] (ms.map Prod.snd)) = ms.map fun m => trim m.2 := by
  rw [members_joinWith (snds_ne_nil hne) (List.forall_mem_map.mpr fun m hm => (h m hm).isMember)
    (List.forall_mem_map.mpr fun m hm => (h m hm).trim_ne_nil), List.map_map]
  rfl

theorem length_le_joinWith {t : List Char} {texts : List (List Char)} (h : t ∈ texts) :
    t.length ≤ (joinWith [','] texts).length := by
  obtain ⟨a, b, heq⟩ := eq_append_of_mem_joinWith [','] h
  rw [heq, List.length_append, List.length_append]
  omega

theorem joinWith_ne_nil (hne : ms ≠ []) (h : ∀ m ∈ ms, Subscripted m.1 m.2) :
    joinWith [','] (ms.map Prod.snd) ≠ [] :=
  joinWith_induction (P := (· ≠ [])) (snds_ne_nil hne)
    (List.forall_mem_map.mpr fun m hm hnil => (h m hm).trim_ne_nil (by rw [hnil]; rfl))
    fun a b _ _ => List.append_ne_nil_of_right_ne_nil a (List.cons_ne_nil _ b)

/-- If each member is replaced by its leaves, so is a list of them. -/
theorem flattenMembersFrom_joinWith (hne : ms ≠ []) (h : ∀ m ∈ ms, Subscripted m.1 m.2)
    {fuel : Nat} (hfuel : (joinWith [','] (ms.map Prod.snd)).length ≤ fuel)
    (hmembers : ∀ m ∈ ms, ∀ f, m.2.length ≤ f + 1 →
      flattenMember f (trim m.2) = m.1.map Leaf.text) :
    flattenMembersFrom fuel (joinWith [','] (ms.map Prod.snd)) =
      (ms.flatMap Prod.fst).map Leaf.text := by
  have hlength : ∀ m ∈ ms, m.2.length ≤ fuel := fun m hm =>
    (length_le_joinWith (List.mem_map_of_mem hm)).trans hfuel
  cases fuel with
  | zero =>
    obtain ⟨m, rest, rfl⟩ := List.exists_cons_of_ne_nil hne
    have hnil := List.length_eq_zero_iff.mp (Nat.le_zero.mp (hlength m List.mem_cons_self))
    exact absurd (by rw [hnil]; rfl) (h m List.mem_cons_self).trim_ne_nil
  | succ fuel =>
    rw [flattenMembersFrom_succ, Subscripted.members_eq hne h, List.flatMap_map, List.map_flatMap]
    exact List.flatMap_congr fun m hm => hmembers m hm fuel (hlength m hm)

/-- Flattening puts the leaves of a member in its place. -/
theorem Subscripted.flattenMember (h : Subscripted ls text) {fuel : Nat}
    (hfuel : text.length ≤ fuel + 1) :
    Annotation.flattenMember fuel (trim text) = ls.map Leaf.text := by
  induction h generalizing fuel with
  | leaf l =>
    rw [l.trim_text, flattenMember_of_none (nestedUnion?_of_not_mem
      (l.not_mem_text (by decide) (by decide)))]
    rfl
  | padded inner hb ha ih =>
    rw [List.length_append, List.length_append] at hfuel
    rw [trim_padded hb ha]
    exact ih (by omega)
  | union qualified ms nonempty members ih =>
    have hlength : (joinWith [','] (ms.map Prod.snd)).length + 2 ≤ fuel + 1 := by
      rw [subscript, List.length_append, List.length_cons, List.length_append] at hfuel
      simp only [List.length_singleton] at hfuel
      omega
    rw [trim_subscript, Annotation.flattenMember, nestedUnion?_subscript
      (joinWith_ne_nil nonempty members)]
    exact flattenMembersFrom_joinWith nonempty members (by omega)
      fun m hm f hf => ih m hm hf

/-! ## The first union of a text -/

theorem unionStart?_subscript (qualified : Bool) (inside after : List Char) :
    unionStart? (subscript qualified inside ++ after) =
      some ⟨[], qualified, inside ++ ']' :: after⟩ := by
  rw [subscript, List.append_assoc, List.cons_append, List.append_assoc]
  cases qualified <;> rfl

/-- The search for a union passes over blanks. -/
theorem unionStart?_blanks (hb : ∀ c ∈ before, isBlank c = true) {u : UnionStart}
    (hu : unionStart? text = some u) :
    unionStart? (before ++ text) = some { u with before := before ++ u.before } := by
  induction before with
  | nil => exact hu
  | cons c before ih =>
    obtain ⟨hc, hrest⟩ := List.forall_mem_cons.mp hb
    have hno : afterOpening? "Union".toList (dropTyping (c :: (before ++ text))) = none := by
      have hletters : 't' ≠ c ∧ 'U' ≠ c := by
        constructor <;> (rintro rfl; cases hc)
      have htyping : dropTyping (c :: (before ++ text)) = c :: (before ++ text) := by
        show (if 't' = c then _ else none : Option _).getD _ = _
        rw [if_neg hletters.1]
        rfl
      rw [htyping]
      show ((if 'U' = c then _ else none : Option (List Char)).bind _) = none
      rw [if_neg hletters.2]
      rfl
    exact Frame.unionStart?_cons hno (ih hrest)

theorem unionArguments?_blanks (hb : ∀ c ∈ before, isBlank c = true) (text : List Char) :
    unionArguments? (before ++ text) = unionArguments? text := by
  induction before with
  | nil => rfl
  | cons c before ih =>
    obtain ⟨hc, hrest⟩ := List.forall_mem_cons.mp hb
    have hno : afterOpening? "Union".toList (c :: (before ++ text)) = none := by
      have hletter : 'U' ≠ c := by
        rintro rfl
        cases hc
      show ((if 'U' = c then _ else none : Option (List Char)).bind _) = none
      rw [if_neg hletter]
      rfl
    rw [List.cons_append, unionArguments?, hno]
    exact ih hrest

theorem unionArguments?_subscript (hne : inside ≠ []) (hbracket : ']' ∉ inside)
    (after : List Char) :
    unionArguments? (subscript qualified inside ++ after) = some inside := by
  have hplain : unionArguments? ("Union".toList ++ '[' :: (inside ++ ']' :: after)) =
      some inside := by
    have hopening : afterOpening? "Union".toList
        ('U' :: ("nion[".toList ++ (inside ++ ']' :: after))) = some (inside ++ ']' :: after) := rfl
    have htake : (inside ++ ']' :: after).takeWhile (· ≠ ']') = inside := by
      rw [takeWhile_append_of_not_mem hbracket]
      exact List.append_nil inside
    have hshort : inside.length < (inside ++ ']' :: after).length := by
      rw [List.length_append, List.length_cons]
      omega
    show unionArguments? ('U' :: ("nion[".toList ++ (inside ++ ']' :: after))) = _
    rw [unionArguments?, hopening]
    dsimp only
    rw [htake, if_pos ⟨hne, hshort⟩]
  rw [subscript, List.append_assoc, List.cons_append, List.append_assoc]
  cases qualified with
  | false => exact hplain
  | true => exact hplain

/-- A union at the start of a text, blanks aside, with balanced text in it. -/
theorem flattenFirst?_subscript (hb : ∀ c ∈ before, isBlank c = true)
    (hbalanced : square.Balanced inside) (after : List Char) :
    flattenFirst? (before ++ (subscript qualified inside ++ after)) =
      if contains "Union[".toList inside then
        some (before ++ (subscript qualified (commaJoin (flattenMembers inside)) ++ after))
      else none := by
  have hstart := unionStart?_blanks hb (unionStart?_subscript qualified inside after)
  rw [flattenFirst?, hstart, Option.bind_some]
  dsimp only
  rw [closing?_of_balanced hbalanced, Option.bind_some]
  dsimp only
  rw [List.append_nil]
  have hhead : (if qualified then "typing.".toList else []) ++
      unionOf (flattenMembers inside) =
        subscript qualified (commaJoin (flattenMembers inside)) := by
    rw [unionOf_eq]
    cases qualified <;> rfl
  simp only [← hhead, List.append_assoc]

/-- What a text is flattened to if its first union holds these leaves: they stand between the
brackets, and no bracket and no pipe comes between them. -/
structure Flat (inside : List Char) (ls : List Leaf) : Prop where
  members : members inside = ls.map Leaf.text
  nonempty : inside ≠ []
  noBracket : ']' ∉ inside
  noPipe : '|' ∉ inside

theorem not_mem_commaJoin {c : Char} (hcomma : c ≠ ',') (hblank : c ≠ ' ')
    {texts : List (List Char)} (h : ∀ t ∈ texts, c ∉ t) : c ∉ commaJoin texts := by
  have hall := all_commaJoin (p := (· ≠ c)) (decide_eq_true hcomma.symm)
    (decide_eq_true hblank.symm) fun t ht => List.all_eq_true.mpr fun d hd =>
      decide_eq_true fun heq => h t ht (heq ▸ hd)
  exact fun hmem => by simpa using List.all_eq_true.mp hall c hmem

theorem flat_commaJoin (hne : ls ≠ []) : Flat (commaJoin (ls.map Leaf.text)) ls := by
  have hno {c : Char} (hc : isWordChar c = false) (hdot : c ≠ '.') :
      ∀ t ∈ ls.map Leaf.text, c ∉ t :=
    List.forall_mem_map.mpr fun l _ => l.not_mem_text hc hdot
  constructor
  · rw [members_of_members (List.forall_mem_map.mpr fun l _ => l.isMember),
      tidy_eq_self (List.forall_mem_map.mpr fun l _ => l.trim_text)
        (List.forall_mem_map.mpr fun l _ => l.text_ne_nil)]
  · obtain ⟨l, more, rfl⟩ := List.exists_cons_of_ne_nil hne
    exact commaJoin_ne_nil List.mem_cons_self l.text_ne_nil
  · exact not_mem_commaJoin (by decide) (by decide) (hno (by decide) (by decide))
  · exact not_mem_commaJoin (by decide) (by decide) (hno (by decide) (by decide))

/-- If no union is found among the members they are all leaves. -/
theorem flat_of_no_union (hne : ms ≠ []) (h : ∀ m ∈ ms, Subscripted m.1 m.2)
    (hno : contains "Union[".toList (joinWith [','] (ms.map Prod.snd)) = false) :
    Flat (joinWith [','] (ms.map Prod.snd)) (ms.flatMap Prod.fst) := by
  have hleaf : ∀ m ∈ ms, m.1.map Leaf.text = [trim m.2] ∧ ']' ∉ m.2 := by
    intro m hm
    obtain ⟨a, b, heq⟩ := eq_append_of_mem_joinWith [','] (List.mem_map_of_mem (f := Prod.snd) hm)
    rw [heq, List.append_assoc] at hno
    exact (h m hm).of_no_union (not_contains_part hno)
  constructor
  · rw [Subscripted.members_eq hne h, List.map_flatMap,
      List.flatMap_congr fun m hm => (hleaf m hm).1, List.map_eq_flatMap]
  · exact joinWith_ne_nil hne h
  · exact not_mem_joinWith (by decide)
      (List.forall_mem_map.mpr fun m hm => (hleaf m hm).2)
  · exact not_mem_joinWith (by decide)
      (List.forall_mem_map.mpr fun m hm => (h m hm).no_pipe)

/-! ## The whole union -/

/-- A union in brackets of members that may be unions in brackets again. -/
def IsSubscriptUnion (ls : List Leaf) (text : List Char) : Prop :=
  ∃ (qualified : Bool) (ms : List (List Leaf × List Char)) (before after : List Char), ms ≠ [] ∧
    (∀ m ∈ ms, Subscripted m.1 m.2) ∧ (∀ c ∈ before, isBlank c = true) ∧
    (∀ c ∈ after, isBlank c = true) ∧ ls = ms.flatMap Prod.fst ∧
    text = before ++ (subscript qualified (joinWith [','] (ms.map Prod.snd)) ++ after)

/-- Flattening leaves the leaves between the brackets of the first union. -/
theorem flattenUnions_subscript (qualified : Bool) (hb : ∀ c ∈ before, isBlank c = true)
    (ha : ∀ c ∈ after, isBlank c = true) (hne : ms ≠ []) (h : ∀ m ∈ ms, Subscripted m.1 m.2) :
    ∃ inside, Flat inside (ms.flatMap Prod.fst) ∧
      flattenUnions (before ++ (subscript qualified (joinWith [','] (ms.map Prod.snd)) ++ after)) =
        before ++ (subscript qualified inside ++ after) := by
  have hunion : Subscripted (ms.flatMap Prod.fst)
      (subscript qualified (joinWith [','] (ms.map Prod.snd))) := .union qualified ms hne h
  have hopened := opened_of_no_pipe (hunion.padded hb ha).no_pipe
  have hbalanced := balanced_joinWith (snds_ne_nil hne)
    (List.forall_mem_map.mpr fun m hm => (h m hm).isMember.balanced)
  have hflat : flattenUnions
      (before ++ (subscript qualified (joinWith [','] (ms.map Prod.snd)) ++ after)) =
        flattenPassesFrom 10
          (before ++ (subscript qualified (joinWith [','] (ms.map Prod.snd)) ++ after)) :=
    congrArg (flattenPassesFrom flattenPasses) hopened
  rw [hflat, flattenPassesFrom, if_pos (contains_subscript _ _ _ _),
    flattenFirst?_subscript hb hbalanced]
  by_cases hin : contains "Union[".toList (joinWith [','] (ms.map Prod.snd)) = true
  · have hleaves := flattenMembersFrom_joinWith hne h (Nat.le_refl _)
      fun m hm f hf => (h m hm).flattenMember hf
    have hdone := flat_commaJoin hunion.leaves_ne_nil
    have hnone : contains "Union[".toList
        (commaJoin ((ms.flatMap Prod.fst).map Leaf.text)) = false :=
      contains_of_not_mem (c := '[') (by decide) (not_mem_commaJoin (by decide) (by decide)
        (List.forall_mem_map.mpr fun l _ => l.not_mem_text (by decide) (by decide)))
    have hflattened : square.Balanced (commaJoin ((ms.flatMap Prod.fst).map Leaf.text)) :=
      balanced_commaJoin (by decide) (List.forall_mem_map.mpr fun l _ => l.isMember.balanced)
    refine ⟨_, hdone, ?_⟩
    rw [if_pos hin, flattenMembers, hleaves]
    dsimp only
    -- The leaves hold no union, so the next pass is the last one.
    rw [flattenPassesFrom, if_pos (contains_subscript _ _ _ _),
      flattenFirst?_subscript hb hflattened, hnone, if_neg Bool.false_ne_true]
  · refine ⟨_, flat_of_no_union hne h (Bool.eq_false_iff.mpr hin), ?_⟩
    rw [if_neg hin]

theorem memberModels_leaves (ls : List Leaf) :
    memberModels (ls.map Leaf.text) = ls.filterMap Leaf.model? := by
  rw [memberModels_eq, modelsOf, List.filterMap_map]
  exact congrArg (ls.filterMap ·) (funext fun l => l.head?_modelNames)

/-- A union in brackets names the models of its leaves. -/
theorem IsSubscriptUnion.unionModels (h : IsSubscriptUnion ls text) :
    Annotation.unionModels text = ls.filterMap Leaf.model? := by
  obtain ⟨qualified, ms, before, after, hne, members, hb, ha, rfl, rfl⟩ := h
  obtain ⟨inside, hflat, heq⟩ := flattenUnions_subscript qualified hb ha hne members
  have harguments : argumentModels (before ++ (subscript qualified inside ++ after)) =
      (ms.flatMap Prod.fst).filterMap Leaf.model? := by
    rw [argumentModels, unionArguments?_blanks hb,
      unionArguments?_subscript hflat.nonempty hflat.noBracket]
    dsimp only
    rw [hflat.members, memberModels_leaves]
  have hpipe : '|' ∉ before ++ (subscript qualified inside ++ after) :=
    not_mem_padded (by decide) hb ha (not_mem_subscript (by decide) hflat.noPipe)
  have hpiped : pipeModels (before ++ (subscript qualified inside ++ after)) = [] := by
    rw [pipeModels, if_neg]
    simp only [Bool.and_eq_true, List.contains_iff_mem]
    exact fun hboth => hpipe hboth.1
  rw [unionModels_eq, heq, harguments, hpiped]
  split
  · rfl
  · next hnone => exact (not_not.mp hnone).symm

end

end Annotation
end ApiSync
