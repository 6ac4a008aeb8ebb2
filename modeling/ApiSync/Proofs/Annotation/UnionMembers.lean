import ApiSync.Schema
import ApiSync.Proofs.Annotation.Groups
import ApiSync.Proofs.Annotation.Pieces
/-!
# Which members of a union are read

The arguments of a union are read up to the first closing bracket.  So of the members, those
before the first one with a bracket are seen as they are, that one is cut at its first closing
bracket, and the rest is not seen at all.  If no model is named in what is seen, the text is read
once more as a union with pipes.
-/

namespace ApiSync
namespace Annotation

open Text

/-! ## Flattening a union of members that are no unions -/

theorem tidy_tidy (ms : List (List Char)) : tidy (tidy ms) = tidy ms := by
  induction ms with
  | nil => rfl
  | cons m ms ih =>
    by_cases hm : trim m = []
    · rw [tidy_cons_of_blank hm, ih]
    · have hagain : trim (trim m) ≠ [] := by rwa [trim_trim]
      rw [tidy_cons hm, tidy_cons hagain, trim_trim, ih]

theorem isMember_trim {m : List Char} (h : IsMember m) : IsMember (trim m) :=
  h.of_filter (by decide) (by decide) (by decide) (filter_trim m)

theorem mem_tidy {m : List Char} {ms : List (List Char)} (h : m ∈ tidy ms) :
    ∃ a ∈ ms, m = trim a := by
  obtain ⟨a, ha, heq⟩ := List.mem_map.mp (List.mem_filter.mp h).1
  exact ⟨a, ha, heq.symm⟩

/-- A member that is not read as a union itself. -/
structure IsPlainMember (m : List Char) : Prop where
  member : IsMember m
  plain : nestedUnion? (trim m) = none

theorem isPlainMember_of_mem_tidy {ms : List (List Char)} (h : ∀ m ∈ ms, IsPlainMember m)
    {m : List Char} (hm : m ∈ tidy ms) : IsPlainMember m := by
  obtain ⟨a, ha, rfl⟩ := mem_tidy hm
  refine ⟨isMember_trim (h a ha).member, ?_⟩
  rw [trim_trim]
  exact (h a ha).plain

/-- What flattening makes of one member. -/
def flattenMember (fuel : Nat) (m : List Char) : List (List Char) :=
  match nestedUnion? m with
  | some inside => flattenMembersFrom fuel inside
  | none => [m]

theorem flattenMembersFrom_succ (fuel : Nat) (content : List Char) :
    flattenMembersFrom (fuel + 1) content = (members content).flatMap (flattenMember fuel) := rfl

theorem flattenMember_of_none {m : List Char} (h : nestedUnion? m = none) (fuel : Nat) :
    flattenMember fuel m = [m] := by rw [flattenMember, h]

theorem flatMap_flattenMember {ps : List (List Char)} (h : ∀ m ∈ ps, nestedUnion? m = none)
    (fuel : Nat) : ps.flatMap (flattenMember fuel) = ps := by
  induction ps with
  | nil => rfl
  | cons m ps ih =>
    rw [List.flatMap_cons, flattenMember_of_none (h m List.mem_cons_self),
      ih fun n hn => h n (List.mem_cons_of_mem m hn)]
    rfl

theorem flattenMembers_commaJoin {ms : List (List Char)} (h : ∀ m ∈ ms, IsPlainMember m) :
    flattenMembers (commaJoin ms) = tidy ms := by
  have hmembers := members_of_members fun m hm => (h m hm).member
  have hplain : ∀ m ∈ tidy ms, nestedUnion? m = none := by
    intro m hm
    obtain ⟨a, ha, rfl⟩ := mem_tidy hm
    exact (h a ha).plain
  unfold flattenMembers
  cases (commaJoin ms).length with
  | zero => exact hmembers
  | succ fuel =>
    rw [flattenMembersFrom_succ, hmembers]
    exact flatMap_flattenMember hplain fuel

theorem unionStart?_unionOf (ms : List (List Char)) :
    unionStart? (unionOf ms) = some ⟨[], false, commaJoin ms ++ [']']⟩ := rfl

theorem flattenFirst?_unionOf {ms : List (List Char)} (h : ∀ m ∈ ms, IsPlainMember m) :
    flattenFirst? (unionOf ms) =
      if contains "Union[".toList (commaJoin ms) then some (unionOf (tidy ms)) else none := by
  have hbalanced : square.Balanced (commaJoin ms) :=
    balanced_commaJoin (by decide) fun m hm => (h m hm).member.balanced
  rw [flattenFirst?, unionStart?_unionOf, Option.bind_some]
  dsimp only
  rw [closing?_of_balanced hbalanced, Option.bind_some]
  dsimp only
  rw [flattenMembers_commaJoin h]
  split
  · rw [if_neg Bool.false_ne_true, List.append_nil]
    rfl
  · rfl

/-- Flattening leaves such a union as it is or tidies its members. -/
theorem flattenPassesFrom_unionOf (fuel : Nat) {ms : List (List Char)}
    (h : ∀ m ∈ ms, IsPlainMember m) :
    flattenPassesFrom fuel (unionOf ms) = unionOf ms ∨
      flattenPassesFrom fuel (unionOf ms) = unionOf (tidy ms) := by
  induction fuel generalizing ms with
  | zero => exact Or.inl rfl
  | succ fuel ih =>
    rw [flattenPassesFrom]
    split
    · rw [flattenFirst?_unionOf h]
      by_cases hinner : contains "Union[".toList (commaJoin ms) = true
      · rw [if_pos hinner]
        -- Members that are tidy already are the same after every later pass.
        have htidy := ih fun m hm => isPlainMember_of_mem_tidy h hm
        rw [tidy_tidy, or_self] at htidy
        exact Or.inr htidy
      · rw [if_neg hinner]
        exact Or.inl rfl
    · exact Or.inl rfl

/-! ## Reading up to the first closing bracket -/

/-- What is seen of the members when the text is read up to the first closing bracket. -/
def visible : List (List Char) → List (List Char)
  | [] => []
  | m :: ms => if ']' ∈ m then [m.takeWhile (· ≠ ']')] else m :: visible ms

theorem visible_ne_nil {ms : List (List Char)} (h : ms ≠ []) : visible ms ≠ [] := by
  cases ms with
  | nil => exact absurd rfl h
  | cons m ms =>
    rw [visible]
    split
    · exact List.cons_ne_nil _ _
    · exact List.cons_ne_nil _ _

theorem takeWhile_append_bracket {a : List Char} (h : ']' ∈ a) (b : List Char) :
    (a ++ b).takeWhile (· ≠ ']') = a.takeWhile (· ≠ ']') :=
  takeWhile_append_of_mem h (by decide) b

theorem takeWhile_append_of_not_mem {c : Char} {a : List Char} (h : c ∉ a) (b : List Char) :
    (a ++ b).takeWhile (· ≠ c) = a ++ b.takeWhile (· ≠ c) := by
  refine List.takeWhile_append_of_pos fun d hd => ?_
  have hne : d ≠ c := fun he => h (he ▸ hd)
  simpa using hne

theorem takeWhile_commaJoin (ms : List (List Char)) (after : List Char) :
    (commaJoin ms ++ ']' :: after).takeWhile (· ≠ ']') = commaJoin (visible ms) := by
  induction ms with
  | nil => rfl
  | cons m ms ih =>
    rw [visible]
    by_cases hm : ']' ∈ m
    · rw [if_pos hm]
      by_cases hnil : ms = []
      · rw [hnil]
        exact takeWhile_append_bracket hm _
      · rw [commaJoin_cons m hnil, List.append_assoc]
        exact takeWhile_append_bracket hm _
    · rw [if_neg hm]
      by_cases hnil : ms = []
      · rw [hnil]
        show (m ++ ']' :: after).takeWhile (· ≠ ']') = m
        rw [takeWhile_append_of_not_mem hm]
        simp
      · rw [commaJoin_cons m hnil, commaJoin_cons m (visible_ne_nil hnil), List.append_assoc,
          takeWhile_append_of_not_mem hm, List.cons_append, List.cons_append, ← ih]
        simp

/-- A member that is cut short may leave brackets open, but it still holds no comma at the top. -/
theorem isLastMember_takeWhile {m : List Char} (h : IsMember m) :
    IsLastMember (m.takeWhile (· ≠ ']')) := by
  have hwhole := h.balanced
  have hsingle := h.single
  rw [Brackets.Balanced, ← List.takeWhile_append_dropWhile (p := (· ≠ ']')) (l := m),
    Brackets.depthAfter?_append] at hwhole
  obtain ⟨depth, hdepth, -⟩ := Option.bind_eq_some_iff.mp hwhole
  rw [← List.takeWhile_append_dropWhile (p := (· ≠ ']')) (l := m), hasTop_append hdepth,
    Bool.or_eq_false_iff] at hsingle
  exact ⟨⟨depth, hdepth⟩, hsingle.1⟩

/-- Of the visible members only the last one may be cut short. -/
theorem visible_eq_append {ms : List (List Char)} (h : ∀ m ∈ ms, IsMember m) (hne : ms ≠ []) :
    ∃ front last, visible ms = front ++ [last] ∧ (∀ m ∈ front, IsMember m) ∧
      IsLastMember last := by
  induction ms with
  | nil => exact absurd rfl hne
  | cons m ms ih =>
    have hm := h m List.mem_cons_self
    have hms : ∀ n ∈ ms, IsMember n := fun n hn => h n (List.mem_cons_of_mem m hn)
    have hnone : ∀ n ∈ ([] : List (List Char)), IsMember n :=
      fun n hn => absurd hn List.not_mem_nil
    rw [visible]
    by_cases hcut : ']' ∈ m
    · rw [if_pos hcut]
      exact ⟨[], _, rfl, hnone, isLastMember_takeWhile hm⟩
    · rw [if_neg hcut]
      by_cases hnil : ms = []
      · rw [hnil]
        exact ⟨[], m, rfl, hnone, hm.last⟩
      · obtain ⟨front, last, heq, hfront, hlast⟩ := ih hms hnil
        refine ⟨m :: front, last, by rw [heq]; rfl, fun n hn => ?_, hlast⟩
        rcases List.mem_cons.mp hn with rfl | hn
        · exact hm
        · exact hfront n hn

theorem members_visible {ms : List (List Char)} (h : ∀ m ∈ ms, IsMember m) :
    members (commaJoin (visible ms)) = tidy (visible ms) := by
  by_cases hnil : ms = []
  · rw [hnil]
    rfl
  · obtain ⟨front, last, heq, hfront, hlast⟩ := visible_eq_append h hnil
    rw [heq]
    exact members_commaJoin hfront hlast

/-! ## The models of what is read -/

/-- Reading a tidied text on changes no name, and neither does tidying the members first. -/
theorem memberModels_tidy (ms : List (List Char)) : memberModels (tidy ms) = memberModels ms := by
  rw [memberModels, memberModels, tidy, List.filterMap_filter, List.filterMap_map]
  congr 1
  funext m
  rw [← memberModel?_trim m]
  by_cases hblank : trim m = []
  · simp [hblank]
    rfl
  · simp [hblank]

theorem mem_trim {c : Char} (h : isBlank c = false) {m : List Char} :
    c ∈ trim m ↔ c ∈ m := by
  have hfilter := filter_trim m
  have hkeep : ∀ {cs : List Char}, c ∈ cs ↔ c ∈ cs.filter (!isBlank ·) := by
    intro cs
    rw [List.mem_filter, h]
    simp
  rw [hkeep, hfilter, ← hkeep]

theorem words_takeWhile_trim {m : List Char} (h : ']' ∈ m) :
    words ((trim m).takeWhile (· ≠ ']')) = words (m.takeWhile (· ≠ ']')) := by
  obtain ⟨lead, tail, hlead, -, heq⟩ := eq_append_trim m
  have hin : ']' ∈ trim m := (mem_trim (by decide)).mpr h
  have hout : ']' ∉ lead := fun hm => absurd (hlead _ hm) (by decide)
  conv_rhs => rw [heq]
  rw [List.append_assoc, takeWhile_append_of_not_mem hout, takeWhile_append_bracket hin,
    splits_words.blanks_append hlead]

theorem memberModels_cons (m : List Char) (ms : List (List Char)) :
    memberModels (m :: ms) = (memberModel? m).toList ++ memberModels ms := by
  rw [memberModels, memberModels, List.filterMap_cons]
  cases memberModel? m <;> rfl

theorem memberModels_visible_tidy (ms : List (List Char)) :
    memberModels (visible (tidy ms)) = memberModels (visible ms) := by
  induction ms with
  | nil => rfl
  | cons m ms ih =>
    by_cases hblank : trim m = []
    · have hm : ']' ∉ m := by
        intro hmem
        have htrim := (mem_trim (by decide)).mpr hmem
        rw [hblank] at htrim
        exact absurd htrim List.not_mem_nil
      have hnone : memberModel? m = none := by
        rw [← memberModel?_trim, hblank]
        rfl
      rw [tidy_cons_of_blank hblank, ih, visible, if_neg hm, memberModels_cons, hnone]
      rfl
    · rw [tidy_cons hblank, visible, visible]
      by_cases hm : ']' ∈ m
      · rw [if_pos ((mem_trim (by decide)).mpr hm), if_pos hm, memberModels_cons,
          memberModels_cons, memberModel?_of_words (words_takeWhile_trim hm)]
      · rw [if_neg (fun h => hm ((mem_trim (by decide)).mp h)), if_neg hm, memberModels_cons,
          memberModels_cons, memberModel?_trim, ih]

/-- The models in the arguments of the first union of a text. -/
def argumentModels (text : List Char) : List String :=
  match unionArguments? text with
  | some inside => memberModels (members inside)
  | none => []

/-- The arguments of a union are seen up to the first closing bracket, whatever follows it. -/
theorem unionArguments?_unionOf_append {ms : List (List Char)} (h : commaJoin (visible ms) ≠ [])
    (after : List Char) :
    unionArguments? (unionOf ms ++ after) = some (commaJoin (visible ms)) := by
  have htake := takeWhile_commaJoin ms after
  have hshort : (commaJoin (visible ms)).length < (commaJoin ms ++ ']' :: after).length := by
    rw [← htake]
    refine lt_of_le_of_ne (List.takeWhile_prefix _).length_le fun hlen => ?_
    have hall := (List.takeWhile_prefix (p := (· ≠ ']'))
      (l := commaJoin ms ++ ']' :: after)).eq_of_length hlen
    have hmem : ']' ∈ (commaJoin ms ++ ']' :: after).takeWhile (· ≠ ']') := by
      rw [hall]
      exact List.mem_append_right _ List.mem_cons_self
    exact absurd (List.mem_takeWhile_imp hmem) (by decide)
  have hopening : ∀ rest : List Char,
      afterOpening? "Union".toList ('U' :: ("nion[".toList ++ rest)) = some rest := fun _ => rfl
  rw [unionOf_eq, List.append_assoc, List.append_assoc]
  show unionArguments? ('U' :: ("nion[".toList ++ (commaJoin ms ++ ']' :: after))) = _
  rw [unionArguments?, hopening]
  dsimp only
  rw [htake, if_pos ⟨h, hshort⟩]

theorem commaJoin_eq_nil_of_visible {ms : List (List Char)} (h : ∀ m ∈ ms, IsMember m)
    (hv : commaJoin (visible ms) = []) : commaJoin ms = [] := by
  have htake := takeWhile_commaJoin ms []
  have hbalanced : square.Balanced (commaJoin ms) :=
    balanced_commaJoin (by decide) fun m hm => (h m hm).balanced
  rw [hv] at htake
  cases hjoin : commaJoin ms with
  | nil => rfl
  | cons c cs =>
    rw [hjoin] at htake hbalanced
    by_cases hc : c = ']'
    · rw [hc] at hbalanced
      exact absurd (hbalanced.symm.trans (square.depthAfter?_closing_zero cs)) (by simp)
    · rw [List.cons_append, List.takeWhile_cons, if_pos (by simpa using hc)] at htake
      cases htake

theorem memberModels_of_commaJoin_eq_nil {ps : List (List Char)} (h : commaJoin ps = []) :
    memberModels ps = [] := by
  cases ps with
  | nil => rfl
  | cons p ps =>
    by_cases hnil : ps = []
    · have hp : p = [] := by simpa [hnil, commaJoin, joinWith] using h
      rw [hnil, hp]
      rfl
    · rw [commaJoin_cons p hnil] at h
      simp at h

/-- The arguments of a union name the models of what is visible of its members. -/
theorem argumentModels_unionOf {ms : List (List Char)} (h : ∀ m ∈ ms, IsMember m) :
    argumentModels (unionOf ms) = memberModels (visible ms) := by
  by_cases hv : commaJoin (visible ms) = []
  · rw [memberModels_of_commaJoin_eq_nil hv, unionOf_eq, commaJoin_eq_nil_of_visible h hv]
    rfl
  · have hread := unionArguments?_unionOf_append hv []
    rw [List.append_nil] at hread
    rw [argumentModels, hread]
    dsimp only
    rw [members_visible h, memberModels_tidy]

/-- The models of a text that is read as a union with pipes. -/
def pipeModels (text : List Char) : List String :=
  if text.contains '|' && !containerMarks.any (fun m => contains m.toList text) then
    memberModels (splitAt '|' (dropParens (trim text)))
  else []

theorem pipeModels_unionOf (ms : List (List Char)) :
    pipeModels (unionOf ms) = pipedModels (commaJoin ms) := by
  have htrim : trim (unionOf ms) = unionOf ms :=
    trim_of_ends (by decide) (by decide) ("nion[".toList ++ commaJoin ms)
  have hdrop : dropParens (unionOf ms) = unionOf ms := rfl
  rw [pipeModels, htrim, hdrop, memberModels_eq, ← pipedModels_unionOf]
  rfl

theorem unionModels_eq (text : List Char) :
    unionModels text =
      if argumentModels (flattenUnions text) ≠ [] then argumentModels (flattenUnions text)
      else pipeModels (flattenUnions text) := rfl

/-- A member of a union: balanced in both kinds of brackets, without a comma at the top, and not
read as a union itself once its groups are open. -/
structure UnionMember (m : List Char) : Prop where
  square : square.Balanced m
  round : round.Balanced m
  single : hasTop ',' 0 m = false
  plain : nestedUnion? (trim (opened m)) = none

theorem UnionMember.isPlainMember {m : List Char} (h : UnionMember m) :
    IsPlainMember (opened m) :=
  ⟨isMember_opened ⟨h.square, h.single⟩, h.plain⟩

theorem isPlainMember_of_mem_opened {ms : List (List Char)} (h : ∀ m ∈ ms, UnionMember m)
    {m : List Char} (hm : m ∈ ms.map opened) : IsPlainMember m := by
  obtain ⟨a, ha, rfl⟩ := List.mem_map.mp hm
  exact (h a ha).isPlainMember

theorem flattenUnions_unionOf {ms : List (List Char)} (h : ∀ m ∈ ms, UnionMember m) :
    flattenUnions (unionOf ms) = unionOf (ms.map opened) ∨
      flattenUnions (unionOf ms) = unionOf (tidy (ms.map opened)) := by
  have hopened : flattenUnions (unionOf ms) =
      flattenPassesFrom flattenPasses (unionOf (ms.map opened)) := by
    rw [flattenUnions, ← opened_unionOf fun m hm => (h m hm).round]
    rfl
  rw [hopened]
  exact flattenPassesFrom_unionOf flattenPasses fun m hm => isPlainMember_of_mem_opened h hm

theorem argumentModels_flattenUnions {ms : List (List Char)} (h : ∀ m ∈ ms, UnionMember m) :
    argumentModels (flattenUnions (unionOf ms)) = memberModels (visible (ms.map opened)) := by
  have hplain : ∀ m ∈ ms.map opened, IsPlainMember m := fun m hm =>
    isPlainMember_of_mem_opened h hm
  have htidy : ∀ m ∈ tidy (ms.map opened), IsMember m := fun m hm =>
    (isPlainMember_of_mem_tidy hplain hm).member
  rcases flattenUnions_unionOf h with heq | heq
  · rw [heq, argumentModels_unionOf fun m hm => (hplain m hm).member]
  · rw [heq, argumentModels_unionOf htidy, memberModels_visible_tidy]

theorem pipeModels_flattenUnions {ms : List (List Char)} (h : ∀ m ∈ ms, UnionMember m) :
    pipeModels (flattenUnions (unionOf ms)) = pipedModels (commaJoin (ms.map opened)) := by
  rcases flattenUnions_unionOf h with heq | heq
  · rw [heq, pipeModels_unionOf]
  · rw [heq, pipeModels_unionOf, pipedModels_tidy]

/-! ## No member of a union is lost -/

/-- The models that are found: those named before the first closing bracket of the arguments, and
without any those named between pipes. -/
def foundModels (ms : List (List Char)) : List String :=
  if modelsOf (visible (ms.map opened)) ≠ [] then modelsOf (visible (ms.map opened))
  else pipedModels (commaJoin (ms.map opened))

theorem unionModels_unionOf {ms : List (List Char)} (h : ∀ m ∈ ms, UnionMember m) :
    unionModels (unionOf ms) = foundModels ms := by
  rw [unionModels_eq, argumentModels_flattenUnions h, pipeModels_flattenUnions h, memberModels_eq]
  rfl

/-- The composition of the models, if there are any. -/
def composed (kind : Composition) (nullable : Bool) (models : List String) : Option Schema :=
  match models with
  | [] => none
  | models => some (.composition kind models nullable)

theorem composed_inj {kind : Composition} {nullable : Bool} {a b : List String} :
    composed kind nullable a = composed kind nullable b ↔ a = b := by
  refine ⟨fun h => ?_, fun h => by rw [h]⟩
  cases a with
  | nil =>
    cases b with
    | nil => rfl
    | cons y b => cases h
  | cons x a =>
    cases b with
    | nil => cases h
    | cons y b =>
      injection h with h
      injection h

theorem union?_eq (kind : Composition) (nullable : Bool) (text : List Char) :
    Schema.union? kind nullable text = composed kind nullable (unionModels text) := rfl

/-- A union keeps all its members exactly when the models that are found are those that its
members name. -/
theorem union?_keeps_members_iff (kind : Composition) (nullable : Bool)
    (ms : List (List Char)) (h : ∀ m ∈ ms, UnionMember m) :
    Schema.union? kind nullable (unionOf ms) = composed kind nullable (modelsOf ms) ↔
      foundModels ms = modelsOf ms := by
  rw [union?_eq, unionModels_unionOf h]
  exact composed_inj

/-! ### Members without pipes -/

section Example

/-- The bracket of a subscripted member ends the arguments, so the members behind it are lost. -/
theorem union?_loses_member_behind_bracket :
    (∀ m ∈ ["List[A]".toList, "B".toList], UnionMember m) ∧
      Schema.union? .oneOf false (unionOf ["List[A]".toList, "B".toList]) ≠
        composed .oneOf false (modelsOf ["List[A]".toList, "B".toList]) := by
  refine ⟨fun m hm => ?_, by decide⟩
  have hcases : m = "List[A]".toList ∨ m = "B".toList := by simpa using hm
  rcases hcases with rfl | rfl
  · exact ⟨by decide, by decide, by decide, by decide⟩
  · exact ⟨by decide, by decide, by decide, by decide⟩

/-- A subscripted member at the end is cut short, but its model has been read by then. -/
theorem union?_keeps_members_before_bracket :
    (∀ m ∈ ["a.B".toList, "List[C]".toList], UnionMember m) ∧
      Schema.union? .oneOf false (unionOf ["a.B".toList, "List[C]".toList]) =
        composed .oneOf false (modelsOf ["a.B".toList, "List[C]".toList]) := by
  have h : ∀ m ∈ ["a.B".toList, "List[C]".toList], UnionMember m := by
    intro m hm
    have hcases : m = "a.B".toList ∨ m = "List[C]".toList := by simpa using hm
    rcases hcases with rfl | rfl
    · exact ⟨by decide, by decide, by decide, by decide⟩
    · exact ⟨by decide, by decide, by decide, by decide⟩
  exact ⟨h, (union?_keeps_members_iff .oneOf false _ h).mpr (by decide)⟩

end Example

end Annotation
end ApiSync
