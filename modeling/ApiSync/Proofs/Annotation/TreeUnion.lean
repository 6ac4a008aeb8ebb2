import ApiSync.Proofs.Annotation.TreeText
/-!
# The models in the union of a tree

`Optional` and parentheses stand around the first union of a tree like a frame, and the search for
the union sees through them.  Flattening puts the members of a union that is a member itself in
its place, so what is read are the members that are left then: of each one its leftmost model, and
nothing behind the first one that is no name.
-/

namespace ApiSync
namespace Annotation

open Text

/-! ## Texts without an opening bracket -/

theorem afterOpening?_of_not_mem {text : List Char} (h : '[' ∉ text) (head : List Char) :
    afterOpening? head text = none := by
  cases hafter : afterOpening? head text with
  | none => rfl
  | some inside => exact absurd ((suffix_of_afterOpening? hafter).mem List.mem_cons_self) h

theorem not_mem_dropTyping {c : Char} {text : List Char} (h : c ∉ text) : c ∉ dropTyping text :=
  fun hmem => h ((dropTyping_suffix text).mem hmem)

theorem nestedUnion?_of_not_mem {text : List Char} (h : '[' ∉ text) : nestedUnion? text = none := by
  rw [nestedUnion?, afterOpening?_of_not_mem (not_mem_dropTyping h)]
  rfl

theorem unionArguments?_of_not_mem {text : List Char} (h : '[' ∉ text) :
    unionArguments? text = none := by
  induction text with
  | nil => rfl
  | cons c cs ih =>
    rw [unionArguments?, afterOpening?_of_not_mem h]
    exact ih fun hcs => h (List.mem_cons_of_mem c hcs)

/-- A mark is not found where one of its characters is missing. -/
theorem contains_of_not_mem {mark text : List Char} {c : Char} (hc : c ∈ mark) (h : c ∉ text) :
    contains mark text = false := by
  rw [contains]
  cases hcut : cut? mark text with
  | none => rfl
  | some pair =>
    rw [eq_append_of_cut? hcut] at h
    exact absurd (List.mem_append_left _ (List.mem_append_right _ hc)) h

/-! ## Members that are not empty -/

theorem length_le_commaJoin {m : List Char} {ms : List (List Char)} (h : m ∈ ms) :
    m.length ≤ (commaJoin ms).length := by
  obtain ⟨a, b, heq⟩ := eq_append_of_mem_joinWith [',', ' '] h
  rw [commaJoin, heq, List.length_append, List.length_append]
  omega

theorem commaJoin_ne_nil {m : List Char} {ms : List (List Char)} (h : m ∈ ms) (hne : m ≠ []) :
    commaJoin ms ≠ [] := by
  have hlen := length_le_commaJoin h
  have hm := List.length_pos_iff.mpr hne
  exact List.length_pos_iff.mp (by omega)

namespace Tree

/-! ## Members in the place of their union -/

mutual

/-- What a member of a union comes to: the members of a union, whatever its depth, or itself. -/
def splice : Tree → List Tree
  | union first more => splice first ++ spliceAll more
  | t => [t]

def spliceAll : List Tree → List Tree
  | [] => []
  | t :: ts => splice t ++ spliceAll ts

end

theorem spliceAll_eq (ts : List Tree) : spliceAll ts = ts.flatMap splice := by
  induction ts with
  | nil => rfl
  | cons t ts ih => rw [spliceAll, ih, List.flatMap_cons]

theorem splice_union (first : Tree) (more : List Tree) :
    (union first more).splice = (first :: more).flatMap splice := by
  rw [splice, spliceAll_eq, List.flatMap_cons]

def isUnion : Tree → Bool
  | union _ _ => true
  | _ => false

theorem splice_of_not_union {t : Tree} (h : t.isUnion = false) : t.splice = [t] := by
  cases t using induct with
  | name word => rfl
  | union first more => cases h
  | optional inner => rfl
  | group inner => rfl

theorem mem_splice {t u : Tree} (h : u ∈ t.splice) :
    u.isUnion = false ∧ ∀ w ∈ u.names, w ∈ t.names := by
  have hself : ∀ {t : Tree}, t.isUnion = false → u ∈ [t] →
      u.isUnion = false ∧ ∀ w ∈ u.names, w ∈ t.names := by
    intro t ht hu
    rw [List.mem_singleton.mp hu]
    exact ⟨ht, fun _ hw => hw⟩
  induction t with
  | name word => exact hself rfl h
  | union first more hfirst hmore =>
    rw [splice_union] at h
    obtain ⟨t, ht, hut⟩ := List.mem_flatMap.mp h
    have hmember : u.isUnion = false ∧ ∀ w ∈ u.names, w ∈ t.names := by
      rcases List.mem_cons.mp ht with rfl | ht'
      · exact hfirst hut
      · exact hmore t ht' hut
    refine ⟨hmember.1, fun w hw => ?_⟩
    rw [names_union]
    exact List.mem_flatMap.mpr ⟨t, ht, hmember.2 w hw⟩
  | optional inner => exact hself rfl h
  | group inner => exact hself rfl h

theorem splice_ne_nil (t : Tree) : t.splice ≠ [] := by
  induction t with
  | name word => exact List.cons_ne_nil _ _
  | union first more hfirst =>
    rw [splice_union, List.flatMap_cons]
    exact List.append_ne_nil_of_left_ne_nil hfirst _
  | optional inner => exact List.cons_ne_nil _ _
  | group inner => exact List.cons_ne_nil _ _

theorem flatMap_splice_of_not_union {ts : List Tree} (h : ∀ t ∈ ts, t.isUnion = false) :
    ts.flatMap splice = ts := by
  induction ts with
  | nil => rfl
  | cons t ts ih =>
    rw [List.flatMap_cons, splice_of_not_union (h t List.mem_cons_self),
      ih fun u hu => h u (List.mem_cons_of_mem t hu)]
    rfl

/-- No union is left among the members. -/
theorem flatMap_splice_idem (ts : List Tree) :
    (ts.flatMap splice).flatMap splice = ts.flatMap splice := by
  refine flatMap_splice_of_not_union fun u hu => ?_
  obtain ⟨t, -, hut⟩ := List.mem_flatMap.mp hu
  exact (mem_splice hut).1

theorem names_of_mem_flatMap_splice {ts : List Tree} (h : ∀ t ∈ ts, t.OfModels) :
    ∀ u ∈ ts.flatMap splice, u.OfModels := by
  intro u hu w hw
  obtain ⟨t, ht, hut⟩ := List.mem_flatMap.mp hu
  exact h t ht w ((mem_splice hut).2 w hw)

/-! ## Flattening the members -/

theorem nestedUnion?_union {first : Tree} {more : List Tree}
    (h : (union first more).OfModels) :
    nestedUnion? (union first more).text = some (commaJoin ((first :: more).map text)) := by
  have hne : commaJoin ((first :: more).map text) ≠ [] :=
    commaJoin_ne_nil List.mem_cons_self
      (text_ne_nil_of_models (h.members first List.mem_cons_self))
  have hafter : afterOpening? "Union".toList (dropTyping (union first more).text) =
      some (commaJoin ((first :: more).map text) ++ [']']) := by
    rw [text_union, unionOf_eq]
    rfl
  rw [nestedUnion?, hafter, Option.bind_some, List.dropLast_concat,
    if_pos ⟨List.getLast?_concat, hne⟩]

theorem nestedUnion?_of_not_union {t : Tree} (hu : t.isUnion = false)
    (h : t.OfModels) : nestedUnion? t.text = none := by
  cases t using induct with
  | name w =>
    exact nestedUnion?_of_not_mem (not_mem_of_isWord (h w List.mem_cons_self).word (by decide))
  | union first more => cases hu
  | optional inner => rfl
  | group inner => rfl

/-- Flattening the members of a union splices their trees. -/
theorem flattenMembersFrom_texts (fuel : Nat) {ts : List Tree} (hne : ts ≠ [])
    (h : ∀ t ∈ ts, t.OfModels)
    (hfuel : (commaJoin (ts.map text)).length ≤ fuel) :
    flattenMembersFrom fuel (commaJoin (ts.map text)) = (ts.flatMap splice).map text := by
  induction fuel generalizing ts with
  | zero =>
    obtain ⟨t, ts, rfl⟩ := List.exists_cons_of_ne_nil hne
    have hjoin : commaJoin ((t :: ts).map text) ≠ [] :=
      commaJoin_ne_nil List.mem_cons_self (text_ne_nil_of_models (h t List.mem_cons_self))
    exact absurd (List.length_eq_zero_iff.mp (Nat.le_zero.mp hfuel)) hjoin
  | succ fuel ih =>
    have hmembers : members (commaJoin (ts.map text)) = ts.map text := by
      rw [members_of_members (List.forall_mem_map.mpr fun t ht => isMember_text (h t ht)),
        tidy_texts h]
    have hone : ∀ t ∈ ts, flattenMember fuel t.text = t.splice.map text := by
      intro t ht
      by_cases hu : t.isUnion = true
      · cases t using induct with
        | union first more =>
          have hlen := length_le_commaJoin (List.mem_map_of_mem (f := text) ht)
          rw [text_union, unionOf_eq, List.length_append, List.length_append] at hlen
          rw [flattenMember, nestedUnion?_union (h _ ht), splice_union]
          -- Inside its own brackets the member is shorter, which the fuel allows for.
          refine ih (List.cons_ne_nil first more) (h _ ht).members ?_
          have hhead : 0 < "Union[".toList.length := by decide
          omega
        | name word => cases hu
        | optional inner => cases hu
        | group inner => cases hu
      · have hplain : t.isUnion = false := Bool.eq_false_iff.mpr hu
        rw [flattenMember_of_none (nestedUnion?_of_not_union hplain (h t ht)),
          splice_of_not_union hplain]
        rfl
    rw [flattenMembersFrom_succ, hmembers, List.flatMap_map, List.map_flatMap]
    exact List.flatMap_congr hone

/-- Without a union among the members there is nothing to flatten. -/
theorem flatMap_splice_of_not_contains {ts : List Tree}
    (h : contains "Union[".toList (commaJoin (ts.map text)) = false) :
    ts.flatMap splice = ts := by
  refine flatMap_splice_of_not_union fun t ht => ?_
  cases t using induct with
  | name word => rfl
  | union first more =>
    obtain ⟨a, b, heq⟩ := eq_append_of_mem_joinWith [',', ' '] (List.mem_map_of_mem (f := text) ht)
    have hin := contains_append a "Union[".toList (commaJoin ((first :: more).map text) ++ ']' :: b)
    have hwhole : commaJoin (ts.map text) =
        a ++ "Union[".toList ++ (commaJoin ((first :: more).map text) ++ ']' :: b) := by
      rw [commaJoin, heq, text_union, unionOf_eq]
      simp only [List.append_assoc]
      rfl
    rw [hwhole, hin] at h
    cases h
  | optional inner => rfl
  | group inner => rfl

end Tree

/-! ## What stands around the first union -/

/-- What `Optional` and parentheses leave before and behind a text. -/
inductive Frame : List Char → List Char → Prop
  | none : Frame [] []
  | optional {before after : List Char} (inner : Frame before after) :
    Frame ("Optional[".toList ++ before) (after ++ [']'])
  | group {before after : List Char} (inner : Frame before after) :
    Frame ('(' :: before) (after ++ [')'])

namespace Frame

variable {before after : List Char}

theorem not_mem (h : Frame before after) : 'U' ∉ before ∧ '[' ∉ after := by
  induction h with
  | none => exact ⟨List.not_mem_nil, List.not_mem_nil⟩
  | optional inner ih => exact ⟨by simpa using ih.1, by simpa using ih.2⟩
  | group inner ih => exact ⟨by simpa using ih.1, by simpa using ih.2⟩

theorem unionStart?_cons {c : Char} {cs : List Char} {u : UnionStart}
    (h : afterOpening? "Union".toList (dropTyping (c :: cs)) = Option.none)
    (hu : unionStart? cs = some u) :
    unionStart? (c :: cs) = some { u with before := c :: u.before } := by
  rw [unionStart?, h, hu]
  rfl

/-- The search for a union passes over a frame. -/
theorem unionStart?_append (h : Frame before after) {text : List Char} {u : UnionStart}
    (hu : unionStart? text = some u) :
    unionStart? (before ++ text) = some { u with before := before ++ u.before } := by
  induction h with
  | none => exact hu
  | optional inner ih =>
    rw [List.append_assoc]
    have hl := unionStart?_cons (c := 'l') rfl (unionStart?_cons (c := '[') rfl ih)
    have hn := unionStart?_cons (c := 'n') rfl (unionStart?_cons (c := 'a') rfl hl)
    have hi := unionStart?_cons (c := 'i') rfl (unionStart?_cons (c := 'o') rfl hn)
    have hp := unionStart?_cons (c := 'p') rfl (unionStart?_cons (c := 't') rfl hi)
    exact unionStart?_cons (c := 'O') rfl hp
  | group inner ih => exact unionStart?_cons rfl ih

theorem unionArguments?_append (h : Frame before after) (text : List Char) :
    unionArguments? (before ++ text) = unionArguments? text := by
  have hoptional : ∀ cs, unionArguments? ("Optional[".toList ++ cs) =
      unionArguments? cs := fun _ => rfl
  have hgroup : ∀ cs, unionArguments? ('(' :: cs) = unionArguments? cs :=
    fun _ => rfl
  induction h with
  | none => rfl
  | optional inner ih => rw [List.append_assoc, hoptional, ih]
  | group inner ih => rw [List.cons_append, hgroup, ih]

/-- A mark that starts with the letter of `Union` is not found in a frame. -/
theorem contains_append (h : Frame before after) (more text : List Char) :
    contains ('U' :: more) (before ++ text) = contains ('U' :: more) text :=
  contains_append_of_no_start h.not_mem.1 text

/-! ### Flattening in a frame -/

variable {ts : List Tree}

theorem flattenFirst?_append (h : Frame before after) {ms : List (List Char)}
    (hms : ∀ m ∈ ms, IsMember m) :
    flattenFirst? (before ++ (unionOf ms ++ after)) =
      if contains "Union[".toList (commaJoin ms) then
        some (before ++ (unionOf (flattenMembers (commaJoin ms)) ++ after))
      else Option.none := by
  have hstart : unionStart? (unionOf ms ++ after) =
      some ⟨[], false, commaJoin ms ++ ']' :: after⟩ := by
    rw [unionOf_eq, List.append_assoc, List.append_assoc]
    rfl
  have hbalanced := balanced_commaJoin (p := square) (by decide) fun m hm => (hms m hm).balanced
  rw [flattenFirst?, h.unionStart?_append hstart, Option.bind_some]
  dsimp only
  rw [closing?_of_balanced hbalanced, Option.bind_some]
  dsimp only
  rw [List.append_nil, if_neg Bool.false_ne_true, List.append_nil, List.append_assoc]

/-- A union of trees in a frame. -/
def around (before : List Char) (ts : List Tree) (after : List Char) : List Char :=
  before ++ (unionOf (ts.map Tree.text) ++ after)

theorem flattenPassesFrom_succ (h : Frame before after) (fuel : Nat) (hne : ts ≠ [])
    (hts : ∀ t ∈ ts, t.OfModels) :
    flattenPassesFrom (fuel + 1) (around before ts after) =
      if contains "Union[".toList (commaJoin (ts.map Tree.text)) then
        flattenPassesFrom fuel (around before (ts.flatMap Tree.splice) after)
      else around before (ts.flatMap Tree.splice) after := by
  have hmark : contains "Union[".toList (around before ts after) = true := by
    rw [around, unionOf_eq, List.append_assoc, ← List.append_assoc]
    exact Text.contains_append before _ _
  have hmembers : ∀ m ∈ ts.map Tree.text, IsMember m :=
    List.forall_mem_map.mpr fun t ht => Tree.isMember_text (hts t ht)
  rw [flattenPassesFrom, if_pos hmark]
  conv_lhs => rw [around, h.flattenFirst?_append hmembers]
  by_cases hinner : contains "Union[".toList (commaJoin (ts.map Tree.text)) = true
  · rw [if_pos hinner, if_pos hinner, flattenMembers,
      Tree.flattenMembersFrom_texts _ hne hts (Nat.le_refl _)]
    rfl
  · rw [if_neg hinner, if_neg hinner,
      Tree.flatMap_splice_of_not_contains (Bool.eq_false_iff.mpr hinner)]
    rfl

/-- The first union is flattened to the members that its trees come to. -/
theorem flattenPassesFrom_eq (h : Frame before after) (fuel : Nat) (hne : ts ≠ [])
    (hts : ∀ t ∈ ts, t.OfModels) :
    flattenPassesFrom (fuel + 1) (around before ts after) =
      around before (ts.flatMap Tree.splice) after := by
  induction fuel generalizing ts with
  | zero =>
    rw [h.flattenPassesFrom_succ 0 hne hts]
    split
    · rfl
    · rfl
  | succ fuel ih =>
    have hsplice : ts.flatMap Tree.splice ≠ [] := by
      obtain ⟨t, ts, rfl⟩ := List.exists_cons_of_ne_nil hne
      exact List.append_ne_nil_of_left_ne_nil (Tree.splice_ne_nil t) _
    rw [h.flattenPassesFrom_succ (fuel + 1) hne hts,
      ih hsplice (Tree.names_of_mem_flatMap_splice hts), Tree.flatMap_splice_idem, ite_self]

end Frame

namespace Tree

/-! ## The models that are read -/

/-- The models read off a list of members: up to the first one that is no name, its leftmost
model included. -/
def reads : List Tree → List String
  | [] => []
  | t :: ts => t.leftmost :: if t.isName then reads ts else []

theorem reads_ne_nil {ts : List Tree} (h : ts ≠ []) : reads ts ≠ [] := by
  cases ts with
  | nil => exact absurd rfl h
  | cons t ts => exact List.cons_ne_nil _ _

/-- The members that are seen up to the first closing bracket name these models. -/
theorem memberModels_visible {ts : List Tree} (h : ∀ t ∈ ts, t.OfModels) :
    memberModels (visible (ts.map text)) = reads ts := by
  induction ts with
  | nil => rfl
  | cons t ts ih =>
    have ht := h t List.mem_cons_self
    have hmodel := memberModel?_upToBracket ht
    rw [List.map_cons, visible, reads]
    cases hname : t.isName with
    | true =>
      have hnot : ']' ∉ t.text := by
        rw [bracket_mem_text ht, hname]
        exact Bool.noConfusion
      have hwhole : upToBracket t.text = t.text := by
        have happend := upToBracket_append hnot []
        rwa [List.append_nil, show upToBracket [] = [] from rfl, List.append_nil] at happend
      rw [if_neg hnot, memberModels_cons, ← hwhole, hmodel,
        ih fun u hu => h u (List.mem_cons_of_mem t hu)]
      rfl
    | false =>
      -- The bracket of this member hides the members behind it.
      rw [if_pos ((bracket_mem_text ht).mpr hname), memberModels_cons]
      show (memberModel? (upToBracket t.text)).toList ++ [] = _
      rw [hmodel]
      rfl

theorem argumentModels_around {before after : List Char} (hf : Frame before after)
    {ts : List Tree} (hne : ts ≠ []) (h : ∀ t ∈ ts, t.OfModels) :
    argumentModels (Frame.around before ts after) = reads ts := by
  have hmembers : ∀ m ∈ ts.map text, IsMember m :=
    List.forall_mem_map.mpr fun t ht => isMember_text (h t ht)
  have hmodels := memberModels_visible h
  have hjoin : commaJoin (visible (ts.map text)) ≠ [] := by
    intro hnil
    rw [memberModels_of_commaJoin_eq_nil hnil] at hmodels
    exact reads_ne_nil hne hmodels.symm
  rw [argumentModels, Frame.around, hf.unionArguments?_append, unionArguments?_unionOf_append hjoin]
  dsimp only
  rw [members_visible hmembers, memberModels_tidy, hmodels]

/-! ## The first union of a tree -/

/-- The tree inside `Optional` and groups. -/
def core : Tree → Tree
  | optional inner => core inner
  | group inner => core inner
  | t => t

theorem core_cases (t : Tree) :
    (∃ w, t.core = name w) ∨ ∃ first more, t.core = union first more := by
  induction t with
  | name word => exact Or.inl ⟨word, rfl⟩
  | union first more => exact Or.inr ⟨first, more, rfl⟩
  | optional inner ih => exact ih
  | group inner ih => exact ih

theorem text_eq_frame (t : Tree) :
    ∃ before after, Frame before after ∧ t.text = before ++ (t.core.text ++ after) := by
  induction t with
  | name word => exact ⟨[], [], .none, (List.append_nil _).symm⟩
  | union first more => exact ⟨[], [], .none, (List.append_nil _).symm⟩
  | optional inner ih =>
    obtain ⟨before, after, hframe, htext⟩ := ih
    refine ⟨_, _, .optional hframe, ?_⟩
    rw [text_optional, optionalOf_eq, htext, core]
    simp only [List.append_assoc]
  | group inner ih =>
    obtain ⟨before, after, hframe, htext⟩ := ih
    refine ⟨_, _, .group hframe, ?_⟩
    rw [text_group, htext, core]
    simp only [List.append_assoc, List.cons_append]

theorem names_core (t : Tree) : t.core.names = t.names := by
  induction t with
  | name word => rfl
  | union first more => rfl
  | optional inner ih => exact ih
  | group inner ih => exact ih

theorem ofModels_core {t : Tree} : t.core.OfModels ↔ t.OfModels := by
  rw [OfModels, names_core, OfModels]

theorem flattenUnions_eq {t : Tree} (h : t.OfModels) :
    flattenUnions t.text = flattenPassesFrom flattenPasses t.text := by
  have hpipe := opened_of_no_pipe (not_mem_text h (c := '|') (by decide))
  rw [flattenUnions]
  exact congrArg (flattenPassesFrom flattenPasses) hpipe

/-- The models of the first union of a tree. -/
theorem unionModels_of_union {t first : Tree} {more : List Tree}
    (h : t.OfModels) (hcore : t.core = union first more) :
    unionModels t.text = reads ((first :: more).flatMap splice) := by
  have hparts : ∀ u ∈ first :: more, u.OfModels := by
    rw [← ofModels_core, hcore] at h
    exact h.members
  have hsplice := names_of_mem_flatMap_splice hparts
  have hne : (first :: more).flatMap splice ≠ [] :=
    List.append_ne_nil_of_left_ne_nil (splice_ne_nil first) _
  obtain ⟨before, after, hframe, htext⟩ := text_eq_frame t
  have hflat : flattenUnions t.text =
      Frame.around before ((first :: more).flatMap splice) after := by
    rw [flattenUnions_eq h, htext, hcore, text_union]
    exact hframe.flattenPassesFrom_eq 9 (List.cons_ne_nil first more) hparts
  rw [unionModels_eq, hflat, argumentModels_around hframe hne hsplice, if_pos (reads_ne_nil hne)]

/-- Without a union no models are found. -/
theorem unionModels_of_name {t : Tree} {w : String} (h : t.OfModels)
    (hcore : t.core = name w) : unionModels t.text = [] := by
  obtain ⟨before, after, hframe, htext⟩ := text_eq_frame t
  have hword : IsWord w.toList := by
    rw [← ofModels_core, hcore] at h
    exact (h w List.mem_cons_self).word
  have hbracket : '[' ∉ w.toList ++ after := fun hmem =>
    (List.mem_append.mp hmem).elim (not_mem_of_isWord hword (by decide)) hframe.not_mem.2
  rw [hcore, text_name] at htext
  have hnone : contains "Union[".toList t.text = false := by
    rw [htext]
    exact (hframe.contains_append _ _).trans (contains_of_not_mem (c := '[') (by decide) hbracket)
  have hflat : flattenUnions t.text = t.text := by
    rw [flattenUnions_eq h]
    show flattenPassesFrom (9 + 1) t.text = t.text
    rw [flattenPassesFrom, hnone, if_neg Bool.false_ne_true]
  have hread : argumentModels t.text = [] := by
    rw [argumentModels, htext, hframe.unionArguments?_append, unionArguments?_of_not_mem hbracket]
  have hpipe : t.text.contains '|' = false := by
    simpa using not_mem_text h (c := '|') (by decide)
  rw [unionModels_eq, hflat, hread, if_neg (not_not.mpr rfl), pipeModels, hpipe, Bool.false_and,
    if_neg Bool.false_ne_true]

end Tree
end Annotation
end ApiSync
