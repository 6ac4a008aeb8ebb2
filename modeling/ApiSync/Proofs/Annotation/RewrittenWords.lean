import Mathlib.Data.List.Chain
import ApiSync.Proofs.Annotation.MapWords
import ApiSync.Proofs.Annotation.MemberParts
/-!
# The words of rewritten texts

Commas, pipes and brackets are no characters of words, so taking members out of a text, and putting
them together again, makes no new words.  Parentheses are none either, but opening a group takes
them away, and then what stood on both sides of one is read as one word.  No words are joined where
groups have something between them and the words outside.
-/

namespace ApiSync
namespace Annotation

open Text
open Alias (startsWithWord)

/-! ## Words of parts -/

/-- The words of a text are those of its members. -/
theorem words_members (text : List Char) : (members text).flatMap words = words text := by
  have hparts := words_joinWith (List.cons_ne_nil ',' []) rfl (splitMembers 0 [] text)
  rw [joinWith_splitMembers] at hparts
  rw [hparts, flatMap_members]
  refine List.flatMap_congr fun m _ => ?_
  rw [splits_words.trim]
  split
  · next hblank =>
    rw [← splits_words.trim, hblank]
    rfl
  · rfl

theorem mem_words_of_member {text m w : List Char} (hm : m ∈ members text) (hw : w ∈ words m) :
    w ∈ words text := by
  rw [← words_members]
  exact List.mem_flatMap.mpr ⟨m, hm, hw⟩

/-! ## Flattening -/

/-- What a nested union holds is read by itself. -/
theorem words_nestedUnion? {m inside : List Char} (h : nestedUnion? m = some inside) :
    words inside ⊆ words m := by
  obtain ⟨qualified, blanks, -, rfl⟩ := eq_append_of_nestedUnion? h
  rw [words_append_cons (by decide), words_append_cons (by decide)]
  exact fun w hw => List.mem_append_right _ (List.mem_append_left _ hw)

theorem words_flattenMembersFrom (fuel : Nat) (text : List Char) :
    (flattenMembersFrom fuel text).flatMap words ⊆ words text := by
  induction fuel generalizing text with
  | zero =>
    rw [show flattenMembersFrom 0 text = members text from rfl, words_members]
    exact List.Subset.refl _
  | succ fuel ih =>
    intro w hw
    rw [flattenMembersFrom_succ, List.flatMap_assoc] at hw
    obtain ⟨m, hm, hw⟩ := List.mem_flatMap.mp hw
    refine mem_words_of_member hm ?_
    rw [flattenMember] at hw
    split at hw
    · next inside hinside => exact words_nestedUnion? hinside (ih inside hw)
    · simpa using hw

theorem words_flattenOnce (text : List Char) : words (flattenOnce text) ⊆ words text := by
  rcases flattenOnce_cases text with hsame | ⟨u, inside, after, h, hunion⟩
  · rw [hsame]
    exact List.Subset.refl _
  · obtain ⟨blanks, hblanks, heq⟩ := h.eq_append
    have hlist : words (commaJoin (flattenMembers inside)) ⊆ words inside := by
      rw [words_commaJoin]
      exact words_flattenMembersFrom _ inside
    rw [flattenOnce_eq h hunion, UnionStart.followedBy, ← List.append_assoc,
      words_append_cons (by decide), words_append_cons (by decide)]
    have hfront : words (u.before ++ (unionName u.qualified ++ blanks)) =
        words (u.before ++ unionName u.qualified) := by
      rw [← List.append_assoc, splits_words.append_blanks _ hblanks]
    conv_rhs => rw [heq]
    rw [words_append_cons (by decide), words_append_cons (by decide), hfront]
    intro w hw
    rcases List.mem_append.mp hw with hbefore | hw
    · exact List.mem_append_left _ hbefore
    · rcases List.mem_append.mp hw with hinside | hafter
      · exact List.mem_append_right _ (List.mem_append_left _ (hlist hinside))
      · exact List.mem_append_right _ (List.mem_append_right _ hafter)

theorem words_flattenUnions (text : List Char) :
    words (flattenUnions text) ⊆ words (opened text) := by
  rw [flattenUnions_eq_iterate]
  induction flattenPasses with
  | zero => exact List.Subset.refl _
  | succ n ih =>
    rw [Function.iterate_succ_apply']
    exact List.Subset.trans (words_flattenOnce _) ih

/-! ## Groups that stand apart -/

/-- The second character may follow the first: no parenthesis opens behind a word or behind one that
closes, and none closes in front of a word. -/
def Apart (c d : Char) : Prop :=
  (d = '(' → isWordChar c = false ∧ c ≠ ')') ∧ (c = ')' → isWordChar d = false)

instance : DecidableRel Apart := fun c d =>
  inferInstanceAs (Decidable ((d = '(' → isWordChar c = false ∧ c ≠ ')') ∧
    (c = ')' → isWordChar d = false)))

/-- Between words and parentheses around something else there is always another character. -/
def GroupsApart (text : List Char) : Prop := text.IsChain Apart

instance : DecidablePred GroupsApart := fun text =>
  inferInstanceAs (Decidable (text.IsChain Apart))

/-- A character that may stand beside all others. -/
def isNeutral (c : Char) : Bool := !isWordChar c && !isParen c

theorem apart_neutral {c : Char} (h : isNeutral c = true) (d : Char) : Apart c d ∧ Apart d c := by
  rw [isNeutral, Bool.and_eq_true, Bool.not_eq_true', Bool.not_eq_true', isParen,
    Bool.or_eq_false_iff, decide_eq_false_iff_not, decide_eq_false_iff_not] at h
  obtain ⟨hword, hopen, hclose⟩ := h
  exact ⟨⟨fun _ => ⟨hword, hclose⟩, fun hc => absurd hc hclose⟩,
    fun hc => absurd hc hopen, fun _ => hword⟩

theorem GroupsApart.infix {text part : List Char} (h : GroupsApart text) (hpart : part <:+: text) :
    GroupsApart part := List.IsChain.infix h hpart

theorem groupsApart_cons {c : Char} (h : isNeutral c = true) {text : List Char} :
    GroupsApart (c :: text) ↔ GroupsApart text := by
  rw [GroupsApart, List.isChain_cons]
  exact and_iff_right fun d _ => (apart_neutral h d).1

theorem groupsApart_append_cons {c : Char} (h : isNeutral c = true) {a b : List Char} :
    GroupsApart (a ++ c :: b) ↔ GroupsApart a ∧ GroupsApart b := by
  have hb : GroupsApart (c :: b) ↔ GroupsApart b := groupsApart_cons h
  rw [← hb, GroupsApart, List.isChain_append]
  refine ⟨fun hboth => ⟨hboth.1, hboth.2.1⟩, fun hboth => ⟨hboth.1, hboth.2, ?_⟩⟩
  intro d _ e he
  obtain rfl : c = e := Option.some.inj he
  exact (apart_neutral h d).2

theorem groupsApart_neutral_append {front : List Char} (h : ∀ c ∈ front, isNeutral c = true)
    {text : List Char} : GroupsApart (front ++ text) ↔ GroupsApart text := by
  induction front with
  | nil => exact Iff.rfl
  | cons c front ih =>
    obtain ⟨hc, hfront⟩ := List.forall_mem_cons.mp h
    rw [List.cons_append, groupsApart_cons hc, ih hfront]

theorem GroupsApart.trim {text : List Char} (h : GroupsApart text) : GroupsApart (trim text) := by
  obtain ⟨lead, tail, -, -, heq⟩ := eq_append_trim text
  exact h.infix ⟨lead, tail, heq.symm⟩

theorem groupsApart_joinWith {sep : List Char} (hne : sep ≠ [])
    (hsep : sep.all isNeutral = true) {ms : List (List Char)} (h : ∀ m ∈ ms, GroupsApart m) :
    GroupsApart (joinWith sep ms) := by
  obtain ⟨c, cs, rfl⟩ := List.exists_cons_of_ne_nil hne
  obtain ⟨hc, hcs⟩ := List.forall_mem_cons.mp (List.all_eq_true.mp hsep)
  induction ms with
  | nil => exact List.isChain_nil
  | cons m ms ih =>
    obtain ⟨hm, hms⟩ := List.forall_mem_cons.mp h
    by_cases hnil : ms = []
    · subst hnil
      exact hm
    · rw [joinWith_cons _ m hnil, List.append_assoc, List.cons_append, groupsApart_append_cons hc,
        groupsApart_neutral_append hcs]
      exact ⟨hm, ih hms⟩

/-- A character in front of a text makes no difference but to its first word. -/
theorem words_cons_congr {a b : List Char} {c : Char} (h : words (c :: a) = words (c :: b))
    (p : Char) : words (p :: c :: a) = words (p :: c :: b) := by
  cases hp : isWordChar p with
  | false => rw [words_cons_of_not hp, words_cons_of_not hp, h]
  | true =>
    cases hc : isWordChar c with
    | false =>
      have hstop : ∀ cs : List Char, ∀ d rest, c :: cs = d :: rest → isWordChar d = false := by
        intro cs d rest he
        cases he
        exact hc
      rw [words_cons_of_boundary hp (hstop a), words_cons_of_boundary hp (hstop b), h]
    | true =>
      obtain ⟨w, ws, hw, hlong⟩ := words_cons_cons hp hc a
      obtain ⟨v, vs, hv, hlong'⟩ := words_cons_cons hp hc b
      rw [hw, hv] at h
      obtain ⟨rfl, rfl⟩ := List.cons.inj h
      rw [hlong, hlong']

theorem apart_of_ne {c d : Char} (hc : c ≠ ')') (hd : d ≠ '(') : Apart c d :=
  ⟨fun h => absurd h hd, fun h => absurd h hc⟩

/-- Behind a parenthesis that closes no word goes on and no other parenthesis opens. -/
theorem GroupsApart.behind {text : List Char} (h : GroupsApart (')' :: text)) :
    startsWithWord text = false ∧ ∀ d ∈ text.head?, d ≠ '(' := by
  cases text with
  | nil => exact ⟨rfl, fun d hd => nomatch hd⟩
  | cons c cs =>
    obtain ⟨hopen, hword⟩ := (List.isChain_cons_cons.mp h).1
    refine ⟨hword rfl, fun d hd => ?_⟩
    obtain rfl : c = d := Option.some.inj hd
    exact fun hc => (hopen hc).2 rfl

/-- Without its parentheses the inside of a group stands where the group stood. -/
theorem groupsApart_without_parens {p : Char} {inside after : List Char} (hp : p ≠ ')')
    (hplain : ∀ d ∈ inside, isParen d = false) (hinside : GroupsApart inside)
    (hafter : GroupsApart (')' :: after)) : GroupsApart (p :: (inside ++ after)) := by
  have hne : ∀ d ∈ inside, d ≠ '(' ∧ d ≠ ')' := fun d hd =>
    ⟨fun he => by simpa [he, isParen] using hplain d hd,
      fun he => by simpa [he, isParen] using hplain d hd⟩
  have hfront : ∀ d ∈ p :: inside, d ≠ ')' :=
    List.forall_mem_cons.mpr ⟨hp, fun d hd => (hne d hd).2⟩
  have hfirst : GroupsApart (p :: inside) := List.isChain_cons.mpr
    ⟨fun d hd => apart_of_ne hp (hne d (List.mem_of_mem_head? hd)).1, hinside⟩
  show GroupsApart ((p :: inside) ++ after)
  refine List.isChain_append.mpr ⟨hfirst, hafter.tail, fun l hl d hd => ?_⟩
  exact apart_of_ne (hfront l (List.mem_of_getLast? hl)) (hafter.behind.2 d hd)

theorem words_without_parens {p : Char} (hp : isWordChar p = false) {inside after rest : List Char}
    (hrest : startsWithWord rest = false) (h : words rest = words after) :
    words (p :: (inside ++ rest)) = words (p :: '(' :: (inside ++ ')' :: after)) := by
  rw [words_cons_of_not hp, words_cons_of_not hp, words_cons_of_not (by decide),
    words_append_cons (by decide), words_append_boundary hrest, h]

/-- Opening groups that stand apart keeps them apart, and it keeps the words. -/
theorem openGroups_apart {p : Char} {text : List Char} (h : GroupsApart (p :: text)) :
    GroupsApart (p :: openGroups text) ∧ words (p :: openGroups text) = words (p :: text) := by
  -- A group takes several characters at once, so the induction is on the length.
  induction hlen : text.length using Nat.strong_induction_on generalizing text p with
  | _ n ih =>
    cases text with
    | nil => exact ⟨h, rfl⟩
    | cons c cs =>
      rw [openGroups_cons]
      obtain ⟨hpc, hrest⟩ := List.isChain_cons_cons.mp h
      cases hgroup : pipeGroup? (c :: cs) with
      | none =>
        obtain ⟨hapart, hwords⟩ := ih cs.length (by rw [← hlen]; simp) hrest rfl
        exact ⟨List.isChain_cons_cons.mpr ⟨hpc, hapart⟩, words_cons_congr hwords p⟩
      | some pair =>
        obtain ⟨inside, after⟩ := pair
        obtain ⟨heq, hplain, -⟩ := eq_append_of_pipeGroup? hgroup
        obtain ⟨rfl, rfl⟩ := List.cons.inj heq
        obtain ⟨hword, hclose⟩ := hpc.1 rfl
        obtain ⟨hinside, hafter⟩ := List.isChain_split.mp hrest.tail
        -- What follows the group is opened behind its closing parenthesis.
        obtain ⟨hapart, hwords⟩ := ih after.length (by rw [← hlen]; simp; omega) hafter rfl
        rw [words_cons_of_not (by decide), words_cons_of_not (by decide)] at hwords
        exact ⟨groupsApart_without_parens hclose hplain hinside.left_of_append hapart,
          words_without_parens hword (GroupsApart.behind hapart).1 hwords⟩

theorem iterate_openGroups_apart {text : List Char} (h : GroupsApart text) (n : Nat) :
    GroupsApart (openGroups^[n] text) ∧ words (openGroups^[n] text) = words text := by
  induction n with
  | zero => exact ⟨h, rfl⟩
  | succ n ih =>
    have hblank : isNeutral ' ' = true := by decide
    obtain ⟨hapart, hwords⟩ := openGroups_apart ((groupsApart_cons hblank).mpr ih.1)
    rw [words_cons_of_not (by decide), words_cons_of_not (by decide)] at hwords
    rw [Function.iterate_succ_apply']
    exact ⟨(groupsApart_cons hblank).mp hapart, hwords.trans ih.2⟩

theorem words_opened {text : List Char} (h : GroupsApart text) : words (opened text) = words text :=
  by
  rw [opened, openGroupPasses_eq]
  exact (iterate_openGroups_apart h flattenPasses).2

/-! ## Unwrapping -/

/-- A text made of parts of another one: it has no words of its own, and groups that stand apart
there stand apart in it. -/
structure DrawnFrom (text part : List Char) : Prop where
  words : Annotation.words part ⊆ Annotation.words text
  apart : GroupsApart text → GroupsApart part

theorem DrawnFrom.trans {a b c : List Char} (h : DrawnFrom a b) (h' : DrawnFrom b c) :
    DrawnFrom a c :=
  ⟨List.Subset.trans h'.words h.words, fun ha => h'.apart (h.apart ha)⟩

theorem drawnFrom_trim (text : List Char) : DrawnFrom text (trim text) where
  words := by
    rw [splits_words.trim]
    exact List.Subset.refl _
  apart := GroupsApart.trim

/-- The parts between which separators stand are drawn from the whole. -/
theorem drawnFrom_of_mem_joinWith {sep : List Char} (hne : sep ≠ [])
    (hsep : sep.all (!isWordChar ·) = true) {ms : List (List Char)} {m : List Char} (hm : m ∈ ms) :
    DrawnFrom (joinWith sep ms) m where
  words := by
    rw [words_joinWith hne hsep]
    exact fun w hw => List.mem_flatMap.mpr ⟨m, hm, hw⟩
  apart := fun h => by
    obtain ⟨a, b, heq⟩ := eq_append_of_mem_joinWith sep hm
    exact h.infix ⟨a, b, heq.symm⟩

theorem drawnFrom_member {text m : List Char} (hm : m ∈ members text) : DrawnFrom text m := by
  obtain ⟨part, hpart, rfl⟩ := mem_tidy hm
  have hdrawn := drawnFrom_of_mem_joinWith (List.cons_ne_nil ',' []) rfl hpart
  rw [joinWith_splitMembers] at hdrawn
  exact hdrawn.trans (drawnFrom_trim part)

theorem drawnFrom_piece {text m : List Char} (hm : m ∈ splitAt '|' text) : DrawnFrom text m := by
  have hdrawn := drawnFrom_of_mem_joinWith (List.cons_ne_nil '|' []) rfl hm
  rwa [joinWith_splitAt] at hdrawn

/-- What is put together of drawn parts is drawn itself. -/
theorem drawnFrom_joinWith {text sep : List Char} (hne : sep ≠ [])
    (hsep : sep.all isNeutral = true) {ms : List (List Char)}
    (h : ∀ m ∈ ms, DrawnFrom text m) : DrawnFrom text (joinWith sep ms) where
  words := by
    have hplain : sep.all (!isWordChar ·) = true := List.all_eq_true.mpr fun c hc =>
      (Bool.and_eq_true_iff.mp (List.all_eq_true.mp hsep c hc)).1
    rw [words_joinWith hne hplain]
    intro w hw
    obtain ⟨m, hm, hw⟩ := List.mem_flatMap.mp hw
    exact (h m hm).words hw
  apart := fun ha => groupsApart_joinWith hne hsep fun m hm => (h m hm).apart ha

theorem drawnFrom_between {c d : Char} (hc : isWordChar c = false) (hd : isWordChar d = false)
    (front inside after : List Char) : DrawnFrom (front ++ c :: (inside ++ d :: after)) inside where
  words := by
    rw [words_append_cons hc, words_append_cons hd]
    exact fun w hw => List.mem_append_right _ (List.mem_append_left _ hw)
  apart := fun h => h.infix ⟨front ++ [c], d :: after, by simp⟩

theorem drawnFrom_wrapped? {head text core : List Char} (h : wrapped? head text = some core) :
    DrawnFrom text core := by
  obtain ⟨inside, hafter, rfl⟩ := exists_of_wrapped? h
  obtain ⟨front, rfl⟩ := (suffix_of_afterOpening? hafter).trans (dropTyping_suffix text)
  exact (drawnFrom_between (by decide) (by decide) front inside []).trans (drawnFrom_trim inside)

/-- A union that is put together again is that of the text. -/
theorem drawnFrom_unionOf {text core : List Char} (h : wrapped? "Union".toList text = some core)
    {ms : List (List Char)} (hms : ∀ m ∈ ms, m ∈ members core) : DrawnFrom text (unionOf ms) := by
  have hlist : DrawnFrom text (commaJoin ms) :=
    drawnFrom_joinWith (by decide) rfl fun m hm =>
      (drawnFrom_wrapped? h).trans (drawnFrom_member (hms m hm))
  have hform : unionOf ms = "Union".toList ++ '[' :: (commaJoin ms ++ ']' :: []) := unionOf_eq ms
  rw [hform]
  constructor
  · rw [words_append_cons (by decide), words_append_cons (by decide)]
    intro w hw
    rcases List.mem_append.mp hw with hname | hw
    · obtain ⟨inside, hafter, -⟩ := exists_of_wrapped? h
      obtain ⟨blanks, hblanks, heq⟩ := eq_append_of_opening hafter
      have hunion : words (unionName (startsWith "typing.".toList text)) =
          words (if startsWith "typing.".toList text then "typing".toList else []) ++
            words "Union".toList := by
        cases startsWith "typing.".toList text <;> rfl
      rw [heq, ← List.append_assoc, words_append_cons (by decide),
        splits_words.append_blanks _ hblanks, hunion]
      exact List.mem_append_left _ (List.mem_append_right _ hname)
    · rcases List.mem_append.mp hw with hin | hnil
      · exact hlist.words hin
      · exact nomatch hnil
  · intro ha
    have hname : GroupsApart "Union".toList := by decide
    exact (groupsApart_append_cons (by decide)).mpr
      ⟨hname, (groupsApart_append_cons (by decide)).mpr ⟨hlist.apart ha, List.isChain_nil⟩⟩

theorem drawnFrom_pipes (text : List Char) :
    DrawnFrom text
      ((dropNone? (joinWith " | ".toList) (pipePieces text)).getD ⟨text, false⟩).inner := by
  rw [dropNone?_pipes]
  split
  · refine drawnFrom_joinWith (by decide) rfl fun m hm => ?_
    obtain ⟨piece, hpiece, rfl⟩ := List.mem_map.mp (List.mem_filter.mp hm).1
    exact (drawnFrom_piece hpiece).trans (drawnFrom_trim piece)
  · exact ⟨List.Subset.refl _, id⟩

theorem drawnFrom_dropNone? {text core : List Char} (h : wrapped? "Union".toList text = some core)
    {u : Unwrapped} (hdrop : dropNone? unionOf (members core) = some u) :
    DrawnFrom text u.inner := by
  have hmem : ∀ m ∈ (members core).filter (· ≠ noneName), m ∈ members core := fun m hm =>
    (List.mem_filter.mp hm).1
  rw [dropNone?] at hdrop
  split at hdrop
  · cases hrest : (members core).filter (· ≠ noneName) with
    | nil =>
      rw [hrest] at hdrop
      cases hdrop
    | cons m rest =>
      rw [hrest] at hdrop hmem
      cases rest with
      | nil =>
        obtain rfl := Option.some.inj hdrop
        exact (drawnFrom_wrapped? h).trans (drawnFrom_member (hmem m List.mem_cons_self))
      | cons n rest =>
        obtain rfl := Option.some.inj hdrop
        exact drawnFrom_unionOf h hmem
  · cases hdrop

/-- An annotation without its null member is drawn from the annotation. -/
theorem drawnFrom_unwrapOptional (text : List Char) :
    DrawnFrom text (unwrapOptional text).inner := by
  refine (drawnFrom_trim text).trans ?_
  rw [unwrapOptional_eq]
  cases hoptional : wrapped? "Optional".toList (trim text) with
  | some inside => exact drawnFrom_wrapped? hoptional
  | none =>
    dsimp only
    cases hunion : wrapped? "Union".toList (trim text) with
    | none => exact drawnFrom_pipes (trim text)
    | some inside =>
      rw [Option.bind_some]
      cases hdrop : dropNone? unionOf (members inside) with
      | none => exact drawnFrom_pipes (trim text)
      | some u => exact drawnFrom_dropNone? hunion hdrop

/-! ## Models -/

/-- Reading that stops before the end stops at the character. -/
theorem eq_append_of_takeWhile_lt {c : Char} {rest : List Char}
    (h : (rest.takeWhile (· ≠ c)).length < rest.length) :
    ∃ after, rest = rest.takeWhile (· ≠ c) ++ c :: after := by
  have hwhole := List.takeWhile_append_dropWhile (p := (· ≠ c)) (l := rest)
  have hne : rest.dropWhile (· ≠ c) ≠ [] := by
    intro hnil
    rw [hnil, List.append_nil] at hwhole
    rw [hwhole] at h
    exact Nat.lt_irrefl _ h
  obtain ⟨d, after, hafter⟩ := List.exists_cons_of_ne_nil hne
  have hhead := List.head?_dropWhile_not (· ≠ c) rest
  rw [hafter] at hhead
  obtain rfl : d = c := by simpa using hhead
  exact ⟨after, by rw [← hafter, hwhole]⟩

/-- The arguments of a union stand between its opening bracket and the next closing one. -/
theorem eq_append_of_unionArguments? {text inside : List Char}
    (h : unionArguments? text = some inside) :
    ∃ front after, text = front ++ '[' :: (inside ++ ']' :: after) := by
  induction text with
  | nil => cases h
  | cons c cs ih =>
    have hlater : unionArguments? cs = some inside →
        ∃ front after, c :: cs = front ++ '[' :: (inside ++ ']' :: after) := by
      intro hcs
      obtain ⟨front, after, heq⟩ := ih hcs
      exact ⟨c :: front, after, congrArg (c :: ·) heq⟩
    rw [unionArguments?] at h
    split at h
    · next rest hopening =>
      dsimp only at h
      split at h
      · next hshort =>
        obtain ⟨front, hfront⟩ := suffix_of_afterOpening? hopening
        obtain ⟨after, hafter⟩ := eq_append_of_takeWhile_lt hshort.2
        obtain rfl := Option.some.inj h
        exact ⟨front, after, by rw [← hafter, hfront]⟩
      · exact hlater h
    · exact hlater h

theorem words_dropParens (text : List Char) : words (dropParens text) = words text := by
  unfold dropParens
  split
  · next rest =>
    split
    · next hlast =>
      obtain ⟨inside, rfl⟩ := List.getLast?_eq_some_iff.mp hlast
      rw [List.dropLast_concat, splits_words.trim, words_cons_of_not (by decide),
        words_append_cons (by decide)]
      exact (List.append_nil _).symm
    · rfl
  · rfl

/-- The models of a union are words of the flattened text. -/
theorem mem_modelNames_of_unionModels {text : List Char} {model : String}
    (h : model ∈ unionModels text) : model ∈ modelNames unionKeywords (flattenUnions text) := by
  rw [unionModels_eq] at h
  split at h
  · rw [argumentModels] at h
    split at h
    · next inside hinside =>
      obtain ⟨front, after, heq⟩ := eq_append_of_unionArguments? hinside
      obtain ⟨m, hm, hmodel⟩ := exists_of_mem_memberModels h
      have hinside := heq ▸ drawnFrom_between (by decide) (by decide) front inside after
      exact mem_modelNames_of_subset (hinside.trans (drawnFrom_member hm)).words hmodel
    · cases h
  · rw [pipeModels] at h
    split at h
    · obtain ⟨m, hm, hmodel⟩ := exists_of_mem_memberModels h
      have hwords := (drawnFrom_piece hm).words
      rw [words_dropParens, splits_words.trim] at hwords
      exact mem_modelNames_of_subset hwords hmodel
    · cases h

/-- Where groups stand apart, the models of a union are words of the text. -/
theorem mem_words_of_unionModels {text : List Char} (hapart : GroupsApart text) {model : String}
    (h : model ∈ unionModels (unwrapOptional text).inner) : model.toList ∈ words text := by
  have hdrawn := drawnFrom_unwrapOptional text
  have hfound := (mem_modelNames_iff.mp (mem_modelNames_of_unionModels h)).1
  have hinner := words_flattenUnions _ hfound
  rw [words_opened (hdrawn.apart hapart)] at hinner
  exact hdrawn.words hinner

end Annotation
end ApiSync
