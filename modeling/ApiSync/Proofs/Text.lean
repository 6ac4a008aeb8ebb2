import Mathlib.Data.List.DropRight
import ApiSync.Text
/-!
# Trimming and search

Trimming takes blanks away from both ends and nothing else.  A search for a mark can be done on
both sides of a character that the mark does not contain, which is how the text inside a wrapper
is searched.
-/

namespace ApiSync
namespace Text

/-! ## Reading up to a character -/

/-- Behind a character that stops it, reading on makes no difference. -/
theorem dropWhile_append_of_mem {p : Char → Bool} {c : Char} {a : List Char} (hc : c ∈ a)
    (hp : p c = false) (b : List Char) :
    (a ++ b).dropWhile p = a.dropWhile p ++ b ∧ c ∈ a.dropWhile p := by
  have hmem : c ∈ a.dropWhile p := by
    rw [← List.takeWhile_append_dropWhile (p := p) (l := a)] at hc
    rcases List.mem_append.mp hc with htake | hdrop
    · have hyes := List.mem_takeWhile_imp htake
      rw [hp] at hyes
      cases hyes
    · exact hdrop
  refine ⟨?_, hmem⟩
  rw [List.dropWhile_append, if_neg]
  intro hempty
  rw [List.isEmpty_iff.mp hempty] at hmem
  exact absurd hmem List.not_mem_nil

theorem takeWhile_append_of_mem {p : Char → Bool} {c : Char} {a : List Char} (hc : c ∈ a)
    (hp : p c = false) (b : List Char) : (a ++ b).takeWhile p = a.takeWhile p := by
  have hdrop := (dropWhile_append_of_mem hc hp b).1
  have hwhole := List.takeWhile_append_dropWhile (p := p) (l := a ++ b)
  have ha := List.takeWhile_append_dropWhile (p := p) (l := a)
  rw [hdrop, ← List.append_assoc, List.append_left_inj] at hwhole
  exact List.append_cancel_right (hwhole.trans ha.symm)

/-! ## Trimming -/

theorem trimEnd_eq (cs : List Char) : trimEnd cs = cs.rdropWhile isBlank := rfl

theorem trim_append_of_blank {c : Char} (h : isBlank c = true) (cs : List Char) :
    trim (cs ++ [c]) = trim cs := by
  rw [trim, trim, trimStart, trimStart, List.dropWhile_append]
  split
  · next hempty =>
    have hnil : cs.dropWhile isBlank = [] := by simpa using hempty
    rw [hnil, List.dropWhile_cons_of_pos h, List.dropWhile_nil]
  · rw [trimEnd_eq, trimEnd_eq, List.rdropWhile_concat_pos _ _ _ h]

theorem trim_append_left {lead : List Char} (h : ∀ c ∈ lead, isBlank c = true)
    (cs : List Char) : trim (lead ++ cs) = trim cs := by
  rw [trim, trim, trimStart, trimStart, List.dropWhile_append_of_pos h]

theorem trim_append_right {tail : List Char} (h : ∀ c ∈ tail, isBlank c = true) (cs : List Char) :
    trim (cs ++ tail) = trim cs := by
  induction tail using List.reverseRecOn with
  | nil => rw [List.append_nil]
  | append_singleton tail c ih =>
    obtain ⟨htail, hc⟩ := List.forall_mem_append.mp h
    rw [← List.append_assoc, trim_append_of_blank (hc c List.mem_cons_self), ih htail]

/-- A text with no blank at either end is trimmed. -/
theorem trim_of_ends {first last : Char} (hf : isBlank first = false) (hl : isBlank last = false)
    (cs : List Char) : trim (first :: (cs ++ [last])) = first :: (cs ++ [last]) := by
  have hstart : trimStart (first :: (cs ++ [last])) = (first :: cs) ++ [last] := by
    rw [trimStart, List.dropWhile_cons_of_neg (by rw [hf]; decide)]
    rfl
  rw [trim, hstart, trimEnd_eq, List.rdropWhile_concat_neg _ _ _ (by rw [hl]; decide)]
  rfl

/-- What trimming takes away are blanks at the ends. -/
theorem eq_append_trim (cs : List Char) :
    ∃ lead tail, (∀ c ∈ lead, isBlank c = true) ∧ (∀ c ∈ tail, isBlank c = true) ∧
      cs = lead ++ trim cs ++ tail := by
  refine ⟨cs.takeWhile isBlank, (trimStart cs).rtakeWhile isBlank,
    fun c hc => List.mem_takeWhile_imp hc, fun c hc => List.mem_rtakeWhile_imp hc, ?_⟩
  rw [List.append_assoc, trim, trimEnd_eq, List.rdropWhile_append_rtakeWhile, trimStart,
    List.takeWhile_append_dropWhile]

/-- What is left of a text between blanks, if none stands at its end. -/
theorem exists_append_trim {cs : List Char} (h : ∀ c ∈ cs.getLast?, isBlank c = false) :
    ∃ lead, (∀ c ∈ lead, isBlank c = true) ∧ cs = lead ++ trim cs := by
  obtain ⟨lead, tail, hlead, htail, heq⟩ := eq_append_trim cs
  refine ⟨lead, hlead, ?_⟩
  by_cases hnil : tail = []
  · rwa [hnil, List.append_nil] at heq
  · have hlast : cs.getLast? = some (tail.getLast hnil) := by
      rw [heq, List.getLast?_append_of_ne_nil _ hnil, List.getLast?_eq_getLast_of_ne_nil hnil]
    have hblank := htail _ (List.getLast_mem hnil)
    rw [h _ hlast] at hblank
    cases hblank

theorem trim_reverse (cs : List Char) : trim cs.reverse = trim (cs.dropWhile isBlank).reverse := by
  have hblank : ∀ c ∈ (cs.takeWhile isBlank).reverse, isBlank c = true := fun c hc =>
    List.mem_takeWhile_imp (List.mem_reverse.mp hc)
  conv_lhs => rw [← List.takeWhile_append_dropWhile (p := isBlank) (l := cs), List.reverse_append]
  exact trim_append_right hblank _

/-- Trimming drops blanks and nothing else. -/
theorem filter_trim (cs : List Char) :
    (trim cs).filter (!isBlank ·) = cs.filter (!isBlank ·) := by
  obtain ⟨lead, tail, hlead, htail, heq⟩ := eq_append_trim cs
  have hnone : ∀ {bs : List Char}, (∀ c ∈ bs, isBlank c = true) →
      bs.filter (!isBlank ·) = [] := by
    intro bs hbs
    rw [List.filter_eq_nil_iff]
    intro c hc
    rw [hbs c hc]
    decide
  conv_rhs => rw [heq]
  rw [List.filter_append, List.filter_append, hnone hlead, hnone htail, List.nil_append,
    List.append_nil]

theorem trimEnd_cons {c : Char} (h : isBlank c = false) (cs : List Char) :
    trimEnd (c :: cs) = c :: trimEnd cs := by
  have hneg : ¬isBlank c = true := by
    rw [h]
    decide
  rw [trimEnd_eq, trimEnd_eq]
  induction cs using List.reverseRecOn with
  | nil =>
    rw [List.rdropWhile_singleton, if_neg hneg]
    rfl
  | append_singleton cs d ih =>
    rw [← List.cons_append]
    by_cases hd : isBlank d = true
    · rw [List.rdropWhile_concat_pos _ _ _ hd, List.rdropWhile_concat_pos _ _ _ hd]
      exact ih
    · rw [List.rdropWhile_concat_neg _ _ _ hd, List.rdropWhile_concat_neg _ _ _ hd,
        List.cons_append]

theorem trimStart_cons {c : Char} (h : isBlank c = false) (cs : List Char) :
    trimStart (c :: cs) = c :: cs := by
  rw [trimStart, List.dropWhile_cons_of_neg]
  rw [h]
  decide

theorem not_isBlank_of_trimStart {c : Char} {cs rest : List Char}
    (h : trimStart cs = c :: rest) : isBlank c = false := by
  have hhead := List.head?_dropWhile_not isBlank cs
  rw [trimStart] at h
  rw [h] at hhead
  simpa using hhead

/-- A trimmed text is empty or starts with what is no blank. -/
theorem trim_eq_cons {cs : List Char} (h : trim cs ≠ []) :
    ∃ c rest, trim cs = c :: trimEnd rest ∧ isBlank c = false := by
  cases hs : trimStart cs with
  | nil =>
    rw [trim, hs] at h
    exact absurd rfl h
  | cons c rest =>
    have hc := not_isBlank_of_trimStart hs
    exact ⟨c, rest, by rw [trim, hs, trimEnd_cons hc], hc⟩

theorem trim_trim (cs : List Char) : trim (trim cs) = trim cs := by
  by_cases h : trim cs = []
  · rw [h]
    rfl
  · obtain ⟨c, rest, heq, hc⟩ := trim_eq_cons h
    rw [heq, trim, trimStart_cons hc, trimEnd_cons hc, trimEnd_eq, trimEnd_eq,
      List.rdropWhile_idempotent]

/-- A text is trimmed if no blank stands at either end. -/
theorem trim_eq_self_iff {cs : List Char} : trim cs = cs ↔
    (∀ c ∈ cs.head?, isBlank c = false) ∧ ∀ c ∈ cs.getLast?, isBlank c = false := by
  constructor
  · intro h
    by_cases hnil : cs = []
    · rw [hnil]
      exact ⟨fun _ hc => (nomatch hc), fun _ hc => (nomatch hc)⟩
    · have hne : trim cs ≠ [] := by rwa [h]
      obtain ⟨d, rest, heq, hd⟩ := trim_eq_cons hne
      refine ⟨fun c hc => ?_, fun c hc => ?_⟩
      · rw [← h, heq, List.head?_cons, Option.mem_some_iff] at hc
        exact hc ▸ hd
      · rw [← h, List.getLast?_eq_getLast_of_ne_nil hne, Option.mem_some_iff] at hc
        have hlast := List.rdropWhile_last_not isBlank (trimStart cs) hne
        rw [← hc]
        exact Bool.eq_false_iff.mpr hlast
  · rintro ⟨hhead, hlast⟩
    have hstart : trimStart cs = cs := by
      cases cs with
      | nil => rfl
      | cons c rest => exact trimStart_cons (hhead c rfl) rest
    rw [trim, hstart, trimEnd_eq, List.rdropWhile_eq_self_iff]
    intro hne
    exact Bool.eq_false_iff.mp (hlast _ (List.getLast?_eq_getLast_of_ne_nil hne))

theorem trim_append_of_trim {a b : List Char} (ha : trim a = a) (hb : trim b = b) (hna : a ≠ [])
    (hnb : b ≠ []) (middle : List Char) : trim (a ++ (middle ++ b)) = a ++ (middle ++ b) := by
  refine trim_eq_self_iff.mpr ⟨?_, ?_⟩
  · rw [List.head?_append_of_ne_nil a hna]
    exact (trim_eq_self_iff.mp ha).1
  · rw [← List.append_assoc, List.getLast?_append_of_ne_nil _ hnb]
    exact (trim_eq_self_iff.mp hb).2

/-! ## Search -/

theorem dropPrefix?_append_cons {head : List Char} {c : Char} (h : c ∉ head) (a b : List Char) :
    dropPrefix? head (a ++ c :: b) = (dropPrefix? head a).map (· ++ c :: b) := by
  induction head generalizing a with
  | nil => rfl
  | cons x xs ih =>
    have hx : x ≠ c := fun he => h (he ▸ List.mem_cons_self)
    have hxs : c ∉ xs := fun hm => h (List.mem_cons_of_mem x hm)
    cases a with
    | nil =>
      show dropPrefix? (x :: xs) (c :: b) = none
      rw [dropPrefix?, if_neg hx]
    | cons y ys =>
      rw [List.cons_append, dropPrefix?, dropPrefix?]
      by_cases hxy : x = y
      · rw [if_pos hxy, if_pos hxy]
        exact ih hxs ys
      · rw [if_neg hxy, if_neg hxy]
        rfl

/-- A mark is first found before a character that it does not contain, or else behind it. -/
theorem cut?_append_cons {mark : List Char} {c : Char} (hne : mark ≠ []) (h : c ∉ mark)
    (a b : List Char) :
    cut? mark (a ++ c :: b) = match cut? mark a with
      | some (before, after) => some (before, after ++ c :: b)
      | none => (cut? mark b).map fun (before, after) => (a ++ c :: before, after) := by
  induction a with
  | nil =>
    have hnone : dropPrefix? mark ([] : List Char) = none := by
      cases mark with
      | nil => exact absurd rfl hne
      | cons x xs => rfl
    have hhere := dropPrefix?_append_cons h [] b
    rw [hnone, Option.map_none] at hhere
    have hstart : cut? mark ([] : List Char) = none := by
      rw [cut?, if_neg hne]
    rw [List.nil_append] at hhere ⊢
    rw [hstart, cut?, hhere]
    rfl
  | cons x a ih =>
    have hhere := dropPrefix?_append_cons h (x :: a) b
    rw [List.cons_append] at hhere ⊢
    rw [cut?, cut?, hhere]
    cases hx : dropPrefix? mark (x :: a) with
    | some rest => rfl
    | none =>
      rw [Option.map_none, ih]
      cases hcut : cut? mark a with
      | some pair => rfl
      | none =>
        simp only [Option.map_none]
        cases cut? mark b <;> rfl

theorem contains_nil {mark : List Char} (h : mark ≠ []) : contains mark [] = false := by
  rw [contains, cut?, if_neg h]
  rfl

theorem contains_append_cons {mark : List Char} {c : Char} (hne : mark ≠ []) (h : c ∉ mark)
    (a b : List Char) : contains mark (a ++ c :: b) = (contains mark a || contains mark b) := by
  rw [contains, contains, contains, cut?_append_cons hne h]
  cases cut? mark a with
  | some pair => rfl
  | none => cases cut? mark b <;> rfl

/-- A mark is not found in a text that holds its first character nowhere. -/
theorem cut?_append_of_no_start {first : Char} {more a : List Char} (h : first ∉ a)
    (b : List Char) :
    cut? (first :: more) (a ++ b) =
      (cut? (first :: more) b).map fun (before, after) => (a ++ before, after) := by
  induction a with
  | nil =>
    rw [List.nil_append]
    cases cut? (first :: more) b <;> rfl
  | cons c a ih =>
    have hc : first ≠ c := fun he => h (he ▸ List.mem_cons_self)
    have ha : first ∉ a := fun hm => h (List.mem_cons_of_mem c hm)
    have hhere : dropPrefix? (first :: more) (c :: (a ++ b)) = none := by
      rw [dropPrefix?, if_neg hc]
    rw [List.cons_append, cut?, hhere, ih ha, Option.map_map]
    rfl

theorem contains_append_of_no_start {first : Char} {more a : List Char} (h : first ∉ a)
    (b : List Char) : contains (first :: more) (a ++ b) = contains (first :: more) b := by
  rw [contains, contains, cut?_append_of_no_start h, Option.isSome_map]

/-- Where a single character is first found does not depend on what follows. -/
theorem cut?_singleton_append {c : Char} {a : List Char} (h : c ∈ a) (b : List Char) :
    cut? [c] (a ++ b) = (cut? [c] a).map fun (before, after) => (before, after ++ b) := by
  induction a with
  | nil => exact absurd h List.not_mem_nil
  | cons d a ih =>
    have hhere : ∀ cs, dropPrefix? [c] (d :: cs) = if c = d then some cs else none :=
      fun _ => rfl
    rw [List.cons_append, cut?, cut?, hhere, hhere]
    by_cases hd : c = d
    · rw [if_pos hd, if_pos hd]
      rfl
    · have ha : c ∈ a := (List.mem_cons.mp h).resolve_left hd
      rw [if_neg hd, if_neg hd, ih ha]
      cases cut? [c] a <;> rfl

theorem dropPrefix?_append (head b : List Char) : dropPrefix? head (head ++ b) = some b := by
  induction head with
  | nil => rfl
  | cons c head ih =>
    rw [List.cons_append, dropPrefix?, if_pos rfl]
    exact ih

theorem contains_singleton_of_not_mem {c : Char} {cs : List Char} (h : c ∉ cs) :
    contains [c] cs = false := by
  have hnone : contains [c] (cs ++ []) = contains [c] [] := contains_append_of_no_start h []
  rwa [List.append_nil, contains_nil (List.cons_ne_nil c [])] at hnone

/-- A mark that does not start again inside itself is not found across the end of a text that does
not start with it. -/
theorem dropPrefix?_append_mark {first : Char} {more a : List Char} (hfirst : first ∉ more)
    (ha : a ≠ []) (h : dropPrefix? (first :: more) a = none) (b : List Char) :
    dropPrefix? (first :: more) (a ++ (first :: more ++ b)) = none := by
  have hself : dropPrefix? (first :: more) (first :: more) = some [] := by
    have hwhole := dropPrefix?_append (first :: more) []
    rwa [List.append_nil] at hwhole
  obtain ⟨c, a, rfl⟩ := List.exists_cons_of_ne_nil ha
  cases hfound : dropPrefix? (first :: more) (c :: a ++ (first :: more ++ b)) with
  | none => rfl
  | some rest =>
    rcases List.append_eq_append_iff.mp (eq_append_of_dropPrefix? hfound) with
      ⟨across, hmark, hrest⟩ | ⟨within, htext, -⟩
    · cases across with
      | nil =>
        rw [List.append_nil] at hmark
        rw [hmark, ← hmark, hself] at h
        cases h
      | cons d across =>
        have hd : d = first := (List.cons.inj hrest).1.symm
        have hmore : more = a ++ d :: across := (List.cons.inj hmark).2
        rw [hmore, ← hd] at hfirst
        exact absurd (List.mem_append_right a List.mem_cons_self) hfirst
    · rw [htext, dropPrefix?_append] at h
      cases h

/-- Behind a text without the mark the first place of the mark is where it is put. -/
theorem cut?_append_mark {first : Char} {more a : List Char} (hfirst : first ∉ more)
    (h : contains (first :: more) a = false) (b : List Char) :
    cut? (first :: more) (a ++ (first :: more ++ b)) = some (a, b) := by
  induction a with
  | nil =>
    rw [List.nil_append, List.cons_append, cut?, ← List.cons_append, dropPrefix?_append]
  | cons c a ih =>
    rw [contains, Option.isSome_eq_false_iff, Option.isNone_iff_eq_none, cut?] at h
    split at h
    · cases h
    · next hhere =>
      have hrest : contains (first :: more) a = false := by
        rw [contains, Option.isSome_eq_false_iff, Option.isNone_iff_eq_none]
        exact Option.map_eq_none_iff.mp h
      have hacross := dropPrefix?_append_mark hfirst (List.cons_ne_nil c a) hhere b
      rw [List.cons_append] at hacross ⊢
      rw [cut?, hacross, ih hrest]
      rfl

theorem hasPrefix_iff {text head : String} :
    hasPrefix text head = true ↔ ∃ rest, text = head ++ rest := by
  rw [hasPrefix, startsWith, Option.isSome_iff_exists]
  constructor
  · rintro ⟨rest, h⟩
    refine ⟨String.ofList rest, String.toList_inj.mp ?_⟩
    rw [String.toList_append, String.toList_ofList]
    exact eq_append_of_dropPrefix? h
  · rintro ⟨rest, rfl⟩
    exact ⟨rest.toList, by rw [String.toList_append, dropPrefix?_append]⟩

theorem hasSuffix_iff {text tail : String} :
    hasSuffix text tail = true ↔ ∃ front, text = front ++ tail := by
  rw [hasSuffix, endsWith, startsWith, Option.isSome_iff_exists]
  constructor
  · rintro ⟨rest, h⟩
    have heq := congrArg List.reverse (eq_append_of_dropPrefix? h)
    rw [List.reverse_reverse, List.reverse_append, List.reverse_reverse] at heq
    refine ⟨String.ofList rest.reverse, String.toList_inj.mp ?_⟩
    rw [String.toList_append, String.toList_ofList]
    exact heq
  · rintro ⟨front, rfl⟩
    exact ⟨front.toList.reverse, by
      rw [String.toList_append, List.reverse_append, dropPrefix?_append]⟩

theorem contains_append (a mark b : List Char) : contains mark (a ++ mark ++ b) = true := by
  induction a with
  | nil =>
    rw [List.nil_append]
    cases hmark : mark ++ b with
    | nil =>
      have hnil : mark = [] := (List.append_eq_nil_iff.mp hmark).1
      rw [hnil]
      rfl
    | cons c cs =>
      have hhere := dropPrefix?_append mark b
      rw [hmark] at hhere
      rw [contains, cut?, hhere]
      rfl
  | cons c a ih =>
    rw [contains, Option.isSome_iff_exists] at ih ⊢
    obtain ⟨pair, hpair⟩ := ih
    rw [List.cons_append, List.cons_append, cut?, hpair]
    cases dropPrefix? mark (c :: (a ++ mark ++ b)) with
    | none => exact ⟨_, rfl⟩
    | some rest => exact ⟨_, rfl⟩

/-! ## Splitting -/

theorem splitAt_cons_of_ne {sep c : Char} (h : c ≠ sep) {cs piece : List Char}
    {pieces : List (List Char)} (hs : splitAt sep cs = piece :: pieces) :
    splitAt sep (c :: cs) = (c :: piece) :: pieces := by
  rw [splitAt, if_neg h, hs]

/-- A text without the separator is one piece. -/
theorem splitAt_of_not_mem {sep : Char} {cs : List Char} (h : sep ∉ cs) :
    splitAt sep cs = [cs] := by
  induction cs with
  | nil => rfl
  | cons c cs ih =>
    have hc : c ≠ sep := fun he => h (he ▸ List.mem_cons_self)
    exact splitAt_cons_of_ne hc (ih fun hm => h (List.mem_cons_of_mem c hm))

theorem splitAt_append_cons (sep : Char) (a b : List Char) :
    splitAt sep (a ++ sep :: b) = splitAt sep a ++ splitAt sep b := by
  induction a with
  | nil =>
    show splitAt sep (sep :: b) = [] :: splitAt sep b
    rw [splitAt, if_pos rfl]
  | cons c a ih =>
    rw [List.cons_append]
    by_cases hc : c = sep
    · rw [splitAt, if_pos hc, splitAt, if_pos hc, ih]
      rfl
    · obtain ⟨piece, pieces, hs⟩ := List.exists_cons_of_ne_nil (splitAt_ne_nil sep a)
      rw [hs, List.cons_append] at ih
      rw [splitAt_cons_of_ne hc ih, splitAt_cons_of_ne hc hs]
      rfl

/-- A blank at the start of a text makes no difference to its trimmed pieces. -/
theorem splitAt_cons_blank {sep blank : Char} (hb : isBlank blank = true) (hne : blank ≠ sep)
    (a : List Char) : (splitAt sep (blank :: a)).map trim = (splitAt sep a).map trim := by
  obtain ⟨piece, pieces, hs⟩ := List.exists_cons_of_ne_nil (splitAt_ne_nil sep a)
  have hblank : ∀ c ∈ [blank], isBlank c = true := by simpa using hb
  rw [splitAt_cons_of_ne hne hs, hs, List.map_cons, List.map_cons]
  exact congrArg (· :: pieces.map trim) (trim_append_left hblank piece)

/-- A blank at the end of a text makes no difference to its trimmed pieces. -/
theorem splitAt_append_blank {sep blank : Char} (hb : isBlank blank = true) (hne : blank ≠ sep)
    (a : List Char) :
    (splitAt sep (a ++ [blank])).map trim = (splitAt sep a).map trim := by
  suffices h : ∃ front last, splitAt sep a = front ++ [last] ∧
      splitAt sep (a ++ [blank]) = front ++ [last ++ [blank]] by
    obtain ⟨front, last, hs, hsb⟩ := h
    rw [hs, hsb, List.map_append, List.map_append, List.map_singleton, List.map_singleton,
      trim_append_of_blank hb]
  induction a with
  | nil =>
    refine ⟨[], [], rfl, ?_⟩
    rw [List.nil_append, splitAt, if_neg hne]
    rfl
  | cons c a ih =>
    obtain ⟨front, last, hs, hsb⟩ := ih
    rw [List.cons_append]
    by_cases hc : c = sep
    · refine ⟨[] :: front, last, ?_, ?_⟩
      · rw [splitAt, if_pos hc, hs]
        rfl
      · rw [splitAt, if_pos hc, hsb]
        rfl
    · cases front with
      | nil => exact ⟨[], c :: last, splitAt_cons_of_ne hc hs, splitAt_cons_of_ne hc hsb⟩
      | cons first front =>
        exact ⟨(c :: first) :: front, last, splitAt_cons_of_ne hc hs, splitAt_cons_of_ne hc hsb⟩

theorem joinWith_cons (sep piece : List Char) {pieces : List (List Char)} (h : pieces ≠ []) :
    joinWith sep (piece :: pieces) = piece ++ sep ++ joinWith sep pieces := by
  cases pieces with
  | nil => exact absurd rfl h
  | cons next pieces => rfl

theorem joinWith_append (sep : List Char) {ms ns : List (List Char)} (hm : ms ≠ [])
    (hn : ns ≠ []) : joinWith sep (ms ++ ns) = joinWith sep ms ++ sep ++ joinWith sep ns := by
  induction ms with
  | nil => exact absurd rfl hm
  | cons m ms ih =>
    by_cases hnil : ms = []
    · subst hnil
      exact joinWith_cons sep m hn
    · rw [List.cons_append, joinWith_cons sep m (List.append_ne_nil_of_left_ne_nil hnil ns),
        joinWith_cons sep m hnil, ih hnil]
      simp only [List.append_assoc]

theorem eq_append_of_mem_joinWith (sep : List Char) {piece : List Char} {pieces : List (List Char)}
    (h : piece ∈ pieces) : ∃ a b, joinWith sep pieces = a ++ piece ++ b := by
  induction pieces with
  | nil => exact absurd h List.not_mem_nil
  | cons first pieces ih =>
    by_cases hnil : pieces = []
    · rw [hnil] at h ⊢
      rw [List.mem_singleton.mp h]
      exact ⟨[], [], by rw [joinWith, List.nil_append, List.append_nil]⟩
    · rw [joinWith_cons sep first hnil]
      rcases List.mem_cons.mp h with rfl | hrest
      · exact ⟨[], sep ++ joinWith sep pieces, by rw [List.nil_append, List.append_assoc]⟩
      · obtain ⟨a, b, heq⟩ := ih hrest
        exact ⟨first ++ sep ++ a, b, by simp only [heq, List.append_assoc]⟩

theorem joinWith_ne_nil_of_mem (sep : List Char) {piece : List Char} {pieces : List (List Char)}
    (h : piece ∈ pieces) (hne : piece ≠ []) : joinWith sep pieces ≠ [] := by
  obtain ⟨a, b, heq⟩ := eq_append_of_mem_joinWith sep h
  rw [heq]
  exact List.append_ne_nil_of_left_ne_nil (List.append_ne_nil_of_right_ne_nil a hne) b

theorem trim_joinWith (sep : List Char) {ms : List (List Char)} (htrim : ∀ m ∈ ms, trim m = m)
    (hne : ∀ m ∈ ms, m ≠ []) : trim (joinWith sep ms) = joinWith sep ms := by
  induction ms with
  | nil => rfl
  | cons m ms ih =>
    obtain ⟨hm, hms⟩ := List.forall_mem_cons.mp htrim
    obtain ⟨hnm, hnms⟩ := List.forall_mem_cons.mp hne
    by_cases hnil : ms = []
    · subst hnil
      exact hm
    · obtain ⟨n, ns, rfl⟩ := List.exists_cons_of_ne_nil hnil
      have hrest : joinWith sep (n :: ns) ≠ [] :=
        joinWith_ne_nil_of_mem sep List.mem_cons_self (hnms n List.mem_cons_self)
      rw [joinWith_cons sep m hnil, List.append_assoc]
      exact trim_append_of_trim hm (ih hms hnms) hnm hrest sep

/-- Each piece stands in the text. -/
theorem eq_append_of_mem_splitAt {sep : Char} {cs piece : List Char}
    (h : piece ∈ splitAt sep cs) : ∃ a b, cs = a ++ piece ++ b := by
  obtain ⟨a, b, heq⟩ := eq_append_of_mem_joinWith [sep] h
  rw [joinWith_splitAt] at heq
  exact ⟨a, b, heq⟩

theorem not_mem_of_mem_splitAt {sep : Char} {cs piece : List Char} (h : piece ∈ splitAt sep cs) :
    sep ∉ piece := by
  induction cs generalizing piece with
  | nil =>
    rw [List.mem_singleton.mp h]
    exact List.not_mem_nil
  | cons c cs ih =>
    obtain ⟨first, rest, hs⟩ := List.exists_cons_of_ne_nil (splitAt_ne_nil sep cs)
    rw [hs] at ih
    by_cases hc : c = sep
    · rw [splitAt, if_pos hc, hs] at h
      rcases List.mem_cons.mp h with rfl | hrest
      · exact List.not_mem_nil
      · exact ih hrest
    · rw [splitAt_cons_of_ne hc hs] at h
      rcases List.mem_cons.mp h with rfl | hrest
      · intro hmem
        rcases List.mem_cons.mp hmem with rfl | hfirst
        · exact hc rfl
        · exact ih List.mem_cons_self hfirst
      · exact ih (List.mem_cons_of_mem first hrest)

/-- Pieces without the separator are what their joining splits into. -/
theorem splitAt_intercalate {sep : Char} {pieces : List (List Char)} (hne : pieces ≠ [])
    (h : ∀ piece ∈ pieces, sep ∉ piece) : splitAt sep ([sep].intercalate pieces) = pieces := by
  induction pieces with
  | nil => exact absurd rfl hne
  | cons first rest ih =>
    have hfirst := splitAt_of_not_mem (h first List.mem_cons_self)
    cases rest with
    | nil => simpa using hfirst
    | cons second rest =>
      have hrest := ih (List.cons_ne_nil second rest) fun p hp =>
        h p (List.mem_cons_of_mem first hp)
      rw [List.intercalate_cons_cons, List.append_assoc, List.singleton_append,
        splitAt_append_cons, hfirst, hrest]
      rfl

theorem joinWith_eq_intercalate (sep : List Char) (pieces : List (List Char)) :
    joinWith sep pieces = sep.intercalate pieces := by
  induction pieces with
  | nil => rfl
  | cons piece pieces ih =>
    cases pieces with
    | nil => simp [joinWith]
    | cons next pieces =>
      rw [joinWith_cons sep piece (List.cons_ne_nil next pieces), ih, List.intercalate_cons_cons]

theorem splitAt_joinWith {sep : Char} {pieces : List (List Char)} (hne : pieces ≠ [])
    (h : ∀ piece ∈ pieces, sep ∉ piece) : splitAt sep (joinWith [sep] pieces) = pieces := by
  rw [joinWith_eq_intercalate, splitAt_intercalate hne h]

theorem not_mem_joinWith {c : Char} {sep : List Char} (hsep : c ∉ sep) {pieces : List (List Char)}
    (h : ∀ piece ∈ pieces, c ∉ piece) : c ∉ joinWith sep pieces := by
  induction pieces with
  | nil => exact List.not_mem_nil
  | cons piece pieces ih =>
    obtain ⟨hpiece, hpieces⟩ := List.forall_mem_cons.mp h
    by_cases hnil : pieces = []
    · subst hnil
      exact hpiece
    · rw [joinWith_cons sep piece hnil, List.mem_append, List.mem_append, not_or, not_or]
      exact ⟨⟨hpiece, hsep⟩, ih hpieces⟩

end Text
end ApiSync
