import ApiSync.Proofs.Block.Marks
import ApiSync.Proofs.Block.Pattern
/-!
# Scanning for blocks

The search for blocks tries, at every position, the shortest body behind the opening mark, and gives
up characters of it again where the closing mark does not follow.  Between proper marks that is the
scan with two positions: the first opening mark, the first closing mark behind it, and on from
there.  A body is what stands between the two, trimmed.
-/

namespace ApiSync
namespace Block

open Text

/-- The bodies of a text, in order.  A scan goes on behind each closing mark, until one of the two
marks is missing. -/
inductive Scans (opening closing : List Char) : List Char → List (List Char) → Prop
  | block {text before inside body rest : List Char} {bodies : List (List Char)}
      (hopening : FirstMark opening text before inside)
      (hclosing : FirstMark closing inside body rest)
      (hrest : Scans opening closing rest bodies) :
      Scans opening closing text (trim body :: bodies)
  | done {text : List Char}
      (hmissing : ∀ before inside body rest, FirstMark opening text before inside →
        ¬FirstMark closing inside body rest) : Scans opening closing text []

/-! ## Behind the opening mark -/

theorem trimEnd_cons_of_ne {c : Char} {cs : List Char} (h : trimEnd cs ≠ []) :
    trimEnd (c :: cs) = c :: trimEnd cs := by
  rw [trimEnd, trimEnd, List.reverse_cons, List.dropWhile_append, if_neg]
  · rw [List.reverse_append, List.reverse_singleton, List.singleton_append]
  · intro hempty
    rw [List.isEmpty_iff] at hempty
    rw [trimEnd, hempty] at h
    exact h rfl

theorem trimEnd_cons_of_blank {c : Char} {cs : List Char} (hc : isBlank c = true)
    (h : trimEnd cs = []) : trimEnd (c :: cs) = [] := by
  rw [trimEnd_eq, List.rdropWhile_eq_nil_iff] at h ⊢
  exact List.forall_mem_cons.mpr ⟨hc, h⟩

section

variable {opening closing : List Char} (ho : IsMark opening) (hc : IsMark closing)

include hc in
/-- The closing mark does not start with a blank, so that no blank is given up. -/
theorem closeHere?_eq (cs : List Char) :
    closeHere? closing cs = dropMark? closing (trimStart cs) := by
  induction cs with
  | nil => rfl
  | cons c cs ih =>
    rw [closeHere?]
    by_cases hblank : isBlank c = true
    · rw [if_pos hblank, ih, hc.dropMark?_blank hblank, Option.or_none, trimStart, trimStart,
        List.dropWhile_cons_of_pos hblank]
    · rw [if_neg hblank, Option.none_or, trimStart, List.dropWhile_cons_of_neg hblank]

/-- A body is empty where only blanks stand before the closing mark. -/
theorem body?_nil_iff {cs rest : List Char} :
    body? closing cs = some ⟨[], rest⟩ ↔ closeHere? closing cs = some rest := by
  cases cs with
  | nil =>
    show (closeHere? closing []).map _ = _ ↔ _
    cases closeHere? closing [] with
    | none => simp
    | some r => simp
  | cons c cs =>
    rw [body?_eq_or]
    cases closeHere? closing (c :: cs) with
    | none => simp
    | some r => simp

theorem body?_cons {c : Char} {cs : List Char} (h : closeHere? closing (c :: cs) = none) :
    body? closing (c :: cs) = (body? closing cs).map fun f => { f with body := c :: f.body } := by
  rw [body?_eq_or, h, Option.map_none, Option.none_or]

/-- The block that two positions cut out, with its body trimmed by `f`. -/
def cutBy (f : List Char → List Char) (pair : List Char × List Char) : Found := ⟨f pair.1, pair.2⟩

include hc in
/-- A blank belongs to the body unless nothing but blanks stands between it and the mark. -/
theorem body?_blank {c : Char} (hblank : isBlank c = true) {cs : List Char}
    (ih : body? closing cs = (cutMark? closing cs).map (cutBy trimEnd)) :
    body? closing (c :: cs) = (cutMark? closing (c :: cs)).map (cutBy trimEnd) := by
  have hstart : trimStart (c :: cs) = trimStart cs := List.dropWhile_cons_of_pos hblank
  have hclose : closeHere? closing (c :: cs) = closeHere? closing cs := by
    rw [closeHere?_eq hc, closeHere?_eq hc, hstart]
  rw [cutMark?_cons (hc.dropMark?_blank hblank cs), Option.map_map]
  cases hlater : closeHere? closing cs with
  | some rest =>
    rw [hlater] at hclose
    rw [body?_nil_iff.mpr hlater] at ih
    obtain ⟨pair, hcut, hpair⟩ := Option.map_eq_some_iff.mp ih.symm
    obtain ⟨hempty, hrest⟩ := Found.mk.inj hpair
    rw [body?_nil_iff.mpr hclose, hcut]
    show some _ = some (Found.mk (trimEnd (c :: pair.1)) pair.2)
    rw [trimEnd_cons_of_blank hblank hempty, hrest]
  | none =>
    rw [hlater] at hclose
    rw [body?_cons hclose]
    cases hcut : cutMark? closing cs with
    | none =>
      rw [ih, hcut]
      rfl
    | some pair =>
      rw [hcut] at ih
      have hne : trimEnd pair.1 ≠ [] := by
        intro hempty
        rw [Option.map_some, cutBy, hempty, body?_nil_iff, hlater] at ih
        cases ih
      rw [ih]
      show some (Found.mk (c :: trimEnd pair.1) pair.2) = some ⟨trimEnd (c :: pair.1), pair.2⟩
      rw [trimEnd_cons_of_ne hne]

include hc in
theorem body?_content {c : Char} (hblank : isBlank c = false) {cs : List Char}
    (ih : body? closing cs = (cutMark? closing cs).map (cutBy trimEnd)) :
    body? closing (c :: cs) = (cutMark? closing (c :: cs)).map (cutBy trimEnd) := by
  have hclose : closeHere? closing (c :: cs) = dropMark? closing (c :: cs) := by
    rw [closeHere?_eq hc, trimStart, List.dropWhile_cons_of_neg (Bool.eq_false_iff.mp hblank)]
  cases hdrop : dropMark? closing (c :: cs) with
  | some rest =>
    rw [hdrop] at hclose
    rw [body?_nil_iff.mpr hclose, cutMark?_of_drop hdrop]
    rfl
  | none =>
    rw [hdrop] at hclose
    rw [body?_cons hclose, cutMark?_cons hdrop, ih, Option.map_map, Option.map_map]
    congr 1
    funext pair
    show Found.mk (c :: trimEnd pair.1) pair.2 = ⟨trimEnd (c :: pair.1), pair.2⟩
    rw [trimEnd_cons hblank]

include hc in
/-- The shortest body reaches up to the first closing mark. -/
theorem body?_eq (cs : List Char) :
    body? closing cs = (cutMark? closing cs).map (cutBy trimEnd) := by
  induction cs with
  | nil =>
    rw [cutMark?, Option.map_map]
    rfl
  | cons c cs ih =>
    cases hblank : isBlank c with
    | true => exact body?_blank hc hblank ih
    | false => exact body?_content hc hblank ih

include hc in
/-- Behind the opening mark as many blanks as possible are passed over. -/
theorem afterBlanks?_eq (cs : List Char) :
    afterBlanks? closing cs = (cutMark? closing cs).map (cutBy trim) := by
  induction cs with
  | nil =>
    rw [afterBlanks?, body?_eq hc, cutMark?, Option.map_map, Option.map_map]
    rfl
  | cons c cs ih =>
    rw [afterBlanks?, body?_eq hc]
    by_cases hblank : isBlank c = true
    · rw [if_pos hblank, ih, cutMark?_cons (hc.dropMark?_blank hblank cs)]
      cases cutMark? closing cs with
      | none => rfl
      | some pair =>
        show some (Found.mk (trim pair.1) pair.2) = some ⟨trim (c :: pair.1), pair.2⟩
        have hlead : ∀ d ∈ [c], isBlank d = true := by simpa using hblank
        rw [← trim_append_left hlead pair.1]
        rfl
    · rw [if_neg hblank, Option.none_or]
      cases hdrop : dropMark? closing (c :: cs) with
      | some rest =>
        rw [cutMark?_of_drop hdrop]
        rfl
      | none =>
        rw [cutMark?_cons hdrop, Option.map_map, Option.map_map]
        congr 1
        funext pair
        show Found.mk (trimEnd (c :: pair.1)) pair.2 = ⟨trim (c :: pair.1), pair.2⟩
        rw [trim, trimStart_cons (Bool.eq_false_iff.mpr hblank)]

/-! ## The first block -/

/-- The block between the first opening mark and the first closing mark behind it. -/
def between? (opening closing cs : List Char) : Option Found :=
  (cutMark? opening cs).bind fun pair => (cutMark? closing pair.2).map (cutBy trim)

include ho in
theorem here?_nil (closing : List Char) : here? opening closing [] = none := by
  rw [here?, dropMark?_nil ho.ne_nil]
  rfl

include hc in
theorem here?_eq (cs : List Char) : here? opening closing cs =
    (dropMark? opening cs).bind fun inside => (cutMark? closing inside).map (cutBy trim) := by
  rw [here?]
  exact congrArg _ (funext (afterBlanks?_eq hc))

include hc in
/-- A text that lacks the closing mark lacks it behind every position. -/
theorem cutMark?_suffix {text rest : List Char} (h : cutMark? closing text = none)
    (hsuffix : rest <:+ text) : cutMark? closing rest = none := by
  obtain ⟨lead, rfl⟩ := hsuffix
  rw [Option.eq_none_iff_forall_ne_some]
  intro pair hpair
  obtain ⟨found, heq, hlower⟩ := (firstMark_of_cut hc.ascii hpair).occurs
  have hoccurs : Occurs closing (lead ++ rest) (lead ++ pair.1) pair.2 :=
    ⟨found, by rw [heq]; simp only [List.append_assoc], hlower⟩
  have hsome := cut_isSome_of_occurs hc.ascii hoccurs
  rw [h] at hsome
  cases hsome

include ho hc in
/-- An opening mark that no closing mark follows ends the search: a later one is not followed by
one either, even where the two overlap. -/
theorem first?_eq (cs : List Char) : first? opening closing cs = between? opening closing cs := by
  induction cs with
  | nil =>
    rw [first?, here?_nil ho closing, between?, cutMark?, dropMark?_nil ho.ne_nil]
    rfl
  | cons c cs ih =>
    rw [first?, here?_eq hc, ih]
    cases hdrop : dropMark? opening (c :: cs) with
    | none =>
      rw [Option.bind_none, Option.none_or, between?, between?, cutMark?_cons hdrop,
        Option.bind_map]
      rfl
    | some inside =>
      have hfirst : between? opening closing (c :: cs) =
          (cutMark? closing inside).map (cutBy trim) := by
        rw [between?, cutMark?_of_drop hdrop]
        rfl
      rw [hfirst, Option.bind_some]
      cases hclosing : cutMark? closing inside with
      | some pair => rfl
      | none =>
        rw [Option.map_none, Option.none_or, between?, Option.bind_eq_none_iff]
        intro pair hlater
        have hnow := (dropMark?_iff ho.ascii).mp hdrop
        have hthen := (firstMark_of_cut ho.ascii hlater).occurs
        rw [cutMark?_suffix hc hclosing (hnow.suffix hthen), Option.map_none]

include ho hc in
theorem between?_iff {text : List Char} {f : Found} : between? opening closing text = some f ↔
    ∃ before inside body, FirstMark opening text before inside ∧
      FirstMark closing inside body f.rest ∧ f.body = trim body := by
  rw [between?, Option.bind_eq_some_iff]
  constructor
  · rintro ⟨⟨before, inside⟩, hopening, h⟩
    obtain ⟨⟨body, rest⟩, hclosing, rfl⟩ := Option.map_eq_some_iff.mp h
    exact ⟨before, inside, body, (cutMark?_iff ho.ascii).mp hopening,
      (cutMark?_iff hc.ascii).mp hclosing, rfl⟩
  · rintro ⟨before, inside, body, hopening, hclosing, hbody⟩
    refine ⟨(before, inside), (cutMark?_iff ho.ascii).mpr hopening, ?_⟩
    rw [(cutMark?_iff hc.ascii).mpr hclosing, Option.map_some, cutBy, ← hbody]

include ho hc in
theorem between?_of_first {text before inside body rest : List Char}
    (hopening : FirstMark opening text before inside)
    (hclosing : FirstMark closing inside body rest) :
    between? opening closing text = some ⟨trim body, rest⟩ :=
  (between?_iff ho hc).mpr ⟨before, inside, body, hopening, hclosing, rfl⟩

include ho hc in
theorem between?_eq_none_iff {text : List Char} : between? opening closing text = none ↔
    ∀ before inside body rest, FirstMark opening text before inside →
      ¬FirstMark closing inside body rest := by
  rw [Option.eq_none_iff_forall_ne_some]
  constructor
  · intro h before inside body rest hopening hclosing
    exact h _ (between?_of_first ho hc hopening hclosing)
  · intro h f hf
    obtain ⟨before, inside, body, hopening, hclosing, -⟩ := (between?_iff ho hc).mp hf
    exact h before inside body f.rest hopening hclosing

/-! ## All blocks -/

include ho hc in
/-- A scan finds the first block and goes on behind it, or finds nothing. -/
theorem scans_iff {text : List Char} {bodies : List (List Char)} :
    Scans opening closing text bodies ↔ match first? opening closing text with
      | none => bodies = []
      | some f => ∃ later, bodies = f.body :: later ∧ Scans opening closing f.rest later := by
  rw [first?_eq ho hc]
  constructor
  · intro h
    cases h with
    | block hopening hclosing hrest =>
      rw [between?_of_first ho hc hopening hclosing]
      exact ⟨_, rfl, hrest⟩
    | done hmissing =>
      rw [(between?_eq_none_iff ho hc).mpr hmissing]
  · intro h
    cases hfirst : between? opening closing text with
    | none =>
      rw [hfirst] at h
      rw [h]
      exact .done ((between?_eq_none_iff ho hc).mp hfirst)
    | some f =>
      rw [hfirst] at h
      obtain ⟨later, rfl, hrest⟩ := h
      obtain ⟨before, inside, body, hopening, hclosing, hbody⟩ := (between?_iff ho hc).mp hfirst
      rw [hbody]
      exact .block hopening hclosing hrest

include ho hc in
theorem Scans.unique {text : List Char} {bodies others : List (List Char)}
    (h : Scans opening closing text bodies) (hothers : Scans opening closing text others) :
    others = bodies := by
  induction h generalizing others with
  | block hopening hclosing hrest ih =>
    have hfirst := between?_of_first ho hc hopening hclosing
    rw [scans_iff ho hc, first?_eq ho hc, hfirst] at hothers
    obtain ⟨later, rfl, hlater⟩ := hothers
    rw [ih hlater]
  | done hmissing =>
    have hfirst := (between?_eq_none_iff ho hc).mpr hmissing
    rw [scans_iff ho hc, first?_eq ho hc, hfirst] at hothers
    exact hothers

include ho hc in
/-- A block has at least the opening mark, so that the search goes on behind it. -/
theorem rest_lt_of_here? {cs : List Char} {f : Found} (h : here? opening closing cs = some f) :
    f.rest.length < cs.length := by
  rw [here?_eq hc] at h
  obtain ⟨inside, hdrop, hmap⟩ := Option.bind_eq_some_iff.mp h
  obtain ⟨pair, hcut, rfl⟩ := Option.map_eq_some_iff.mp hmap
  have hopening := ((dropMark?_iff ho.ascii).mp hdrop).length_eq
  have hclosing := (firstMark_of_cut hc.ascii hcut).occurs.length_eq
  have hmark := List.length_pos_iff.mpr ho.ne_nil
  rw [List.length_nil] at hopening
  show pair.2.length < cs.length
  omega

theorem allFrom_nil {fuel : Nat} (h : here? opening closing [] = none) :
    allFrom opening closing (fuel + 1) [] = [] := by
  simp only [allFrom, h]

theorem allFrom_none {fuel : Nat} {c : Char} {cs : List Char}
    (h : here? opening closing (c :: cs) = none) :
    allFrom opening closing (fuel + 1) (c :: cs) = allFrom opening closing fuel cs := by
  simp only [allFrom, h]

theorem allFrom_some {fuel : Nat} {c : Char} {cs : List Char} {f : Found}
    (h : here? opening closing (c :: cs) = some f) (hlt : f.rest.length < (c :: cs).length) :
    allFrom opening closing (fuel + 1) (c :: cs) =
      f.body :: allFrom opening closing fuel f.rest := by
  simp only [allFrom, h]
  rw [if_neg (Nat.ne_of_lt hlt)]

include ho hc in
/-- What is found from each position on is a scan, with fuel for every character. -/
theorem scans_allFrom {fuel : Nat} {cs : List Char} (hfuel : cs.length < fuel) :
    Scans opening closing cs (allFrom opening closing fuel cs) := by
  induction fuel generalizing cs with
  | zero => omega
  | succ fuel ih =>
    cases cs with
    | nil =>
      have hnone := here?_nil ho closing
      rw [scans_iff ho hc, first?, hnone, allFrom_nil hnone]
    | cons c cs =>
      rw [List.length_cons] at hfuel
      cases hhere : here? opening closing (c :: cs) with
      | none =>
        rw [allFrom_none hhere, scans_iff ho hc, first?, hhere, Option.none_or, ← scans_iff ho hc]
        exact ih (by omega)
      | some f =>
        have hlt := rest_lt_of_here? ho hc hhere
        rw [allFrom_some hhere hlt, scans_iff ho hc, first?, hhere, Option.some_or]
        rw [List.length_cons] at hlt
        exact ⟨_, rfl, ih (by omega)⟩

include ho hc in
theorem head?_allFrom (text : List Char) :
    (allFrom opening closing (text.length + 1) text).head? =
      (first? opening closing text).map Found.body := by
  have h := scans_allFrom ho hc (Nat.lt_succ_self text.length)
  rw [scans_iff ho hc] at h
  cases hfirst : first? opening closing text with
  | none =>
    rw [hfirst] at h
    rw [h]
    rfl
  | some f =>
    rw [hfirst] at h
    obtain ⟨later, heq, -⟩ := h
    rw [heq]
    rfl

end

end Block

open Block

theorem findBlocks_eq (markers : Markers) (ho : IsMark markers.opening.toList) (doc : String) :
    findBlocks markers doc = (allFrom markers.opening.toList markers.closing.toList
      (doc.toList.length + 1) doc.toList).map String.ofList := by
  rw [findBlocks]
  by_cases hempty : doc = ""
  · subst hempty
    have hnone := here?_nil ho markers.closing.toList
    rw [if_pos rfl, String.toList_empty, allFrom_nil hnone]
    rfl
  · rw [if_neg hempty]

/-- Between marks of ASCII characters with no blank at their ends, the blocks of a docstring are
what one scan finds: the trimmed texts from the first opening mark up to the first closing mark
behind it, and so on behind that, in any letter case.  The first block of a docstring is the first
of them.  Each of them is matched by a pattern in which all characters of the marks stand for
themselves, and which reads in no other way. -/
theorem findBlocks_scan (markers : Markers) (ho : IsMark markers.opening.toList)
    (hc : IsMark markers.closing.toList) (doc : String) :
    (∃ bodies, Scans markers.opening.toList markers.closing.toList doc.toList bodies ∧
      (∀ others, Scans markers.opening.toList markers.closing.toList doc.toList others →
        others = bodies) ∧
      findBlocks markers doc = bodies.map String.ofList) ∧
    firstBlock markers doc = ((findBlocks markers doc).head?.map (parseBlock markers)).getD
      (pure []) ∧
    (∀ items, Reads (pattern markers.opening.toList markers.closing.toList) items ↔
      items = markers.opening.toList.map .char ++
        .blanks :: .body :: .blanks :: markers.closing.toList.map .char) ∧
    ∀ cs, here? markers.opening.toList markers.closing.toList cs =
      (candidates (around markers.opening.toList markers.closing.toList) cs).head? := by
  have hreads := reads_pattern markers.opening.toList markers.closing.toList
  have hblocks := findBlocks_eq markers ho doc
  refine ⟨⟨_, ?scans, ?unique, hblocks⟩, ?first, ?literal, here?_eq_head? _ _⟩
  case scans => exact scans_allFrom ho hc (Nat.lt_succ_self _)
  case unique =>
    intro others hothers
    exact Scans.unique ho hc (scans_allFrom ho hc (Nat.lt_succ_self _)) hothers
  case first =>
    rw [hblocks, List.head?_map, head?_allFrom ho hc, firstBlock]
    by_cases hempty : doc = ""
    · subst hempty
      rw [if_pos rfl, String.toList_empty, first?, here?_nil ho _]
      rfl
    · rw [if_neg hempty]
      cases first? markers.opening.toList markers.closing.toList doc.toList with
      | none => rfl
      | some f => rfl
  case literal =>
    intro items
    constructor
    · exact hreads.unique
    · rintro rfl
      exact hreads

/-- Marks made of signs, in another letter case, an opening mark inside a body, a body of blanks,
and an opening mark at the end that no closing mark follows. -/
def signMarkers : Markers := ⟨"[Api]*", "(.?)end"⟩

theorem findBlocks_scan_signs :
    IsMark signMarkers.opening.toList ∧ IsMark signMarkers.closing.toList ∧
    findBlocks signMarkers "a [API]*  x: [api]* 1 (.?)END b [api]*\n (.?)End(.?)end [api]* c" =
      ["x: [api]* 1", ""] ∧
    ∃ bodies, Scans signMarkers.opening.toList signMarkers.closing.toList
      "a [API]*  x: [api]* 1 (.?)END b [api]*\n (.?)End(.?)end [api]* c".toList bodies := by
  have ho : IsMark signMarkers.opening.toList := ⟨by decide, by simp [signMarkers, Text.IsAscii], by decide⟩
  have hc : IsMark signMarkers.closing.toList := ⟨by decide, by simp [signMarkers, Text.IsAscii], by decide⟩
  obtain ⟨⟨bodies, hscans, -, -⟩, -⟩ := findBlocks_scan signMarkers ho hc
    "a [API]*  x: [api]* 1 (.?)END b [api]*\n (.?)End(.?)end [api]* c"
  exact ⟨ho, hc, by decide +kernel, bodies, hscans⟩

end ApiSync
