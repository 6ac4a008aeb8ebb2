import ApiSync.Block
import ApiSync.Proofs.Text.Ascii
/-!
# Marks in a text

A mark of ASCII characters stands wherever the text agrees with it up to the case of ASCII letters:
no character above ASCII passes for one of its letters.  Its first occurrence is the one with the
least text before it.
-/

namespace ApiSync

namespace Block

open Text

/-! ## Occurrences -/

/-- The text holds the mark, in any letter case, between `before` and `after`. -/
def Occurs (mark text before after : List Char) : Prop :=
  ∃ found, text = before ++ found ++ after ∧ lowerAscii found = lowerAscii mark

/-- No occurrence of the mark has less text before it. -/
structure FirstMark (mark text before after : List Char) : Prop where
  occurs : Occurs mark text before after
  least : ∀ {b a : List Char}, Occurs mark text b a → before.length ≤ b.length

/-- A mark: some ASCII characters, no blank at either end. -/
structure IsMark (mark : List Char) : Prop where
  ne_nil : mark ≠ []
  ascii : ∀ c ∈ mark, IsAscii c
  trimmed : trim mark = mark

theorem occurs_cons_iff {m c : Char} {ms cs rest : List Char} :
    Occurs (m :: ms) (c :: cs) [] rest ↔ c.toLower = m.toLower ∧ Occurs ms cs [] rest := by
  constructor
  · rintro ⟨found, heq, hlower⟩
    cases found with
    | nil => simp [lowerAscii] at hlower
    | cons d found =>
      obtain ⟨rfl, hcs⟩ : c = d ∧ cs = found ++ rest := by simpa using heq
      obtain ⟨hc, hfound⟩ : c.toLower = m.toLower ∧ lowerAscii found = lowerAscii ms := by
        simpa [lowerAscii] using hlower
      exact ⟨hc, found, hcs, hfound⟩
  · rintro ⟨hc, found, heq, hlower⟩
    refine ⟨c :: found, by rw [heq]; rfl, ?_⟩
    show c.toLower :: lowerAscii found = m.toLower :: lowerAscii ms
    rw [hc, hlower]

theorem dropMark?_iff {mark cs rest : List Char} (hascii : ∀ c ∈ mark, IsAscii c) :
    dropMark? mark cs = some rest ↔ Occurs mark cs [] rest := by
  induction mark generalizing cs with
  | nil =>
    rw [dropMark?, Option.some_inj]
    constructor
    · rintro rfl
      exact ⟨[], rfl, rfl⟩
    · rintro ⟨found, heq, hlower⟩
      have hnil : found = [] := by simpa [lowerAscii] using hlower
      simpa [hnil] using heq
  | cons m ms ih =>
    obtain ⟨hm, hms⟩ := List.forall_mem_cons.mp hascii
    cases cs with
    | nil =>
      constructor
      · intro h
        simp [dropMark?] at h
      · rintro ⟨found, heq, hlower⟩
        obtain ⟨rfl, -⟩ : found = [] ∧ rest = [] := by simpa using heq.symm
        simp [lowerAscii] at hlower
    | cons c cs =>
      rw [dropMark?, occurs_cons_iff, ← sameLetter_iff hm, ← ih hms]
      by_cases hsame : sameLetter m c = true <;> simp [hsame]

/-- A mark does not start with a blank. -/
theorem IsMark.dropMark?_blank {mark : List Char} (hmark : IsMark mark) {c : Char}
    (hc : isBlank c = true) (cs : List Char) : dropMark? mark (c :: cs) = none := by
  obtain ⟨m, ms, rfl⟩ := List.exists_cons_of_ne_nil hmark.ne_nil
  rw [dropMark?, if_neg]
  intro hsame
  have hm : isBlank m = false := (trim_eq_self_iff.mp hmark.trimmed).1 m rfl
  have hcase := (sameLetter_iff (hmark.ascii m List.mem_cons_self)).mp hsame
  rw [← isBlank_toLower, hcase, isBlank_toLower, hm] at hc
  cases hc

theorem dropMark?_nil {mark : List Char} (hne : mark ≠ []) : dropMark? mark [] = none := by
  cases mark with
  | nil => exact absurd rfl hne
  | cons m ms => rfl

/-! ## The first occurrence -/

/-- Splits at the first occurrence of a mark. -/
def cutMark? (mark : List Char) : List Char → Option (List Char × List Char)
  | [] => (dropMark? mark []).map fun rest => ([], rest)
  | c :: cs =>
    match dropMark? mark (c :: cs) with
    | some rest => some ([], rest)
    | none => (cutMark? mark cs).map fun (before, after) => (c :: before, after)

theorem cutMark?_of_drop {mark cs rest : List Char} (h : dropMark? mark cs = some rest) :
    cutMark? mark cs = some ([], rest) := by
  cases cs with
  | nil => rw [cutMark?, h]; rfl
  | cons c cs => rw [cutMark?, h]

theorem cutMark?_cons {mark : List Char} {c : Char} {cs : List Char}
    (h : dropMark? mark (c :: cs) = none) :
    cutMark? mark (c :: cs) =
      (cutMark? mark cs).map fun (before, after) => (c :: before, after) := by
  rw [cutMark?, h]

theorem Occurs.cons {mark text before after : List Char} (h : Occurs mark text before after)
    (c : Char) : Occurs mark (c :: text) (c :: before) after := by
  obtain ⟨found, rfl, hlower⟩ := h
  exact ⟨found, rfl, hlower⟩

theorem Occurs.of_cons {mark text before after : List Char} {c d : Char}
    (h : Occurs mark (c :: text) (d :: before) after) : Occurs mark text before after := by
  obtain ⟨found, heq, hlower⟩ := h
  obtain ⟨-, rfl⟩ : c = d ∧ text = before ++ (found ++ after) := by simpa using heq
  exact ⟨found, by rw [List.append_assoc], hlower⟩

/-- Occurrences with equal lengths before them are one. -/
theorem Occurs.unique {mark text before after b a : List Char}
    (h : Occurs mark text before after) (hother : Occurs mark text b a)
    (hlen : before.length = b.length) : before = b ∧ after = a := by
  obtain ⟨found, rfl, hlower⟩ := h
  obtain ⟨other, heq, hsame⟩ := hother
  have hfound := length_eq_of_lowerAscii (hlower.trans hsame.symm)
  rw [List.append_assoc, List.append_assoc] at heq
  obtain ⟨hbefore, hrest⟩ := List.append_inj heq hlen
  exact ⟨hbefore, (List.append_inj hrest hfound).2⟩

theorem Occurs.length_eq {mark text before after : List Char} (h : Occurs mark text before after) :
    text.length = before.length + mark.length + after.length := by
  obtain ⟨found, rfl, hlower⟩ := h
  rw [List.length_append, List.length_append, length_eq_of_lowerAscii hlower]

/-- What follows a mark at the start of a text goes on with what follows a later one. -/
theorem Occurs.suffix {mark text inside before after : List Char} {c : Char}
    (h : Occurs mark (c :: text) [] inside) (hlater : Occurs mark text before after) :
    after <:+ inside := by
  obtain ⟨found, heq, hlower⟩ := h
  obtain ⟨other, rfl, hother⟩ := hlater
  have hlen := length_eq_of_lowerAscii (hlower.trans hother.symm)
  have hall := congrArg List.length heq
  simp only [List.length_cons, List.length_append, List.length_nil] at hall
  have hinside : inside <:+ c :: (before ++ other ++ after) := ⟨found, by rw [heq]; rfl⟩
  have hafter : after <:+ c :: (before ++ other ++ after) := ⟨c :: (before ++ other), by simp⟩
  exact List.suffix_of_suffix_length_le hafter hinside (by omega)

theorem firstMark_of_cut {mark : List Char} (hascii : ∀ c ∈ mark, IsAscii c)
    {text before after : List Char} (h : cutMark? mark text = some (before, after)) :
    FirstMark mark text before after := by
  induction text generalizing before with
  | nil =>
    obtain ⟨rest, hrest, heq⟩ := Option.map_eq_some_iff.mp h
    obtain ⟨rfl, rfl⟩ := Prod.mk.inj heq
    exact ⟨(dropMark?_iff hascii).mp hrest, fun _ => Nat.zero_le _⟩
  | cons c text ih =>
    cases hdrop : dropMark? mark (c :: text) with
    | some rest =>
      rw [cutMark?_of_drop hdrop] at h
      obtain ⟨rfl, rfl⟩ := Prod.mk.inj (Option.some.inj h)
      exact ⟨(dropMark?_iff hascii).mp hdrop, fun _ => Nat.zero_le _⟩
    | none =>
      rw [cutMark?_cons hdrop] at h
      obtain ⟨⟨b, a⟩, hcut, heq⟩ := Option.map_eq_some_iff.mp h
      obtain ⟨rfl, rfl⟩ := Prod.mk.inj heq
      obtain ⟨hoccurs, hleast⟩ := ih hcut
      refine ⟨hoccurs.cons c, ?_⟩
      intro b' a' hother
      cases b' with
      | nil =>
        rw [(dropMark?_iff hascii).mpr hother] at hdrop
        cases hdrop
      | cons d b' => exact Nat.succ_le_succ (hleast hother.of_cons)

theorem cut_isSome_of_occurs {mark : List Char} (hascii : ∀ c ∈ mark, IsAscii c)
    {text before after : List Char} (h : Occurs mark text before after) :
    (cutMark? mark text).isSome = true := by
  induction text generalizing before with
  | nil =>
    have hnil : before = [] := by
      obtain ⟨found, heq, -⟩ := h
      exact (List.append_eq_nil_iff.mp (List.append_eq_nil_iff.mp heq.symm).1).1
    rw [hnil] at h
    rw [cutMark?_of_drop ((dropMark?_iff hascii).mpr h)]
    rfl
  | cons c text ih =>
    cases hdrop : dropMark? mark (c :: text) with
    | some rest =>
      rw [cutMark?_of_drop hdrop]
      rfl
    | none =>
      cases before with
      | nil =>
        rw [(dropMark?_iff hascii).mpr h] at hdrop
        cases hdrop
      | cons d before =>
        rw [cutMark?_cons hdrop, Option.isSome_map]
        exact ih h.of_cons

/-- The search finds the first occurrence, and every first occurrence is what it finds. -/
theorem cutMark?_iff {mark : List Char} (hascii : ∀ c ∈ mark, IsAscii c)
    {text before after : List Char} :
    cutMark? mark text = some (before, after) ↔ FirstMark mark text before after := by
  constructor
  · exact firstMark_of_cut hascii
  · intro h
    obtain ⟨⟨b, a⟩, hcut⟩ :=
      Option.isSome_iff_exists.mp (cut_isSome_of_occurs hascii h.occurs)
    have hfirst := firstMark_of_cut hascii hcut
    have hlen := Nat.le_antisymm (h.least hfirst.occurs) (hfirst.least h.occurs)
    obtain ⟨rfl, rfl⟩ := h.occurs.unique hfirst.occurs hlen
    exact hcut

end Block
end ApiSync
