import ApiSync.Proofs.Text
import ApiSync.Text.Case
/-!
# Letter case of ASCII characters

What holds of all characters of ASCII is checked one by one.  No other character is the same letter
as one of them: the upper case of what lies above ASCII lies above it as well.
-/

namespace ApiSync

namespace Text

def IsAscii (c : Char) : Prop := c.toNat < 128

instance (c : Char) : Decidable (IsAscii c) := inferInstanceAs (Decidable (_ < _))

theorem forall_ascii {P : Char → Prop} (h : ∀ n : Fin 128, P (Char.ofNat n)) {c : Char}
    (hc : IsAscii c) : P c := by
  have := h ⟨c.toNat, hc⟩
  rwa [Char.ofNat_toNat] at this

theorem toLower_toUpper {c : Char} (h : IsAscii c) : c.toUpper.toLower = c.toLower :=
  forall_ascii (P := fun c => c.toUpper.toLower = c.toLower) (by decide) h

theorem toUpper_toLower {c : Char} (h : IsAscii c) : c.toLower.toUpper = c.toUpper :=
  forall_ascii (P := fun c => c.toLower.toUpper = c.toUpper) (by decide) h

theorem isAscii_toUpper {c : Char} (h : IsAscii c) : IsAscii c.toUpper :=
  forall_ascii (P := fun c => IsAscii c.toUpper) (by decide) h

theorem isAscii_toLower {c : Char} (h : IsAscii c) : IsAscii c.toLower :=
  forall_ascii (P := fun c => IsAscii c.toLower) (by decide) h

theorem toLower_of_not_isAscii {c : Char} (h : ¬IsAscii c) : c.toLower = c := by
  have hnat : 128 ≤ c.toNat := Nat.not_lt.mp h
  unfold Char.toLower
  rw [dif_neg]
  rintro ⟨-, hle⟩
  have : c.toNat ≤ 90 := UInt32.le_iff_toNat_le.mp hle
  omega

theorem toNat_ofNat {n : Nat} (h : n.isValidChar) : (Char.ofNat n).toNat = n := by
  rw [Char.ofNat, dif_pos h]
  rfl

/-- Each run of letters has its upper case above ASCII, at characters. -/
theorem upperRuns_above : ∀ r ∈ upperRuns, 128 ≤ r.low + r.shift ∧ (r.high + r.shift < 0xd800 ∨
    (0xdfff < r.low + r.shift ∧ r.high + r.shift < 0x110000)) := by decide +kernel

theorem not_isAscii_upperOf {c : Char} (h : ¬IsAscii c) : ¬IsAscii (upperOf c) := by
  have hnat : 128 ≤ c.toNat := Nat.not_lt.mp h
  have habove : ¬c.toNat < 128 := h
  rw [upperOf, if_neg habove, shifted, caseShift, IsAscii]
  split
  · next r hr =>
    have hmem := List.mem_of_find?_eq_some hr
    have htest := List.find?_some hr
    simp only [Bool.and_eq_true, decide_eq_true_eq] at htest
    obtain ⟨hlow, hvalid⟩ := upperRuns_above r hmem
    have hchar : ((c.toNat : Int) + r.shift).toNat.isValidChar := by
      rw [Nat.isValidChar]
      omega
    rw [toNat_ofNat hchar]
    omega
  · rw [Int.add_zero, Int.toNat_natCast, Char.ofNat_toNat]
    exact h

/-- For an ASCII character another one is the same letter if their lower cases agree. -/
theorem sameLetter_iff {m c : Char} (hm : IsAscii m) :
    sameLetter m c = true ↔ c.toLower = m.toLower := by
  have hupper : upperOf m = m.toUpper := if_pos hm
  rw [sameLetter, Bool.or_eq_true, decide_eq_true_eq, decide_eq_true_eq, hupper]
  by_cases hc : IsAscii c
  · have hcu : upperOf c = c.toUpper := if_pos hc
    rw [hcu]
    constructor
    · rintro (rfl | h)
      · rfl
      · rw [← toLower_toUpper hc, ← h, toLower_toUpper hm]
    · intro h
      right
      rw [← toUpper_toLower hc, h, toUpper_toLower hm]
  · rw [toLower_of_not_isAscii hc]
    constructor
    · rintro (rfl | h)
      · exact absurd hm hc
      · exact absurd (h ▸ isAscii_toUpper hm) (not_isAscii_upperOf hc)
    · rintro rfl
      exact absurd (isAscii_toLower hm) hc

theorem isBlank_toLower (c : Char) : isBlank c.toLower = isBlank c := by
  by_cases h : IsAscii c
  · exact forall_ascii (P := fun c => isBlank c.toLower = isBlank c) (by decide) h
  · rw [toLower_of_not_isAscii h]

theorem length_eq_of_lowerAscii {a b : List Char} (h : lowerAscii a = lowerAscii b) :
    a.length = b.length := by
  simpa [lowerAscii] using congrArg List.length h

end Text

end ApiSync
