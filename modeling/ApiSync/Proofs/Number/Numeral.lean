import Mathlib.Data.Nat.Digits.Defs
import Mathlib.Tactic.IntervalCases
import ApiSync.Number.Decimal
/-!
# The characters of numbers

The text of a finite number is made of digits, a point, a sign and the mark of an exponent, and it
is not empty.  So a number can be told from any other word, and from whatever follows it.  A word of
digits in a radix, letters in either case, has the value that positional notation gives it.
-/

namespace ApiSync
namespace Number

def isNumeralChar (c : Char) : Bool :=
  c.isDigit || c = '.' || c = 'e' || c = '+' || c = '-'

/-- A word of such characters. -/
structure IsNumeral (cs : List Char) : Prop where
  ne_nil : cs ≠ []
  chars : ∀ c ∈ cs, isNumeralChar c = true

theorem isNumeral_cons {c : Char} {cs : List Char} (hc : isNumeralChar c = true)
    (hcs : ∀ d ∈ cs, isNumeralChar d = true) : IsNumeral (c :: cs) :=
  ⟨List.cons_ne_nil c cs, List.forall_mem_cons.mpr ⟨hc, hcs⟩⟩

theorem IsNumeral.append {cs ds : List Char} (h : IsNumeral cs)
    (hds : ∀ c ∈ ds, isNumeralChar c = true) : IsNumeral (cs ++ ds) :=
  ⟨List.append_ne_nil_of_left_ne_nil h.ne_nil ds,
    List.forall_mem_append.mpr ⟨h.chars, hds⟩⟩

theorem isNumeralChar_of_mem_toDigits {n : Nat} {c : Char} (h : c ∈ Nat.toDigits 10 n) :
    isNumeralChar c = true := by
  rw [isNumeralChar, Nat.isDigit_of_mem_toDigits (by omega) (by omega) h]
  rfl

theorem isNumeral_toDigits (n : Nat) : IsNumeral (Nat.toDigits 10 n) :=
  ⟨Nat.toDigits_ne_nil, fun _ => isNumeralChar_of_mem_toDigits⟩

theorem isNumeralChar_of_mem_zeros {count : Nat} {c : Char} (h : c ∈ List.replicate count '0') :
    isNumeralChar c = true := by
  rw [List.eq_of_mem_replicate h]
  rfl

/-- The digits with a point behind the first one, if there are more. -/
theorem isNumeral_leading {ds : List Char} : IsNumeral ds →
    IsNumeral (match ds with
      | [] => []
      | [c] => [c]
      | c :: r => c :: '.' :: r) := by
  rintro ⟨hne, hchars⟩
  match ds with
  | [] => exact absurd rfl hne
  | [c] => exact ⟨hne, hchars⟩
  | c :: d :: r =>
    obtain ⟨hc, hrest⟩ := List.forall_mem_cons.mp hchars
    exact isNumeral_cons hc (List.forall_mem_cons.mpr ⟨rfl, hrest⟩)

theorem isNumeral_layout (d : Decimal) : IsNumeral (layout d).toList := by
  have hdigits := isNumeral_toDigits d.digits
  unfold layout
  dsimp only
  split
  · rw [String.toList_ofList]
    exact hdigits.append fun _ => isNumeralChar_of_mem_zeros
  split
  · rw [String.toList_ofList]
    refine ⟨List.append_ne_nil_of_right_ne_nil _ (List.cons_ne_nil _ _), ?_⟩
    refine List.forall_mem_append.mpr
      ⟨fun c hc => ?_, List.forall_mem_cons.mpr ⟨rfl, fun c hc => ?_⟩⟩
    · exact hdigits.chars c (List.mem_of_mem_take hc)
    · exact hdigits.chars c (List.mem_of_mem_drop hc)
  split
  · rw [String.toList_ofList]
    refine isNumeral_cons rfl (List.forall_mem_cons.mpr ⟨rfl, ?_⟩)
    exact List.forall_mem_append.mpr ⟨fun _ => isNumeralChar_of_mem_zeros, hdigits.chars⟩
  · rw [String.toList_ofList, List.append_assoc]
    refine (isNumeral_leading hdigits).append (List.forall_mem_append.mpr ⟨fun c hc => ?_,
      fun _ => isNumeralChar_of_mem_toDigits⟩)
    split at hc
    · exact List.all_eq_true.mp (by decide : ['e', '-'].all isNumeralChar = true) c hc
    · exact List.all_eq_true.mp (by decide : ['e', '+'].all isNumeralChar = true) c hc

/-- The text of a number is a numeral, unless the number is not finite. -/
theorem text_cases (n : Number) :
    n.text ∈ ["NaN", "Infinity", "-Infinity"] ∨ IsNumeral n.text.toList := by
  cases n with
  | nan => exact Or.inl List.mem_cons_self
  | infinite negative => cases negative <;> exact Or.inl (by decide)
  | finite negative m e =>
    right
    cases m with
    | zero =>
      have hzero : (finite negative 0 e).text.toList = ['0'] := by simp [text]
      rw [hzero]
      exact isNumeral_cons rfl fun _ hc => absurd hc List.not_mem_nil
    | succ m =>
      have hdigits := isNumeral_layout (shortest (m + 1) e)
      have hsign : (if negative then "-" else "").toList = if negative then ['-'] else [] := by
        cases negative <;> simp
      rw [text.eq_4 negative (m + 1) e (Nat.succ_ne_zero m), String.toList_append, hsign]
      cases negative with
      | true => exact isNumeral_cons rfl hdigits.chars
      | false =>
        rw [if_neg Bool.false_ne_true, List.nil_append]
        exact hdigits

/-! ## Digits in a radix -/

/-- The character stands for the digit, with letters from ten on. -/
def IsRadixDigit (radix digit : Nat) (c : Char) : Prop :=
  digit < radix ∧ (c = Nat.digitChar digit ∨ c = (Nat.digitChar digit).toUpper)

instance (radix digit : Nat) (c : Char) : Decidable (IsRadixDigit radix digit c) :=
  inferInstanceAs (Decidable (_ ∧ _))

/-- The word spells the digits, the leading one first. -/
def SpellsDigits (radix : Nat) (digits : List Nat) (word : List Char) : Prop :=
  List.Forall₂ (IsRadixDigit radix) digits word

instance (radix : Nat) (digits : List Nat) (word : List Char) :
    Decidable (SpellsDigits radix digits word) :=
  inferInstanceAs (Decidable (List.Forall₂ (IsRadixDigit radix) digits word))

/-- The value of digits, the leading one first. -/
def positional (radix : Nat) (digits : List Nat) : Nat := Nat.ofDigits radix digits.reverse

section

variable {radix digit : Nat} {c : Char} (hradix : radix ≤ 16)
include hradix

theorem radixDigit?_of_isRadixDigit (h : IsRadixDigit radix digit c) :
    radixDigit? radix c = some digit := by
  obtain ⟨hlt, hc⟩ := h
  have hdigit : digit < 16 := Nat.lt_of_lt_of_le hlt hradix
  have hvalue : radixDigit? 16 c = some digit := by
    interval_cases digit <;> rcases hc with rfl | rfl <;> rfl
  rw [radixDigit?, Option.filter_eq_some_iff] at hvalue ⊢
  exact ⟨hvalue.1, decide_eq_true hlt⟩

/-- No digit is the mark of a long or an imaginary number, or an underscore. -/
theorem IsRadixDigit.not_mem (h : IsRadixDigit radix digit c) :
    c ∉ "jJlL_".toList := by
  obtain ⟨hlt, hc⟩ := h
  have hdigit : digit < 16 := Nat.lt_of_lt_of_le hlt hradix
  interval_cases digit <;> rcases hc with rfl | rfl <;> decide

theorem radixValue?_of_spellsDigits {digits : List Nat} {word : List Char}
    (h : SpellsDigits radix digits word) :
    radixValue? radix word = some (positional radix digits) := by
  have hfold : ∀ start : Nat,
      word.foldlM (fun n c => (radixDigit? radix c).map (radix * n + ·)) start =
        some (digits.foldl (fun n digit => radix * n + digit) start) := by
    induction h with
    | nil => exact fun start => rfl
    | cons hdigit _ ih =>
      intro start
      rw [List.foldlM_cons, radixDigit?_of_isRadixDigit hradix hdigit]
      exact ih _
  have hpositional :
      positional radix digits = digits.foldl (fun n digit => radix * n + digit) 0 := by
    rw [positional, Nat.ofDigits_eq_foldr, List.foldr_reverse]
    simp only [Nat.cast_id, Nat.add_comm]
  rw [hpositional]
  exact hfold 0

end

end Number
end ApiSync
