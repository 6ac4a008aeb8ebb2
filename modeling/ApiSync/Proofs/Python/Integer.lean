import ApiSync.Proofs.Number.Exact
import ApiSync.Proofs.Number.Numeral
import ApiSync.Proofs.Text
import ApiSync.Python.Literal
/-!
# Integer literals

An integer is written in one of four radixes, with underscores between the digits as one likes and
perhaps a minus sign in front.  However it is written its constant is the number nearest to it, so
the integer keeps its value exactly if 53 bits are enough for it.
-/

namespace ApiSync
namespace Python

open Text Number

inductive Radix where
  | binary
  | octal
  | decimal
  | hexadecimal
deriving DecidableEq, Repr

namespace Radix

def base : Radix → Nat
  | .binary => 2
  | .octal => 8
  | .decimal => 10
  | .hexadecimal => 16

/-- What may stand in front of the digits. -/
def marks : Radix → List (List Char)
  | .binary => ["0b".toList, "0B".toList, "0b_".toList, "0B_".toList]
  | .octal => ["0o".toList, "0O".toList, "0o_".toList, "0O_".toList]
  | .decimal => [[]]
  | .hexadecimal => ["0x".toList, "0X".toList, "0x_".toList, "0X_".toList]

theorem base_le (radix : Radix) : radix.base ≤ 16 := by cases radix <;> decide

end Radix

/-- The text is a literal of the whole number: a mark, and groups of digits with an underscore
between any two of them.  A decimal literal begins with a zero only if it is zero. -/
inductive SpellsWhole (n : Nat) : List Char → Prop
  | literal {radix : Radix} {mark : List Char} {groups : List (List Char)} {digits : List Nat}
      (hmark : mark ∈ radix.marks) (hgroups : groups ≠ []) (hfull : ∀ group ∈ groups, group ≠ [])
      (hdigits : SpellsDigits radix.base digits groups.flatten)
      (hzero : radix = .decimal → digits.head? = some 0 → n = 0)
      (hvalue : positional radix.base digits = n) :
      SpellsWhole n (mark ++ joinWith ['_'] groups)

/-- The expression is a literal of the integer, with a minus sign in front or without one. -/
inductive SpellsInteger : Int → Expr → Prop
  | plain {n : Nat} {e : Expr} (hform : e.form = .integer) (htext : SpellsWhole n e.text.toList) :
      SpellsInteger n e
  | negated {n : Nat} {e operand : Expr} (hform : e.form = .unary "-" operand)
      (hoperand : operand.form = .integer) (htext : SpellsWhole n operand.text.toList) :
      SpellsInteger (-n) e

/-! ## Reading a literal -/

theorem filter_joinWith {c : Char} {groups : List (List Char)} (h : c ∉ groups.flatten) :
    (joinWith [c] groups).filter (· ≠ c) = groups.flatten := by
  have hkeep : ∀ group : List Char, c ∉ group → group.filter (· ≠ c) = group := by
    intro group hc
    refine List.filter_eq_self.mpr fun d hd => decide_eq_true ?_
    rintro rfl
    exact hc hd
  induction groups with
  | nil => rfl
  | cons group groups ih =>
    rw [List.flatten_cons, List.mem_append, not_or] at h
    cases groups with
    | nil =>
      rw [joinWith, List.flatten_cons, List.flatten_nil, List.append_nil]
      exact hkeep group h.1
    | cons next groups =>
      rw [joinWith_cons _ _ (List.cons_ne_nil next groups), List.filter_append,
        List.filter_append, hkeep group h.1, ih h.2, List.flatten_cons]
      simp

theorem not_mem_of_spellsDigits {radix : Radix} {digits : List Nat} {word : List Char}
    (h : SpellsDigits radix.base digits word) : ∀ c ∈ word, c ∉ "jJlL_".toList := by
  induction h with
  | nil => exact fun c hc => absurd hc List.not_mem_nil
  | cons hdigit _ ih => exact List.forall_mem_cons.mpr ⟨hdigit.not_mem radix.base_le, ih⟩

/-- The radix that the mark of a numeral stands for, and what is behind the mark. -/
def splitRadix (cs : List Char) : Nat × List Char :=
  match cs with
  | '0' :: x :: rest =>
    if x = 'x' || x = 'X' then (16, rest)
    else if x = 'o' || x = 'O' then (8, rest)
    else if x = 'b' || x = 'B' then (2, rest)
    else (10, cs)
  | _ => (10, cs)

theorem integerValue?_eq (text : String) :
    integerValue? text =
      if (withoutUnderscores text).getLast?.any (fun c => "jJlL".toList.contains c) then none
      else (radixValue? (splitRadix (withoutUnderscores text)).1
        (splitRadix (withoutUnderscores text)).2).map ofNat := rfl

/-- A decimal numeral has no mark, even if it begins with a zero. -/
theorem splitRadix_decimal {digits : List Nat} {word : List Char}
    (h : SpellsDigits 10 digits word) : splitRadix word = (10, word) := by
  have hsecond : ∀ (digit : Nat) (c : Char), IsRadixDigit 10 digit c → c ∉ "xXoObB".toList := by
    rintro digit c ⟨hlt, hc⟩
    interval_cases digit <;> rcases hc with rfl | rfl <;> decide
  cases h with
  | nil => rfl
  | cons _ hrest =>
    cases hrest with
    | nil => rw [splitRadix.eq_def]; split <;> simp_all
    | cons hdigit _ =>
      rw [splitRadix.eq_def]
      split
      · next x rest heq =>
        obtain ⟨-, rfl, rfl⟩ : _ ∧ _ ∧ _ := by simpa using heq
        have hx := hsecond _ _ hdigit
        simp_all
      · rfl

theorem splitRadix_mark {radix : Radix} {mark : List Char} (hmark : mark ∈ radix.marks)
    {digits : List Nat} {word : List Char} (h : SpellsDigits radix.base digits word) :
    splitRadix (mark.filter (· ≠ '_') ++ word) = (radix.base, word) := by
  cases radix with
  | decimal =>
    rw [List.mem_singleton.mp hmark]
    exact splitRadix_decimal h
  | _ =>
    simp only [Radix.marks, List.mem_cons, List.not_mem_nil, or_false] at hmark
    rcases hmark with rfl | rfl | rfl | rfl <;> rfl

theorem not_mem_mark {radix : Radix} {mark : List Char} (h : mark ∈ radix.marks) :
    ∀ c ∈ mark, c ∉ "jJlL".toList := by
  have hmarks : radix.marks.all (List.all · fun c => c ∉ "jJlL".toList) = true := by
    cases radix <;> decide
  intro c hc
  exact of_decide_eq_true (List.all_eq_true.mp (List.all_eq_true.mp hmarks mark h) c hc)

theorem integerValue?_of_spellsWhole {n : Nat} {text : String} (h : SpellsWhole n text.toList) :
    integerValue? text = some (ofNat n) := by
  generalize hcs : text.toList = cs at h
  obtain ⟨hmark, hgroups, hfull, hdigits, -, rfl⟩ := h
  rename_i radix mark groups digits
  have hchars := not_mem_of_spellsDigits hdigits
  have hword : (joinWith ['_'] groups).filter (· ≠ '_') = groups.flatten :=
    filter_joinWith fun hmem => hchars _ hmem (by decide)
  have hclean : withoutUnderscores text = mark.filter (· ≠ '_') ++ groups.flatten := by
    rw [withoutUnderscores, hcs, List.filter_append, hword]
  have hend : ∀ c ∈ withoutUnderscores text, c ∉ "jJlL".toList := by
    rw [hclean]
    refine List.forall_mem_append.mpr ⟨fun c hc => ?_, fun c hc hmem => ?_⟩
    · exact not_mem_mark hmark c (List.mem_of_mem_filter hc)
    · exact hchars c hc (List.mem_append_left ['_'] hmem)
  have hlast : (withoutUnderscores text).getLast?.any (fun c => "jJlL".toList.contains c) =
      false := by
    rw [← Bool.not_eq_true, Option.any_eq_true]
    rintro ⟨c, hc, hmem⟩
    exact hend c (List.mem_of_getLast? hc) (List.contains_iff_mem.mp hmem)
  rw [integerValue?_eq, hlast, hclean, splitRadix_mark hmark hdigits,
    radixValue?_of_spellsDigits radix.base_le hdigits]
  rfl

/-! ## Constants -/

section Constants

variable {n : Nat} {e operand : Expr}

theorem constant?_of_spellsWhole (hform : e.form = .integer)
    (htext : SpellsWhole n e.text.toList) : e.constant? = .ok (some (.number (ofNat n))) := by
  rw [Expr.constant?, hform]
  dsimp only
  rw [Expr.number?, hform]
  dsimp only
  rw [integerValue?_of_spellsWhole htext]
  rfl

theorem constant?_of_negated (hform : e.form = .unary "-" operand)
    (hoperand : operand.form = .integer) (htext : SpellsWhole n operand.text.toList) :
    e.constant? = .ok (some (.number (ofNat n).negate)) := by
  rw [Expr.constant?, hform]
  dsimp only
  rw [if_pos rfl, Expr.number?, hoperand]
  dsimp only
  rw [integerValue?_of_spellsWhole htext]
  rfl

end Constants

/-- The constant of an integer literal is a number, and the integer itself exactly if 53 bits are
enough for it. -/
theorem integer_kept_iff {n : Int} {e : Expr} (h : SpellsInteger n e) :
    ∃ x : Number, e.constant? = .ok (some (.number x)) ∧
      (x.toInt? = some n ↔ IsExact n.natAbs) := by
  cases h with
  | @plain n e hform htext =>
    exact ⟨ofNat n, constant?_of_spellsWhole hform htext, toInt?_ofNat_iff n⟩
  | @negated n e operand hform hoperand htext =>
    refine ⟨(ofNat n).negate, constant?_of_negated hform hoperand htext, ?_⟩
    rw [Int.natAbs_neg, Int.natAbs_natCast, ← toInt?_ofNat_iff, toInt?_negate]
    simp only [Option.map_eq_some_iff, neg_inj, exists_eq_right]

/-- The operand of `-0x_dead_BEEF`. -/
def hexadecimalOperand : Expr := .mk "0x_dead_BEEF" .integer

def hexadecimalLiteral : Expr := .mk "-0x_dead_BEEF" (.unary "-" hexadecimalOperand)

theorem spellsWhole_hexadecimal : SpellsWhole 0xdeadbeef hexadecimalOperand.text.toList :=
  @SpellsWhole.literal _ .hexadecimal "0x_".toList ["dead".toList, "BEEF".toList]
    [13, 14, 10, 13, 11, 14, 14, 15] (by decide) (by decide) (by decide)
    (by decide) (by decide) (by decide)

theorem integer_kept_of_hexadecimal :
    SpellsInteger (-0xdeadbeef) hexadecimalLiteral ∧
    ∃ x : Number, hexadecimalLiteral.constant? = .ok (some (.number x)) ∧
      x.toInt? = some (-0xdeadbeef) := by
  have hspells : SpellsInteger (-0xdeadbeef) hexadecimalLiteral :=
    .negated rfl rfl spellsWhole_hexadecimal
  obtain ⟨x, hconstant, hkept⟩ := integer_kept_iff hspells
  exact ⟨hspells, x, hconstant, hkept.mpr (isExact_of_lt (by decide))⟩

/-- An identifier of 58 bits. -/
def identifierLiteral : Expr := .mk "175928847299117063" .integer

/-- The identifier becomes the nearest multiple of 32. -/
theorem integer_not_kept_of_identifier :
    SpellsInteger 175928847299117063 identifierLiteral ∧
    ¬∃ x : Number, identifierLiteral.constant? = .ok (some (.number x)) ∧
      x.toInt? = some 175928847299117063 := by
  have hspells : SpellsWhole 175928847299117063 identifierLiteral.text.toList :=
    @SpellsWhole.literal _ .decimal [] ["175928847299117063".toList]
      [1, 7, 5, 9, 2, 8, 8, 4, 7, 2, 9, 9, 1, 1, 7, 0, 6, 3] (by decide) (by decide) (by decide)
      (by decide) (by decide) (by decide)
  refine ⟨.plain rfl hspells, ?_⟩
  rintro ⟨x, hconstant, hvalue⟩
  rw [constant?_of_spellsWhole rfl hspells] at hconstant
  obtain rfl : ofNat 175928847299117063 = x := by
    simpa only [Except.ok.injEq, Option.some.injEq, Constant.number.injEq] using hconstant
  exact not_isExact_of_odd (by decide) (by decide) ((toInt?_ofNat_iff _).mp hvalue)

end Python
end ApiSync
