import ApiSync.Proofs.Number.Exact
/-!
# Shares

A part of a whole, as a number, lies between zero and one.  Rounding cannot take it past one, since
one needs no rounding.
-/

namespace ApiSync
namespace Number

def one : Number := ofNat 1

/-- The number is at least zero and at most one. -/
def IsShare (x : Number) : Prop := zero.le x = true ∧ x.le one = true

theorem one_eq : one = finite false (2 ^ 52) (-(52 : Nat)) := by
  have hbits : Nat.log2 1 + 52 = 52 := by decide
  rw [one, ofNat_few Nat.one_ne_zero hbits, Nat.one_mul]

/-- Rounding does not go past a whole number. -/
theorem roundHalfEven_le_of_le {n d q : Nat} (hd : 0 < d) (h : n ≤ q * d) :
    roundHalfEven n d ≤ q := by
  have hdiv : n / d ≤ q := Nat.div_le_of_le_mul (by rwa [Nat.mul_comm])
  by_cases hq : n / d = q
  · have hexact : n = q * d := by
      have hmod := Nat.div_add_mod n d
      rw [hq, Nat.mul_comm] at hmod
      omega
    rw [hexact, roundHalfEven_mul q hd]
  · have hround := roundHalfEven_le n d
    omega

theorem le_finite_iff {m k n l : Nat} :
    (finite false m (-(k : Nat))).le (finite false n (-(l : Nat))) = true ↔
      m * 2 ^ l ≤ n * 2 ^ k := by
  simp only [le, isNan, lt, signedRatio, magnitude, scaled_neg, Nat.one_mul]
  simp only [Bool.not_false, Bool.true_and, Bool.not_eq_true', decide_eq_false_iff_not, Int.not_lt,
    Bool.false_eq_true, if_false]
  exact_mod_cast Iff.rfl

theorem isShare_finite {m k : Nat} (h : m ≤ 2 ^ k) : IsShare (finite false m (-(k : Nat))) := by
  have hzero : zero = finite false 0 (-(1074 : Nat)) := rfl
  constructor
  · rw [hzero, le_finite_iff, Nat.zero_mul]
    exact Nat.zero_le _
  · rw [one_eq, le_finite_iff, Nat.mul_comm]
    exact Nat.mul_le_mul_left _ h

/-- The exponent of a part of a whole is that of a fraction. -/
theorem exists_exponentFor {num den : Nat} (hnum : num ≠ 0) (h : num ≤ den) :
    ∃ k : Nat, 0 < k ∧ exponentFor num den = -(k : Nat) := by
  have hlog : num.log2 ≤ den.log2 :=
    (Nat.le_log2 (by omega)).mpr ((Nat.log2_self_le hnum).trans h)
  have hbound : exponentFor num den ≤ -1 := by
    simp only [exponentFor, minExponent]
    split <;> omega
  exact ⟨(exponentFor num den).natAbs, by omega, by omega⟩

theorem isShare_ofRatio {num den : Nat} (h : num ≤ den) : IsShare (ofRatio false num den) := by
  by_cases hzero : num = 0 ∨ den = 0
  · rw [ofRatio, if_pos hzero]
    exact isShare_finite (k := 1074) (Nat.zero_le _)
  · obtain ⟨hnum, hden⟩ := not_or.mp hzero
    obtain ⟨k, hk, hexponent⟩ := exists_exponentFor hnum h
    have hround : roundHalfEven (num * 2 ^ k) den ≤ 2 ^ k :=
      roundHalfEven_le_of_le (Nat.pos_of_ne_zero hden) (by
        rw [Nat.mul_comm]
        exact Nat.mul_le_mul_left _ h)
    rw [ofRatio_eq false hnum hden hexponent (by rw [Int.neg_neg, scaled_natCast])]
    split
    · next hfull =>
      have hhalf : 2 ^ 52 ≤ 2 ^ (k - 1) := by
        rw [hfull] at hround
        have hpow := (Nat.pow_le_pow_iff_right (by decide)).mp hround
        exact Nat.pow_le_pow_right (by decide) (by omega)
      have hshift : -((k : Nat) : Int) + 1 = -((k - 1 : Nat) : Int) := by omega
      rw [capped, maxExponent, if_neg (by omega), hshift]
      exact isShare_finite hhalf
    · rw [capped, maxExponent, if_neg (by omega)]
      exact isShare_finite hround

end Number
end ApiSync
