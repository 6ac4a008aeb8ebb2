import Mathlib.Tactic.Ring
import ApiSync.Number
/-!
# Whole numbers that are kept

A whole number is rounded to the nearest number with a mantissa of 53 bits.  It is kept exactly if
it has no more bits than that, not counting the zeros at its end, and is not beyond the largest
number.
-/

namespace ApiSync
namespace Number

/-- The whole number has a mantissa of at most 53 bits and an exponent that is not too large. -/
def IsExact (n : Nat) : Prop :=
  ∃ mantissa exponent : Nat, mantissa < 2 ^ 53 ∧ exponent ≤ 971 ∧ n = mantissa * 2 ^ exponent

theorem isExact_of_lt {n : Nat} (h : n < 2 ^ 53) : IsExact n :=
  ⟨n, 0, h, Nat.zero_le _, (Nat.mul_one n).symm⟩

/-- An odd number has no zeros at its end. -/
theorem not_isExact_of_odd {n : Nat} (hodd : n % 2 = 1) (hlong : 2 ^ 53 ≤ n) : ¬IsExact n := by
  rintro ⟨m, e, hm, -, rfl⟩
  cases e with
  | zero => omega
  | succ e =>
    rw [Nat.pow_succ, ← Nat.mul_assoc, Nat.mul_mod_left] at hodd
    cases hodd

/-! ## Values -/

theorem natPow_eq (base exponent : Nat) : Nat.pow base exponent = base ^ exponent := rfl

theorem scaled_natCast (num den shift : Nat) : scaled num den shift = (num * 2 ^ shift, den) := by
  rw [scaled, if_neg (by omega), Int.toNat_natCast]
  rfl

theorem scaled_neg (num den shift : Nat) : scaled num den (-shift) = (num, den * 2 ^ shift) := by
  cases shift with
  | zero =>
    rw [Nat.cast_zero, Int.neg_zero, Nat.pow_zero, Nat.mul_one]
    exact (scaled_natCast num den 0).trans (by rw [Nat.pow_zero, Nat.mul_one])
  | succ shift =>
    rw [scaled, if_pos (by omega), Int.natAbs_neg, Int.natAbs_natCast]
    rfl

theorem toInt?_finite (negative : Bool) (mantissa exponent : Nat) :
    (finite negative mantissa exponent).toInt? =
      some (if negative then -((mantissa * 2 ^ exponent : Nat) : Int)
        else (mantissa * 2 ^ exponent : Nat)) := by
  simp only [toInt?, magnitude, scaled_natCast, Nat.mod_one, if_true, Nat.div_one]

/-- A mantissa that was shifted to the left by as much as the exponent takes back. -/
theorem toInt?_shifted (negative : Bool) (n shift : Nat) :
    (finite negative (n * 2 ^ shift) (-shift)).toInt? =
      some (if negative then -(n : Int) else n) := by
  simp only [toInt?, magnitude, scaled_neg, Nat.one_mul, Nat.mul_mod_left, if_true,
    Nat.mul_div_cancel _ (Nat.two_pow_pos shift)]

theorem toInt?_negate (x : Number) : x.negate.toInt? = x.toInt?.map (- ·) := by
  cases x with
  | nan => rfl
  | infinite negative => rfl
  | finite negative m e =>
    simp only [negate, toInt?]
    split
    · cases negative <;> simp
    · rfl

/-! ## Rounding -/

theorem roundHalfEven_mul (q : Nat) {d : Nat} (h : 0 < d) : roundHalfEven (q * d) d = q := by
  simp only [roundHalfEven, Nat.mul_mod_left, Nat.mul_zero, if_pos h, Nat.mul_div_cancel _ h]

theorem roundHalfEven_le (n d : Nat) : roundHalfEven n d ≤ n / d + 1 := by
  simp only [roundHalfEven]
  split
  · omega
  · split <;> omega

theorem exponentFor_few {n bits : Nat} (h : n ≠ 0) (hbits : n.log2 + bits = 52) :
    exponentFor n 1 = -(bits : Int) := by
  have hguess : (n.log2 : Int) - (Nat.log2 1 : Nat) - 52 = -(bits : Int) := by
    rw [(by decide : Nat.log2 1 = 0)]
    omega
  have hlow : 2 ^ 52 ≤ n * 2 ^ bits := by
    rw [← hbits, Nat.pow_add]
    exact Nat.mul_le_mul_right _ (Nat.log2_self_le h)
  simp only [exponentFor, hguess, Int.neg_neg, scaled_natCast, Nat.one_mul, natPow_eq,
    if_neg (Nat.not_lt.mpr hlow), minExponent]
  omega

theorem exponentFor_many {n bits : Nat} (h : n ≠ 0) (hbits : n.log2 = 52 + bits) :
    exponentFor n 1 = bits := by
  have hguess : (n.log2 : Int) - (Nat.log2 1 : Nat) - 52 = bits := by
    rw [(by decide : Nat.log2 1 = 0)]
    omega
  have hlow : 2 ^ bits * 2 ^ 52 ≤ n := by
    rw [← Nat.pow_add, Nat.add_comm, ← hbits]
    exact Nat.log2_self_le h
  simp only [exponentFor, hguess, scaled_neg, Nat.one_mul, natPow_eq,
    if_neg (Nat.not_lt.mpr hlow), minExponent]
  omega

/-- A mantissa and an exponent as a number, unless the exponent is too large. -/
def capped (negative : Bool) (mantissa : Nat) (exponent : Int) : Number :=
  if maxExponent < exponent then .infinite negative else .finite negative mantissa exponent

/-- A mantissa that rounding up made too long is halved. -/
theorem ofRatio_eq (negative : Bool) {num den mantissa : Nat} {exponent : Int} (hnum : num ≠ 0)
    (hden : den ≠ 0) (hexponent : exponentFor num den = exponent)
    (hmantissa : roundHalfEven (scaled num den (-exponent)).1 (scaled num den (-exponent)).2 =
      mantissa) :
    ofRatio negative num den =
      if mantissa = 2 ^ 53 then capped negative (2 ^ 52) (exponent + 1)
      else capped negative mantissa exponent := by
  rw [ofRatio, if_neg (not_or.mpr ⟨hnum, hden⟩), hexponent, natPow_eq 2 53, natPow_eq 2 52]
  -- The limits are closed terms that unfolding would compute.
  generalize 2 ^ 53 = full
  generalize 2 ^ 52 = half
  dsimp only
  rw [hmantissa]
  by_cases h : mantissa = full
  · rw [if_pos h, if_pos h]
    rfl
  · rw [if_neg h, if_neg h]
    rfl

/-- A number with at most 53 bits needs no rounding. -/
theorem ofNat_few {n bits : Nat} (h : n ≠ 0) (hbits : n.log2 + bits = 52) :
    ofNat n = finite false (n * 2 ^ bits) (-bits) := by
  have hpow : 2 ^ 53 = 2 ^ (n.log2 + 1) * 2 ^ bits := by
    rw [← Nat.pow_add]
    congr 1
    omega
  have hlt : n * 2 ^ bits < 2 ^ 53 := by
    rw [hpow]
    exact Nat.mul_lt_mul_of_pos_right Nat.lt_log2_self (Nat.two_pow_pos bits)
  have hround : roundHalfEven (n * 2 ^ bits) 1 = n * 2 ^ bits := by
    simpa only [Nat.mul_one] using roundHalfEven_mul (n * 2 ^ bits) Nat.one_pos
  rw [ofNat, ofRatio_eq false h Nat.one_ne_zero (exponentFor_few h hbits)
    (by rw [Int.neg_neg, scaled_natCast, hround]), if_neg (Nat.ne_of_lt hlt), capped, maxExponent,
    if_neg (by omega)]

/-- A number with more bits is rounded to a multiple of the last bit that is left; there is nothing
to round if it was one. -/
theorem ofNat_many {n bits : Nat} (h : n ≠ 0) (hbits : n.log2 = 52 + bits) :
    ∃ mantissa exponent : Nat, mantissa < 2 ^ 53 ∧ ofNat n = capped false mantissa exponent ∧
      (2 ^ bits ∣ n → n = mantissa * 2 ^ exponent ∧ exponent = bits) := by
  have hpow : 2 ^ (n.log2 + 1) = 2 ^ 53 * 2 ^ bits := by
    rw [← Nat.pow_add, hbits]
    congr 1
    omega
  have hquotient : n / 2 ^ bits < 2 ^ 53 := by
    rw [Nat.div_lt_iff_lt_mul (Nat.two_pow_pos bits), ← hpow]
    exact Nat.lt_log2_self
  have hround : 2 ^ bits ∣ n →
      n = roundHalfEven n (2 ^ bits) * 2 ^ bits ∧ roundHalfEven n (2 ^ bits) < 2 ^ 53 := by
    rintro ⟨q, rfl⟩
    rw [Nat.mul_div_cancel_left _ (Nat.two_pow_pos bits)] at hquotient
    rw [Nat.mul_comm, roundHalfEven_mul _ (Nat.two_pow_pos bits)]
    exact ⟨rfl, hquotient⟩
  have hle := roundHalfEven_le n (2 ^ bits)
  rw [ofNat, ofRatio_eq false h Nat.one_ne_zero (exponentFor_many h hbits)
    (by rw [scaled_neg, Nat.one_mul])]
  by_cases hfull : roundHalfEven n (2 ^ bits) = 2 ^ 53
  · refine ⟨2 ^ 52, bits + 1, by decide, by rw [if_pos hfull]; rfl, fun hdvd => ?_⟩
    exact absurd hfull (Nat.ne_of_lt (hround hdvd).2)
  · refine ⟨roundHalfEven n (2 ^ bits), bits, by omega, by rw [if_neg hfull], fun hdvd => ?_⟩
    exact ⟨(hround hdvd).1, rfl⟩

/-! ## Exactness -/

/-- An exact number of many bits ends in as many zeros as the mantissa has no room for. -/
theorem IsExact.dvd {n bits : Nat} (hexact : IsExact n) (h : n ≠ 0) (hbits : n.log2 = 52 + bits) :
    2 ^ bits ∣ n ∧ bits ≤ 971 := by
  obtain ⟨m, e, hm, he, rfl⟩ := hexact
  have hpower : 2 ^ (52 + bits) < 2 ^ (53 + e) := calc
    2 ^ (52 + bits) ≤ m * 2 ^ e := hbits ▸ Nat.log2_self_le h
    _ < 2 ^ 53 * 2 ^ e := Nat.mul_lt_mul_of_pos_right hm (Nat.two_pow_pos e)
    _ = 2 ^ (53 + e) := (Nat.pow_add 2 53 e).symm
  have hlt : 52 + bits < 53 + e := (Nat.pow_lt_pow_iff_right (by decide)).mp hpower
  exact ⟨Dvd.dvd.mul_left (Nat.pow_dvd_pow 2 (by omega)) m, by omega⟩

/-- A whole number keeps its value exactly if it has a short mantissa. -/
theorem toInt?_ofNat_iff (n : Nat) : (ofNat n).toInt? = some (n : Int) ↔ IsExact n := by
  by_cases h : n = 0
  · refine iff_of_true ?_ (isExact_of_lt (h ▸ Nat.two_pow_pos 53))
    rw [h]
    decide +kernel
  by_cases hfew : n.log2 ≤ 52
  · obtain ⟨bits, hbits⟩ := Nat.exists_eq_add_of_le hfew
    refine iff_of_true ?_ (isExact_of_lt ((Nat.log2_lt h).mp (by omega)))
    rw [ofNat_few h hbits.symm, toInt?_shifted]
    rfl
  · obtain ⟨bits, hbits⟩ := Nat.exists_eq_add_of_le (Nat.le_of_not_le hfew)
    obtain ⟨m, e, hm, hvalue, hkept⟩ := ofNat_many h hbits
    rw [hvalue, capped, maxExponent]
    constructor
    · intro hsame
      split at hsame
      · cases hsame
      · next he =>
        rw [toInt?_finite] at hsame
        exact ⟨m, e, hm, by omega, (Int.ofNat_inj.mp (Option.some.inj hsame)).symm⟩
    · intro hexact
      obtain ⟨hdvd, hbound⟩ := hexact.dvd h hbits
      obtain ⟨hn, rfl⟩ := hkept hdvd
      rw [if_neg (by omega), toInt?_finite, ← hn]
      rfl

end Number
end ApiSync
