import Mathlib
import Cypher.Decimal.Numeral

/-!
# Bit patterns and rounding

The bits below the sign are the magnitude. Counted in steps of the smallest number, it grows by
`2 ^ 52` with each exponent and by one with each significand, across the border of the subnormals.
-/

namespace Cypher.Binary64

/-- The bits below the sign. -/
def magnitude (x : Binary64) : Nat := x.bits.toNat % 2 ^ 63

theorem ofMagnitude_magnitude (x : Binary64) : ofMagnitude x.negative x.magnitude = x := by
  have hlt := x.bits.toNat_lt
  have hbits : (if x.negative then 2 ^ 63 + x.magnitude else x.magnitude) = x.bits.toNat := by
    simp only [negative, magnitude, decide_eq_true_eq]
    split <;> omega
  rw [ofMagnitude, hbits, UInt64.ofNat_toNat]

theorem magnitude_ofMagnitude (negative : Bool) {m : Nat} (h : m < 2 ^ 63) :
    (ofMagnitude negative m).magnitude = m := by
  simp only [magnitude, ofMagnitude, UInt64.toNat_ofNat']
  split <;> omega

theorem fraction_lt (x : Binary64) : x.fraction < 2 ^ 52 := by
  rw [fraction]
  exact Nat.mod_lt _ (by decide)

theorem exponentField_lt {x : Binary64} (h : x.isFinite = true) : x.exponentField < 2047 := by
  have hlt : x.exponentField < 2 ^ 11 := by
    rw [exponentField]
    exact Nat.mod_lt _ (by decide)
  have hne : x.exponentField ≠ 2047 := by simpa [isFinite] using h
  omega

theorem magnitude_eq_field (x : Binary64) :
    x.magnitude = x.exponentField * 2 ^ 52 + x.fraction := by
  simp only [magnitude, exponentField, fraction]
  omega

theorem magnitude_eq (x : Binary64) :
    x.magnitude = (x.exponent + 1074).toNat * 2 ^ 52 + x.significand := by
  rw [magnitude_eq_field]
  simp only [exponent, significand]
  split <;> omega

theorem magnitude_lt {x : Binary64} (h : x.isFinite = true) : x.magnitude < 2047 * 2 ^ 52 := by
  have hfield := exponentField_lt h
  have hfraction := fraction_lt x
  rw [magnitude_eq_field]
  omega

theorem significand_lt (x : Binary64) : x.significand < 2 ^ 53 := by
  have hfraction := fraction_lt x
  simp only [significand]
  split <;> omega

theorem significand_pos {x : Binary64} (h : x.isZero = false) : 0 < x.significand := by
  simp only [isZero, Bool.and_eq_false_iff, beq_eq_false_iff_ne] at h
  simp only [significand]
  split <;> omega

theorem exponent_lt {x : Binary64} (h : x.isFinite = true) : x.exponent ≤ 971 := by
  have hfield := exponentField_lt h
  simp only [exponent]
  omega

theorem le_exponent (x : Binary64) : -1074 ≤ x.exponent := by
  simp only [exponent]
  omega

theorem le_significand {x : Binary64} (h : -1074 < x.exponent) : 2 ^ 52 ≤ x.significand := by
  simp only [exponent] at h
  simp only [significand]
  split <;> omega

theorem one_lt_exponentField_iff (x : Binary64) : 1 < x.exponentField ↔ -1074 < x.exponent := by
  simp only [exponent]
  omega

theorem eq_ofMagnitude_zero {x : Binary64} (h : x.isZero = true) :
    ofMagnitude x.negative 0 = x := by
  have hzero : x.magnitude = 0 := by
    simp only [isZero, Bool.and_eq_true, beq_iff_eq] at h
    rw [magnitude_eq_field, h.1, h.2, Nat.zero_mul, Nat.zero_add]
  rw [← hzero, ofMagnitude_magnitude]

theorem isFinite_ofMagnitude (negative : Bool) {m : Nat} (h : m < 2047 * 2 ^ 52) :
    (ofMagnitude negative m).isFinite = true := by
  have hbits : (ofMagnitude negative m).bits.toNat =
      if negative then 2 ^ 63 + m else m := by
    rw [ofMagnitude, UInt64.toNat_ofNat']
    split <;> omega
  rw [isFinite, bne_iff_ne, exponentField, hbits]
  split <;> omega

end Cypher.Binary64

/-! ## Rounding to nearest

The quotient that is rounded is followed as a rational number. A number of 64 bits is the result
for all quotients within half a unit of its last place, and below a power of two, where the numbers
stand twice as close, for all within a quarter of a unit. -/

namespace Cypher.Decimal

theorem two_zpow_pos (e : Int) : (0 : ℚ) < 2 ^ e := zpow_pos (by norm_num) e

theorem roundHalfEven_eq {num den m : Nat} (hden : 0 < den)
    (hlow : 2 * m * den ≤ 2 * num + den) (hhigh : 2 * num ≤ 2 * m * den + den)
    (htie : 2 * m * den = 2 * num + den ∨ 2 * num = 2 * m * den + den → m % 2 = 0) :
    roundHalfEven num den = m := by
  have hmod := Nat.mod_lt num hden
  have hdiv := Nat.div_add_mod num den
  have hupper : m ≤ num / den + 1 := by
    by_contra hlt
    have hscaled := Nat.mul_le_mul_left den (show num / den + 2 ≤ m by omega)
    have hcomm : 2 * m * den = 2 * (den * m) := by ring
    rw [Nat.mul_add] at hscaled
    omega
  have hlower : num / den ≤ m := by
    by_contra hlt
    have hscaled := Nat.mul_le_mul_left den (show m + 1 ≤ num / den by omega)
    have hcomm : 2 * m * den = 2 * (den * m) := by ring
    rw [Nat.mul_add] at hscaled
    omega
  have hcases : m = num / den ∨ m = num / den + 1 := by omega
  simp only [roundHalfEven]
  rcases hcases with hm | hm
  · have hcomm : 2 * m * den = 2 * (den * (num / den)) := by rw [hm]; ring
    have hnot : ¬den < 2 * (num % den) := by omega
    by_cases hless : 2 * (num % den) < den
    · rw [if_pos hless, hm]
    · have heven := htie (.inr (by omega))
      rw [if_neg hless, if_neg hnot]
      omega
  · have hcomm : 2 * m * den = 2 * (den * (num / den)) + 2 * den := by rw [hm]; ring
    have hnot : ¬2 * (num % den) < den := by omega
    by_cases hmore : den < 2 * (num % den)
    · rw [if_neg hnot, if_pos hmore, hm]
    · have heven := htie (.inl (by omega))
      rw [if_neg hnot, if_neg hmore]
      omega

theorem roundHalfEven_eq_of_abs_le {num den m : Nat} (hden : 0 < den)
    (hlow : (m : ℚ) - 1 / 2 ≤ num / den) (hhigh : (num : ℚ) / den ≤ m + 1 / 2)
    (htie : (num : ℚ) / den = m - 1 / 2 ∨ (num : ℚ) / den = m + 1 / 2 → m % 2 = 0) :
    roundHalfEven num den = m := by
  have hpos : (0 : ℚ) < den := by exact_mod_cast hden
  have hlow' : (2 * m * den : ℚ) ≤ 2 * num + den := by
    rw [le_div_iff₀ hpos] at hlow
    linarith
  have hhigh' : (2 * num : ℚ) ≤ 2 * m * den + den := by
    rw [div_le_iff₀ hpos] at hhigh
    linarith
  refine roundHalfEven_eq hden (by exact_mod_cast hlow') (by exact_mod_cast hhigh') ?_
  rintro (hend | hend)
  · have hend' : (2 * m * den : ℚ) = 2 * num + den := by exact_mod_cast hend
    refine htie (.inl ?_)
    rw [div_eq_iff hpos.ne']
    linarith
  · have hend' : (2 * num : ℚ) = 2 * m * den + den := by exact_mod_cast hend
    refine htie (.inr ?_)
    rw [div_eq_iff hpos.ne']
    linarith

/-- A power of two as the quotient of two natural numbers, one of which is 1. -/
theorem two_zpow_eq (e : Int) : (2 : ℚ) ^ e = 2 ^ e.toNat / 2 ^ (-e).toNat := by
  rw [← zpow_natCast, ← zpow_natCast, ← zpow_sub₀ (by norm_num)]
  congr 1
  omega

theorem two_zpow_add_one (e : Int) : (2 : ℚ) ^ (e + 1) = 2 * 2 ^ e := by
  rw [zpow_add_one₀ (by norm_num), mul_comm]

theorem two_zpow_le_natCast {n : Nat} (h : 0 < n) : (2 : ℚ) ^ (n.log2 : Int) ≤ n := by
  rw [zpow_natCast]
  exact_mod_cast Nat.log2_self_le (by omega)

theorem natCast_lt_two_zpow (n : Nat) : (n : ℚ) < 2 ^ ((n.log2 : Int) + 1) := by
  have h := Nat.lt_log2_self (n := n)
  rw [show ((n.log2 : Int) + 1) = ((n.log2 + 1 : Nat) : Int) by omega, zpow_natCast]
  exact_mod_cast h

/-- The first guess of `floorLog2` is off by at most one. -/
private theorem log2_sub_log2_spec {num den : Nat} (hnum : 0 < num) (hden : 0 < den) :
    (2 : ℚ) ^ ((num.log2 : Int) - den.log2 - 1) ≤ num / den ∧
      (num : ℚ) / den < 2 ^ ((num.log2 : Int) - den.log2 + 1) := by
  have hpos : (0 : ℚ) < den := by exact_mod_cast hden
  have hdenLow := two_zpow_le_natCast hden
  have hdenHigh := natCast_lt_two_zpow den
  set guess : Int := num.log2 - den.log2 with hguess
  constructor
  · rw [le_div_iff₀ hpos]
    calc (2 : ℚ) ^ (guess - 1) * den ≤ 2 ^ (guess - 1) * 2 ^ ((den.log2 : Int) + 1) := by
          gcongr
      _ = 2 ^ (num.log2 : Int) := by
          rw [← zpow_add₀ (by norm_num)]
          congr 1
          omega
      _ ≤ num := two_zpow_le_natCast hnum
  · rw [div_lt_iff₀ hpos]
    calc (num : ℚ) < 2 ^ ((num.log2 : Int) + 1) := natCast_lt_two_zpow num
      _ = 2 ^ (guess + 1) * 2 ^ (den.log2 : Int) := by
          rw [← zpow_add₀ (by norm_num)]
          congr 1
          omega
      _ ≤ 2 ^ (guess + 1) * den := by gcongr

/-- The comparison by which `floorLog2` tells whether its guess is too large. -/
private theorem two_zpow_le_quotient_iff (num : Nat) {den : Nat} (hden : 0 < den) (e : Int) :
    (if 0 ≤ e then decide (den * 2 ^ e.toNat ≤ num)
      else decide (den ≤ num * 2 ^ (-e).toNat)) = true ↔ (2 : ℚ) ^ e ≤ num / den := by
  have hpos : (0 : ℚ) < den := by exact_mod_cast hden
  rw [two_zpow_eq, le_div_iff₀ hpos]
  split
  · rename_i hnonneg
    rw [show (-e).toNat = 0 by omega, pow_zero, div_one, decide_eq_true_eq, mul_comm]
    exact_mod_cast Iff.rfl
  · rename_i hneg
    rw [show e.toNat = 0 by omega, pow_zero, div_mul_eq_mul_div, one_mul,
      div_le_iff₀ (by positivity), decide_eq_true_eq]
    exact_mod_cast Iff.rfl

theorem floorLog2_spec {num den : Nat} (hnum : 0 < num) (hden : 0 < den) :
    (2 : ℚ) ^ floorLog2 num den ≤ num / den ∧
      (num : ℚ) / den < 2 ^ (floorLog2 num den + 1) := by
  obtain ⟨hlow, hhigh⟩ := log2_sub_log2_spec hnum hden
  have hreached := two_zpow_le_quotient_iff num hden (num.log2 - den.log2)
  set guess : Int := num.log2 - den.log2 with hguess
  by_cases hle : (2 : ℚ) ^ guess ≤ num / den
  · have hexponent : floorLog2 num den = guess := if_pos (hreached.mpr hle)
    rw [hexponent]
    exact ⟨hle, hhigh⟩
  · have hexponent : floorLog2 num den = guess - 1 := if_neg (mt hreached.mp hle)
    rw [hexponent, sub_add_cancel]
    exact ⟨hlow, lt_of_not_ge hle⟩

theorem floorLog2_eq {num den : Nat} (hnum : 0 < num) (hden : 0 < den) {e : Int}
    (hlow : (2 : ℚ) ^ e ≤ num / den) (hhigh : (num : ℚ) / den < 2 ^ (e + 1)) :
    floorLog2 num den = e := by
  obtain ⟨hlow', hhigh'⟩ := floorLog2_spec hnum hden
  have hlt := (zpow_lt_zpow_iff_right₀ (by norm_num)).mp (hlow.trans_lt hhigh')
  have hlt' := (zpow_lt_zpow_iff_right₀ (by norm_num)).mp (hlow'.trans_lt hhigh)
  omega

/-- Rounding on the grid of the multiples of `2 ^ scale`, as `nearestMagnitude?` does it. -/
private theorem roundHalfEven_scaled {num den m : Nat} (hden : 0 < den) (scale : Int)
    (hlow : ((m : ℚ) - 1 / 2) * 2 ^ scale ≤ num / den)
    (hhigh : (num : ℚ) / den ≤ (m + 1 / 2) * 2 ^ scale)
    (htie : (num : ℚ) / den = (m - 1 / 2) * 2 ^ scale ∨
      (num : ℚ) / den = (m + 1 / 2) * 2 ^ scale → m % 2 = 0) :
    (if 0 ≤ scale then roundHalfEven num (den * 2 ^ scale.toNat)
      else roundHalfEven (num * 2 ^ (-scale).toNat) den) = m := by
  have hscale := two_zpow_pos scale
  rw [← le_div_iff₀ hscale] at hlow
  rw [← div_le_iff₀ hscale] at hhigh
  rw [← div_eq_iff hscale.ne', ← div_eq_iff hscale.ne'] at htie
  split
  · have hquotient : (num : ℚ) / den / 2 ^ scale = num / (den * 2 ^ scale.toNat : Nat) := by
      rw [two_zpow_eq, show (-scale).toNat = 0 by omega, pow_zero, div_one, div_div]
      push_cast
      rfl
    rw [hquotient] at hlow hhigh htie
    exact roundHalfEven_eq_of_abs_le (by positivity) hlow hhigh htie
  · have hquotient : (num : ℚ) / den / 2 ^ scale = (num * 2 ^ (-scale).toNat : Nat) / den := by
      rw [two_zpow_eq, show scale.toNat = 0 by omega, pow_zero]
      push_cast
      field_simp
    rw [hquotient] at hlow hhigh htie
    exact roundHalfEven_eq_of_abs_le hden hlow hhigh htie

/-- A quotient at most a quarter of a unit below `2 ^ (52 + e)` is rounded on the grid of half the
spacing, and there to `2 ^ 53` steps. -/
private theorem roundHalfEven_below_power {num den : Nat} {e : Int} (hnum : 0 < num)
    (hden : 0 < den) (hlow : ((2 : ℚ) ^ 52 - 1 / 4) * 2 ^ e ≤ num / den)
    (hhigh : (num : ℚ) / den < 2 ^ 52 * 2 ^ e) :
    floorLog2 num den = e + 51 ∧
      (if 0 ≤ e - 1 then roundHalfEven num (den * 2 ^ (e - 1).toNat)
        else roundHalfEven (num * 2 ^ (-(e - 1)).toNat) den) = 2 ^ 53 := by
  have hhalf : (2 : ℚ) ^ e = 2 * 2 ^ (e - 1) := by
    rw [← two_zpow_add_one, sub_add_cancel]
  have hhalfPos := two_zpow_pos (e - 1)
  constructor
  · refine floorLog2_eq hnum hden ?_ ?_
    · calc (2 : ℚ) ^ (e + 51) = 2 ^ 51 * 2 ^ e := by
            rw [zpow_add₀ (by norm_num), mul_comm]
            norm_num
        _ ≤ (2 ^ 52 - 1 / 4) * 2 ^ e := by gcongr; norm_num
        _ ≤ num / den := hlow
    · rw [show e + 51 + 1 = e + 52 by ring, zpow_add₀ (by norm_num), mul_comm]
      exact hhigh
  · refine roundHalfEven_scaled hden (e - 1) ?_ ?_ fun _ => by norm_num
    · push_cast
      linarith
    · push_cast
      linarith

/-- A quotient that `significand * 2 ^ exponent` is the nearest number of 64 bits to is rounded to
it. Just below a power of two only the quotients within a quarter of a unit are. -/
theorem nearestMagnitude?_eq {num den m : Nat} {e : Int} (hden : 0 < den) (hpos : 0 < m)
    (hm : m < 2 ^ 53) (hnormal : e = -1074 ∨ -1074 < e ∧ 2 ^ 52 ≤ m)
    (hfinite : (e + 1074).toNat * 2 ^ 52 + m < 2047 * 2 ^ 52)
    (hlow : ((m : ℚ) - 1 / 2) * 2 ^ e ≤ num / den) (hhigh : (num : ℚ) / den ≤ (m + 1 / 2) * 2 ^ e)
    (htie : (num : ℚ) / den = (m - 1 / 2) * 2 ^ e ∨
      (num : ℚ) / den = (m + 1 / 2) * 2 ^ e → m % 2 = 0)
    (hnarrow : -1074 < e → m = 2 ^ 52 → ((m : ℚ) - 1 / 4) * 2 ^ e ≤ num / den) :
    nearestMagnitude? num den = some ((e + 1074).toNat * 2 ^ 52 + m) := by
  have hunit := two_zpow_pos e
  have hone : (1 : ℚ) ≤ m := by exact_mod_cast hpos
  have hmQ : (m : ℚ) + 1 ≤ 2 ^ 53 := by
    have hle : m + 1 ≤ 2 ^ 53 := hm
    exact_mod_cast hle
  have hnum : 0 < num := by
    have hquotient : (0 : ℚ) < num / den := lt_of_lt_of_le (by nlinarith) hlow
    rcases Nat.eq_zero_or_pos num with hzero | hpos
    · rw [hzero, Nat.cast_zero, zero_div] at hquotient
      exact absurd hquotient (lt_irrefl 0)
    · exact hpos
  have hbelow : (num : ℚ) / den < 2 ^ (e + 52 + 1) := by
    rw [show e + 52 + 1 = e + 53 by ring, zpow_add₀ (by norm_num)]
    calc (num : ℚ) / den ≤ (m + 1 / 2) * 2 ^ e := hhigh
      _ < 2 ^ 53 * 2 ^ e := by gcongr; linarith
      _ = 2 ^ e * 2 ^ (53 : Int) := by rw [mul_comm]; norm_num
  simp only [nearestMagnitude?, Nat.pos_iff_ne_zero.mp hnum, if_false]
  by_cases hsame : max (floorLog2 num den - 52) (-1074) = e
  · rw [hsame, roundHalfEven_scaled hden e hlow hhigh htie, if_pos hfinite]
  -- otherwise the quotient is just below a power of two, on the grid of half the spacing
  · obtain ⟨hspecLow, -⟩ := floorLog2_spec hnum hden
    have hbound := (zpow_lt_zpow_iff_right₀ (by norm_num)).mp (hspecLow.trans_lt hbelow)
    obtain ⟨he, hm'⟩ : -1074 < e ∧ 2 ^ 52 ≤ m := by omega
    have hless : (num : ℚ) / den < 2 ^ 52 * 2 ^ e := by
      rw [mul_comm, ← zpow_natCast, ← zpow_add₀ (by norm_num)]
      by_contra hge
      have hlog := floorLog2_eq hnum hden (le_of_not_gt hge) hbelow
      omega
    have hpower : m = 2 ^ 52 := by
      have hlt := lt_of_mul_lt_mul_right (hlow.trans_lt hless) hunit.le
      have hlt' : (m : ℚ) < 2 ^ 52 + 1 := by linarith
      have hle : m < 2 ^ 52 + 1 := by exact_mod_cast hlt'
      omega
    have hquarter := hnarrow he hpower
    rw [hpower] at hquarter
    push_cast at hquarter
    obtain ⟨hlog, hround⟩ := roundHalfEven_below_power hnum hden hquarter hless
    have hmagnitude : (e - 1 + 1074).toNat * 2 ^ 52 + 2 ^ 53 = (e + 1074).toNat * 2 ^ 52 + m := by
      omega
    rw [show max (floorLog2 num den - 52) (-1074) = e - 1 by omega, hround, hmagnitude,
      if_pos hfinite]

theorem nearestMagnitude?_lt {num den m : Nat} (h : nearestMagnitude? num den = some m) :
    m < 2047 * 2 ^ 52 := by
  simp only [nearestMagnitude?, Option.ite_none_right_eq_some] at h
  rw [← Option.some.inj h.2]
  exact h.1

theorem magnitudeOfDecimal?_lt {coefficient m : Nat} {exponent : Int}
    (h : magnitudeOfDecimal? coefficient exponent = some m) : m < 2047 * 2 ^ 52 := by
  have hzero : ∀ {k : Nat}, some 0 = some k → k < 2047 * 2 ^ 52 := by
    intro k hk
    rw [← Option.some.inj hk]
    norm_num
  simp only [magnitudeOfDecimal?] at h
  split_ifs at h
  · exact hzero h
  · exact hzero h
  · exact nearestMagnitude?_lt h
  · exact nearestMagnitude?_lt h

theorem isFinite_of_toBinary64? {negative : Bool} {coefficient : Nat} {exponent : Int} {x : Binary64}
    (h : toBinary64? negative coefficient exponent = some x) : x.isFinite = true := by
  obtain ⟨m, hm, rfl⟩ := Option.map_eq_some_iff.mp h
  exact Binary64.isFinite_ofMagnitude negative (magnitudeOfDecimal?_lt hm)

theorem Numeral.isFinite_of_toBinary64? {n : Numeral} {x : Binary64}
    (h : n.toBinary64? = some x) : x.isFinite = true := by
  unfold Numeral.toBinary64? at h
  generalize n.trimmed.weighed = weighed at h
  exact Decimal.isFinite_of_toBinary64? h

end Cypher.Decimal
