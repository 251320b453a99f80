import Cypher.Decimal.Shortest
import Cypher.Proofs.Decimal.Digits
import Cypher.Proofs.Decimal.Rounding

/-!
# The shortest decimal lies in the rounding interval

The comparisons on a grid are comparisons of rational numbers, the search ends on a grid that has a
point in the interval, and every rational number of the interval is rounded to the number the
interval is around.
-/

namespace Cypher.Decimal

def Scaled.value (d : Scaled) : ℚ := d.coefficient * 10 ^ d.exponent

def Interval.Contains (i : Interval) (q : ℚ) : Prop :=
  if i.closed then i.lower * 2 ^ i.unit ≤ q ∧ q ≤ i.upper * 2 ^ i.unit
  else i.lower * 2 ^ i.unit < q ∧ q < i.upper * 2 ^ i.unit

theorem Interval.Contains.le {i : Interval} {q : ℚ} (h : i.Contains q) :
    i.lower * 2 ^ i.unit ≤ q ∧ q ≤ i.upper * 2 ^ i.unit := by
  simp only [Interval.Contains] at h
  split at h
  · exact h
  · exact ⟨h.1.le, h.2.le⟩

theorem Interval.Contains.closed {i : Interval} {q : ℚ} (h : i.Contains q)
    (hend : q = i.lower * 2 ^ i.unit ∨ q = i.upper * 2 ^ i.unit) : i.closed = true := by
  by_contra hopen
  simp only [Interval.Contains, if_neg hopen] at h
  rcases hend with hend | hend
  · exact h.1.ne' hend
  · exact h.2.ne hend

theorem ten_zpow_eq (e : Int) : (10 : ℚ) ^ e = 10 ^ e.toNat / 10 ^ (-e).toNat := by
  rw [← zpow_natCast, ← zpow_natCast, ← zpow_sub₀ (by norm_num)]
  congr 1
  omega

theorem gridRatio_pos (unit exponent : Int) :
    0 < (gridRatio unit exponent).1 ∧ 0 < (gridRatio unit exponent).2 := by
  constructor
  · simp only [gridRatio]
    positivity
  · simp only [gridRatio]
    positivity

theorem gridRatio_spec (unit exponent : Int) :
    ((gridRatio unit exponent).1 : ℚ) * 10 ^ exponent =
      (gridRatio unit exponent).2 * 2 ^ unit := by
  simp only [gridRatio]
  rw [two_zpow_eq, ten_zpow_eq]
  push_cast
  field_simp

private theorem grid_le_iff (unit exponent : Int) (a k : Nat) :
    (a * (gridRatio unit exponent).1 ≤ k * (gridRatio unit exponent).2 ↔
        (a : ℚ) * 2 ^ unit ≤ k * 10 ^ exponent) ∧
      (k * (gridRatio unit exponent).2 ≤ a * (gridRatio unit exponent).1 ↔
        (k : ℚ) * 10 ^ exponent ≤ a * 2 ^ unit) := by
  obtain ⟨-, hden⟩ := gridRatio_pos unit exponent
  have hspec := gridRatio_spec unit exponent
  set num := (gridRatio unit exponent).1
  set den := (gridRatio unit exponent).2
  have hdenQ : (0 : ℚ) < den := by exact_mod_cast hden
  have hgrid : (0 : ℚ) < 10 ^ exponent := zpow_pos (by norm_num) exponent
  have hleft : (a : ℚ) * num * 10 ^ exponent = a * 2 ^ unit * den := by
    rw [mul_assoc, hspec]
    ring
  have hright : (k : ℚ) * den * 10 ^ exponent = k * 10 ^ exponent * den := by ring
  constructor
  · rw [← mul_le_mul_iff_of_pos_right hdenQ, ← hleft, ← hright, mul_le_mul_iff_of_pos_right hgrid]
    exact_mod_cast Iff.rfl
  · rw [← mul_le_mul_iff_of_pos_right hdenQ, ← hleft, ← hright, mul_le_mul_iff_of_pos_right hgrid]
    exact_mod_cast Iff.rfl

theorem Interval.holds_iff (i : Interval) (exponent : Int) (k : Nat) :
    i.holds (gridRatio i.unit exponent).1 (gridRatio i.unit exponent).2 k = true ↔
      i.Contains (Scaled.value ⟨k, exponent⟩) := by
  obtain ⟨hlower, hlower'⟩ := grid_le_iff i.unit exponent i.lower k
  obtain ⟨hupper, hupper'⟩ := grid_le_iff i.unit exponent i.upper k
  simp only [Interval.holds, Interval.Contains, Scaled.value]
  split
  · rw [Bool.and_eq_true, decide_eq_true_eq, decide_eq_true_eq, hlower, hupper']
  · rw [Bool.and_eq_true, decide_eq_true_eq, decide_eq_true_eq, ← not_le, ← not_le, hlower',
      hupper, not_le, not_le]

theorem nearerNeighbour_cases (tie : Tie) (centre num den below : Nat) :
    nearerNeighbour tie centre num den below = below ∨
      nearerNeighbour tie centre num den below = below + 1 := by
  have hparity := Nat.mod_two_eq_zero_or_one below
  simp only [nearerNeighbour]
  split
  · exact .inl rfl
  · split
    · exact .inr rfl
    · cases tie with
      | upper => exact .inr rfl
      | even =>
          rcases hparity with h | h
          · exact .inl (by simp [h])
          · exact .inr (by simp [h])

theorem Interval.contains_of_onGrid? {tie : Tie} {i : Interval} {exponent : Int} {k : Nat}
    (h : i.onGrid? tie exponent = some k) : i.Contains (Scaled.value ⟨k, exponent⟩) := by
  rw [← i.holds_iff]
  simp only [Interval.onGrid?] at h
  set num := (gridRatio i.unit exponent).1
  set den := (gridRatio i.unit exponent).2
  split at h
  · rename_i hbelow habove
    rcases nearerNeighbour_cases tie i.centre num den (i.centre * num / den) with hk | hk
    · rw [← Option.some.inj h, hk]
      exact hbelow
    · rw [← Option.some.inj h, hk]
      exact habove
  · rename_i hbelow _
    rw [← Option.some.inj h]
    exact hbelow
  · rename_i _ habove
    rw [← Option.some.inj h]
    exact habove
  · exact absurd h (by simp)

/-- The search ends on the first grid that has a point in the interval. -/
theorem Interval.contains_search {tie : Tie} {i : Interval} (steps n : Nat) (exponent : Int)
    (hn : n < steps) (hfine : i.onGrid? tie (exponent - n) ≠ none) :
    i.Contains (i.search tie steps exponent).value ∧
      exponent - n ≤ (i.search tie steps exponent).exponent := by
  induction steps generalizing n exponent with
  | zero => exact absurd hn (Nat.not_lt_zero n)
  | succ steps ih =>
      simp only [Interval.search]
      cases hgrid : i.onGrid? tie exponent with
      | some k => exact ⟨contains_of_onGrid? hgrid, by simp⟩
      | none =>
          cases n with
          | zero =>
              rw [Nat.cast_zero, Int.sub_zero] at hfine
              exact absurd hgrid hfine
          | succ n =>
              have hexponent : exponent - (n + 1 : Nat) = exponent - 1 - n := by omega
              rw [hexponent] at hfine ⊢
              exact ih n (exponent - 1) (by omega) hfine

/-- On the finest grid the points are less than two units apart, so one lies above the centre and
below the upper end. -/
theorem Interval.onGrid?_finest {tie : Tie} {i : Interval} (hunit : -1076 ≤ i.unit)
    (hlower : i.lower ≤ i.centre) (hupper : i.centre + 2 ≤ i.upper) :
    i.onGrid? tie finestExponent ≠ none := by
  obtain ⟨hnum, hden⟩ := gridRatio_pos i.unit finestExponent
  have hspacing : (gridRatio i.unit finestExponent).2 <
      2 * (gridRatio i.unit finestExponent).1 := by
    simp only [gridRatio, finestExponent, Int.reduceNeg, Int.reduceToNat, Int.neg_neg, pow_zero,
      mul_one]
    calc 2 ^ (-i.unit).toNat ≤ 2 ^ 1076 := Nat.pow_le_pow_right (by decide) (by omega)
      _ < 10 ^ 324 := by decide +kernel
      _ ≤ 2 ^ i.unit.toNat * 10 ^ 324 := Nat.le_mul_of_pos_left _ (by positivity)
      _ ≤ 2 * (2 ^ i.unit.toNat * 10 ^ 324) := by omega
  simp only [Interval.onGrid?]
  set num := (gridRatio i.unit finestExponent).1
  set den := (gridRatio i.unit finestExponent).2
  have hdiv := Nat.div_add_mod (i.centre * num) den
  have hmod := Nat.mod_lt (i.centre * num) hden
  have hpoint : (i.centre * num / den + 1) * den = den * (i.centre * num / den) + den := by ring
  have hlower' := Nat.mul_le_mul_right num hlower
  have hupper' := Nat.mul_le_mul_right num hupper
  rw [Nat.add_mul] at hupper'
  have habove : i.holds num den (i.centre * num / den + 1) = true := by
    simp only [Interval.holds]
    split
    · rw [Bool.and_eq_true, decide_eq_true_eq, decide_eq_true_eq]
      omega
    · rw [Bool.and_eq_true, decide_eq_true_eq, decide_eq_true_eq]
      omega
  rw [habove]
  cases i.holds num den (i.centre * num / den) <;> simp

theorem Interval.lower_around_pos {x : Binary64} (h : x.isZero = false) :
    0 < (Interval.around x).lower := by
  have hpos := Binary64.significand_pos h
  simp only [Interval.around]
  split <;> omega

/-- The search for the shortest decimal reaches the finest grid, and ends there at the latest. -/
theorem onGrid?_around_finest (tie : Tie) (x : Binary64) :
    coarsestExponent x + 324 < (coarsestExponent x - finestExponent + 1 : Int).toNat ∧
      (coarsestExponent x : Int) - (coarsestExponent x + 324 : Nat) = finestExponent ∧
      (Interval.around x).onGrid? tie finestExponent ≠ none := by
  have hexponent := x.le_exponent
  refine ⟨?_, ?_, Interval.onGrid?_finest ?_ ?_ ?_⟩
  · rw [finestExponent]
    omega
  · rw [finestExponent]
    omega
  · simp only [Interval.around]
    omega
  · simp only [Interval.around]
    omega
  · simp only [Interval.around]
    omega

theorem contains_shortest (tie : Tie) (x : Binary64) :
    (Interval.around x).Contains (shortest tie x).value ∧
      finestExponent ≤ (shortest tie x).exponent := by
  obtain ⟨hsteps, hstart, hfine⟩ := onGrid?_around_finest tie x
  rw [← hstart] at hfine ⊢
  exact Interval.contains_search _ _ (coarsestExponent x) hsteps hfine

theorem two_zpow_exponent (x : Binary64) :
    (2 : ℚ) ^ x.exponent = 4 * 2 ^ (Interval.around x).unit := by
  have hunit : (Interval.around x).unit = x.exponent - 2 := rfl
  rw [hunit, zpow_sub₀ (by norm_num)]
  norm_num
  ring

theorem Interval.upper_around (x : Binary64) :
    ((around x).upper : ℚ) * 2 ^ (around x).unit = (x.significand + 1 / 2) * 2 ^ x.exponent := by
  have hupper : (around x).upper = 4 * x.significand + 2 := rfl
  rw [hupper, two_zpow_exponent]
  push_cast
  ring

/-- The lower end lies half a step below the number, or a quarter below a power of two. -/
theorem Interval.lower_around {x : Binary64} (h : x.isZero = false) :
    ((around x).lower : ℚ) * 2 ^ (around x).unit =
      (x.significand - if x.significand = 2 ^ 52 ∧ -1074 < x.exponent then 1 / 4 else 1 / 2) *
        2 ^ x.exponent := by
  have hpos := Binary64.significand_pos h
  rw [two_zpow_exponent]
  simp only [around, Bool.and_eq_true, beq_iff_eq, decide_eq_true_eq, x.one_lt_exponentField_iff]
  rw [Nat.cast_sub (by split <;> omega)]
  split
  · push_cast
    ring
  · push_cast
    ring

theorem nearestMagnitude?_of_contains {x : Binary64} (hfinite : x.isFinite = true)
    (hzero : x.isZero = false) {num den : Nat} (hden : 0 < den)
    (h : (Interval.around x).Contains (num / den)) :
    nearestMagnitude? num den = some x.magnitude := by
  have hstep : (0 : ℚ) < 2 ^ x.exponent := zpow_pos (by norm_num) _
  have hclosed : (Interval.around x).closed = true → x.significand % 2 = 0 := by
    simp [Interval.around]
  have hlower := Interval.lower_around hzero
  obtain ⟨hlow, hhigh⟩ := h.le
  have hend := h.closed
  rw [Interval.upper_around] at hhigh hend
  rw [x.magnitude_eq]
  refine nearestMagnitude?_eq hden (Binary64.significand_pos hzero) x.significand_lt ?_ ?_ ?_ hhigh
    ?_ ?_
  · rcases (x.le_exponent).eq_or_lt with hsmallest | hlarger
    · exact .inl hsmallest.symm
    · exact .inr ⟨hlarger, Binary64.le_significand hlarger⟩
  · rw [← x.magnitude_eq]
    exact Binary64.magnitude_lt hfinite
  · refine le_trans ?_ hlow
    rw [hlower]
    gcongr
    split <;> norm_num
  · rintro (hq | hq)
    · by_cases hnarrow : x.significand = 2 ^ 52 ∧ -1074 < x.exponent
      · rw [hnarrow.1]
        norm_num
      · rw [if_neg hnarrow] at hlower
        exact hclosed (hend (.inl (hq.trans hlower.symm)))
    · exact hclosed (hend (.inr hq))
  · intro hlarger hpower
    rwa [hlower, if_pos ⟨hpower, hlarger⟩] at hlow

/-! ## Reading a printed number back

A numeral keeps the value of the decimal number it lays out, within the digit limit of the reader
and within the exponents the reader looks at. So the numeral of a finite number of 64 bits is read
as that number, whatever the format. -/

/-- The rational number that a numeral denotes, its sign apart. -/
def Numeral.value (n : Numeral) : ℚ := n.coefficient * 10 ^ n.scale

private theorem ten_zpow_pos (e : Int) : (0 : ℚ) < 10 ^ e := zpow_pos (by norm_num) e

private theorem mul_ten_zpow_add (c k : Nat) (e : Int) :
    ((c * 10 ^ k : Nat) : ℚ) * 10 ^ e = c * 10 ^ (e + k) := by
  rw [zpow_add₀ (by norm_num), zpow_natCast]
  push_cast
  ring

theorem Scaled.positional_value (d : Scaled) :
    d.positional.value = d.value ∧ min d.exponent (-1) ≤ d.positional.scale := by
  simp only [Scaled.positional]
  split
  · rename_i hwhole
    have hcoefficient : valueOf ['0'] = 0 := rfl
    have hexponent : d.exponent = -1 + (d.exponent.toNat + 1 : Nat) := by omega
    simp only [Numeral.value, Numeral.coefficient, Numeral.scale, hcoefficient, Scaled.value,
      List.length_singleton, Option.getD_none, Nat.add_zero, Nat.mul_assoc, ← Nat.pow_add]
    constructor
    · rw [mul_ten_zpow_add]
      congr 2
      omega
    · omega
  · rename_i hpart
    have hplaces : 0 < (-d.exponent).toNat := by omega
    have hlength := length_padded hplaces
      (Nat.mod_lt d.coefficient (by positivity : 0 < 10 ^ (-d.exponent).toNat))
    have hdigits := Nat.div_add_mod' d.coefficient (10 ^ (-d.exponent).toNat)
    simp only [Numeral.value, Numeral.coefficient, Numeral.scale, hlength, valueOf_padded, hdigits,
      Scaled.value, Option.getD_none]
    constructor
    · congr 2
      omega
    · omega

theorem Scaled.scientific_value (d : Scaled) :
    d.scientific.value = d.value ∧ d.exponent ≤ d.scientific.scale := by
  simp only [Scaled.scientific]
  by_cases hone : (digits d.coefficient).length - 1 = 0
  · rw [if_pos hone, hone]
    have hnone : valueOf [] = 0 := rfl
    simp [Numeral.value, Numeral.coefficient, Numeral.scale, hnone, Scaled.value]
  · have hlength := length_padded (Nat.pos_of_ne_zero hone)
      (Nat.mod_lt d.coefficient
        (by positivity : 0 < 10 ^ ((digits d.coefficient).length - 1)))
    have hdigits := Nat.div_add_mod' d.coefficient (10 ^ ((digits d.coefficient).length - 1))
    rw [if_neg hone]
    simp only [Numeral.value, Numeral.coefficient, Numeral.scale, hlength, valueOf_padded, hdigits,
      Scaled.value, Option.getD_some]
    constructor
    · congr 2
      omega
    · omega

theorem FloatFormat.layout_value (format : FloatFormat) (d : Scaled) :
    (format.layout d).value = d.value ∧ min d.exponent (-1) ≤ (format.layout d).scale := by
  simp only [FloatFormat.layout]
  split
  · exact d.positional_value
  · exact ⟨d.scientific_value.1, by have hscale := d.scientific_value.2; omega⟩

theorem Numeral.trimmed_value (n : Numeral) :
    n.trimmed.value = n.value ∧ n.scale ≤ n.trimmed.scale := by
  obtain ⟨k, hk⟩ : ∃ k, n.fraction = n.trimmed.fraction ++ List.replicate k '0' := by
    have hsplit := List.takeWhile_append_dropWhile (p := (· == '0')) (l := n.fraction.reverse)
    have hzeros : n.fraction.reverse.takeWhile (· == '0') =
        List.replicate (n.fraction.reverse.takeWhile (· == '0')).length '0' := by
      rw [List.eq_replicate_iff]
      refine ⟨rfl, fun c hc => ?_⟩
      simpa using List.mem_takeWhile_imp hc
    refine ⟨(n.fraction.reverse.takeWhile (· == '0')).length, ?_⟩
    rw [hzeros] at hsplit
    have hreverse := congrArg List.reverse hsplit
    rw [List.reverse_append, List.reverse_replicate, List.reverse_reverse] at hreverse
    exact hreverse.symm
  have hzero : valueOf (List.replicate k '0') = 0 := by
    rw [valueOf, Nat.ofDigitChars_replicate_zero, Nat.mul_zero]
  have hlength : n.fraction.length = n.trimmed.fraction.length + k := by
    rw [hk, List.length_append, List.length_replicate]
  have hcoefficient : n.coefficient = n.trimmed.coefficient * 10 ^ k := by
    rw [Numeral.coefficient, Numeral.coefficient, hlength, hk, valueOf_append, hzero,
      List.length_replicate, Nat.pow_add, Nat.add_zero, Nat.add_mul, ← Nat.mul_assoc]
    rfl
  have hscale : n.trimmed.scale = n.scale + k := by
    rw [Numeral.scale, Numeral.scale, hlength]
    have hexponent : n.trimmed.exponent = n.exponent := rfl
    rw [hexponent]
    omega
  constructor
  · rw [Numeral.value, Numeral.value, hcoefficient, mul_ten_zpow_add, hscale]
  · omega

private theorem Interval.Contains.bounds {x : Binary64} (hfinite : x.isFinite = true)
    (hzero : x.isZero = false) {q : ℚ} (h : (Interval.around x).Contains q) :
    (10 : ℚ) ^ (-400 : Int) ≤ q ∧ q ≤ 10 ^ (309 : Int) := by
  obtain ⟨hlow, hhigh⟩ := h.le
  have hexponent := Binary64.exponent_lt hfinite
  constructor
  · have hlower : (1 : ℚ) ≤ (Interval.around x).lower := by
      exact_mod_cast Interval.lower_around_pos hzero
    calc (10 : ℚ) ^ (-400 : Int) ≤ 2 ^ (-1076 : Int) := by
          have hpowers : 2 ^ 1076 ≤ 10 ^ 400 := by decide +kernel
          rw [zpow_neg, zpow_neg]
          exact inv_anti₀ (by positivity) (by exact_mod_cast hpowers)
      _ ≤ 2 ^ (Interval.around x).unit := by
          refine zpow_le_zpow_right₀ (by norm_num) ?_
          have hsmallest := x.le_exponent
          simp only [Interval.around]
          omega
      _ ≤ (Interval.around x).lower * 2 ^ (Interval.around x).unit :=
          le_mul_of_one_le_left (zpow_pos (by norm_num) _).le hlower
      _ ≤ q := hlow
  · have hupper : ((Interval.around x).upper : ℚ) ≤ 2 ^ 55 := by
      have hsignificand := x.significand_lt
      have hle : (Interval.around x).upper ≤ 2 ^ 55 := by
        simp only [Interval.around]
        omega
      exact_mod_cast hle
    calc q ≤ (Interval.around x).upper * 2 ^ (Interval.around x).unit := hhigh
      _ ≤ 2 ^ 55 * 2 ^ (969 : Int) := by
          refine mul_le_mul hupper ?_ (zpow_pos (by norm_num) _).le (by positivity)
          refine zpow_le_zpow_right₀ (by norm_num) ?_
          simp only [Interval.around]
          omega
      _ ≤ 10 ^ (309 : Int) := by
          have hpowers : 2 ^ 55 * 2 ^ 969 ≤ 10 ^ 309 := by decide +kernel
          exact_mod_cast hpowers

private theorem zpow_le_zpow_ten_iff {m n : Int} : (10 : ℚ) ^ m ≤ 10 ^ n ↔ m ≤ n :=
  zpow_le_zpow_iff_right₀ (by norm_num)

/-- What is not too large and has no last place finer than the finest grid has few digits. -/
private theorem length_digits_le {c : Nat} {e : Int} (hpos : 0 < c) (he : finestExponent ≤ e)
    (h : (c : ℚ) * 10 ^ e ≤ 10 ^ (309 : Int)) : (digits c).length ≤ 634 := by
  have hshifted : (c : ℚ) * 10 ^ finestExponent ≤ 10 ^ (309 : Int) := by
    refine le_trans ?_ h
    gcongr
    norm_num
  have hle : (c : ℚ) ≤ 10 ^ (633 : Int) := by
    calc (c : ℚ) = c * 10 ^ finestExponent * 10 ^ (324 : Int) := by
          rw [mul_assoc, ← zpow_add₀ (by norm_num), finestExponent, Int.add_left_neg, zpow_zero,
            mul_one]
      _ ≤ 10 ^ (309 : Int) * 10 ^ (324 : Int) := by gcongr
      _ = 10 ^ (633 : Int) := by
          rw [← zpow_add₀ (by norm_num)]
          rfl
  have hpower : (10 : ℚ) ^ (((digits c).length - 1 : Nat) : Int) ≤ c := by
    rw [zpow_natCast]
    exact_mod_cast pow_length_le_of_pos hpos
  have hplaces := zpow_le_zpow_ten_iff.mp (hpower.trans hle)
  omega

private theorem lt_add_length_digits {c : Nat} {e : Int}
    (h : (10 : ℚ) ^ (-400 : Int) ≤ c * 10 ^ e) : -400 < e + (digits c).length := by
  refine (zpow_lt_zpow_iff_right₀ (by norm_num : (1 : ℚ) < 10)).mp (h.trans_lt ?_)
  rw [zpow_add₀ (by norm_num), zpow_natCast, mul_comm]
  have hlt := lt_pow_length_digits c
  gcongr
  exact_mod_cast hlt

private theorem magnitudeOfDecimal?_of_contains {x : Binary64} (hfinite : x.isFinite = true)
    (hzero : x.isZero = false) {c : Nat} {e : Int} (hpos : 0 < c)
    (h : (Interval.around x).Contains (c * 10 ^ e)) :
    magnitudeOfDecimal? c e = some x.magnitude := by
  obtain ⟨hlow, hhigh⟩ := h.bounds hfinite hzero
  have hone : (1 : ℚ) ≤ c := by exact_mod_cast hpos
  have hcoarse : e ≤ 309 :=
    zpow_le_zpow_ten_iff.mp ((le_mul_of_one_le_left (ten_zpow_pos e).le hone).trans hhigh)
  have hdigits := lt_add_length_digits hlow
  rw [magnitudeOfDecimal?, if_neg (by omega), if_neg (by omega), if_neg (by omega)]
  split
  · rename_i hwhole
    refine nearestMagnitude?_of_contains hfinite hzero Nat.one_pos ?_
    rw [ten_zpow_eq, show (-e).toNat = 0 by omega, pow_zero, div_one] at h
    push_cast
    rwa [div_one]
  · rename_i hpart
    refine nearestMagnitude?_of_contains hfinite hzero (by positivity) ?_
    rw [ten_zpow_eq, show e.toNat = 0 by omega, pow_zero, mul_one_div] at h
    push_cast
    exact h

/-- The reader's limits leave alone what is to be rounded to a finite number, unless it is written
with too fine a last place. -/
theorem Numeral.toBinary64?_of_contains {n : Numeral} {x : Binary64} (hfinite : x.isFinite = true)
    (hzero : x.isZero = false) (hscale : finestExponent ≤ n.scale)
    (h : (Interval.around x).Contains n.value) :
    n.toBinary64? = some (Binary64.ofMagnitude n.negative x.magnitude) := by
  obtain ⟨hvalue, htrimmed⟩ := n.trimmed_value
  rw [← hvalue, Numeral.value] at h
  obtain ⟨hlow, hhigh⟩ := h.bounds hfinite hzero
  have hpos : 0 < n.trimmed.coefficient := by
    rcases Nat.eq_zero_or_pos n.trimmed.coefficient with hzero | hpos
    · rw [hzero, Nat.cast_zero, zero_mul] at hlow
      exact absurd hlow (not_le.mpr (ten_zpow_pos _))
    · exact hpos
  have hshort := length_digits_le hpos (hscale.trans htrimmed) hhigh
  have hlimit : 634 ≤ Numeral.digitLimit := by decide
  rw [Numeral.toBinary64?, weighed_eq (hshort.trans hlimit)]
  simp only [Decimal.toBinary64?, magnitudeOfDecimal?_of_contains hfinite hzero hpos h,
    Option.map_some]

/-- The printed numeral of a finite number is read back as that number. -/
theorem FloatFormat.toBinary64?_numeral (format : FloatFormat) {x : Binary64}
    (h : x.isFinite = true) : (format.numeral x).toBinary64? = some x := by
  cases hzero : x.isZero with
  | true =>
      have hnumeral : format.numeral x = ⟨x.negative, 0, ['0'], none⟩ := by
        simp only [FloatFormat.numeral, hzero, if_true]
      have hweighed : (Numeral.mk x.negative 0 ['0'] none).trimmed.weighed = (0, 0) :=
        Numeral.weighed_eq (n := ⟨x.negative, 0, [], none⟩)
          (show (digits 0).length ≤ Numeral.digitLimit by decide)
      rw [hnumeral, Numeral.toBinary64?, hweighed]
      simp only [Decimal.toBinary64?, magnitudeOfDecimal?, if_true, Option.map_some,
        Binary64.eq_ofMagnitude_zero hzero]
  | false =>
      obtain ⟨hcontains, hexponent⟩ := contains_shortest format.tie x
      obtain ⟨hvalue, hscale⟩ := format.layout_value (shortest format.tie x)
      have hnumeral : format.numeral x =
          { format.layout (shortest format.tie x) with negative := x.negative } := by
        simp only [FloatFormat.numeral, hzero, Bool.false_eq_true, if_false]
      have hread := Numeral.toBinary64?_of_contains (n := format.numeral x) h hzero
        (by
          rw [hnumeral]
          simp only [finestExponent] at hexponent ⊢
          exact le_trans (by omega) hscale)
        (by
          rw [hnumeral]
          rw [← hvalue] at hcontains
          exact hcontains)
      rw [hread, hnumeral, Binary64.ofMagnitude_magnitude]

end Cypher.Decimal
