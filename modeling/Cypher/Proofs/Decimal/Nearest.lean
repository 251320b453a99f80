import Cypher.Proofs.Decimal.Shortest

/-!
# Nearest numbers

What it means that a number of 64 bits is the nearest to a rational number, said of all finite
numbers at once and without any computation. The rounding interval of a number holds only rational
numbers it is nearest to, and a rational number has no other nearest number of the same sign.
-/

namespace Cypher

/-- The rational number that the bits below the sign denote. -/
def Binary64.absValue (x : Binary64) : ℚ := x.significand * 2 ^ x.exponent

namespace Decimal

/-- A magnitude `q` is rounded to that of `x`: `x` is finite and no finite number is nearer, of two
equally near ones it has the even significand, and `q` lies below the middle between the largest
finite number and the next power of two, from where on magnitudes are too large. -/
structure RoundsTo (q : ℚ) (x : Binary64) : Prop where
  finite : x.isFinite = true
  nearest : ∀ y : Binary64, y.isFinite = true → |q - x.absValue| ≤ |q - y.absValue|
  even : ∀ y : Binary64, y.isFinite = true → y.absValue ≠ x.absValue →
    |q - x.absValue| = |q - y.absValue| → x.significand % 2 = 0
  small : q < (2 ^ 53 - 1 / 2) * 2 ^ (971 : Int)

def gapBelow (x : Binary64) : ℚ :=
  (if x.significand = 2 ^ 52 ∧ -1074 < x.exponent then 1 / 2 else 1) * 2 ^ x.exponent

theorem gapBelow_pos (x : Binary64) : 0 < gapBelow x := by
  have hpos := two_zpow_pos x.exponent
  rw [gapBelow]
  split <;> positivity

theorem add_step_le_of_exponent_lt {x y : Binary64} (h : x.exponent < y.exponent) :
    x.absValue + 2 ^ x.exponent ≤ y.absValue := by
  have hy : (2 : ℚ) ^ 52 ≤ y.significand := by
    have hsmallest := x.le_exponent
    exact_mod_cast Binary64.le_significand (x := y) (by omega)
  have hx : (x.significand : ℚ) + 1 ≤ 2 ^ 53 := by
    have hlt := x.significand_lt
    exact_mod_cast hlt
  calc x.absValue + 2 ^ x.exponent = (x.significand + 1) * 2 ^ x.exponent := by
        rw [Binary64.absValue]
        ring
    _ ≤ 2 ^ 53 * 2 ^ x.exponent := by gcongr
    _ = 2 ^ 52 * 2 ^ (x.exponent + 1) := by
        rw [two_zpow_add_one]
        ring
    _ ≤ y.significand * 2 ^ y.exponent := by
        gcongr
        · norm_num
        · omega

theorem le_sub_gapBelow_of_exponent_lt {x y : Binary64} (h : y.exponent < x.exponent) :
    y.absValue ≤ x.absValue - gapBelow x := by
  have hlarger : -1074 < x.exponent := by
    have hsmallest := y.le_exponent
    omega
  have hx := Binary64.le_significand hlarger
  have hy : (y.significand : ℚ) ≤ 2 ^ 53 - 1 := by
    have hlt := y.significand_lt
    have hle : (y.significand : ℚ) + 1 ≤ 2 ^ 53 := by exact_mod_cast hlt
    linarith
  have hstep := two_zpow_pos x.exponent
  have hbound : y.absValue ≤ (2 ^ 52 - 1 / 2) * 2 ^ x.exponent := by
    calc y.absValue ≤ (2 ^ 53 - 1) * 2 ^ (x.exponent - 1) := by
          rw [Binary64.absValue]
          gcongr
          · norm_num
          · omega
      _ = (2 ^ 52 - 1 / 2) * 2 ^ x.exponent := by
          rw [zpow_sub_one₀ (by norm_num)]
          ring
  refine hbound.trans ?_
  rw [Binary64.absValue, gapBelow, ← sub_mul]
  refine mul_le_mul_of_nonneg_right ?_ hstep.le
  by_cases hpower : x.significand = 2 ^ 52
  · rw [if_pos ⟨hpower, hlarger⟩, hpower]
    norm_num
  · rw [if_neg fun hboth => hpower hboth.1]
    have hnext : (2 : ℚ) ^ 52 + 1 ≤ x.significand := by
      have hlt : 2 ^ 52 + 1 ≤ x.significand := by omega
      exact_mod_cast hlt
    linarith

theorem gapBelow_le (x : Binary64) : gapBelow x ≤ 2 ^ x.exponent := by
  have hstep := two_zpow_pos x.exponent
  rw [gapBelow]
  split <;> linarith

/-- The finite numbers next to a number are a step above and `gapBelow` below it. -/
theorem absValue_apart {x y : Binary64} (h : y.absValue ≠ x.absValue) :
    x.absValue + 2 ^ x.exponent ≤ y.absValue ∨ y.absValue ≤ x.absValue - gapBelow x := by
  have hstep := two_zpow_pos x.exponent
  rcases lt_trichotomy x.exponent y.exponent with hexponent | hexponent | hexponent
  · exact .inl (add_step_le_of_exponent_lt hexponent)
  · rcases lt_trichotomy x.significand y.significand with hlt | heq | hlt
    · left
      have hle : (x.significand : ℚ) + 1 ≤ y.significand := by exact_mod_cast hlt
      rw [Binary64.absValue, Binary64.absValue, ← hexponent, ← add_one_mul]
      exact mul_le_mul_of_nonneg_right hle hstep.le
    · exact absurd (by rw [Binary64.absValue, Binary64.absValue, heq, hexponent]) h
    · right
      have hle : (y.significand : ℚ) + 1 ≤ x.significand := by exact_mod_cast hlt
      have hgap := gapBelow_le x
      have hscaled := mul_le_mul_of_nonneg_right hle hstep.le
      rw [add_one_mul] at hscaled
      rw [Binary64.absValue, Binary64.absValue, ← hexponent]
      linarith
  · exact .inr (le_sub_gapBelow_of_exponent_lt hexponent)

theorem upper_around_eq (x : Binary64) :
    ((Interval.around x).upper : ℚ) * 2 ^ (Interval.around x).unit =
      x.absValue + 2 ^ x.exponent / 2 := by
  rw [Interval.upper_around, Binary64.absValue]
  ring

theorem lower_around_eq {x : Binary64} (h : x.isZero = false) :
    ((Interval.around x).lower : ℚ) * 2 ^ (Interval.around x).unit =
      x.absValue - gapBelow x / 2 := by
  rw [Interval.lower_around h, Binary64.absValue, gapBelow]
  split <;> ring

theorem Interval.Contains.small {x : Binary64} (hfinite : x.isFinite = true) {q : ℚ}
    (h : (Interval.around x).Contains q) : q < (2 ^ 53 - 1 / 2) * 2 ^ (971 : Int) := by
  have hnonneg : (0 : ℚ) ≤ x.significand + 1 / 2 := by positivity
  have hlargest : (x.significand : ℚ) + 1 / 2 ≤ 2 ^ 53 - 1 / 2 := by
    have hle : (x.significand : ℚ) + 1 ≤ 2 ^ 53 := by exact_mod_cast x.significand_lt
    linarith
  have hcoarsest : (2 : ℚ) ^ x.exponent ≤ 2 ^ (971 : Int) :=
    zpow_le_zpow_right₀ (by norm_num) (Binary64.exponent_lt hfinite)
  obtain ⟨-, hhigh⟩ := h.le
  have hend := h.closed
  rw [Interval.upper_around] at hhigh hend
  have hupper : ((x.significand : ℚ) + 1 / 2) * 2 ^ x.exponent ≤
      (x.significand + 1 / 2) * 2 ^ (971 : Int) :=
    mul_le_mul_of_nonneg_left hcoarsest hnonneg
  have hbound : ((x.significand : ℚ) + 1 / 2) * 2 ^ (971 : Int) ≤
      (2 ^ 53 - 1 / 2) * 2 ^ (971 : Int) :=
    mul_le_mul_of_nonneg_right hlargest (two_zpow_pos _).le
  -- only the largest finite number reaches the bound, and its significand is odd
  by_contra hlarge
  have hreached := not_lt.mp hlarge
  have hodd : x.significand = 2 ^ 53 - 1 := by
    have hmost := le_of_mul_le_mul_right (hreached.trans (hhigh.trans hupper))
      (two_zpow_pos (971 : Int))
    have heq : (x.significand : ℚ) + 1 = (2 ^ 53 : Nat) := by
      push_cast
      linarith only [hmost, hlargest]
    have hsucc : x.significand + 1 = 2 ^ 53 := by exact_mod_cast heq
    omega
  have hclosed := hend (.inr (le_antisymm hhigh ((hupper.trans hbound).trans hreached)))
  simp [Interval.around, hodd] at hclosed

/-- Of two numbers, the one whose half gap towards the other holds a third is nearer to that. -/
private theorem nearer_of_half_gap {q a b gap : ℚ} (hgap : 0 < gap) (hq : q ≤ a + gap / 2)
    (hb : a + gap ≤ b) :
    |q - a| ≤ |q - b| ∧ (|q - a| = |q - b| → q = a + gap / 2) := by
  have hfar : |q - b| = b - q := by
    rw [abs_of_nonpos (by linarith), neg_sub]
  rw [hfar]
  rcases le_total a q with hside | hside
  · rw [abs_of_nonneg (by linarith)]
    exact ⟨by linarith, fun htie => by linarith⟩
  · rw [abs_of_nonpos (by linarith)]
    exact ⟨by linarith, fun htie => by linarith⟩

/-- No finite number is nearer to what the rounding interval holds, and an equally near one has its
middle at an end of the interval. -/
private theorem Interval.Contains.nearer {x y : Binary64} (hzero : x.isZero = false) {q : ℚ}
    (h : (Interval.around x).Contains q) (hy : y.absValue ≠ x.absValue) :
    |q - x.absValue| ≤ |q - y.absValue| ∧
      (|q - x.absValue| = |q - y.absValue| → (Interval.around x).closed = true) := by
  obtain ⟨hlow, hhigh⟩ := h.le
  have hend := h.closed
  rw [lower_around_eq hzero] at hlow hend
  rw [upper_around_eq] at hhigh hend
  rcases absValue_apart hy with habove | hbelow
  · obtain ⟨hle, htie⟩ := nearer_of_half_gap (two_zpow_pos x.exponent) hhigh habove
    exact ⟨hle, fun heq => hend (.inr (htie heq))⟩
  · -- mirrored at zero the number below is one above
    obtain ⟨hle, htie⟩ := nearer_of_half_gap (q := -q) (a := -x.absValue) (b := -y.absValue)
      (gapBelow_pos x) (by linarith) (by linarith)
    rw [neg_sub_neg, neg_sub_neg, abs_sub_comm, abs_sub_comm y.absValue] at hle htie
    refine ⟨hle, fun heq => hend (.inl ?_)⟩
    have hmirrored := htie heq
    linarith

theorem roundsTo_of_contains {x : Binary64} (hfinite : x.isFinite = true)
    (hzero : x.isZero = false) {q : ℚ} (h : (Interval.around x).Contains q) : RoundsTo q x := by
  refine ⟨hfinite, ?_, ?_, h.small hfinite⟩
  · intro y _
    by_cases hy : y.absValue = x.absValue
    · rw [hy]
    · exact (h.nearer hzero hy).1
  · intro y _ hy htie
    have hclosed := (h.nearer hzero hy).2 htie
    simpa [Interval.around] using hclosed

theorem absValue_of_isZero {x : Binary64} (h : x.isZero = true) : x.absValue = 0 := by
  simp only [Binary64.isZero, Bool.and_eq_true, beq_iff_eq] at h
  rw [Binary64.absValue, Binary64.significand, if_pos h.1, h.2, Nat.cast_zero, zero_mul]

theorem roundsTo_zero {x : Binary64} (h : x.isZero = true) : RoundsTo 0 x := by
  have hvalue := absValue_of_isZero h
  simp only [Binary64.isZero, Bool.and_eq_true, beq_iff_eq] at h
  refine ⟨?_, ?_, ?_, mul_pos (by norm_num) (two_zpow_pos _)⟩
  · rw [Binary64.isFinite, h.1]
    rfl
  · intro y _
    rw [hvalue, sub_zero, abs_zero]
    exact abs_nonneg _
  · intro _ _ _ _
    rw [Binary64.significand, if_pos h.1, h.2]

/-! ### Uniqueness -/

theorem absValue_lt_of_magnitude_lt {x y : Binary64} (h : x.magnitude < y.magnitude) :
    x.absValue < y.absValue := by
  rw [x.magnitude_eq, y.magnitude_eq] at h
  have hx := x.le_exponent
  have hstep := two_zpow_pos x.exponent
  rcases lt_trichotomy x.exponent y.exponent with hexponent | hexponent | hexponent
  · have hnext := add_step_le_of_exponent_lt hexponent
    linarith
  · rw [hexponent] at h
    have hlt : (x.significand : ℚ) < y.significand := by exact_mod_cast Nat.lt_of_add_lt_add_left h
    rw [Binary64.absValue, Binary64.absValue, ← hexponent]
    exact mul_lt_mul_of_pos_right hlt hstep
  · -- the smaller exponent would leave too few steps for a larger magnitude
    have hy := y.le_exponent
    have hfull := Binary64.le_significand (x := x) (by omega)
    have hsmall := y.significand_lt
    omega

theorem significand_mod_two (x : Binary64) : x.significand % 2 = x.magnitude % 2 := by
  rw [x.magnitude_eq]
  omega

private theorem nearer_between {q a b c : ℚ} (hab : a < b) (hbc : b < c)
    (htie : |q - a| = |q - c|) : |q - b| < |q - a| := by
  rcases abs_eq_abs.mp htie with heq | heq
  · linarith
  · rw [abs_of_nonneg (show 0 ≤ q - a by linarith), abs_lt]
    constructor
    · linarith
    · linarith

private theorem RoundsTo.magnitude_le {q : ℚ} {x y : Binary64} (hx : RoundsTo q x)
    (hy : RoundsTo q y) : y.magnitude ≤ x.magnitude := by
  by_contra hnot
  have hless := not_le.mp hnot
  have hlt := absValue_lt_of_magnitude_lt hless
  have htie : |q - x.absValue| = |q - y.absValue| :=
    le_antisymm (hx.nearest y hy.finite) (hy.nearest x hx.finite)
  -- both are even, so the number after `x` lies between them and is nearer
  have hxeven := hx.even y hy.finite hlt.ne' htie
  have hyeven := hy.even x hx.finite hlt.ne htie.symm
  rw [significand_mod_two] at hxeven hyeven
  have hbound := Binary64.magnitude_lt hy.finite
  have hnext := Binary64.magnitude_ofMagnitude false (m := x.magnitude + 1) (by omega)
  have hfinite := Binary64.isFinite_ofMagnitude false (m := x.magnitude + 1) (by omega)
  have habove := absValue_lt_of_magnitude_lt (x := x) (by rw [hnext]; omega)
  have hbelow := absValue_lt_of_magnitude_lt (y := y) (by rw [hnext]; omega)
  exact absurd (hx.nearest _ hfinite) (not_le.mpr (nearer_between habove hbelow htie))

theorem RoundsTo.eq {q : ℚ} {x y : Binary64} (hx : RoundsTo q x) (hy : RoundsTo q y)
    (hsign : x.negative = y.negative) : x = y := by
  have hmagnitude := le_antisymm (hy.magnitude_le hx) (hx.magnitude_le hy)
  rw [← x.ofMagnitude_magnitude, ← y.ofMagnitude_magnitude, hsign, hmagnitude]

end Decimal

end Cypher

/-! ## Ties between shortest decimals

Halfway between two neighbouring decimals of a grid, one format takes the even one and another the
upper one. Everywhere else they take the same, because the interval reaches as far above its centre
as below it: the upper neighbour of a tie is never missing where the lower one is there. -/

namespace Cypher.Decimal

/-- The grid point to take where ties go up, given the one to take where they go to the even one. -/
def tieUp (centre num den k : Nat) : Nat :=
  if k % 2 = 0 ∧ 2 * (centre * num) = (2 * k + 1) * den then k + 1 else k

/-- A tie has the even point below it, so the point above the centre is left alone. -/
private theorem tieUp_above {centre num den k : Nat} (h : centre * num < k * den) :
    tieUp centre num den k = k := by
  apply if_neg
  rintro ⟨-, htie⟩
  rw [Nat.add_mul, Nat.mul_assoc] at htie
  omega

private theorem nearerNeighbour_upper {centre num den below : Nat}
    (habove : centre * num < (below + 1) * den) :
    nearerNeighbour .upper centre num den below =
      tieUp centre num den (nearerNeighbour .even centre num den below) := by
  simp only [nearerNeighbour]
  split
  · rename_i hless
    exact (if_neg fun htie => hless.ne htie.2).symm
  · split
    · exact (tieUp_above habove).symm
    · have htie : 2 * (centre * num) = (2 * below + 1) * den := by omega
      rcases Nat.mod_two_eq_zero_or_one below with hparity | hparity
      · rw [hparity, Nat.add_zero, tieUp, if_pos ⟨hparity, htie⟩]
      · rw [hparity, tieUp_above habove]

/-- Mirrored at the centre, a point of the interval stays in the interval. -/
private theorem Interval.holds_next {i : Interval} (hwide : 2 * i.centre ≤ i.lower + i.upper)
    {num den k : Nat} (htie : 2 * (i.centre * num) = (2 * k + 1) * den)
    (h : i.holds num den k = true) : i.holds num den (k + 1) = true := by
  have hscaled := Nat.mul_le_mul_right num hwide
  have hmirrored : k * den + (k + 1) * den = 2 * (i.centre * num) := by
    rw [htie]
    ring
  have hnext : (k + 1) * den = k * den + den := Nat.succ_mul k den
  rw [Nat.mul_assoc, Nat.add_mul] at hscaled
  simp only [Interval.holds] at h ⊢
  split
  · rename_i hclosed
    rw [if_pos hclosed] at h
    rw [Bool.and_eq_true, decide_eq_true_eq, decide_eq_true_eq] at h ⊢
    omega
  · rename_i hopen
    rw [if_neg hopen] at h
    rw [Bool.and_eq_true, decide_eq_true_eq, decide_eq_true_eq] at h ⊢
    omega

theorem Interval.onGrid?_upper {i : Interval} (hwide : 2 * i.centre ≤ i.lower + i.upper)
    (exponent : Int) :
    i.onGrid? .upper exponent = (i.onGrid? .even exponent).map
      (tieUp i.centre (gridRatio i.unit exponent).1 (gridRatio i.unit exponent).2) := by
  obtain ⟨-, hden⟩ := gridRatio_pos i.unit exponent
  simp only [Interval.onGrid?]
  set num := (gridRatio i.unit exponent).1
  set den := (gridRatio i.unit exponent).2
  have habove : i.centre * num < (i.centre * num / den + 1) * den := by
    rw [Nat.succ_mul]
    exact Nat.lt_div_mul_add hden
  cases hlower : i.holds num den (i.centre * num / den) with
  | true =>
      cases hupper : i.holds num den (i.centre * num / den + 1) with
      | true => rw [nearerNeighbour_upper habove, Option.map_some]
      | false =>
          refine congrArg some (if_neg ?_).symm
          rintro ⟨-, htie⟩
          rw [Interval.holds_next hwide htie hlower] at hupper
          exact absurd hupper (by decide)
  | false =>
      cases i.holds num den (i.centre * num / den + 1) with
      | true => exact congrArg some (tieUp_above habove).symm
      | false => rfl

theorem Interval.search_upper {i : Interval} (hwide : 2 * i.centre ≤ i.lower + i.upper)
    (steps n : Nat) (exponent : Int) (hn : n < steps)
    (hfine : i.onGrid? .even (exponent - n) ≠ none) :
    ∃ k e, i.search .even steps exponent = ⟨k, e⟩ ∧
      i.search .upper steps exponent =
        ⟨tieUp i.centre (gridRatio i.unit e).1 (gridRatio i.unit e).2 k, e⟩ := by
  induction steps generalizing n exponent with
  | zero => exact absurd hn (Nat.not_lt_zero n)
  | succ steps ih =>
      simp only [Interval.search, Interval.onGrid?_upper hwide]
      cases hgrid : i.onGrid? .even exponent with
      | some k => exact ⟨k, exponent, rfl, rfl⟩
      | none =>
          cases n with
          | zero =>
              rw [Nat.cast_zero, Int.sub_zero] at hfine
              exact absurd hgrid hfine
          | succ n =>
              have hexponent : exponent - (n + 1 : Nat) = exponent - 1 - n := by omega
              rw [hexponent] at hfine
              exact ih n (exponent - 1) (by omega) hfine

private theorem tie_iff (unit exponent : Int) (centre k : Nat) :
    2 * (centre * (gridRatio unit exponent).1) = (2 * k + 1) * (gridRatio unit exponent).2 ↔
      (centre : ℚ) * 2 ^ unit = (k + 1 / 2) * 10 ^ exponent := by
  obtain ⟨-, hden⟩ := gridRatio_pos unit exponent
  have hspec := gridRatio_spec unit exponent
  set num := (gridRatio unit exponent).1
  set den := (gridRatio unit exponent).2
  have hdenQ : (2 * den : ℚ) ≠ 0 := by positivity
  have hgrid : (10 : ℚ) ^ exponent ≠ 0 := (zpow_pos (by norm_num) exponent).ne'
  have hleft : (2 * den : ℚ) * (centre * 2 ^ unit) = 2 * (centre * num) * 10 ^ exponent := by
    linear_combination (-2 * centre : ℚ) * hspec
  have hright : (2 * den : ℚ) * ((k + 1 / 2) * 10 ^ exponent) = (2 * k + 1) * den * 10 ^ exponent := by
    ring
  rw [← mul_right_inj' hdenQ, hleft, hright, mul_left_inj' hgrid]
  exact_mod_cast Iff.rfl

theorem centre_around_eq (x : Binary64) :
    ((Interval.around x).centre : ℚ) * 2 ^ (Interval.around x).unit = x.absValue := by
  have hcentre : (Interval.around x).centre = 4 * x.significand := rfl
  rw [hcentre, Binary64.absValue, two_zpow_exponent]
  push_cast
  ring

/-- Where ties go up, the shortest decimal is the next one if the number is a tie, and the same one
otherwise. -/
theorem shortest_upper (x : Binary64) :
    ∃ (k : Nat) (e : Int), shortest .even x = ⟨k, e⟩ ∧
      shortest .upper x =
        ⟨if k % 2 = 0 ∧ x.absValue = (k + 1 / 2) * 10 ^ e then k + 1 else k, e⟩ := by
  obtain ⟨hsteps, hstart, hfine⟩ := onGrid?_around_finest .even x
  have hwide : 2 * (Interval.around x).centre ≤
      (Interval.around x).lower + (Interval.around x).upper := by
    simp only [Interval.around]
    split <;> omega
  rw [← hstart] at hfine
  obtain ⟨k, e, heven, hupper⟩ :=
    Interval.search_upper hwide _ _ (coarsestExponent x) hsteps hfine
  refine ⟨k, e, heven, ?_⟩
  rw [shortest, hupper, tieUp]
  simp only [tie_iff, centre_around_eq]

end Cypher.Decimal
