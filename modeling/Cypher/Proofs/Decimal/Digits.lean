import Mathlib
import Cypher.Decimal.Numeral
import Cypher.Decimal.Shortest
import Cypher.Proofs.Text.Trim

/-!
# Digits and their values

A digit list spells one number, and writing to a fixed width changes neither the number nor, if the
number fits, the width. So a number can be read back wherever what follows is no digit.
-/

namespace Cypher.Decimal

theorem isDigit_of_mem_padded {width n : Nat} {c : Char} (h : c ∈ padded width n) :
    c.isDigit = true := by
  rcases List.mem_append.mp h with hzero | hdigit
  · rw [(List.mem_replicate.mp hzero).2]
    decide
  · exact isDigit_of_mem_digits hdigit

theorem padded_ne_nil (width n : Nat) : padded width n ≠ [] := by
  intro h
  exact digits_ne_nil n (List.append_eq_nil_iff.mp h).2

theorem valueOf_cons (c : Char) (cs : List Char) :
    valueOf (c :: cs) = (c.toNat - '0'.toNat) * 10 ^ cs.length + valueOf cs := by
  rw [valueOf, Nat.ofDigitChars_cons, Nat.ofDigitChars_eq_ofDigitChars_zero, valueOf,
    Nat.mul_zero, Nat.zero_add, Nat.mul_comm]

theorem toNat_of_isDigit {c : Char} (h : c.isDigit = true) : 48 ≤ c.toNat ∧ c.toNat ≤ 57 := by
  simp only [Char.isDigit, Bool.and_eq_true, decide_eq_true_eq, ge_iff_le,
    UInt32.le_iff_toNat_le] at h
  exact h

theorem isBlank_of_isDigit {c : Char} (h : c.isDigit = true) : Text.isBlank c = false := by
  have hbounds := toNat_of_isDigit h
  exact Text.isBlank_of_graphic (by omega) (by omega)

theorem digit_le_nine {c : Char} (h : c.isDigit = true) : c.toNat - '0'.toNat ≤ 9 := by
  have hbounds := toNat_of_isDigit h
  have hzero : '0'.toNat = 48 := rfl
  omega

theorem valueOf_lt_pow {ds : List Char} (h : ∀ c ∈ ds, c.isDigit = true) :
    valueOf ds < 10 ^ ds.length := by
  induction ds with
  | nil => decide
  | cons c ds ih =>
      have hc := digit_le_nine (h c List.mem_cons_self)
      have hds := ih fun d hd => h d (List.mem_cons_of_mem c hd)
      rw [valueOf_cons, List.length_cons, Nat.pow_succ]
      have hscaled := Nat.mul_le_mul_right (10 ^ ds.length) hc
      omega

theorem valueOf_append (as bs : List Char) :
    valueOf (as ++ bs) = valueOf as * 10 ^ bs.length + valueOf bs := by
  rw [valueOf, Nat.ofDigitChars_append, Nat.ofDigitChars_eq_ofDigitChars_zero, valueOf, valueOf,
    Nat.mul_comm]

theorem valueOf_zeros_append (zeros : Nat) (ds : List Char) :
    valueOf (List.replicate zeros '0' ++ ds) = valueOf ds := by
  have hzeros : valueOf (List.replicate zeros '0') = 0 := by
    rw [valueOf, Nat.ofDigitChars_replicate_zero, Nat.mul_zero]
  rw [valueOf_append, hzeros, Nat.zero_mul, Nat.zero_add]

@[simp] theorem valueOf_padded (width n : Nat) : valueOf (padded width n) = n := by
  rw [padded, valueOf_zeros_append, valueOf_digits]

theorem padded_injective (width : Nat) : Function.Injective (padded width) := by
  intro m n h
  rw [← valueOf_padded width m, h, valueOf_padded]

theorem digits_injective : Function.Injective digits := by
  intro m n h
  rw [← valueOf_digits m, h, valueOf_digits]

theorem length_digits_pos (n : Nat) : 0 < (digits n).length :=
  List.length_pos_iff.mpr (digits_ne_nil n)

theorem length_digits_le_iff {n k : Nat} (hk : 0 < k) : (digits n).length ≤ k ↔ n < 10 ^ k :=
  Nat.length_toDigits_le_iff (by decide) hk

theorem length_padded {width n : Nat} (hwidth : 0 < width) (h : n < 10 ^ width) :
    (padded width n).length = width := by
  have hlen := (length_digits_le_iff hwidth).mpr h
  rw [padded, List.length_append, List.length_replicate]
  omega

theorem pow_length_le_of_pos {n : Nat} (h : 0 < n) : 10 ^ ((digits n).length - 1) ≤ n := by
  by_cases hone : (digits n).length = 1
  · rw [hone]
    exact h
  · have hpos := length_digits_pos n
    by_contra hlt
    have hshort := (length_digits_le_iff (n := n) (k := (digits n).length - 1) (by omega)).mpr
      (by omega)
    omega

theorem lt_pow_length_digits (n : Nat) : n < 10 ^ (digits n).length :=
  (length_digits_le_iff (length_digits_pos n)).mp (Nat.le_refl _)

theorem digits_zero : digits 0 = ['0'] := rfl

theorem head_digits_ne_zero {n : Nat} (h : 0 < n) : (digits n).head? ≠ some '0' := by
  intro hhead
  obtain ⟨rest, hrest⟩ : ∃ rest, digits n = '0' :: rest := by
    cases hdigits : digits n with
    | nil => exact absurd hdigits (digits_ne_nil n)
    | cons c rest =>
        rw [hdigits, List.head?_cons, Option.some.injEq] at hhead
        exact ⟨rest, by rw [hhead]⟩
  have hdigits : ∀ c ∈ rest, c.isDigit = true := by
    intro c hc
    exact isDigit_of_mem_digits (n := n) (hrest ▸ List.mem_cons_of_mem '0' hc)
  have hvalue : n = valueOf rest := by
    have hcons := valueOf_cons '0' rest
    rwa [← hrest, valueOf_digits, Nat.sub_self, Nat.zero_mul, Nat.zero_add] at hcons
  -- the digits behind the zero are too few to spell `n`
  have hlow := pow_length_le_of_pos h
  rw [hrest, List.length_cons, Nat.add_sub_cancel] at hlow
  have hhigh := valueOf_lt_pow hdigits
  omega

theorem spanDigits_append {ds cs : List Char} (hds : ∀ c ∈ ds, c.isDigit = true)
    (hcs : Text.StopsAt Char.isDigit cs) : spanDigits (ds ++ cs) = (ds, cs) :=
  hcs.span_append hds

/-! ## The form of printed numbers

What a printed floating-point number has behind its point are digits, and it has a point or an
exponent, so that it is never mistaken for an integer. -/

theorem Scaled.isDigit_fraction_positional (d : Scaled) :
    ∀ c ∈ d.positional.fraction, c.isDigit = true := by
  intro c hc
  simp only [Scaled.positional] at hc
  split at hc
  · rw [List.mem_singleton.mp hc]
    decide
  · exact isDigit_of_mem_padded hc

theorem Scaled.isDigit_fraction_scientific (d : Scaled) :
    ∀ c ∈ d.scientific.fraction, c.isDigit = true := by
  intro c hc
  simp only [Scaled.scientific] at hc
  split at hc
  · exact absurd hc List.not_mem_nil
  · exact isDigit_of_mem_padded hc

theorem FloatFormat.isDigit_fraction_numeral (format : FloatFormat) (x : Binary64) :
    ∀ c ∈ (format.numeral x).fraction, c.isDigit = true := by
  simp only [FloatFormat.numeral]
  split
  · exact List.all_eq_true.mp (by decide)
  · simp only [FloatFormat.layout]
    split
    · exact Scaled.isDigit_fraction_positional _
    · exact Scaled.isDigit_fraction_scientific _

theorem Scaled.fraction_positional_ne_nil (d : Scaled) : d.positional.fraction ≠ [] := by
  simp only [Scaled.positional]
  split
  · simp
  · exact padded_ne_nil _ _

theorem FloatFormat.numeral_ne_integer (format : FloatFormat) (x : Binary64) :
    (format.numeral x).fraction ≠ [] ∨ (format.numeral x).exponent ≠ none := by
  simp only [FloatFormat.numeral]
  split
  · exact .inl (by simp)
  · simp only [FloatFormat.layout]
    split
    · exact .inl (Scaled.fraction_positional_ne_nil _)
    · exact .inr (by simp [Scaled.scientific])

theorem Numeral.ofInt_injective : Function.Injective Numeral.ofInt := by
  intro i j h
  simp only [Numeral.ofInt, Numeral.mk.injEq, decide_eq_decide] at h
  omega

theorem Numeral.text_ofInt (plusSign : Bool) (i : Int) :
    (Numeral.ofInt i).text plusSign = signed i := by
  by_cases h : i < 0
  · simp [Numeral.text, Numeral.ofInt, signed, h]
  · simp [Numeral.text, Numeral.ofInt, signed, h]

end Cypher.Decimal
