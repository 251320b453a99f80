import Cypher.Proofs.Decimal.Nearest
import Cypher.Proofs.Value.Codec
import Cypher.Proofs.Value.Scalars

/-!
# Floating-point numbers in literals and in the serialized form

No literal of a floating-point number is an integer. For a finite number the literal and the serialized
text are decimals with its sign that are rounded to it, and they are the same decimal unless the number
is a tie between two shortest ones.
-/

namespace Cypher

open Decimal (Numeral FloatFormat digits signed)
open Json (readNumeral readNumeral_text)
open Text (stopsAt_nil)

/-! ### The forms of numbers -/

def IsDigits (cs : List Char) : Prop := cs ≠ [] ∧ ∀ c ∈ cs, c.isDigit = true

def IsIntegerText (cs : List Char) : Prop := ∃ ds, IsDigits ds ∧ (cs = ds ∨ cs = '-' :: ds)

/-- An integer that is followed by a point and digits, by an exponent, or by both. -/
def IsFloatText (cs : List Char) : Prop :=
  ∃ whole point exponent, cs = whole ++ (point ++ exponent) ∧ IsIntegerText whole ∧
    (point = [] ∨ ∃ ds, IsDigits ds ∧ point = '.' :: ds) ∧
    (exponent = [] ∨ ∃ e, IsIntegerText e ∧ exponent = 'e' :: e) ∧ (point ≠ [] ∨ exponent ≠ [])

theorem isDigits_digits (n : Nat) : IsDigits (digits n) :=
  ⟨Decimal.digits_ne_nil n, fun _ hc => Decimal.isDigit_of_mem_digits hc⟩

theorem isIntegerText_signed (i : Int) : IsIntegerText (signed i) := by
  refine ⟨digits i.natAbs, isDigits_digits _, ?_⟩
  rw [signed]
  split
  · exact .inr rfl
  · exact .inl rfl

theorem IsIntegerText.not_mem {cs : List Char} (h : IsIntegerText cs) {c : Char}
    (hc : c.isDigit = false) (hminus : c ≠ '-') : c ∉ cs := by
  obtain ⟨ds, ⟨-, hdigits⟩, hcs⟩ := h
  intro hmem
  have hds : c ∈ ds := by
    rcases hcs with rfl | rfl
    · exact hmem
    · exact List.mem_of_ne_of_mem hminus hmem
  rw [hdigits c hds] at hc
  exact absurd hc (by decide)

theorem IsFloatText.not_isIntegerText {cs : List Char} (h : IsFloatText cs) :
    ¬IsIntegerText cs := by
  obtain ⟨whole, point, exponent, rfl, -, hpoint, hexponent, hboth⟩ := h
  intro hinteger
  rcases hpoint with rfl | ⟨ds, -, rfl⟩
  · rcases hexponent with rfl | ⟨e, -, rfl⟩
    · simp at hboth
    · exact hinteger.not_mem (c := 'e') (by decide) (by decide) (by simp)
  · exact hinteger.not_mem (c := '.') (by decide) (by decide) (by simp)

theorem IsFloatText.slash_not_mem {cs : List Char} (h : IsFloatText cs) : '/' ∉ cs := by
  obtain ⟨whole, point, exponent, rfl, hwhole, hpoint, hexponent, -⟩ := h
  have hslash : ('/' : Char).isDigit = false := by decide
  rw [List.mem_append, List.mem_append, not_or, not_or]
  refine ⟨hwhole.not_mem hslash (by decide), ?_, ?_⟩
  · rcases hpoint with rfl | ⟨ds, hds, rfl⟩
    · exact List.not_mem_nil
    · have hnot := IsIntegerText.not_mem ⟨ds, hds, .inl rfl⟩ hslash (by decide)
      simpa using hnot
  · rcases hexponent with rfl | ⟨e, he, rfl⟩
    · exact List.not_mem_nil
    · simpa using he.not_mem hslash (by decide)

theorem isFloatText_text {n : Numeral} (hdigits : ∀ c ∈ n.fraction, c.isDigit = true)
    (h : n.fraction ≠ [] ∨ n.exponent ≠ none) : IsFloatText (n.text false) := by
  rw [Json.text_eq, ← List.append_assoc]
  refine ⟨_, _, _, rfl, ?_, ?_, ?_, ?_⟩
  · refine ⟨digits n.whole, isDigits_digits _, ?_⟩
    cases n.negative with
    | true => exact .inr rfl
    | false => exact .inl rfl
  · cases hfraction : n.fraction with
    | nil => exact .inl rfl
    | cons d ds =>
        rw [hfraction] at hdigits
        exact .inr ⟨d :: ds, ⟨List.cons_ne_nil d ds, hdigits⟩, rfl⟩
  · cases n.exponent with
    | none => exact .inl rfl
    | some e => exact .inr ⟨signed e, isIntegerText_signed e, rfl⟩
  · rcases h with hfraction | hexponent
    · left
      simpa [Json.fractionText] using hfraction
    · right
      obtain ⟨e, he⟩ := Option.ne_none_iff_exists'.mp hexponent
      simp [he, Json.exponentText]

theorem isFloatText_floatLiteral {x : Binary64} (h : x.isFinite = true) :
    IsFloatText (floatLiteral x) := by
  rw [floatLiteral_of_isFinite h]
  exact isFloatText_text (literalFloats.isDigit_fraction_numeral x)
    (literalFloats.numeral_ne_integer x)

theorem floatLiteral_mem_quotients {x : Binary64} (h : x.isFinite = false) :
    String.ofList (floatLiteral x) ∈ ["0.0/0.0", "1.0/0.0", "-1.0/0.0"] := by
  simp only [floatLiteral, h, Bool.not_false, if_true]
  split
  · simp
  · split <;> simp

/-! ### The values of the texts -/

namespace Decimal

theorem value_numeral_of_isZero (format : FloatFormat) {x : Binary64} (h : x.isZero = true) :
    (format.numeral x).value = 0 := by
  have hzero : valueOf ['0'] = 0 := rfl
  simp [FloatFormat.numeral, h, Numeral.value, Numeral.coefficient, hzero]

theorem value_numeral (format : FloatFormat) {x : Binary64} (h : x.isZero = false) :
    (format.numeral x).value = (shortest format.tie x).value := by
  simp only [FloatFormat.numeral, h, Bool.false_eq_true, if_false]
  exact (format.layout_value (shortest format.tie x)).1

/-- A numeral is rounded to `x`, sign and magnitude. -/
def Numeral.RoundsTo (n : Numeral) (x : Binary64) : Prop :=
  n.negative = x.negative ∧ Decimal.RoundsTo n.value x

theorem roundsTo_value_numeral (format : FloatFormat) {x : Binary64} (h : x.isFinite = true) :
    RoundsTo (format.numeral x).value x := by
  cases hzero : x.isZero with
  | true =>
      rw [value_numeral_of_isZero format hzero]
      exact roundsTo_zero hzero
  | false =>
      rw [value_numeral format hzero]
      exact roundsTo_of_contains h hzero (contains_shortest format.tie x).1

theorem roundsTo_numeral_iff (format : FloatFormat) {x : Binary64} (h : x.isFinite = true)
    (y : Binary64) : (format.numeral x).RoundsTo y ↔ y = x := by
  have hrounds := roundsTo_value_numeral format h
  constructor
  · rintro ⟨hsign, hother⟩
    exact hother.eq hrounds hsign.symm
  · rintro rfl
    exact ⟨rfl, hrounds⟩

/-- The decimals of the two formats are the same, unless the number is halfway between two. -/
theorem value_numeral_pair (x : Binary64) :
    ∃ (k : Nat) (e : Int), (serializedFloats.numeral x).value = k * 10 ^ e ∧
      (literalFloats.numeral x).value =
        (if k % 2 = 0 ∧ x.absValue = (k + 1 / 2) * 10 ^ e then k + 1 else k : Nat) * 10 ^ e := by
  cases hzero : x.isZero with
  | true =>
      have hhalf : ¬x.absValue = ((0 : Nat) + 1 / 2) * 10 ^ (0 : Int) := by
        rw [absValue_of_isZero hzero]
        norm_num
      refine ⟨0, 0, ?_, ?_⟩
      · rw [value_numeral_of_isZero serializedFloats hzero]
        norm_num
      · rw [value_numeral_of_isZero literalFloats hzero, if_neg fun htie => hhalf htie.2]
        norm_num
  | false =>
      obtain ⟨k, e, heven, hupper⟩ := shortest_upper x
      refine ⟨k, e, ?_, ?_⟩
      · rw [value_numeral serializedFloats hzero, serializedFloats, heven, Scaled.value]
      · rw [value_numeral literalFloats hzero, literalFloats, hupper, Scaled.value]

end Decimal

theorem readNumeral_serialized (x : Binary64) :
    readNumeral (Json.number (serializedFloats.numeral x)).compact =
      some (serializedFloats.numeral x, []) := by
  have hread := readNumeral_text true (serializedFloats.isDigit_fraction_numeral x) stopsAt_nil
  rwa [List.append_nil] at hread

/-- The texts of a floating-point number keep it. Its literal is a decimal with a point or an
exponent, or a quotient if the number is not finite, and never an integer. The literal and the
serialized text of a finite number have its sign and are both rounded to it. They are the same decimal
unless the serialized one is even and the number lies halfway between that and the next one, which is
then the literal. -/
theorem float_texts_keep_value (x : Binary64) :
    ¬IsIntegerText (Value.float x).literal.toList ∧
      (∀ n : Int64, (Value.float x).literal ≠ (Value.int n).literal) ∧
      (x.isFinite = true ↔ IsFloatText (Value.float x).literal.toList) ∧
      (x.isFinite = false ↔ (Value.float x).literal ∈ ["0.0/0.0", "1.0/0.0", "-1.0/0.0"]) ∧
      (x.isFinite = true → ∃ written serialized : Numeral,
        readNumeral (Value.float x).literal.toList = some (written, []) ∧
        (Value.float x).encode = .ok (tagged .float (.number serialized)) ∧
        readNumeral (Json.number serialized).compact = some (serialized, []) ∧
        written.negative = x.negative ∧ serialized.negative = x.negative ∧
        (∀ y, written.RoundsTo y ↔ y = x) ∧ (∀ y, serialized.RoundsTo y ↔ y = x) ∧
        ∃ (k : Nat) (e : Int), serialized.value = k * 10 ^ e ∧ written.value =
          (if k % 2 = 0 ∧ x.absValue = (k + 1 / 2) * 10 ^ e then k + 1 else k : Nat) * 10 ^ e) := by
  have hliteral : (Value.float x).literal.toList = floatLiteral x := String.toList_ofList
  have hquotient : ∀ s ∈ ["0.0/0.0", "1.0/0.0", "-1.0/0.0"], '/' ∈ s.toList := by decide
  have hslash : x.isFinite = false → '/' ∈ floatLiteral x := by
    intro h
    rw [← hliteral]
    exact hquotient _ (floatLiteral_mem_quotients h)
  rw [hliteral]
  refine ⟨?_, ?_, ?_, ?_, ?_⟩
  · intro hinteger
    cases hfinite : x.isFinite with
    | true => exact (isFloatText_floatLiteral hfinite).not_isIntegerText hinteger
    | false => exact hinteger.not_mem (by decide) (by decide) (hslash hfinite)
  · intro n h
    exact signed_ne_floatLiteral n.toInt x (String.ofList_injective h.symm)
  · refine ⟨isFloatText_floatLiteral, fun hform => ?_⟩
    by_contra hnot
    exact hform.slash_not_mem (hslash (Bool.not_eq_true _ ▸ hnot))
  · refine ⟨floatLiteral_mem_quotients, fun hmem => ?_⟩
    have hmem' := hquotient _ hmem
    rw [hliteral] at hmem'
    by_contra hnot
    exact (isFloatText_floatLiteral (Bool.not_eq_false _ ▸ hnot)).slash_not_mem hmem'
  · intro hfinite
    exact ⟨literalFloats.numeral x, serializedFloats.numeral x, readNumeral_floatLiteral hfinite,
      Value.encode_float hfinite, readNumeral_serialized x, rfl, rfl,
      Decimal.roundsTo_numeral_iff literalFloats hfinite,
      Decimal.roundsTo_numeral_iff serializedFloats hfinite, Decimal.value_numeral_pair x⟩

theorem smallest_float_kept :
    (⟨1⟩ : Binary64).isFinite = true ∧ ∃ written : Numeral,
      readNumeral (Value.float ⟨1⟩).literal.toList = some (written, []) ∧
      ∀ y, written.RoundsTo y ↔ y = ⟨1⟩ := by
  have hfinite : (⟨1⟩ : Binary64).isFinite = true := by decide
  obtain ⟨-, -, -, -, hkept⟩ := float_texts_keep_value ⟨1⟩
  obtain ⟨written, -, hread, -, -, -, -, hrounds, -⟩ := hkept hfinite
  exact ⟨hfinite, written, hread, hrounds⟩

/-- Halfway between two decimals of sixteen digits, literal and serialized text are not the same. -/
theorem texts_of_tie_differ :
    ¬∀ x : Binary64, x.isFinite = true → ∀ written serialized : Numeral,
      readNumeral (Value.float x).literal.toList = some (written, []) →
      (Value.float x).encode = .ok (tagged .float (.number serialized)) →
      written.value = serialized.value := by
  intro h
  have hfinite : (⟨0x4310000000000001⟩ : Binary64).isFinite = true := by decide
  have hwritten : literalFloats.numeral ⟨0x4310000000000001⟩ =
      ⟨false, 1125899906842624, ['3'], none⟩ := by decide +kernel
  have hserialized : serializedFloats.numeral ⟨0x4310000000000001⟩ =
      ⟨false, 1125899906842624, ['2'], none⟩ := by decide +kernel
  have hread := readNumeral_floatLiteral hfinite
  have hencode := Value.encode_float hfinite
  rw [hwritten] at hread
  rw [hserialized] at hencode
  have hequal := h _ hfinite _ _ (by rwa [Value.literal, String.toList_ofList]) hencode
  norm_num [Numeral.value, Numeral.coefficient, Numeral.scale] at hequal
  exact absurd hequal (by decide)

end Cypher
