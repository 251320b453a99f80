import Cypher.Proofs.Decimal.Digits
import Cypher.Proofs.Decimal.Shortest
import Cypher.Proofs.Json.Tokens
import Cypher.Proofs.Temporal.Duration
import Cypher.Proofs.Temporal.Reader
import Cypher.Proofs.Value.Parts
import Cypher.Value.Basic

/-!
# Literals of scalars

Numbers, dates, times and durations are written with letters, digits and a few signs. None of these
characters is a quote, a backslash, a bracket, a comma or a blank, so such a text means nothing to a
reader that looks for these.
-/

namespace Cypher

namespace Text

/-- The characters that numbers, dates, times and durations are written with. -/
def isPlain (c : Char) : Bool :=
  c.isAlphanum || c == '-' || c == '+' || c == '.' || c == '/' || c == ':'

def Plain (cs : List Char) : Prop := ∀ c ∈ cs, isPlain c = true

instance (cs : List Char) : Decidable (Plain cs) :=
  decidable_of_iff (cs.all isPlain = true) List.all_eq_true

theorem plain_nil : Plain [] := by
  intro c hc
  exact absurd hc List.not_mem_nil

theorem plain_cons {c : Char} {cs : List Char} (hc : isPlain c = true) (hcs : Plain cs) :
    Plain (c :: cs) := by
  intro d hd
  rcases List.mem_cons.mp hd with rfl | hd
  · exact hc
  · exact hcs d hd

theorem plain_append {as bs : List Char} (has : Plain as) (hbs : Plain bs) : Plain (as ++ bs) := by
  intro c hc
  rcases List.mem_append.mp hc with hc | hc
  · exact has c hc
  · exact hbs c hc

theorem plain_of_isDigit {cs : List Char} (h : ∀ c ∈ cs, c.isDigit = true) : Plain cs := by
  intro c hc
  simp [isPlain, Char.isAlphanum, h c hc]

theorem plain_digits (n : Nat) : Plain (Decimal.digits n) :=
  plain_of_isDigit fun _ hc => Decimal.isDigit_of_mem_digits hc

theorem plain_padded (width n : Nat) : Plain (Decimal.padded width n) :=
  plain_of_isDigit fun _ hc => Decimal.isDigit_of_mem_padded hc

theorem plain_signed (i : Int) : Plain (Decimal.signed i) := by
  simp only [Decimal.signed]
  split
  · exact plain_cons (by decide) (plain_digits _)
  · exact plain_digits _

end Text

open Text (Plain plain_nil plain_cons plain_append plain_of_isDigit plain_digits plain_padded
  plain_signed)

namespace Decimal

theorem Numeral.plain_text (plusSign : Bool) {n : Numeral}
    (h : ∀ c ∈ n.fraction, c.isDigit = true) : Plain (n.text plusSign) := by
  have hsign : Plain (if n.negative then ['-'] else []) := by
    cases n.negative <;> decide
  have hfraction : Plain (if n.fraction.isEmpty then [] else '.' :: n.fraction) := by
    split
    · exact plain_nil
    · exact plain_cons (by decide) (plain_of_isDigit h)
  have hplus (e : Int) : Plain (if plusSign && decide (0 ≤ e) then ['+'] else []) := by
    split <;> decide
  simp only [Numeral.text]
  refine plain_append (plain_append (plain_append hsign (plain_digits _)) hfraction) ?_
  cases n.exponent with
  | none => exact plain_nil
  | some e => exact plain_append (plain_cons (by decide) (hplus e)) (plain_signed e)

end Decimal

theorem plain_floatLiteral (x : Binary64) : Plain (floatLiteral x) := by
  simp only [floatLiteral]
  split
  · decide
  · split
    · split <;> decide
    · exact Decimal.Numeral.plain_text _ (Decimal.FloatFormat.isDigit_fraction_numeral _ x)

theorem Date.plain_text (d : Date) : Plain d.text := by
  have hyear : Plain (yearText d.year) := by
    simp only [yearText]
    split
    · exact plain_padded _ _
    · refine plain_cons ?_ (plain_padded _ _)
      split <;> decide
  refine plain_append (plain_append hyear ?_) ?_
  · exact plain_cons (by decide) (plain_padded _ _)
  · exact plain_cons (by decide) (plain_padded _ _)

theorem TimeOfDay.plain_clockText (t : TimeOfDay) : Plain t.clockText := by
  refine plain_append (plain_append (plain_padded _ _) ?_) ?_
  · exact plain_cons (by decide) (plain_padded _ _)
  · exact plain_cons (by decide) (plain_padded _ _)

theorem TimeOfDay.plain_literalText (t : TimeOfDay) : Plain t.literalText := by
  refine plain_append t.plain_clockText ?_
  split
  · exact plain_nil
  · exact plain_cons (by decide) (plain_padded _ _)

theorem DateTime.plain_literalText (t : DateTime) : Plain t.literalText :=
  plain_append t.date.plain_text (plain_cons (by decide) t.time.plain_literalText)

theorem Duration.plain_literalText (d : Duration) : Plain d.literalText := by
  have hsign : Plain (if d.nanoseconds < 0 then ['-'] else []) := by
    split <;> decide
  have hfraction :
      Plain (if d.subsecondMicros = 0 then [] else '.' :: Decimal.padded 6 d.subsecondMicros) := by
    split
    · exact plain_nil
    · exact plain_cons (by decide) (plain_padded _ _)
  have hmark {c : Char} (hc : Text.isPlain c = true) (n : Nat) : Plain (c :: Decimal.digits n) :=
    plain_cons hc (plain_digits n)
  simp only [Duration.literalText]
  refine plain_append (plain_append (plain_append (plain_append (plain_append (plain_append hsign
    (hmark (by decide) _)) ?_) ?_) ?_) hfraction) (by decide)
  · exact plain_cons (by decide) (hmark (by decide) _)
  · exact hmark (by decide) _
  · exact hmark (by decide) _

end Cypher

/-! ## What a literal says

A literal keeps less than the value: an entity is written as the map of its properties, times as the
clock shows them, times and durations to whole microseconds, and all values that are no number alike.
`Value.denoted` is the value with all else removed. -/

namespace Cypher

/-- The number itself, or one fixed pattern for all patterns that denote no number. -/
def Binary64.canonical (x : Binary64) : Binary64 :=
  if x.isNaN then ⟨0x7ff8000000000000⟩ else x

namespace Value

mutual

/-- The value that a literal denotes. -/
def denoted : Value → Value
  | .float x => .float x.canonical
  | .list items => .list (denotedItems items)
  | .map entries => .map ⟨denotedFields entries.entries⟩
  | .localTime t => .localTime t.wholeMicros.carried
  | .localDateTime t => .localDateTime t.wholeMicros.carried
  | .duration d => .duration d.wholeMicros
  | .node n => .map ⟨denotedFields n.properties.entries⟩
  | .relationship r => .map ⟨denotedFields r.properties.entries⟩
  | v => v

def denotedItems : List Value → List Value
  | [] => []
  | item :: rest => denoted item :: denotedItems rest

def denotedFields : List (String × Value) → List (String × Value)
  | [] => []
  | (name, value) :: rest => (name, denoted value) :: denotedFields rest

end

def denotedField (field : String × Value) : String × Value := (field.1, field.2.denoted)

theorem denotedItems_eq_map (items : List Value) : denotedItems items = items.map denoted := by
  induction items with
  | nil => rfl
  | cons item rest ih => rw [denotedItems, ih, List.map_cons]

theorem denotedFields_eq_map (fields : List (String × Value)) :
    denotedFields fields = fields.map denotedField := by
  induction fields with
  | nil => rfl
  | cons field rest ih =>
      obtain ⟨name, value⟩ := field
      rw [denotedFields, ih, List.map_cons]
      rfl

end Value

/-! ## Literals of numbers and calls

The literal of a number is read as a numeral, and a call of a constructor determines its argument. So
numbers with the same literal are the same number, and none of them is written like an integer. -/

open Decimal (Numeral signed)
open Json (readNumeral readNumeral_text)
open Text (stopsAt_nil)

theorem readNumeral_signed (i : Int) : readNumeral (signed i) = some (Numeral.ofInt i, []) := by
  have hfraction : ∀ c ∈ (Numeral.ofInt i).fraction, c.isDigit = true := by simp [Numeral.ofInt]
  have hread := readNumeral_text false hfraction stopsAt_nil
  rwa [Numeral.text_ofInt, List.append_nil] at hread

theorem floatLiteral_of_isFinite {x : Binary64} (h : x.isFinite = true) :
    floatLiteral x = literalFloats.render x := by
  have hnumber : x.isNaN = false := by
    simp only [Binary64.isFinite, bne_iff_ne] at h
    simp [Binary64.isNaN, h]
  simp only [floatLiteral, hnumber, h, Bool.false_eq_true, if_false, Bool.not_true]

theorem readNumeral_floatLiteral {x : Binary64} (h : x.isFinite = true) :
    readNumeral (floatLiteral x) = some (literalFloats.numeral x, []) := by
  have hread := readNumeral_text false (literalFloats.isDigit_fraction_numeral x) stopsAt_nil
  rw [List.append_nil] at hread
  rw [floatLiteral_of_isFinite h]
  exact hread

/-- The literal of a number that is not finite is a quotient by zero. -/
theorem readNumeral_quotient {x : Binary64} (h : x.isFinite = false) :
    readNumeral (floatLiteral x) =
      some (⟨!x.isNaN && x.negative, if x.isNaN then 0 else 1, ['0'], none⟩, "/0.0".toList) := by
  cases hnumber : x.isNaN with
  | true =>
      simp only [floatLiteral, hnumber, if_true]
      rfl
  | false =>
      cases hsign : x.negative with
      | true =>
          simp only [floatLiteral, hnumber, h, hsign, Bool.false_eq_true, if_false, if_true,
            Bool.not_false]
          rfl
      | false =>
          simp only [floatLiteral, hnumber, h, hsign, Bool.false_eq_true, if_false, if_true,
            Bool.not_false]
          rfl

theorem Binary64.eq_of_infinite {x y : Binary64} (hx : x.isFinite = false) (hy : y.isFinite = false)
    (hx' : x.isNaN = false) (hy' : y.isNaN = false) (h : x.negative = y.negative) : x = y := by
  have hmagnitude : ∀ z : Binary64, z.isFinite = false → z.isNaN = false →
      z.magnitude = 2047 * 2 ^ 52 := by
    intro z hz hz'
    simp only [isFinite, bne_eq_false_iff_eq] at hz
    simp only [isNaN, hz, beq_self_eq_true, Bool.true_and, bne_eq_false_iff_eq] at hz'
    rw [magnitude_eq_field, hz, hz', Nat.add_zero]
  rw [← ofMagnitude_magnitude x, ← ofMagnitude_magnitude y, hmagnitude x hx hx',
    hmagnitude y hy hy', h]

theorem canonical_eq_of_floatLiteral {x y : Binary64} (h : floatLiteral x = floatLiteral y) :
    x.canonical = y.canonical := by
  have hread := congrArg readNumeral h
  cases hx : x.isFinite with
  | true =>
      cases hy : y.isFinite with
      | true =>
          rw [readNumeral_floatLiteral hx, readNumeral_floatLiteral hy, Option.some.injEq,
            Prod.mk.injEq] at hread
          have hvalue := congrArg Numeral.toBinary64? hread.1
          rw [literalFloats.toBinary64?_numeral hx, literalFloats.toBinary64?_numeral hy,
            Option.some.injEq] at hvalue
          rw [hvalue]
      | false =>
          rw [readNumeral_floatLiteral hx, readNumeral_quotient hy] at hread
          exact absurd hread (by simp)
  | false =>
      cases hy : y.isFinite with
      | true =>
          rw [readNumeral_quotient hx, readNumeral_floatLiteral hy] at hread
          exact absurd hread (by simp)
      | false =>
          rw [readNumeral_quotient hx, readNumeral_quotient hy] at hread
          cases hx' : x.isNaN with
          | true =>
              cases hy' : y.isNaN with
              | true => simp [Binary64.canonical, hx', hy']
              | false => simp [hx', hy'] at hread
          | false =>
              cases hy' : y.isNaN with
              | true => simp [hx', hy'] at hread
              | false =>
                  have hsign : x.negative = y.negative := by simpa [hx', hy'] using hread
                  rw [Binary64.eq_of_infinite hx hy hx' hy' hsign]

theorem signed_ne_floatLiteral (i : Int) (x : Binary64) : signed i ≠ floatLiteral x := by
  intro h
  have hread := congrArg readNumeral h
  rw [readNumeral_signed] at hread
  cases hx : x.isFinite with
  | true =>
      rw [readNumeral_floatLiteral hx, Option.some.injEq, Prod.mk.injEq] at hread
      rcases literalFloats.numeral_ne_integer x with hne | hne
      · exact hne (by rw [← hread.1, Numeral.ofInt])
      · exact hne (by rw [← hread.1, Numeral.ofInt])
  | false =>
      rw [readNumeral_quotient hx] at hread
      exact absurd hread (by simp)

theorem toList_constructorCall (name : String) (text : List Char) :
    (constructorCall name text).toList = name.toList ++ '(' :: '\'' :: (text ++ ['\'', ')']) := by
  simp [constructorCall]

theorem constructorCall_inj {name : String} {text other : List Char}
    (h : (constructorCall name text).toList = (constructorCall name other).toList) :
    text = other := by
  rw [toList_constructorCall, toList_constructorCall] at h
  simpa using List.append_cancel_left h

theorem isAlpha_of_isDigit {c : Char} (h : c.isDigit = true) : c.isAlpha = false := by
  grind [Char.isDigit, Char.isAlpha, Char.isUpper, Char.isLower]

theorem head_signed (i : Int) : ∃ c cs, signed i = c :: cs ∧ (c = '-' ∨ c.isDigit = true) := by
  rw [← Numeral.text_ofInt false]
  exact Json.head_text false _

theorem head_floatLiteral (x : Binary64) :
    ∃ c cs, floatLiteral x = c :: cs ∧ (c = '-' ∨ c.isDigit = true) := by
  simp only [floatLiteral]
  split
  · exact ⟨'0', _, rfl, .inr (by decide)⟩
  · split
    · split
      · exact ⟨'-', _, rfl, .inl rfl⟩
      · exact ⟨'1', _, rfl, .inr (by decide)⟩
    · exact Json.head_text _ _

end Cypher
