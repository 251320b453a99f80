/-!
# Numbers

Binary numbers of 64 bits, decimal digits, and the numerals that stand for a binary number.
-/

namespace Cypher

/-! ## Floating-point numbers of 64 bits

A number is its bit pattern. Its parts are read off by exact arithmetic: a finite number is
`significand * 2 ^ exponent` with its sign, and the exponent field 2047 marks infinities and the
values that are not numbers. -/

-- powers are those of the core library, whatever algebra is in scope
attribute [local instance (high)] instPowNat

/-- A floating-point number of 64 bits, given by its bit pattern. -/
structure Binary64 where
  /-- One sign bit, eleven exponent bits and 52 fraction bits. -/
  bits : UInt64
deriving DecidableEq, Inhabited

namespace Binary64

def negative (x : Binary64) : Bool := decide (2 ^ (63 : Nat) ≤ x.bits.toNat)

def exponentField (x : Binary64) : Nat := x.bits.toNat / 2 ^ (52 : Nat) % 2 ^ (11 : Nat)

def fraction (x : Binary64) : Nat := x.bits.toNat % 2 ^ (52 : Nat)

/-- Whether the pattern denotes a number other than an infinity. -/
def isFinite (x : Binary64) : Bool := x.exponentField != 2047

/-- Whether the pattern denotes no number. -/
def isNaN (x : Binary64) : Bool := x.exponentField == 2047 && x.fraction != 0

/-- Whether the pattern denotes zero, of either sign. -/
def isZero (x : Binary64) : Bool := x.exponentField == 0 && x.fraction == 0

/-- The integer that is scaled by a power of two; it has 53 bits unless the number is subnormal. -/
def significand (x : Binary64) : Nat :=
  if x.exponentField = 0 then x.fraction else x.fraction + 2 ^ (52 : Nat)

def exponent (x : Binary64) : Int := (max x.exponentField 1 : Nat) - 1075

/-- Equality of numbers: what is no number equals nothing, and the two zeros are equal. -/
def equal (x y : Binary64) : Bool :=
  !x.isNaN && !y.isNaN && (x == y || (x.isZero && y.isZero))

/-- The number with the sign bit set as told and the magnitude of a pattern below `2 ^ 63`. -/
def ofMagnitude (negative : Bool) (magnitude : Nat) : Binary64 :=
  ⟨UInt64.ofNat (if negative then 2 ^ (63 : Nat) + magnitude else magnitude)⟩

def ofBinary32 (bits : UInt32) : Binary64 :=
  let n := bits.toNat
  let field := n / 2 ^ (23 : Nat) % 2 ^ (8 : Nat)
  let fraction := n % 2 ^ (23 : Nat)
  let magnitude :=
    if field = 255 then 2047 * 2 ^ (52 : Nat) + fraction * 2 ^ (29 : Nat)
    else if field ≠ 0 then (field + 896) * 2 ^ (52 : Nat) + fraction * 2 ^ (29 : Nat)
    else if fraction = 0 then 0
    else
      (fraction.log2 + 874) * 2 ^ (52 : Nat) +
        (fraction - 2 ^ fraction.log2) * 2 ^ (52 - fraction.log2)
  ofMagnitude (decide (2 ^ (31 : Nat) ≤ n)) magnitude

end Binary64

end Cypher

/-! ## Decimal digits

Numbers as lists of decimal digits: writing without leading zeros, writing to a fixed width, and
reading a digit list back. -/

namespace Cypher.Decimal

def digits (n : Nat) : List Char := Nat.toDigits 10 n

/-- The decimal digits of a number, filled up with zeros in front to at least `width` digits. -/
def padded (width n : Nat) : List Char :=
  List.replicate (width - (digits n).length) '0' ++ digits n

def signed (i : Int) : List Char := if i < 0 then '-' :: digits i.natAbs else digits i.natAbs

/-- The number that a list of decimal digits spells; the empty list spells zero. -/
def valueOf (ds : List Char) : Nat := Nat.ofDigitChars 10 ds 0

def spanDigits (cs : List Char) : List Char × List Char := cs.span Char.isDigit

theorem digits_ne_nil (n : Nat) : digits n ≠ [] := Nat.toDigits_ne_nil

theorem isDigit_of_mem_digits {n : Nat} {c : Char} (h : c ∈ digits n) : c.isDigit = true :=
  Nat.isDigit_of_mem_toDigits (by decide) (by decide) h

@[simp] theorem valueOf_digits (n : Nat) : valueOf (digits n) = n :=
  Nat.ofDigitChars_ten_toDigits

/-! ## From decimal to binary

A decimal number is rounded to the nearest number of 64 bits, a tie going to the one whose last
bit is zero. The computation is exact: a quotient of natural numbers is scaled by a power of two so
that it has 53 bits before the point, or as many as the smallest exponent leaves, and is rounded once. -/

-- powers are those of the core library, whatever algebra is in scope
attribute [local instance (high)] instPowNat

/-- The natural number nearest to `num / den`; of two equally near ones the even one. -/
def roundHalfEven (num den : Nat) : Nat :=
  let q := num / den
  let r := num % den
  if 2 * r < den then q else if den < 2 * r then q + 1 else q + q % 2

/-- The exponent of the largest power of two that does not exceed `num / den`. -/
def floorLog2 (num den : Nat) : Int :=
  let guess : Int := num.log2 - den.log2
  let reached :=
    if 0 ≤ guess then decide (den * 2 ^ guess.toNat ≤ num)
    else decide (den ≤ num * 2 ^ (-guess).toNat)
  if reached then guess else guess - 1

/-- The magnitude of the number of 64 bits nearest to `num / den`, ties going to the even one, or
`none` if it lies beyond the finite numbers. -/
def nearestMagnitude? (num den : Nat) : Option Nat :=
  let scale : Int := if num = 0 then -1074 else max (floorLog2 num den - 52) (-1074)
  let significand :=
    if 0 ≤ scale then roundHalfEven num (den * 2 ^ scale.toNat)
    else roundHalfEven (num * 2 ^ (-scale).toNat) den
  let magnitude := (scale + 1074).toNat * 2 ^ (52 : Nat) + significand
  if magnitude < 2047 * 2 ^ (52 : Nat) then some magnitude else none

/-- The magnitude nearest to `coefficient * 10 ^ exponent`. Exponents that settle the answer alone
are caught first, so that no huge power of ten is computed. -/
def magnitudeOfDecimal? (coefficient : Nat) (exponent : Int) : Option Nat :=
  if coefficient = 0 then some 0
  else if 400 < exponent then none
  else if exponent + (digits coefficient).length < -400 then some 0
  else if 0 ≤ exponent then nearestMagnitude? (coefficient * 10 ^ exponent.toNat) 1
  else nearestMagnitude? coefficient (10 ^ (-exponent).toNat)

def toBinary64? (negative : Bool) (coefficient : Nat) (exponent : Int) : Option Binary64 :=
  (magnitudeOfDecimal? coefficient exponent).map (Binary64.ofMagnitude negative)

/-! ## Numerals

Decimal numbers as they are written: a sign, a whole part, the digits after the point and an
exponent. A numeral without point and exponent denotes an integer, every numeral a floating-point
number unless it is too large. Within the digit limit that is the number nearest to the exact value
(`weighed_eq`); a longer numeral is cut to the limit first. -/

structure Numeral where
  negative : Bool
  whole : Nat
  /-- The digits after the point; none if there is no point. -/
  fraction : List Char
  exponent : Option Int
deriving DecidableEq, Repr

namespace Numeral

def ofInt (i : Int) : Numeral := ⟨decide (i < 0), i.natAbs, [], none⟩

/-- The text of the numeral. Whether an exponent that is not negative has a plus sign is up to the
format. -/
def text (plusSign : Bool) (n : Numeral) : List Char :=
  (if n.negative then ['-'] else []) ++ digits n.whole ++
    (if n.fraction.isEmpty then [] else '.' :: n.fraction) ++
    match n.exponent with
    | none => []
    | some e => 'e' :: (if plusSign && decide (0 ≤ e) then ['+'] else []) ++ signed e

/-- The integer that all digits before the exponent spell together. -/
def coefficient (n : Numeral) : Nat := n.whole * 10 ^ n.fraction.length + valueOf n.fraction

def scale (n : Numeral) : Int := n.exponent.getD 0 - n.fraction.length

def trimmed (n : Numeral) : Numeral :=
  { n with fraction := (n.fraction.reverse.dropWhile (· == '0')).reverse }

/-- How many significant digits of a numeral are weighed one by one. A floating-point number and the
midpoint between two neighbours have at most 767 of them, so the digits past the limit can only tell
whether the number lies on such a point or above it. -/
def digitLimit : Nat := 768

/-- The coefficient and the scale by which a numeral is rounded. The digits past the limit together
count as a single 1, even if all of them are zeros: a midpoint written in more digits than the limit
is rounded away from zero. -/
def weighed (n : Numeral) : Nat × Int :=
  let dropped := (digits n.coefficient).length - digitLimit
  if dropped = 0 then (n.coefficient, n.scale)
  else (n.coefficient / 10 ^ dropped * 10 + 1, n.scale + dropped - 1)

/-- The floating-point number nearest to the numeral, if it is not too large. Zeros at the end of
the fraction do not count against the digit limit. -/
def toBinary64? (n : Numeral) : Option Binary64 :=
  let (coefficient, scale) := n.trimmed.weighed
  Decimal.toBinary64? n.negative coefficient scale

/-- A numeral within the digit limit is rounded by its exact value. -/
theorem weighed_eq {n : Numeral} (h : (digits n.coefficient).length ≤ digitLimit) :
    n.weighed = (n.coefficient, n.scale) := by
  simp [weighed, Nat.sub_eq_zero_of_le h]

/-- The integer of 64 bits that the numeral denotes. A negative zero denotes a floating-point number
only. -/
def toInt64? (n : Numeral) : Option Int64 :=
  if n.fraction.isEmpty && n.exponent.isNone && !(n.negative && n.whole == 0) then
    let i : Int := if n.negative then -n.whole else n.whole
    if -2 ^ (63 : Nat) ≤ i ∧ i < 2 ^ (63 : Nat) then some (Int64.ofInt i) else none
  else none

end Numeral

end Cypher.Decimal
