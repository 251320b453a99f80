import Cypher.Decimal.Numeral

/-!
# Shortest decimals

The text of a binary number: the fewest digits that read back, and where the point and the exponent
stand.
-/

namespace Cypher.Decimal

/-! ## The shortest decimal that reads back

For a finite number other than zero, the decimal numbers that round to it fill an interval around
it. Among those of the fewest digits the nearest to the number is chosen. A grid of spacing
`10 ^ exponent` is searched from coarse to fine; on each grid only the two neighbours of the number
can be the nearest, and the first grid with a neighbour inside the interval has the fewest digits. -/

-- powers are those of the core library, whatever algebra is in scope
attribute [local instance (high)] instPowNat

structure Scaled where
  coefficient : Nat
  exponent : Int
deriving DecidableEq, Repr

/-- What to take of two equally near decimal numbers. -/
inductive Tie where
  | upper
  | even
deriving DecidableEq, Repr

/-- The decimal numbers that round to a number: all from `lower` to `upper`, counted in units of
`2 ^ unit`, the ends included or not. The number itself is `centre` units. -/
structure Interval where
  lower : Nat
  centre : Nat
  upper : Nat
  unit : Int
  closed : Bool
deriving DecidableEq, Repr

/-- The rounding interval of a finite number. The unit is a quarter of the spacing of the numbers
around it; below a power of two the spacing is half as wide. The ends round to the number exactly if
its significand is even. -/
def Interval.around (x : Binary64) : Interval :=
  let m := x.significand
  let narrow := m == 2 ^ (52 : Nat) && decide (1 < x.exponentField)
  { lower := 4 * m - (if narrow then 1 else 2)
    centre := 4 * m
    upper := 4 * m + 2
    unit := x.exponent - 2
    closed := m % 2 == 0 }

def gridRatio (unit exponent : Int) : Nat × Nat :=
  (2 ^ unit.toNat * 10 ^ (-exponent).toNat, 2 ^ (-unit).toNat * 10 ^ exponent.toNat)

/-- Whether the grid point `k * 10 ^ exponent` lies in the interval, where `num / den` is the unit of
the interval in steps of the grid. -/
def Interval.holds (i : Interval) (num den k : Nat) : Bool :=
  if i.closed then decide (i.lower * num ≤ k * den) && decide (k * den ≤ i.upper * num)
  else decide (i.lower * num < k * den) && decide (k * den < i.upper * num)

def nearerNeighbour (tie : Tie) (centre num den below : Nat) : Nat :=
  let twice := 2 * (centre * num)
  let middle := (2 * below + 1) * den
  if twice < middle then below
  else if middle < twice then below + 1
  else match tie with
    | .upper => below + 1
    | .even => below + below % 2

def Interval.onGrid? (tie : Tie) (i : Interval) (exponent : Int) : Option Nat :=
  let (num, den) := gridRatio i.unit exponent
  let below := i.centre * num / den
  match i.holds num den below, i.holds num den (below + 1) with
  | true, true => some (nearerNeighbour tie i.centre num den below)
  | true, false => some below
  | false, true => some (below + 1)
  | false, false => none

/-- Searches `steps` grids from `exponent` downwards, and takes the number below the centre if none of
them has a point in the interval. -/
def Interval.search (tie : Tie) (i : Interval) : Nat → Int → Scaled
  | 0, exponent =>
    let (num, den) := gridRatio i.unit exponent
    ⟨i.centre * num / den, exponent⟩
  | steps + 1, exponent =>
    match i.onGrid? tie exponent with
    | some k => ⟨k, exponent⟩
    | none => i.search tie steps (exponent - 1)

/-- An exponent that no coarser grid can beat: the count of digits before the point. -/
def coarsestExponent (x : Binary64) : Nat :=
  let whole := x.significand * 2 ^ x.exponent.toNat / 2 ^ (-x.exponent).toNat
  if whole = 0 then 0 else (Nat.toDigits 10 whole).length

/-- The exponent of a grid so fine that every rounding interval holds one of its points. -/
def finestExponent : Int := -324

/-- The shortest decimal number that rounds to the magnitude of a finite number other than zero. -/
def shortest (tie : Tie) (x : Binary64) : Scaled :=
  let start := coarsestExponent x
  (Interval.around x).search tie (start - finestExponent + 1).toNat start

/-! ## Laying out floating-point numbers

The numeral of a finite number of 64 bits: its shortest digits, with a point alone where the
magnitude is moderate and with an exponent elsewhere. What counts as moderate, how an exponent is
signed and how ties go is up to the format. -/

structure FloatFormat where
  /-- A number below one is written without exponent if at most this many zeros follow the point. -/
  leadingZeros : Nat
  /-- A number of at least one is written without exponent if at most this many digits precede the
  point. -/
  wholeDigits : Nat
  /-- Whether an exponent that is not negative carries a plus sign. -/
  plusSign : Bool
  /-- Which of two equally near shortest decimals is written. -/
  tie : Tie
deriving DecidableEq, Repr

/-- The numeral without exponent; a whole number gets one zero after the point. -/
def Scaled.positional (d : Scaled) : Numeral :=
  if 0 ≤ d.exponent then ⟨false, d.coefficient * 10 ^ d.exponent.toNat, ['0'], none⟩
  else
    let places := (-d.exponent).toNat
    ⟨false, d.coefficient / 10 ^ places, padded places (d.coefficient % 10 ^ places), none⟩

def Scaled.scientific (d : Scaled) : Numeral :=
  let places := (digits d.coefficient).length - 1
  ⟨false, d.coefficient / 10 ^ places,
    if places = 0 then [] else padded places (d.coefficient % 10 ^ places),
    some (d.exponent + places)⟩

def FloatFormat.layout (format : FloatFormat) (d : Scaled) : Numeral :=
  let point : Int := (digits d.coefficient).length + d.exponent
  if -(format.leadingZeros : Int) ≤ point ∧ point ≤ format.wholeDigits then d.positional
  else d.scientific

def FloatFormat.numeral (format : FloatFormat) (x : Binary64) : Numeral :=
  let magnitude : Numeral :=
    if x.isZero then ⟨false, 0, ['0'], none⟩ else format.layout (shortest format.tie x)
  { magnitude with negative := x.negative }

def FloatFormat.render (format : FloatFormat) (x : Binary64) : List Char :=
  (format.numeral x).text format.plusSign

end Cypher.Decimal
