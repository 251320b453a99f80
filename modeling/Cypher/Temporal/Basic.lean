import Cypher.Decimal.Numeral

/-!
# Dates, times and durations

Temporal values without a zone, to the nanosecond, and their two written forms.
-/

namespace Cypher

/-! ## Calendar dates

Days of the Gregorian calendar, carried on into the past, with years from -262143 to 262142. -/

def isLeapYear (year : Int) : Bool :=
  year % 4 == 0 && (year % 100 != 0 || year % 400 == 0)

/-- The number of days of a month; zero if there is no such month. -/
def daysInMonth (year : Int) (month : Nat) : Nat :=
  if month = 2 then (if isLeapYear year then 29 else 28)
  else if month ∈ [4, 6, 9, 11] then 30
  else if 1 ≤ month ∧ month ≤ 12 then 31
  else 0

structure Date where
  year : Int
  month : Nat
  day : Nat
  year_bounds : -262143 ≤ year ∧ year ≤ 262142
  day_bounds : 1 ≤ day ∧ day ≤ daysInMonth year month
deriving DecidableEq

namespace Date

def ofFields? (year : Int) (month day : Nat) : Option Date :=
  if hy : -262143 ≤ year ∧ year ≤ 262142 then
    if hd : 1 ≤ day ∧ day ≤ daysInMonth year month then some ⟨year, month, day, hy, hd⟩ else none
  else none

/-- The year, to four digits at least; a year beyond 0 to 9999 carries a sign. -/
def yearText (year : Int) : List Char :=
  if 0 ≤ year ∧ year ≤ 9999 then Decimal.padded 4 year.natAbs
  else (if year < 0 then '-' else '+') :: Decimal.padded 4 year.natAbs

def text (d : Date) : List Char :=
  yearText d.year ++ '-' :: Decimal.padded 2 d.month ++ '-' :: Decimal.padded 2 d.day

end Date

/-! ## Times of day

Times without a zone, to the nanosecond. A nanosecond count of one billion or more stands for a leap
second, which may follow any second. It is written as the next second, that is as 60 after second 59
and like an ordinary one after any other. -/

def nanosPerSecond : Nat := 1000000000

/-- A time of day. The nanosecond count of a leap second starts at one billion, whatever the second. -/
structure TimeOfDay where
  hour : Nat
  minute : Nat
  second : Nat
  nanosecond : Nat
  hour_lt : hour < 24
  minute_lt : minute < 60
  second_lt : second < 60
  nanosecond_lt : nanosecond < 2 * nanosPerSecond
deriving DecidableEq

namespace TimeOfDay

/-- The time with the given fields, if there is one. Fields give a leap second after second 59
only. -/
def ofFields? (hour minute second nanosecond : Nat) : Option TimeOfDay :=
  if h : hour < 24 ∧ minute < 60 ∧ second < 60 ∧ nanosecond < 2 * nanosPerSecond ∧
      (nanosPerSecond ≤ nanosecond → second = 59) then
    some ⟨hour, minute, second, nanosecond, h.1, h.2.1, h.2.2.1, h.2.2.2.1⟩
  else none

/-- The same second with another nanosecond count, which may be that of a leap second after any
second. -/
def withNanosecond? (t : TimeOfDay) (nanosecond : Nat) : Option TimeOfDay :=
  if h : nanosecond < 2 * nanosPerSecond then
    some { t with nanosecond := nanosecond, nanosecond_lt := h }
  else none

/-- The second as written: the next one in a leap second. -/
def secondShown (t : TimeOfDay) : Nat := t.second + t.nanosecond / nanosPerSecond

def subsecond (t : TimeOfDay) : Nat := t.nanosecond % nanosPerSecond

/-- The text `hour:minute:second`. -/
def clockText (t : TimeOfDay) : List Char :=
  Decimal.padded 2 t.hour ++ ':' :: Decimal.padded 2 t.minute ++ ':' ::
    Decimal.padded 2 t.secondShown

/-- The text in a literal: microseconds, cut off, unless the nanosecond count is zero. -/
def literalText (t : TimeOfDay) : List Char :=
  t.clockText ++
    (if t.nanosecond = 0 then [] else '.' :: Decimal.padded 6 (t.subsecond / 1000))

/-- The fraction of a second in the fewest groups of three digits that are exact. -/
def exactFraction (nanos : Nat) : List Char :=
  if nanos = 0 then []
  else if nanos % 1000000 = 0 then '.' :: Decimal.padded 3 (nanos / 1000000)
  else if nanos % 1000 = 0 then '.' :: Decimal.padded 6 (nanos / 1000)
  else '.' :: Decimal.padded 9 nanos

/-- The text in the serialized form, exact to the nanosecond. -/
def exactText (t : TimeOfDay) : List Char := t.clockText ++ exactFraction t.subsecond

end TimeOfDay

structure DateTime where
  date : Date
  time : TimeOfDay
deriving DecidableEq

namespace DateTime

def literalText (t : DateTime) : List Char := t.date.text ++ 'T' :: t.time.literalText

def exactText (t : DateTime) : List Char := t.date.text ++ 'T' :: t.time.exactText

end DateTime

/-! ## Durations

Signed spans of time to the nanosecond, of at most `2 ^ 63 - 1` milliseconds either way. Both
written forms cut the magnitude off to whole microseconds. -/

-- powers are those of the core library, whatever algebra is in scope
attribute [local instance (high)] instPowNat

def Duration.limit : Int := (2 ^ (63 : Nat) - 1) * 1000000

structure Duration where
  nanoseconds : Int
  bounds : -Duration.limit ≤ nanoseconds ∧ nanoseconds ≤ Duration.limit
deriving DecidableEq

namespace Duration

def ofNanoseconds? (n : Int) : Option Duration :=
  if h : -limit ≤ n ∧ n ≤ limit then some ⟨n, h⟩ else none

/-- A count of microseconds in 64 bits is always a duration. -/
def ofMicroseconds (n : Int64) : Duration :=
  ⟨n.toInt * 1000, by
    have lower := n.le_toInt
    have upper := n.toInt_lt
    simp only [limit]
    omega⟩

/-- Whole microseconds, cut off toward zero. -/
def microseconds (d : Duration) : Int := d.nanoseconds.tdiv 1000

/-- Whole microseconds, cut off toward zero, if they fit into 64 bits. -/
def microseconds? (d : Duration) : Option Int64 :=
  if -2 ^ (63 : Nat) ≤ d.microseconds ∧ d.microseconds < 2 ^ (63 : Nat) then
    some (Int64.ofInt d.microseconds)
  else none

def wholeSeconds (d : Duration) : Nat := d.nanoseconds.natAbs / 1000000000

/-- Microseconds of the magnitude past the whole seconds. -/
def subsecondMicros (d : Duration) : Nat := d.nanoseconds.natAbs % 1000000000 / 1000

/-- The text in a literal: days, hours, minutes and seconds of the magnitude, with a fraction only if
it is not zero, and a minus sign in front of any duration below zero. -/
def literalText (d : Duration) : List Char :=
  let total := d.wholeSeconds
  let fraction :=
    if d.subsecondMicros = 0 then [] else '.' :: Decimal.padded 6 d.subsecondMicros
  (if d.nanoseconds < 0 then ['-'] else []) ++
    'P' :: Decimal.digits (total / 86400) ++ 'D' :: 'T' :: Decimal.digits (total % 86400 / 3600) ++
    'H' :: Decimal.digits (total % 3600 / 60) ++ 'M' :: Decimal.digits (total % 60) ++
    fraction ++ ['S']

end Duration

end Cypher
