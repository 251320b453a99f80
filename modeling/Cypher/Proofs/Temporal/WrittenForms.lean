import Cypher.Proofs.Data.Ordered
import Cypher.Proofs.Temporal.Duration
import Cypher.Proofs.Temporal.Reader
import Cypher.Value.Basic
import Cypher.Value.Encode

/-!
# The two written forms of dates and times

In a literal, dates and times are laid out by a pattern, whose fields have fixed widths; in the
serialized form a fraction has as many groups of digits as it needs. Taken apart at the letter between
date and time and at the point of the fraction, the two texts have the same date and the same clock,
and their fractions are the same to the microsecond.
-/

namespace Cypher.Temporal

open Decimal (padded valueOf)
open Text (StopsAt stopsAt_cons stopsAt_nil)

inductive Field where
  | year | month | day | hour | minute | second | micros
deriving DecidableEq

/-- A number of at least `width` digits. A sign is written in front of a negative number, or if one is
asked for. -/
def numberText (width : Nat) (sign : Bool) (i : Int) : List Char :=
  (if i < 0 then ['-'] else if sign then ['+'] else []) ++ padded width i.natAbs

/-- The fields of a date. A year that has not four digits is written with its sign. -/
def dateField? (d : Date) : Field → Option (List Char)
  | .year => some (numberText 4 (decide (¬(0 ≤ d.year ∧ d.year ≤ 9999))) d.year)
  | .month => some (numberText 2 false d.month)
  | .day => some (numberText 2 false d.day)
  | _ => none

def timeField? (t : TimeOfDay) : Field → Option (List Char)
  | .hour => some (numberText 2 false t.hour)
  | .minute => some (numberText 2 false t.minute)
  | .second => some (numberText 2 false t.secondShown)
  | .micros => some ('.' :: numberText 6 false (t.subsecond / 1000 : Nat))
  | _ => none

/-- The text laid out by a pattern, in which a percent sign and what follows it stand for a field and
any other character for itself. There is none if a field is missing or unknown. -/
def layOut (field? : Field → Option (List Char)) : List Char → Option (List Char)
  | '%' :: 'Y' :: rest => do return (← field? .year) ++ (← layOut field? rest)
  | '%' :: 'm' :: rest => do return (← field? .month) ++ (← layOut field? rest)
  | '%' :: 'd' :: rest => do return (← field? .day) ++ (← layOut field? rest)
  | '%' :: 'H' :: rest => do return (← field? .hour) ++ (← layOut field? rest)
  | '%' :: 'M' :: rest => do return (← field? .minute) ++ (← layOut field? rest)
  | '%' :: 'S' :: rest => do return (← field? .second) ++ (← layOut field? rest)
  | '%' :: '.' :: '6' :: 'f' :: rest => do return (← field? .micros) ++ (← layOut field? rest)
  | '%' :: _ => none
  | c :: rest => do return c :: (← layOut field? rest)
  | [] => some []

def datePattern : List Char := "%Y-%m-%d".toList

def timePattern (t : TimeOfDay) : List Char :=
  if t.nanosecond = 0 then "%H:%M:%S".toList else "%H:%M:%S%.6f".toList

theorem numberText_natCast (width n : Nat) : numberText width false n = padded width n := by
  simp [numberText]

theorem numberText_year (y : Int) :
    numberText 4 (decide (¬(0 ≤ y ∧ y ≤ 9999))) y = Date.yearText y := by
  by_cases hneg : y < 0
  · have hlong : ¬(0 ≤ y ∧ y ≤ 9999) := by omega
    simp [numberText, Date.yearText, hneg, hlong]
  · by_cases hlong : y ≤ 9999
    · have hshort : 0 ≤ y ∧ y ≤ 9999 := by omega
      simp [numberText, Date.yearText, hneg, hshort]
    · have hlong : ¬(0 ≤ y ∧ y ≤ 9999) := by omega
      simp [numberText, Date.yearText, hneg, hlong]

theorem layOut_plain {field? : Field → Option (List Char)} {c : Char} (hc : c ≠ '%')
    (rest : List Char) :
    layOut field? (c :: rest) = (layOut field? rest).map fun text => c :: text := by
  rw [layOut.eq_def]
  split <;> simp_all [Option.map_eq_bind]

theorem layOut_date (d : Date) : layOut (dateField? d) datePattern = some d.text := by
  have hpattern : datePattern = ['%', 'Y', '-', '%', 'm', '-', '%', 'd'] := rfl
  have hdash : '-' ≠ '%' := by decide
  have hyear : dateField? d .year = some (Date.yearText d.year) :=
    congrArg some (numberText_year d.year)
  have hmonth : dateField? d .month = some (padded 2 d.month) :=
    congrArg some (numberText_natCast 2 d.month)
  have hday : dateField? d .day = some (padded 2 d.day) :=
    congrArg some (numberText_natCast 2 d.day)
  simp [hpattern, layOut, layOut_plain hdash, hyear, hmonth, hday, Date.text]

theorem layOut_time (t : TimeOfDay) : layOut (timeField? t) (timePattern t) = some t.literalText := by
  have hcolon : ':' ≠ '%' := by decide
  have hhour : timeField? t .hour = some (padded 2 t.hour) :=
    congrArg some (numberText_natCast 2 t.hour)
  have hminute : timeField? t .minute = some (padded 2 t.minute) :=
    congrArg some (numberText_natCast 2 t.minute)
  have hsecond : timeField? t .second = some (padded 2 t.secondShown) :=
    congrArg some (numberText_natCast 2 t.secondShown)
  have hmicros : timeField? t .micros = some ('.' :: padded 6 (t.subsecond / 1000)) :=
    congrArg (fun text => some ('.' :: text)) (numberText_natCast 6 (t.subsecond / 1000))
  simp only [timePattern, TimeOfDay.literalText, TimeOfDay.clockText]
  split
  · have hpattern : "%H:%M:%S".toList = ['%', 'H', ':', '%', 'M', ':', '%', 'S'] := rfl
    simp [hpattern, layOut, layOut_plain hcolon, hhour, hminute, hsecond]
  · have hpattern : "%H:%M:%S%.6f".toList =
        ['%', 'H', ':', '%', 'M', ':', '%', 'S', '%', '.', '6', 'f'] := rfl
    simp [hpattern, layOut, layOut_plain hcolon, hhour, hminute, hsecond, hmicros]

/-- What stands before the letter between date and time. -/
def datePart (cs : List Char) : List Char := cs.takeWhile (· != 'T')

/-- What stands behind the letter between date and time. -/
def timePart (cs : List Char) : List Char := (cs.dropWhile (· != 'T')).drop 1

/-- What stands before the point of a fraction. -/
def clockPart (cs : List Char) : List Char := cs.takeWhile (· != '.')

/-- The fraction of a time with its point; nothing if there is none. -/
def fractionPart (cs : List Char) : List Char := cs.dropWhile (· != '.')

/-- The whole microseconds of a fraction with its point, cut off. -/
def fractionMicros (cs : List Char) : Nat :=
  valueOf (cs.drop 1) * 1000000 / 10 ^ (cs.drop 1).length

/-- How the text of a time in a literal agrees with its serialized text. -/
structure Agree (t : TimeOfDay) (written serialized : List Char) : Prop where
  clock : clockPart written = clockPart serialized
  clock_eq : clockPart serialized = padded 2 t.hour ++ ':' :: padded 2 t.minute ++ ':' ::
    padded 2 (if nanosPerSecond ≤ t.nanosecond then t.second + 1 else t.second)
  micros : fractionMicros (fractionPart written) = fractionMicros (fractionPart serialized)
  six_digits : fractionPart written = [] ∨
    ∃ ds, fractionPart written = '.' :: ds ∧ ds.length = 6 ∧ ∀ c ∈ ds, c.isDigit = true
  none_iff : fractionPart written = [] ↔
    fractionPart serialized = [] ∧ t.nanosecond ≠ nanosPerSecond
  whole_leap_second : t.nanosecond = nanosPerSecond →
    fractionPart written = ".000000".toList ∧ fractionPart serialized = []

theorem ne_of_mem_padded {width n : Nat} {c d : Char} (hd : d.isDigit = false)
    (hc : c ∈ padded width n) : (c != d) = true := by
  rw [bne_iff_ne]
  rintro rfl
  rw [Decimal.isDigit_of_mem_padded hc] at hd
  exact Bool.noConfusion hd

theorem ne_of_mem_clockText {t : TimeOfDay} {c : Char} (h : c ∈ t.clockText) :
    (c != '.') = true := by
  simp only [TimeOfDay.clockText, List.mem_append, List.mem_cons] at h
  rcases h with (hc | rfl | hc) | rfl | hc
  · exact ne_of_mem_padded (by decide) hc
  · decide
  · exact ne_of_mem_padded (by decide) hc
  · decide
  · exact ne_of_mem_padded (by decide) hc

theorem ne_of_mem_text {d : Date} {c : Char} (h : c ∈ d.text) : (c != 'T') = true := by
  have hyear : ∀ c ∈ Date.yearText d.year, (c != 'T') = true := by
    intro c hc
    simp only [Date.yearText] at hc
    split at hc
    · exact ne_of_mem_padded (by decide) hc
    · rcases List.mem_cons.mp hc with rfl | hc
      · split <;> decide
      · exact ne_of_mem_padded (by decide) hc
  simp only [Date.text, List.mem_append, List.mem_cons] at h
  rcases h with (hc | rfl | hc) | rfl | hc
  · exact hyear c hc
  · decide
  · exact ne_of_mem_padded (by decide) hc
  · decide
  · exact ne_of_mem_padded (by decide) hc

theorem datePart_append (d : Date) (cs : List Char) : datePart (d.text ++ 'T' :: cs) = d.text :=
  (stopsAt_cons (by decide)).takeWhile_append fun _ hc => ne_of_mem_text hc

theorem timePart_append (d : Date) (cs : List Char) : timePart (d.text ++ 'T' :: cs) = cs := by
  have hrest : (d.text ++ 'T' :: cs).dropWhile (· != 'T') = 'T' :: cs :=
    (stopsAt_cons (by decide)).dropWhile_append fun _ hc => ne_of_mem_text hc
  rw [timePart, hrest]
  rfl

theorem parts_clockText (t : TimeOfDay) {cs : List Char} (hcs : StopsAt (· != '.') cs) :
    clockPart (t.clockText ++ cs) = t.clockText ∧ fractionPart (t.clockText ++ cs) = cs :=
  ⟨hcs.takeWhile_append fun _ hc => ne_of_mem_clockText hc,
    hcs.dropWhile_append fun _ hc => ne_of_mem_clockText hc⟩

theorem stopsAt_exactFraction (nanos : Nat) :
    StopsAt (· != '.') (TimeOfDay.exactFraction nanos) := by
  simp only [TimeOfDay.exactFraction]
  split
  · exact stopsAt_nil
  · split
    · exact stopsAt_cons (by decide)
    · split <;> exact stopsAt_cons (by decide)

theorem exactFraction_eq_nil_iff {nanos : Nat} :
    TimeOfDay.exactFraction nanos = [] ↔ nanos = 0 := by
  simp only [TimeOfDay.exactFraction]
  split
  · simp_all
  · split
    · simp_all
    · split <;> simp_all

theorem fractionMicros_padded {width n : Nat} (hpos : 0 < width) (h : n < 10 ^ width) :
    fractionMicros ('.' :: padded width n) = n * 1000000 / 10 ^ width := by
  rw [fractionMicros, List.drop_one, List.tail_cons, Decimal.valueOf_padded,
    Decimal.length_padded hpos h]

theorem fractionMicros_exactFraction {nanos : Nat} (h : nanos < nanosPerSecond) :
    fractionMicros (TimeOfDay.exactFraction nanos) = nanos / 1000 := by
  simp only [nanosPerSecond] at h
  simp only [TimeOfDay.exactFraction]
  split
  · rename_i hzero
    rw [hzero]
    rfl
  · split
    · rw [fractionMicros_padded (by decide) (by omega)]
      omega
    · split
      · rw [fractionMicros_padded (by decide) (by omega)]
        omega
      · rw [fractionMicros_padded (by decide) (by omega)]
        omega

theorem clockText_eq (t : TimeOfDay) :
    t.clockText = padded 2 t.hour ++ ':' :: padded 2 t.minute ++ ':' ::
      padded 2 (if nanosPerSecond ≤ t.nanosecond then t.second + 1 else t.second) := by
  have hshown : t.secondShown = if nanosPerSecond ≤ t.nanosecond then t.second + 1 else t.second := by
    split
    · rename_i hleap
      exact (TimeOfDay.shown_of_leap hleap).1
    · rename_i hshort
      exact (TimeOfDay.shown_of_lt (Nat.lt_of_not_le hshort)).1
  rw [TimeOfDay.clockText, hshown]

def writtenFraction (t : TimeOfDay) : List Char :=
  if t.nanosecond = 0 then [] else '.' :: padded 6 (t.subsecond / 1000)

theorem agree_texts (t : TimeOfDay) : Agree t t.literalText t.exactText := by
  have hnanos := t.nanosecond_lt
  have hsubsecond := t.subsecond_lt
  have hstops : StopsAt (fun c => c != '.') (writtenFraction t) := by
    simp only [writtenFraction]
    split
    · exact stopsAt_nil
    · exact stopsAt_cons (by decide)
  obtain ⟨hclock, hfraction⟩ := parts_clockText t hstops
  obtain ⟨hclock', hfraction'⟩ := parts_clockText t (stopsAt_exactFraction t.subsecond)
  have hmicros : t.subsecond / 1000 < 10 ^ 6 := by
    simp only [nanosPerSecond] at hsubsecond
    omega
  have hwritten : t.literalText = t.clockText ++ writtenFraction t := rfl
  have hserialized : t.exactText = t.clockText ++ TimeOfDay.exactFraction t.subsecond := rfl
  rw [← hwritten] at hclock hfraction
  rw [← hserialized] at hclock' hfraction'
  constructor
  · rw [hclock, hclock']
  · rw [hclock', clockText_eq]
  · rw [hfraction, hfraction', fractionMicros_exactFraction hsubsecond, writtenFraction]
    split
    · rename_i hzero
      rw [TimeOfDay.subsecond, hzero]
      rfl
    · rw [fractionMicros_padded (by decide) hmicros]
      omega
  · rw [hfraction, writtenFraction]
    split
    · exact .inl rfl
    · exact .inr ⟨_, rfl, Decimal.length_padded (by decide) hmicros,
        fun c hc => Decimal.isDigit_of_mem_padded hc⟩
  · rw [hfraction, hfraction', exactFraction_eq_nil_iff]
    simp only [writtenFraction, TimeOfDay.subsecond, nanosPerSecond] at hnanos ⊢
    split
    · simp_all
    · simp only [List.cons_ne_nil, false_iff]
      omega
  · intro hleap
    rw [hfraction, hfraction', exactFraction_eq_nil_iff]
    simp only [writtenFraction, TimeOfDay.subsecond, hleap]
    exact ⟨by decide, by decide⟩

end Cypher.Temporal

/-! ## Temporal values in literals and in the serialized form

The literal of a duration spells its whole microseconds, and the serialized form, where there is one,
is the number that the literal spells. The literal of a date or a time and its serialized text have
the same date, the same clock and, to the microsecond, the same fraction. -/

namespace Cypher

open Decimal (Numeral)
open Temporal (layOut dateField? timeField? datePattern timePattern datePart timePart Agree)

theorem Value.encode_duration_eq_ok_iff {d : Duration} {document : Json} :
    (Value.duration d).encode = .ok document ↔
      (-2 ^ (63 : Nat) ≤ d.microseconds ∧ d.microseconds < 2 ^ (63 : Nat)) ∧
        document = tagged .duration (.number (Numeral.ofInt d.microseconds)) := by
  rw [Value.encode, encodeDuration, Duration.microseconds?]
  by_cases hrange : -2 ^ (63 : Nat) ≤ d.microseconds ∧ d.microseconds < 2 ^ (63 : Nat)
  · have hcontent : Json.ofInt64 (Int64.ofInt d.microseconds) =
        .number (Numeral.ofInt d.microseconds) := by
      rw [Json.ofInt64, Int64.toInt_ofInt_of_le hrange.1 hrange.2]
    simp only [if_pos hrange, hcontent, Except.map, Except.ok.injEq]
    exact ⟨fun h => ⟨hrange, h.symm⟩, fun h => h.2.symm⟩
  · simp only [if_neg hrange, Except.map, reduceCtorEq, false_iff]
    exact fun h => hrange h.1

/-- The text of a duration is exact, and no step that computes it leaves its word: its parts are the
only ones with this text, they make up the magnitude in whole microseconds, and a duration is
serialized, exactly if that count fits into 64 bits, as the count that the text spells. -/
theorem duration_text_exact (d : Duration) :
    ∃ w : WrittenDuration,
      (∀ parts : WrittenDuration, d.literalText = parts.text ↔ parts = w) ∧
      (Duration.fractionText w.micros).length = (if w.micros.val = 0 then 0 else 7) ∧
      (w.negative = true ↔ d.nanoseconds < 0) ∧ w.magnitude = d.nanoseconds.natAbs / 1000 ∧
      d.words.text? = some d.literalText ∧
      d.words.microseconds? = d.microseconds?.map Int64.toInt ∧
      ∀ document, (Value.duration d).encode = .ok document ↔
        (-2 ^ (63 : Nat) ≤ w.count ∧ w.count < 2 ^ (63 : Nat)) ∧
          document = tagged .duration (.number (Numeral.ofInt w.count)) := by
  refine ⟨d.written, ?_, Duration.length_fractionText d.written.micros.isLt, ?_,
    d.magnitude_written, d.text?_words, d.microseconds?_words, ?_⟩
  · intro parts
    rw [d.literalText_eq, WrittenDuration.text_injective.eq_iff]
    exact eq_comm
  · exact decide_eq_true_iff
  · intro document
    rw [d.count_written]
    exact Value.encode_duration_eq_ok_iff

/-- A nanosecond below zero is written with its sign, although nothing else is left of it. -/
example : Duration.literalText ⟨-1, by decide⟩ = "-P0DT0H0M0S".toList := by decide

end Cypher
