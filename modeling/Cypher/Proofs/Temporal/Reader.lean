import Cypher.Proofs.Decimal.Digits
import Cypher.Proofs.Text.Trim
import Cypher.Temporal.Reader

/-!
# Reading dates and times back

Each field of a written date or time is read back and leaves what follows it. The serialized text
of a time gives the time that the clock shows, the text in a literal gives it cut off to whole
microseconds. A leap second after second 59 comes back as one; after any other second it comes back as
the second behind it, so what is read never changes when it is written and read again.
-/

namespace Cypher

/-- The time cut off to whole microseconds; a leap second stays one. -/
def TimeOfDay.wholeMicros (t : TimeOfDay) : TimeOfDay :=
  { t with
    nanosecond := t.nanosecond / 1000 * 1000
    nanosecond_lt := Nat.lt_of_le_of_lt (Nat.div_mul_le_self _ _) t.nanosecond_lt }

def DateTime.wholeMicros (t : DateTime) : DateTime := ⟨t.date, t.time.wholeMicros⟩

theorem TimeOfDay.secondShown_wholeMicros (t : TimeOfDay) :
    t.wholeMicros.secondShown = t.secondShown := by
  simp only [secondShown, wholeMicros, nanosPerSecond]
  omega

theorem TimeOfDay.subsecond_wholeMicros (t : TimeOfDay) :
    t.wholeMicros.subsecond = t.subsecond / 1000 * 1000 := by
  simp only [subsecond, wholeMicros, nanosPerSecond]
  omega

theorem TimeOfDay.subsecond_lt (t : TimeOfDay) : t.subsecond < nanosPerSecond :=
  Nat.mod_lt _ (by decide)

theorem TimeOfDay.secondShown_le (t : TimeOfDay) : t.secondShown ≤ 60 := by
  have hsecond := t.second_lt
  have hnanos := t.nanosecond_lt
  simp only [secondShown, nanosPerSecond] at hnanos ⊢
  omega

theorem TimeOfDay.shown_of_leap {t : TimeOfDay} (h : nanosPerSecond ≤ t.nanosecond) :
    t.secondShown = t.second + 1 ∧ t.subsecond = t.nanosecond - nanosPerSecond := by
  have hnanos := t.nanosecond_lt
  simp only [secondShown, subsecond, nanosPerSecond] at h hnanos ⊢
  omega

theorem TimeOfDay.shown_of_lt {t : TimeOfDay} (h : t.nanosecond < nanosPerSecond) :
    t.secondShown = t.second ∧ t.subsecond = t.nanosecond := by
  simp only [secondShown, subsecond, nanosPerSecond] at h ⊢
  omega

/-- The time with a leap second after a second other than 59 carried into the next second. -/
def TimeOfDay.carried (t : TimeOfDay) : TimeOfDay :=
  if h : nanosPerSecond ≤ t.nanosecond ∧ t.second ≠ 59 then
    { t with
      second := t.second + 1
      nanosecond := t.nanosecond - nanosPerSecond
      second_lt := Nat.lt_of_le_of_ne t.second_lt fun hnext => h.2 (Nat.succ.inj hnext)
      nanosecond_lt := Nat.lt_of_le_of_lt (Nat.sub_le _ _) t.nanosecond_lt }
  else t

def DateTime.carried (t : DateTime) : DateTime := ⟨t.date, t.time.carried⟩

theorem TimeOfDay.carried_eq_self_iff {t : TimeOfDay} :
    t.carried = t ↔ (nanosPerSecond ≤ t.nanosecond → t.second = 59) := by
  rw [carried]
  split
  · rename_i hearly
    constructor
    · intro h
      exact absurd (congrArg second h) (Nat.succ_ne_self _)
    · intro h
      exact absurd (h hearly.1) hearly.2
  · rename_i hkept
    simp only [not_and, not_not] at hkept
    exact iff_of_true rfl hkept

end Cypher

namespace Cypher.Temporal

open Decimal (padded valueOf digits isBlank_of_isDigit)
open Text (StopsAt)

theorem trimStart_cons {c : Char} (h : Text.isBlank c = false) (cs : List Char) :
    Text.trimStart (c :: cs) = c :: cs :=
  Text.trimStart_of_stopsAt (Text.stopsAt_cons h)

theorem trimStart_digits {ds : List Char} (hds : ∀ c ∈ ds, c.isDigit = true) (hne : ds ≠ [])
    (cs : List Char) : Text.trimStart (ds ++ cs) = ds ++ cs := by
  cases ds with
  | nil => exact absurd rfl hne
  | cons d ds => exact trimStart_cons (isBlank_of_isDigit (hds d List.mem_cons_self)) _

/-- A run of digits is read up to its end, which is the width of the field or another character. -/
theorem digitsUpTo_append {ds cs : List Char} {most : Nat} (hds : ∀ c ∈ ds, c.isDigit = true)
    (hne : ds ≠ []) (hmost : ds.length ≤ most)
    (hend : ds.length = most ∨ StopsAt Char.isDigit cs) :
    digitsUpTo most (ds ++ cs) = some (valueOf ds, cs) := by
  have hstop : StopsAt Char.isDigit (cs.take (most - ds.length)) := by
    rcases hend with hfull | hstop
    · rw [hfull, Nat.sub_self, List.take_zero]
      exact Text.stopsAt_nil
    · intro c hc
      rw [List.head?_take] at hc
      split at hc
      · exact absurd hc (by simp)
      · exact hstop c hc
  have htaken : ((ds ++ cs).take most).takeWhile Char.isDigit = ds := by
    rw [List.take_append, List.take_of_length_le hmost, hstop.takeWhile_append hds]
  have hempty : ds.isEmpty = false := by simpa using hne
  simp only [digitsUpTo, htaken, hempty, Bool.false_eq_true, if_false, List.drop_left]

theorem field_padded {n : Nat} (h : n < 100) (cs : List Char) :
    field (padded 2 n ++ cs) = some (n, cs) := by
  have hdigits : ∀ c ∈ padded 2 n, c.isDigit = true := fun c hc => Decimal.isDigit_of_mem_padded hc
  have hne := Decimal.padded_ne_nil 2 n
  have hlength : (padded 2 n).length = 2 := Decimal.length_padded (by decide) h
  rw [field, trimStart_digits hdigits hne,
    digitsUpTo_append hdigits hne (Nat.le_of_eq hlength) (.inl hlength), Decimal.valueOf_padded]

theorem separator_cons {c : Char} (h : Text.isBlank c = false) (cs : List Char) :
    separator c (c :: cs) = some ((), cs) := by
  simp [separator, trimStart_cons h]

theorem year_of_digit {c : Char} (h : c.isDigit = true) (cs : List Char) :
    year (c :: cs) = (digitsUpTo 4 (c :: cs)).map fun (n, after) => ((n : Int), after) := by
  have hminus : c ≠ '-' := by
    rintro rfl
    exact absurd h (by decide)
  have hplus : c ≠ '+' := by
    rintro rfl
    exact absurd h (by decide)
  simp only [year, trimStart_cons (isBlank_of_isDigit h)]
  split <;> simp_all

theorem year_yearText (y : Int) {cs : List Char} (hcs : StopsAt Char.isDigit cs) :
    year (Date.yearText y ++ cs) = some (y, cs) := by
  have hdigits : ∀ c ∈ padded 4 y.natAbs, c.isDigit = true :=
    fun c hc => Decimal.isDigit_of_mem_padded hc
  have hne := Decimal.padded_ne_nil 4 y.natAbs
  simp only [Date.yearText]
  split
  · rename_i hshort
    have hlength : (padded 4 y.natAbs).length = 4 := Decimal.length_padded (by decide) (by omega)
    have hread : digitsUpTo 4 (padded 4 y.natAbs ++ cs) = some (valueOf (padded 4 y.natAbs), cs) :=
      digitsUpTo_append hdigits hne (Nat.le_of_eq hlength) (.inl hlength)
    obtain ⟨c, ds, hcons⟩ := List.exists_cons_of_ne_nil hne
    rw [hcons] at hdigits hread ⊢
    rw [List.cons_append, year_of_digit (hdigits c List.mem_cons_self), ← List.cons_append, hread,
      ← hcons, Decimal.valueOf_padded]
    simp only [Option.map_some, Int.natAbs_of_nonneg hshort.1]
  · rename_i hlong
    have hread : digitsUpTo (padded 4 y.natAbs ++ cs).length (padded 4 y.natAbs ++ cs) =
        some (y.natAbs, cs) := by
      rw [digitsUpTo_append hdigits hne (by simp) (.inr hcs), Decimal.valueOf_padded]
    have hblank : Text.isBlank '-' = false ∧ Text.isBlank '+' = false := by decide
    by_cases hneg : y < 0
    · have hvalue : -(y.natAbs : Int) = y := by omega
      simp only [if_pos hneg, List.cons_append, year, trimStart_cons hblank.1, hread,
        Option.map_some, hvalue]
    · have hvalue : (y.natAbs : Int) = y := by omega
      simp only [if_neg hneg, List.cons_append, year, trimStart_cons hblank.2, hread,
        Option.map_some, hvalue]

theorem month_lt (d : Date) : d.month < 100 := by
  have hday := d.day_bounds
  simp only [daysInMonth, List.mem_cons, List.not_mem_nil, or_false] at hday
  split at hday
  · omega
  · split at hday
    · omega
    · split at hday <;> omega

theorem day_lt (d : Date) : d.day < 100 := by
  have hday := d.day_bounds
  have hmonth : daysInMonth d.year d.month ≤ 31 := by
    simp only [daysInMonth]
    split
    · split <;> omega
    · split
      · omega
      · split <;> omega
  omega

theorem whole_of_eq_some {α : Type} {reader : Reader α} {cs : List Char} {a : α}
    (h : reader cs = some (a, [])) : whole reader cs = some a := by
  rw [whole, h]
  rfl

theorem date_text (d : Date) (cs : List Char) : date (d.text ++ cs) = some (d, cs) := by
  have hdash : Text.isBlank '-' = false := by decide
  have hyear : year (Date.yearText d.year ++
      '-' :: padded 2 d.month ++ '-' :: padded 2 d.day ++ cs) =
        some (d.year, '-' :: padded 2 d.month ++ '-' :: padded 2 d.day ++ cs) := by
    simp only [List.append_assoc, List.cons_append]
    exact year_yearText d.year (Text.stopsAt_cons (by decide))
  have hfields : Date.ofFields? d.year d.month d.day = some d := by
    simp only [Date.ofFields?, d.year_bounds, d.day_bounds, and_self, dite_true]
  simp only [Date.text, List.append_assoc, List.cons_append] at hyear ⊢
  simp only [date, hyear, Option.bind_eq_bind, Option.bind_some, separator_cons hdash,
    field_padded (month_lt d), field_padded (day_lt d), hfields]
  rfl

theorem readDate_text (d : Date) : readDate d.text = some d := by
  have hread := date_text d []
  rw [List.append_nil] at hread
  exact whole_of_eq_some hread

theorem fraction_padded {width n : Nat} (hpos : 0 < width) (hwidth : width ≤ 9)
    (h : n < 10 ^ width) :
    fraction ('.' :: padded width n) = some (n * 10 ^ (9 - width), []) := by
  have hdigits : ∀ c ∈ padded width n, c.isDigit = true :=
    fun c hc => Decimal.isDigit_of_mem_padded hc
  have hlength := Decimal.length_padded hpos h
  have htaken := Text.stopsAt_nil.takeWhile_append hdigits
  rw [List.append_nil] at htaken
  have hkept : (padded width n).take 9 = padded width n :=
    List.take_of_length_le (hlength.trans_le hwidth)
  have hempty : (padded width n).isEmpty = false := by
    simpa using Decimal.padded_ne_nil width n
  simp only [fraction, htaken, hempty, Bool.false_eq_true, if_false, hkept, Decimal.valueOf_padded,
    List.drop_length]
  rw [hlength]

theorem fraction_nil : fraction [] = some (0, []) := rfl

theorem fraction_exactFraction {nanos : Nat} (h : nanos < nanosPerSecond) :
    fraction (TimeOfDay.exactFraction nanos) = some (nanos, []) := by
  simp only [nanosPerSecond] at h
  simp only [TimeOfDay.exactFraction]
  split
  · rename_i hzero
    rw [hzero, fraction_nil]
  · split
    · rename_i hmillis
      have hshift : nanos / 1000000 * 10 ^ (9 - 3) = nanos := by omega
      rw [fraction_padded (by decide) (by decide) (by omega), hshift]
    · split
      · rename_i hmicros
        have hshift : nanos / 1000 * 10 ^ (9 - 6) = nanos := by omega
        rw [fraction_padded (by decide) (by decide) (by omega), hshift]
      · rw [fraction_padded (by decide) (by decide) (by omega), Nat.pow_zero, Nat.mul_one]

theorem ofFields?_fields {t : TimeOfDay} (h : nanosPerSecond ≤ t.nanosecond → t.second = 59) :
    TimeOfDay.ofFields? t.hour t.minute t.second t.nanosecond = some t :=
  dif_pos ⟨t.hour_lt, t.minute_lt, t.second_lt, t.nanosecond_lt, h⟩

theorem timeOfFields?_shown (t : TimeOfDay) :
    timeOfFields? t.hour t.minute t.secondShown t.subsecond = some t.carried := by
  have hsecond := t.second_lt
  by_cases hleap : nanosPerSecond ≤ t.nanosecond
  · obtain ⟨hshown, hsubsecond⟩ := TimeOfDay.shown_of_leap hleap
    rw [timeOfFields?, hshown, hsubsecond]
    by_cases hlast : t.second = 59
    · have hfields := ofFields?_fields fun _ => hlast
      rw [hlast] at hfields
      rw [if_pos (congrArg Nat.succ hlast), Nat.add_sub_cancel' hleap, hfields,
        TimeOfDay.carried_eq_self_iff.mpr fun _ => hlast]
    · have hnext : t.second + 1 < 60 := by omega
      have hshort : t.nanosecond - nanosPerSecond < nanosPerSecond := by
        have hnanos := t.nanosecond_lt
        omega
      rw [if_neg hnext.ne, TimeOfDay.carried, dif_pos ⟨hleap, hlast⟩]
      exact dif_pos ⟨t.hour_lt, t.minute_lt, hnext, by omega, fun h => by omega⟩
  · obtain ⟨hshown, hsubsecond⟩ := TimeOfDay.shown_of_lt (Nat.lt_of_not_le hleap)
    have hkept : nanosPerSecond ≤ t.nanosecond → t.second = 59 := fun h => absurd h hleap
    rw [timeOfFields?, hshown, hsubsecond, if_neg (by omega), ofFields?_fields hkept,
      TimeOfDay.carried_eq_self_iff.mpr hkept]

theorem hourMinute_padded {h m : Nat} (hh : h < 100) (hm : m < 100) (cs : List Char) :
    hourMinute (padded 2 h ++ ':' :: (padded 2 m ++ cs)) = some ((h, m), cs) := by
  have hcolon : Text.isBlank ':' = false := by decide
  simp only [hourMinute, field_padded hh, field_padded hm, separator_cons hcolon,
    Option.bind_eq_bind, Option.bind_some]
  rfl

theorem seconds_padded {s n : Nat} (hs : s < 100) {cs : List Char}
    (hfraction : fraction cs = some (n, [])) :
    seconds (':' :: (padded 2 s ++ cs)) = some ((s, n), []) := by
  have hcolon : Text.isBlank ':' = false := by decide
  simp only [seconds, field_padded hs, separator_cons hcolon, hfraction, Option.bind_eq_bind,
    Option.bind_some]
  rfl

/-- A written time is read field by field, and its fields decide which time it is. -/
theorem time_clockText (t u : TimeOfDay) {cs : List Char} {n : Nat}
    (hfraction : fraction cs = some (n, []))
    (hfields : timeOfFields? t.hour t.minute t.secondShown n = some u) :
    time (t.clockText ++ cs) = some (u, []) ∧ fullTime (t.clockText ++ cs) = some (u, []) := by
  have hhour := t.hour_lt
  have hminute := t.minute_lt
  have hsecond := t.secondShown_le
  have hclock := hourMinute_padded (h := t.hour) (m := t.minute) (by omega) (by omega)
    (':' :: (padded 2 t.secondShown ++ cs))
  have hseconds := seconds_padded (s := t.secondShown) (by omega) hfraction
  simp only [TimeOfDay.clockText, List.append_assoc, List.cons_append]
  simp only [time, fullTime, hclock, hseconds, hfields, Option.bind_eq_bind, Option.bind_some]
  exact ⟨rfl, rfl⟩

theorem time_exactText (t : TimeOfDay) :
    time t.exactText = some (t.carried, []) ∧ fullTime t.exactText = some (t.carried, []) :=
  time_clockText t t.carried (fraction_exactFraction t.subsecond_lt) (timeOfFields?_shown t)

theorem time_literalText (t : TimeOfDay) :
    time t.literalText = some (t.wholeMicros.carried, []) ∧
      fullTime t.literalText = some (t.wholeMicros.carried, []) := by
  have hsubsecond := t.subsecond_lt
  simp only [nanosPerSecond] at hsubsecond
  have hfields := timeOfFields?_shown t.wholeMicros
  rw [t.secondShown_wholeMicros, t.subsecond_wholeMicros] at hfields
  refine time_clockText t t.wholeMicros.carried ?_ hfields
  split
  · rename_i hzero
    rw [TimeOfDay.subsecond, hzero]
    rfl
  · exact fraction_padded (by decide) (by decide) (by omega)

theorem dateTime_append (d : Date) {cs : List Char} {t : TimeOfDay}
    (h : fullTime cs = some (t, [])) : dateTime (d.text ++ 'T' :: cs) = some (⟨d, t⟩, []) := by
  have hmark : Text.isBlank 'T' = false := by decide
  simp only [dateTime, date_text, separator_cons hmark, h, Option.bind_eq_bind, Option.bind_some]
  rfl

theorem readTime_exactText (t : TimeOfDay) : readTime t.exactText = some t.carried :=
  whole_of_eq_some (time_exactText t).1

theorem readTime_literalText (t : TimeOfDay) :
    readTime t.literalText = some t.wholeMicros.carried :=
  whole_of_eq_some (time_literalText t).1

theorem readDateTime_exactText (t : DateTime) : readDateTime t.exactText = some t.carried :=
  whole_of_eq_some (dateTime_append t.date (time_exactText t.time).2)

theorem readDateTime_literalText (t : DateTime) :
    readDateTime t.literalText = some t.wholeMicros.carried :=
  whole_of_eq_some (dateTime_append t.date (time_literalText t.time).2)

/-! ## What is read -/

theorem eq_some_of_whole {α : Type} {reader : Reader α} {cs : List Char} {a : α}
    (h : whole reader cs = some a) : ∃ rest, reader cs = some (a, rest) := by
  obtain ⟨⟨b, rest⟩, hread, hrest⟩ := Option.bind_eq_some_iff.mp h
  have hb := (Option.ite_none_right_eq_some.mp hrest).2
  exact ⟨rest, Option.some.inj hb ▸ hread⟩

theorem carried_of_timeOfFields? {h m s n : Nat} {t : TimeOfDay}
    (hfields : timeOfFields? h m s n = some t) : t.carried = t := by
  have hgiven : ∃ second nanosecond, TimeOfDay.ofFields? h m second nanosecond = some t := by
    rw [timeOfFields?] at hfields
    split at hfields
    · exact ⟨_, _, hfields⟩
    · exact ⟨_, _, hfields⟩
  obtain ⟨second, nanosecond, hgiven⟩ := hgiven
  obtain ⟨hbounds, ht⟩ := Option.dite_none_right_eq_some.mp hgiven
  rw [TimeOfDay.carried_eq_self_iff, ← Option.some.inj ht]
  exact hbounds.2.2.2.2

theorem carried_of_fullTime {cs rest : List Char} {t : TimeOfDay}
    (h : fullTime cs = some (t, rest)) : t.carried = t := by
  simp only [fullTime, Option.bind_eq_bind, Option.bind_eq_some_iff] at h
  obtain ⟨⟨⟨hour, minute⟩, afterMinute⟩, -, ⟨⟨second, nanos⟩, afterSecond⟩, -, u, hu, ht⟩ := h
  obtain ⟨rfl, -⟩ := Prod.mk.inj (Option.some.inj ht)
  exact carried_of_timeOfFields? hu

theorem carried_of_time {cs rest : List Char} {t : TimeOfDay}
    (h : time cs = some (t, rest)) : t.carried = t := by
  simp only [time, Option.bind_eq_bind, Option.bind_eq_some_iff] at h
  obtain ⟨⟨⟨hour, minute⟩, afterMinute⟩, -, h⟩ := h
  split at h
  all_goals
    obtain ⟨u, hu, ht⟩ := Option.bind_eq_some_iff.mp h
    obtain ⟨rfl, -⟩ := Prod.mk.inj (Option.some.inj ht)
    exact carried_of_timeOfFields? hu

/-- What is read is what the clock shows. -/
theorem carried_of_readTime {cs : List Char} {t : TimeOfDay} (h : readTime cs = some t) :
    t.carried = t := by
  obtain ⟨rest, hread⟩ := eq_some_of_whole h
  exact carried_of_time hread

theorem carried_of_readDateTime {cs : List Char} {t : DateTime} (h : readDateTime cs = some t) :
    t.carried = t := by
  obtain ⟨rest, hread⟩ := eq_some_of_whole h
  simp only [dateTime, Option.bind_eq_bind, Option.bind_eq_some_iff] at hread
  obtain ⟨⟨d, afterDate⟩, -, ⟨mark, afterMark⟩, -, ⟨u, afterTime⟩, hu, ht⟩ := hread
  obtain ⟨rfl, -⟩ := Prod.mk.inj (Option.some.inj ht)
  rw [DateTime.carried, carried_of_fullTime hu]

end Cypher.Temporal
