import Cypher.Proofs.Decimal.Digits
import Cypher.Temporal.Basic

/-!
# Written durations

The written forms of a duration tell its sign and its magnitude in whole microseconds, which is what
remains of it when it is cut off toward zero.
-/

namespace Cypher

open Decimal (digits padded isDigit_of_mem_digits)
open Text (StopsAt stopsAt_cons)

namespace Duration

theorem microseconds_eq (d : Duration) :
    d.microseconds = if d.nanoseconds < 0 then -((d.nanoseconds.natAbs / 1000 : Nat) : Int)
      else (d.nanoseconds.natAbs / 1000 : Nat) := by
  rw [microseconds]
  split
  · have hvalue : d.nanoseconds = -(d.nanoseconds.natAbs : Int) := by omega
    rw [hvalue, Int.neg_tdiv, Int.natAbs_neg, Int.natAbs_natCast]
    rfl
  · have hvalue : d.nanoseconds = (d.nanoseconds.natAbs : Int) := by omega
    rw [hvalue, Int.natAbs_natCast]
    rfl

def inWord? (n : Int) : Option Int :=
  if -2 ^ (63 : Nat) ≤ n ∧ n < 2 ^ (63 : Nat) then some n else none

/-- Whole microseconds counted in 64 bits: first those of the whole seconds, then those of what is
left, both cut off toward zero. The count stops if it leaves the 64 bits at either step. -/
def countedMicros? (d : Duration) : Option Int := do
  let whole ← inWord? (d.nanoseconds.tdiv 1000000000 * 1000000)
  inWord? (whole + (d.nanoseconds.tmod 1000000000).tdiv 1000)

theorem inWord?_bind_add {m n : Int} (h : 0 ≤ m ∧ 0 ≤ n ∨ m ≤ 0 ∧ n ≤ 0) :
    ((inWord? m).bind fun k => inWord? (k + n)) = inWord? (m + n) := by
  by_cases hm : -2 ^ (63 : Nat) ≤ m ∧ m < 2 ^ (63 : Nat)
  · rw [inWord?, if_pos hm, Option.bind_some]
  · -- the second step moves on away from zero, so it cannot come back
    have hsum : ¬(-2 ^ (63 : Nat) ≤ m + n ∧ m + n < 2 ^ (63 : Nat)) := by omega
    rw [inWord?, if_neg hm, Option.bind_none, inWord?, if_neg hsum]

theorem cut_parts_eq (d : Duration) :
    (d.nanoseconds < 0 ∧ d.nanoseconds.tdiv 1000000000 = -(d.wholeSeconds : Int) ∧
        d.nanoseconds.tmod 1000000000 = -((d.nanoseconds.natAbs % 1000000000 : Nat) : Int)) ∨
      (¬d.nanoseconds < 0 ∧ d.nanoseconds.tdiv 1000000000 = d.wholeSeconds ∧
        d.nanoseconds.tmod 1000000000 = (d.nanoseconds.natAbs % 1000000000 : Nat)) := by
  rw [wholeSeconds]
  by_cases hneg : d.nanoseconds < 0
  · refine .inl ⟨hneg, ?_⟩
    have hvalue : d.nanoseconds = -(d.nanoseconds.natAbs : Int) := by omega
    rw [hvalue, Int.neg_tdiv, Int.neg_tmod, Int.natAbs_neg, Int.natAbs_natCast]
    exact ⟨rfl, rfl⟩
  · refine .inr ⟨hneg, ?_⟩
    have hvalue : d.nanoseconds = (d.nanoseconds.natAbs : Int) := by omega
    rw [hvalue, Int.natAbs_natCast]
    exact ⟨rfl, rfl⟩

theorem counted_parts_eq (d : Duration) :
    (d.nanoseconds < 0 ∧ d.nanoseconds.tdiv 1000000000 = -(d.wholeSeconds : Int) ∧
        (d.nanoseconds.tmod 1000000000).tdiv 1000 = -(d.subsecondMicros : Int)) ∨
      (¬d.nanoseconds < 0 ∧ d.nanoseconds.tdiv 1000000000 = d.wholeSeconds ∧
        (d.nanoseconds.tmod 1000000000).tdiv 1000 = d.subsecondMicros) := by
  rw [subsecondMicros]
  rcases d.cut_parts_eq with ⟨hneg, hseconds, hrest⟩ | ⟨hneg, hseconds, hrest⟩
  · rw [hrest, Int.neg_tdiv]
    exact .inl ⟨hneg, hseconds, rfl⟩
  · rw [hrest]
    exact .inr ⟨hneg, hseconds, rfl⟩

/-- Counting in two steps leaves the 64 bits only if the whole count does. -/
theorem countedMicros?_eq (d : Duration) :
    d.countedMicros? = d.microseconds?.map Int64.toInt := by
  have htotal := d.microseconds_eq
  have hsplit : d.nanoseconds.natAbs / 1000 = d.wholeSeconds * 1000000 + d.subsecondMicros := by
    rw [wholeSeconds, subsecondMicros]
    omega
  have hword : d.microseconds?.map Int64.toInt = inWord? d.microseconds := by
    rw [microseconds?, inWord?]
    split
    · rename_i hrange
      rw [Option.map_some, Int64.toInt_ofInt_of_le hrange.1 hrange.2]
    · rfl
  rw [countedMicros?, hword, Option.bind_eq_bind]
  rcases d.counted_parts_eq with ⟨hneg, hseconds, hmicros⟩ | ⟨hneg, hseconds, hmicros⟩
  · rw [hseconds, hmicros, inWord?_bind_add (.inr (by omega))]
    rw [if_pos hneg, hsplit] at htotal
    congr 1
    omega
  · rw [hseconds, hmicros, inWord?_bind_add (.inl (by omega))]
    rw [if_neg hneg, hsplit] at htotal
    congr 1
    omega

theorem microseconds?_ofMicroseconds (n : Int64) :
    (ofMicroseconds n).microseconds? = some n := by
  have hvalue : (ofMicroseconds n).microseconds = n.toInt :=
    Int.mul_tdiv_cancel n.toInt (by decide)
  rw [microseconds?, hvalue, if_pos ⟨n.le_toInt, n.toInt_lt⟩, Int64.ofInt_toInt]

def wholeMicros (d : Duration) : Duration :=
  ⟨d.microseconds * 1000, by
    have hbounds := d.bounds
    have hmicros := d.microseconds_eq
    simp only [limit] at hbounds ⊢
    split at hmicros <;> omega⟩

/-- A number and the letter of its unit are read off in one way only. -/
private theorem digits_cons_inj {m n : Nat} {c : Char} {cs ds : List Char}
    (hc : c.isDigit = false) (h : digits m ++ c :: cs = digits n ++ c :: ds) : m = n ∧ cs = ds := by
  have hsplit := (stopsAt_cons hc).append_inj (stopsAt_cons hc)
    (fun d hd => isDigit_of_mem_digits hd) (fun d hd => isDigit_of_mem_digits hd) h
  exact ⟨Decimal.digits_injective hsplit.1, (List.cons.inj hsplit.2).2⟩

def fractionText (micros : Nat) : List Char := if micros = 0 then [] else '.' :: padded 6 micros

theorem fractionText_injective : Function.Injective fractionText := by
  intro m n h
  simp only [fractionText] at h
  split at h
  · split at h
    · omega
    · exact absurd h (by simp)
  · split at h
    · exact absurd h (by simp)
    · exact Decimal.padded_injective 6 (List.cons.inj h).2

theorem length_fractionText {micros : Nat} (h : micros < 1000000) :
    (fractionText micros).length = if micros = 0 then 0 else 7 := by
  simp only [fractionText]
  split
  · rfl
  · rw [List.length_cons, Decimal.length_padded (by decide) h]

end Duration

/-- The parts of a written duration. -/
structure WrittenDuration where
  negative : Bool
  days : Nat
  hours : Fin 24
  minutes : Fin 60
  seconds : Fin 60
  micros : Fin 1000000
deriving DecidableEq

namespace WrittenDuration

def text (w : WrittenDuration) : List Char :=
  (if w.negative then ['-'] else []) ++
    'P' :: (digits w.days ++ 'D' :: 'T' :: (digits w.hours ++ 'H' :: (digits w.minutes ++
      'M' :: (digits w.seconds ++ (Duration.fractionText w.micros ++ ['S'])))))

/-- The whole microseconds that the parts make up, their sign apart. -/
def magnitude (w : WrittenDuration) : Nat :=
  (((w.days * 24 + w.hours) * 60 + w.minutes) * 60 + w.seconds) * 1000000 + w.micros

def count (w : WrittenDuration) : Int := if w.negative then -(w.magnitude : Int) else w.magnitude

theorem text_injective : Function.Injective text := by
  intro v w h
  have hsign : v.negative = w.negative := by
    cases hv : v.negative <;> cases hw : w.negative <;> simp [text, hv, hw] at h ⊢
  simp only [text, hsign] at h
  have hbody := (List.cons.inj (List.append_cancel_left h)).2
  obtain ⟨hdays, hrest⟩ := Duration.digits_cons_inj (by decide) hbody
  obtain ⟨hhours, hrest⟩ := Duration.digits_cons_inj (by decide) (List.cons.inj hrest).2
  obtain ⟨hminutes, hrest⟩ := Duration.digits_cons_inj (by decide) hrest
  have hstop : ∀ micros, StopsAt Char.isDigit (Duration.fractionText micros ++ ['S']) := by
    intro micros
    simp only [Duration.fractionText]
    split
    · exact stopsAt_cons (by decide)
    · exact stopsAt_cons (by decide)
  obtain ⟨hseconds, hrest⟩ := (hstop _).append_inj (hstop _)
    (fun c hc => isDigit_of_mem_digits hc) (fun c hc => isDigit_of_mem_digits hc) hrest
  have hseconds := Decimal.digits_injective hseconds
  have hmicros := Duration.fractionText_injective (List.append_cancel_right hrest)
  cases v
  cases w
  simp only [WrittenDuration.mk.injEq]
  exact ⟨hsign, hdays, Fin.ext hhours, Fin.ext hminutes, Fin.ext hseconds, Fin.ext hmicros⟩

end WrittenDuration

namespace Duration

/-- The parts that a duration is written with. -/
def written (d : Duration) : WrittenDuration where
  negative := decide (d.nanoseconds < 0)
  days := d.wholeSeconds / 86400
  hours := ⟨d.wholeSeconds % 86400 / 3600, by omega⟩
  minutes := ⟨d.wholeSeconds % 3600 / 60, by omega⟩
  seconds := ⟨d.wholeSeconds % 60, by omega⟩
  micros := ⟨d.subsecondMicros, by
    rw [subsecondMicros]
    omega⟩

theorem literalText_eq (d : Duration) : d.literalText = d.written.text := by
  simp only [literalText, WrittenDuration.text, written, List.append_assoc, List.cons_append,
    decide_eq_true_eq]
  rfl

theorem magnitude_written (d : Duration) : d.written.magnitude = d.nanoseconds.natAbs / 1000 := by
  simp only [WrittenDuration.magnitude, written, wholeSeconds, subsecondMicros]
  omega

theorem count_written (d : Duration) : d.written.count = d.microseconds := by
  have hsign : d.written.negative = decide (d.nanoseconds < 0) := rfl
  simp only [WrittenDuration.count, magnitude_written, microseconds_eq, hsign, decide_eq_true_eq]

theorem wholeMicros_eq_of_literalText {d e : Duration} (h : d.literalText = e.literalText) :
    d.wholeMicros = e.wholeMicros := by
  rw [literalText_eq, literalText_eq] at h
  have hcount : d.written.count = e.written.count := by rw [WrittenDuration.text_injective h]
  rw [count_written, count_written] at hcount
  simp only [wholeMicros, hcount]

end Duration

end Cypher

/-! ## Durations in words

A duration is kept in two words: the whole seconds below it in 64 bits, and the nanoseconds above them
in 32. Below zero the two point in opposite directions, so the opposite of a duration borrows a
second, and both the whole seconds and the rest have to be cut off toward zero. The text and the count
of microseconds are computed here step by step from the words, each result checked to fit into its
word. The text always comes out, and the count unless it exceeds 64 bits. -/

namespace Cypher

open Decimal (padded signed)

namespace Duration

def inHalfWord? (n : Int) : Option Int :=
  if -2 ^ (31 : Nat) ≤ n ∧ n < 2 ^ (31 : Nat) then some n else none

theorem inWord?_eq_some {n : Int} (h : -2 ^ (63 : Nat) ≤ n ∧ n < 2 ^ (63 : Nat)) :
    inWord? n = some n := if_pos h

theorem inHalfWord?_eq_some {n : Int} (h : -2 ^ (31 : Nat) ≤ n ∧ n < 2 ^ (31 : Nat)) :
    inHalfWord? n = some n := if_pos h

/-- Whole seconds, rounded down, and the nanoseconds above them. -/
structure Words where
  seconds : Int
  nanos : Int
deriving DecidableEq

namespace Words

def IsNegative (w : Words) : Prop := w.seconds < 0 ∨ w.seconds = 0 ∧ w.nanos < 0

instance (w : Words) : Decidable w.IsNegative := by
  unfold IsNegative
  infer_instance

def negated? (w : Words) : Option Words := do
  let opposite ← inWord? (-w.seconds)
  if w.nanos = 0 then return ⟨opposite, 0⟩
  let seconds ← inWord? (opposite - 1)
  let nanos ← inHalfWord? (1000000000 - w.nanos)
  return ⟨seconds, nanos⟩

/-- Whole seconds, cut off toward zero. -/
def wholeSeconds? (w : Words) : Option Int :=
  if w.seconds < 0 ∧ 0 < w.nanos then inWord? (w.seconds + 1) else some w.seconds

/-- The nanoseconds past the whole seconds, with the sign of the duration. -/
def subseconds? (w : Words) : Option Int :=
  if w.seconds < 0 ∧ 0 < w.nanos then inHalfWord? (w.nanos - 1000000000) else some w.nanos

/-- The text of words that are not below zero, behind a given sign. -/
def magnitudeText? (sign : List Char) (w : Words) : Option (List Char) := do
  let total ← w.wholeSeconds?
  let rest ← w.subseconds?
  let micros ← inHalfWord? (rest.tdiv 1000)
  let days ← inWord? (total.tdiv 86400)
  let ofDay ← inWord? (total.tmod 86400)
  let hours ← inWord? (ofDay.tdiv 3600)
  let ofHour ← inWord? (total.tmod 3600)
  let minutes ← inWord? (ofHour.tdiv 60)
  let seconds ← inWord? (total.tmod 60)
  let fraction := if micros = 0 then [] else '.' :: padded 6 micros.natAbs
  return sign ++ 'P' :: signed days ++ 'D' :: 'T' :: signed hours ++ 'H' :: signed minutes ++
    'M' :: signed seconds ++ fraction ++ ['S']

/-- The text of a duration, computed from its words. -/
def text? (w : Words) : Option (List Char) := do
  if w.IsNegative then
    let magnitude ← w.negated?
    magnitude.magnitudeText? ['-']
  else w.magnitudeText? []

/-- The whole microseconds of a duration, computed from its words. -/
def microseconds? (w : Words) : Option Int := do
  let total ← w.wholeSeconds?
  let whole ← inWord? (total * 1000000)
  let rest ← w.subseconds?
  let micros ← inHalfWord? (rest.tdiv 1000)
  inWord? (whole + micros)

end Words

def words (d : Duration) : Words := ⟨d.nanoseconds / 1000000000, d.nanoseconds % 1000000000⟩

theorem words_bounds (d : Duration) :
    (-2 ^ (54 : Nat) ≤ d.words.seconds ∧ d.words.seconds < 2 ^ (54 : Nat)) ∧
      0 ≤ d.words.nanos ∧ d.words.nanos < 1000000000 := by
  have hbounds := d.bounds
  simp only [limit] at hbounds
  simp only [words]
  omega

theorem wholeSeconds_lt (d : Duration) : d.wholeSeconds < 2 ^ (54 : Nat) := by
  have hbounds := d.bounds
  simp only [limit] at hbounds
  simp only [wholeSeconds]
  omega

theorem isNegative_words_iff (d : Duration) : d.words.IsNegative ↔ d.nanoseconds < 0 := by
  simp only [Words.IsNegative, words]
  omega

def magnitudeWords (d : Duration) : Words :=
  ⟨d.wholeSeconds, (d.nanoseconds.natAbs % 1000000000 : Nat)⟩

theorem words_of_nonneg {d : Duration} (h : ¬d.nanoseconds < 0) : d.words = d.magnitudeWords := by
  simp only [words, magnitudeWords, wholeSeconds, Words.mk.injEq]
  omega

theorem negated?_words {d : Duration} (h : d.nanoseconds < 0) :
    d.words.negated? = some d.magnitudeWords := by
  obtain ⟨hseconds, hnanos⟩ := d.words_bounds
  have hopposite : inWord? (-d.words.seconds) = some (-d.words.seconds) :=
    inWord?_eq_some (by omega)
  have hborrowed : inWord? (-d.words.seconds - 1) = some (-d.words.seconds - 1) :=
    inWord?_eq_some (by omega)
  have hrest : inHalfWord? (1000000000 - d.words.nanos) = some (1000000000 - d.words.nanos) :=
    inHalfWord?_eq_some (by omega)
  simp only [Words.negated?, hopposite, hborrowed, hrest, Option.bind_eq_bind, Option.bind_some,
    Option.pure_def]
  by_cases hwhole : d.words.nanos = 0
  · rw [if_pos hwhole, Option.some.injEq]
    simp only [words, magnitudeWords, wholeSeconds, Words.mk.injEq] at hwhole ⊢
    omega
  -- the nanoseconds above the seconds are what is missing to the next second of the magnitude
  · rw [if_neg hwhole, Option.some.injEq]
    simp only [words, magnitudeWords, wholeSeconds, Words.mk.injEq] at hwhole ⊢
    omega

theorem signed_natCast (n : Nat) : signed n = Decimal.digits n := by
  simp [signed]

theorem inWord?_tdiv {n : Nat} (h : n < 2 ^ (54 : Nat)) (k : Nat) :
    inWord? ((n : Int).tdiv k) = some ((n / k : Nat) : Int) := by
  have hle := Nat.div_le_self n k
  rw [← Int.ofNat_tdiv]
  exact inWord?_eq_some ⟨le_trans (by decide) (Int.natCast_nonneg _), by omega⟩

theorem inWord?_tmod {n : Nat} (h : n < 2 ^ (54 : Nat)) (k : Nat) :
    inWord? ((n : Int).tmod k) = some ((n % k : Nat) : Int) := by
  have hle := Nat.mod_le n k
  rw [← Int.ofNat_tmod]
  exact inWord?_eq_some (by omega)

theorem magnitudeText?_magnitudeWords (sign : List Char) (d : Duration) :
    d.magnitudeWords.magnitudeText? sign =
      some (sign ++ 'P' :: Decimal.digits (d.wholeSeconds / 86400) ++
        'D' :: 'T' :: Decimal.digits (d.wholeSeconds % 86400 / 3600) ++
        'H' :: Decimal.digits (d.wholeSeconds % 3600 / 60) ++
        'M' :: Decimal.digits (d.wholeSeconds % 60) ++
        fractionText d.subsecondMicros ++ ['S']) := by
  have hlt := d.wholeSeconds_lt
  have hwhole : d.magnitudeWords.wholeSeconds? = some (d.wholeSeconds : Int) :=
    if_neg (by simp only [magnitudeWords]; omega)
  have hrest : d.magnitudeWords.subseconds? = some ((d.nanoseconds.natAbs % 1000000000 : Nat) : Int) :=
    if_neg (by simp only [magnitudeWords]; omega)
  have hmicros : inHalfWord? (((d.nanoseconds.natAbs % 1000000000 : Nat) : Int).tdiv (1000 : Nat)) =
      some (d.subsecondMicros : Int) := by
    rw [← Int.ofNat_tdiv, subsecondMicros]
    exact inHalfWord?_eq_some (by omega)
  have hdays := inWord?_tdiv hlt 86400
  have hofDay := inWord?_tmod hlt 86400
  have hhours := inWord?_tdiv (show d.wholeSeconds % 86400 < 2 ^ (54 : Nat) by omega) 3600
  have hofHour := inWord?_tmod hlt 3600
  have hminutes := inWord?_tdiv (show d.wholeSeconds % 3600 < 2 ^ (54 : Nat) by omega) 60
  have hseconds := inWord?_tmod hlt 60
  simp only [Nat.cast_ofNat] at hmicros hdays hofDay hhours hofHour hminutes hseconds
  have hfraction : (if (d.subsecondMicros : Int) = 0 then []
      else '.' :: padded 6 (d.subsecondMicros : Int).natAbs) = fractionText d.subsecondMicros := by
    rw [Int.natAbs_natCast, fractionText]
    split <;> split <;> first | rfl | omega
  simp only [Words.magnitudeText?, Option.bind_eq_bind, Option.bind_eq_some_iff]
  refine ⟨_, hwhole, _, hrest, _, hmicros, _, hdays, _, hofDay, _, hhours, _, hofHour, _, hminutes,
    _, hseconds, ?_⟩
  rw [hfraction, signed_natCast, signed_natCast, signed_natCast, signed_natCast]
  rfl

theorem text?_words (d : Duration) : d.words.text? = some d.literalText := by
  have hfraction : (if d.subsecondMicros = 0 then [] else '.' :: padded 6 d.subsecondMicros) =
      fractionText d.subsecondMicros := rfl
  simp only [literalText, hfraction]
  by_cases hneg : d.nanoseconds < 0
  · rw [if_pos hneg, Words.text?, if_pos (d.isNegative_words_iff.mpr hneg), negated?_words hneg,
      Option.bind_eq_bind, Option.bind_some, magnitudeText?_magnitudeWords]
  · rw [if_neg hneg, Words.text?, if_neg (mt d.isNegative_words_iff.mp hneg), words_of_nonneg hneg,
      magnitudeText?_magnitudeWords]

/-- Below zero a second that was rounded down is given back, and what is left is counted from
there. -/
theorem cut_words (d : Duration) :
    d.words.wholeSeconds? = some (d.nanoseconds.tdiv 1000000000) ∧
      d.words.subseconds? = some (d.nanoseconds.tmod 1000000000) := by
  obtain ⟨hseconds, hnanos⟩ := d.words_bounds
  have hparts := d.cut_parts_eq
  simp only [Words.wholeSeconds?, Words.subseconds?, wholeSeconds] at hparts ⊢
  by_cases hborrow : d.words.seconds < 0 ∧ 0 < d.words.nanos
  · rw [if_pos hborrow, if_pos hborrow, inWord?_eq_some (by omega), inHalfWord?_eq_some (by omega),
      Option.some.injEq, Option.some.injEq]
    simp only [words] at hborrow ⊢
    omega
  · rw [if_neg hborrow, if_neg hborrow, Option.some.injEq, Option.some.injEq]
    simp only [words] at hborrow ⊢
    omega

theorem microseconds?_words (d : Duration) :
    d.words.microseconds? = d.microseconds?.map Int64.toInt := by
  obtain ⟨hwhole, hrest⟩ := d.cut_words
  have hmicros : inHalfWord? ((d.nanoseconds.tmod 1000000000).tdiv 1000) =
      some ((d.nanoseconds.tmod 1000000000).tdiv 1000) := by
    have hparts := d.counted_parts_eq
    rw [subsecondMicros] at hparts
    exact inHalfWord?_eq_some (by omega)
  rw [← countedMicros?_eq, Words.microseconds?, countedMicros?, hwhole, hrest]
  simp only [Option.bind_eq_bind, Option.bind_some, hmicros]

end Duration

end Cypher
