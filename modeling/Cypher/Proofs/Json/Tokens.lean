import Mathlib
import Cypher.Decimal.Shortest
import Cypher.Json.Reader
import Cypher.Proofs.Decimal.Digits

/-!
# Reading numerals and strings back

The text of a numeral is read back as the numeral, part by part, with or without a plus sign in front
of the exponent, as long as what follows cannot go on with it.
-/

namespace Cypher.Json

open Decimal (Numeral digits signed valueOf isDigit_of_mem_digits)
open Text (StopsAt stopsAt_cons)

/-- The characters that a numeral may go on with after its first digit. -/
def isNumeralChar (c : Char) : Bool := c.isDigit || c == '.' || c == 'e' || c == 'E'

theorem stopsAtDigit_of_numeral {cs : List Char} (h : StopsAt isNumeralChar cs) :
    StopsAt Char.isDigit cs :=
  h.of_imp fun c hc => by simp [isNumeralChar, hc]

theorem spanDigits_digits (n : Nat) {cs : List Char} (hcs : StopsAt Char.isDigit cs) :
    Decimal.spanDigits (digits n ++ cs) = (digits n, cs) :=
  Decimal.spanDigits_append (fun _ hc => isDigit_of_mem_digits hc) hcs

theorem readWhole_digits (n : Nat) {cs : List Char} (hcs : StopsAt Char.isDigit cs) :
    readWhole (digits n ++ cs) = some (n, cs) := by
  rcases Nat.eq_zero_or_pos n with rfl | hpos
  · rw [Decimal.digits_zero]
    rfl
  · obtain ⟨d, ds, hcons⟩ := List.exists_cons_of_ne_nil (Decimal.digits_ne_nil n)
    have hhead : d ≠ '0' := by
      intro hzero
      apply Decimal.head_digits_ne_zero hpos
      rw [hcons, hzero, List.head?_cons]
    have hspan := spanDigits_digits n hcs
    have hvalue := Decimal.valueOf_digits n
    rw [hcons] at hspan hvalue ⊢
    rw [List.cons_append] at hspan ⊢
    rw [readWhole.eq_def]
    split
    · rename_i heq
      exact absurd (List.cons.inj heq).1 hhead
    · simp [hspan, hvalue]

def fractionText (ds : List Char) : List Char := if ds.isEmpty then [] else '.' :: ds

theorem readFraction_fractionText {ds cs : List Char} (hds : ∀ c ∈ ds, c.isDigit = true)
    (hcs : StopsAt Char.isDigit cs) (hpoint : StopsAt (· == '.') cs) :
    readFraction (fractionText ds ++ cs) = some (ds, cs) := by
  cases ds with
  | nil =>
      rw [readFraction.eq_def]
      simp only [fractionText, List.isEmpty_nil, if_true, List.nil_append]
      split
      · exact absurd (hpoint '.' rfl) (by decide)
      · rfl
  | cons d ds =>
      have hspan := Decimal.spanDigits_append hds hcs
      simp only [fractionText, List.isEmpty_cons, Bool.false_eq_true, if_false, List.cons_append,
        readFraction]
      rw [← List.cons_append, hspan]
      rfl

def exponentText (plusSign : Bool) : Option Int → List Char
  | none => []
  | some e => 'e' :: (if plusSign && decide (0 ≤ e) then ['+'] else []) ++ signed e

theorem readExponentDigits_digits (negative : Bool) (n : Nat) {cs : List Char}
    (hcs : StopsAt Char.isDigit cs) :
    readExponentDigits negative (digits n ++ cs) =
      some (some (if negative then -(n : Int) else n), cs) := by
  have hspan := spanDigits_digits n hcs
  have hempty : (digits n).isEmpty = false := by simpa using Decimal.digits_ne_nil n
  simp [readExponentDigits, hspan, hempty]

theorem readExponent_of_digits {cs : List Char} (n : Nat) (hcs : StopsAt Char.isDigit cs) :
    readExponent ('e' :: (digits n ++ cs)) = some (some (n : Int), cs) := by
  have hread := readExponentDigits_digits false n hcs
  obtain ⟨d, ds, hcons⟩ := List.exists_cons_of_ne_nil (Decimal.digits_ne_nil n)
  have hdigit : d.isDigit = true := isDigit_of_mem_digits (hcons ▸ List.mem_cons_self)
  rw [hcons, List.cons_append] at hread ⊢
  simp only [readExponent, true_or, if_true]
  split
  · rename_i heq
    rw [(List.cons.inj heq).1] at hdigit
    exact absurd hdigit (by decide)
  · rename_i heq
    rw [(List.cons.inj heq).1] at hdigit
    exact absurd hdigit (by decide)
  · rw [hread]
    rfl

theorem readExponent_exponentText (plusSign : Bool) (e : Option Int) {cs : List Char}
    (hcs : StopsAt isNumeralChar cs) :
    readExponent (exponentText plusSign e ++ cs) = some (e, cs) := by
  have hstop := stopsAtDigit_of_numeral hcs
  cases e with
  | none =>
      cases cs with
      | nil => rfl
      | cons c cs =>
          have hmark : ¬(c = 'e' ∨ c = 'E') := by
            have hc := hcs c rfl
            simp only [isNumeralChar, Bool.or_eq_false_iff, beq_eq_false_iff_ne] at hc
            exact not_or.mpr ⟨hc.1.2, hc.2⟩
          simp [exponentText, readExponent, hmark]
  | some e =>
      by_cases hneg : e < 0
      · have hread := readExponentDigits_digits true e.natAbs hstop
        have hvalue : -(e.natAbs : Int) = e := by omega
        have hnonneg : ¬0 ≤ e := by omega
        simp only [if_true, hvalue] at hread
        simp [exponentText, signed, hneg, hnonneg, readExponent, hread]
      · have hread := readExponentDigits_digits false e.natAbs hstop
        have hvalue : (e.natAbs : Int) = e := by omega
        have hnonneg : 0 ≤ e := by omega
        simp only [Bool.false_eq_true, if_false, hvalue] at hread
        cases plusSign with
        | true => simp [exponentText, signed, hneg, hnonneg, readExponent, hread]
        | false =>
            have hplain := readExponent_of_digits e.natAbs hstop
            rw [hvalue] at hplain
            simpa [exponentText, signed, hneg, hnonneg] using hplain

theorem text_eq (plusSign : Bool) (n : Numeral) :
    n.text plusSign = (if n.negative then ['-'] else []) ++
      (digits n.whole ++ (fractionText n.fraction ++ exponentText plusSign n.exponent)) := by
  cases hexponent : n.exponent with
  | none => simp [Numeral.text, fractionText, exponentText, hexponent]
  | some e => simp [Numeral.text, fractionText, exponentText, hexponent]

theorem head_text (plusSign : Bool) (n : Numeral) :
    ∃ c cs, n.text plusSign = c :: cs ∧ (c = '-' ∨ c.isDigit = true) := by
  rw [text_eq]
  obtain ⟨d, ds, hcons⟩ := List.exists_cons_of_ne_nil (Decimal.digits_ne_nil n.whole)
  have hdigit : d.isDigit = true := isDigit_of_mem_digits (hcons ▸ List.mem_cons_self)
  cases n.negative with
  | true => exact ⟨'-', _, rfl, .inl rfl⟩
  | false =>
      rw [hcons]
      exact ⟨d, _, rfl, .inr hdigit⟩

theorem readUnsigned_text (plusSign : Bool) {n : Numeral}
    (hfraction : ∀ c ∈ n.fraction, c.isDigit = true) {cs : List Char}
    (hcs : StopsAt isNumeralChar cs) :
    readUnsigned n.negative (digits n.whole ++
        (fractionText n.fraction ++ exponentText plusSign n.exponent) ++ cs) = some (n, cs) := by
  have hexponent : ∀ p : Char → Bool, (∀ c, p c = true → isNumeralChar c = true) → p 'e' = false →
      StopsAt p (exponentText plusSign n.exponent ++ cs) := by
    intro p himp hmark
    cases n.exponent with
    | none => exact hcs.of_imp himp
    | some e => exact stopsAt_cons hmark
  have hdigit : StopsAt Char.isDigit (exponentText plusSign n.exponent ++ cs) :=
    hexponent _ (fun c hc => by simp [isNumeralChar, hc]) (by decide)
  have hpoint : StopsAt (· == '.') (exponentText plusSign n.exponent ++ cs) :=
    hexponent _ (fun c hc => by simp_all [isNumeralChar]) (by decide)
  have hwhole : StopsAt Char.isDigit
      (fractionText n.fraction ++ (exponentText plusSign n.exponent ++ cs)) := by
    cases hempty : n.fraction with
    | nil => exact hdigit
    | cons d ds => exact stopsAt_cons (by decide)
  simp only [List.append_assoc]
  simp only [readUnsigned, readWhole_digits n.whole hwhole,
    readFraction_fractionText hfraction hdigit hpoint,
    readExponent_exponentText plusSign n.exponent hcs, Option.bind_eq_bind, Option.bind_some]
  rfl

theorem readNumeral_text (plusSign : Bool) {n : Numeral}
    (hfraction : ∀ c ∈ n.fraction, c.isDigit = true) {cs : List Char}
    (hcs : StopsAt isNumeralChar cs) : readNumeral (n.text plusSign ++ cs) = some (n, cs) := by
  have hread := readUnsigned_text plusSign hfraction hcs
  rw [text_eq]
  cases hneg : n.negative with
  | true =>
      rw [hneg] at hread
      simpa [readNumeral] using hread
  | false =>
      rw [hneg] at hread
      obtain ⟨d, ds, hcons⟩ := List.exists_cons_of_ne_nil (Decimal.digits_ne_nil n.whole)
      have hdigit : d.isDigit = true := isDigit_of_mem_digits (hcons ▸ List.mem_cons_self)
      have hminus : d ≠ '-' := by
        rintro rfl
        exact absurd hdigit (by decide)
      rw [hcons] at hread ⊢
      simp only [Bool.false_eq_true, if_false, List.nil_append, List.cons_append] at hread ⊢
      rw [readNumeral.eq_def]
      split
      · rename_i heq
        exact absurd (List.cons.inj heq).1 hminus
      · exact hread

end Cypher.Json

/-! ## Reading strings back

Every character of a string is escaped on its own, as itself, by a letter or by its number, and is
read back on its own. So a written string is read back, whatever it contains and whatever follows it. -/

namespace Cypher.Json

/-- Control characters without an escape of their own, which are written by their number. -/
def isNumbered (c : Char) : Bool :=
  decide (c.toNat < 0x20) && !(['\x08', '\t', '\n', '\x0c', '\r'].contains c)

/-- What a character in a written string is spelled with. -/
def pieceOf (c : Char) : Piece := if isNumbered c then .unit c.toNat else .char c

theorem hexValue?_hexDigit : ∀ n < 16, hexValue? (hexDigit n) = some n := by decide

theorem unitOfHex?_hexDigit {n : Nat} (h : n < 256) :
    unitOfHex? '0' '0' (hexDigit (n / 16)) (hexDigit (n % 16)) = some n := by
  have hzero : hexValue? '0' = some 0 := by decide
  have hhigh := hexValue?_hexDigit (n / 16) (by omega)
  have hlow := hexValue?_hexDigit (n % 16) (by omega)
  simp only [unitOfHex?, hzero, hhigh, hlow, Option.bind_eq_bind, Option.bind_some]
  congr 1
  omega

theorem readPieces_numbered (a b : Char) (cs : List Char) {n : Nat}
    (h : unitOfHex? '0' '0' a b = some n) :
    readPieces ('\\' :: 'u' :: '0' :: '0' :: a :: b :: cs) =
      (readPieces cs).map fun (pieces, after) => (.unit n :: pieces, after) := by
  rw [readPieces, h]
  cases readPieces cs <;> rfl

theorem readPieces_lettered {e c : Char} (cs : List Char) (hu : e ≠ 'u')
    (h : unescape? e = some c) :
    readPieces ('\\' :: e :: cs) =
      (readPieces cs).map fun (pieces, after) => (.char c :: pieces, after) := by
  rw [readPieces.eq_def]
  split
  · simp_all
  · simp_all
  · simp_all
  · rename_i heq
    obtain ⟨-, heq⟩ := List.cons.inj heq
    obtain ⟨rfl, rfl⟩ := List.cons.inj heq
    rw [h]
    cases readPieces cs <;> rfl
  · rename_i hother heq
    obtain ⟨rfl, rfl⟩ := List.cons.inj heq
    exact absurd rfl (hother e cs rfl)

theorem readPieces_plain {c : Char} (cs : List Char) (hquote : c ≠ '"') (hslash : c ≠ '\\')
    (h : ¬c.toNat < 0x20) :
    readPieces (c :: cs) =
      (readPieces cs).map fun (pieces, after) => (.char c :: pieces, after) := by
  rw [readPieces.eq_def]
  split
  · simp_all
  · simp_all
  · simp_all
  · simp_all
  · rename_i heq
    obtain ⟨rfl, rfl⟩ := List.cons.inj heq
    rw [if_neg h]

theorem readPieces_escapeChar (c : Char) (cs : List Char) :
    readPieces (escapeChar c ++ cs) =
      (readPieces cs).map fun (pieces, after) => (pieceOf c :: pieces, after) := by
  simp only [escapeChar]
  split
  · subst c
    exact readPieces_lettered cs (by decide) (by decide)
  split
  · subst c
    exact readPieces_lettered cs (by decide) (by decide)
  split
  · subst c
    exact readPieces_lettered cs (by decide) (by decide)
  split
  · subst c
    exact readPieces_lettered cs (by decide) (by decide)
  split
  · subst c
    exact readPieces_lettered cs (by decide) (by decide)
  split
  · subst c
    exact readPieces_lettered cs (by decide) (by decide)
  split
  · subst c
    exact readPieces_lettered cs (by decide) (by decide)
  rename_i hquote hslash hback htab hline hpage hreturn
  split
  · rename_i hcontrol
    have hnumbered : isNumbered c = true := by
      simp [isNumbered, hcontrol, hback, htab, hline, hpage, hreturn]
    rw [pieceOf, if_pos hnumbered]
    exact readPieces_numbered _ _ cs (unitOfHex?_hexDigit (by omega))
  · rename_i hprintable
    have hnumbered : ¬isNumbered c = true := by simp [isNumbered, hprintable]
    rw [pieceOf, if_neg hnumbered]
    exact readPieces_plain cs hquote hslash hprintable

theorem readPieces_flatMap (s cs : List Char) :
    readPieces (s.flatMap escapeChar ++ '"' :: cs) = some (s.map pieceOf, cs) := by
  induction s with
  | nil => rfl
  | cons c s ih =>
      rw [List.flatMap_cons, List.append_assoc, readPieces_escapeChar, ih]
      rfl

/-- A unit below the surrogates is a character, whatever unit follows it. -/
theorem joinPieces_unit {n : Nat} (h : n < 0x20) (pieces : List Piece) :
    joinPieces (.unit n :: pieces) = (joinPieces pieces).map (Char.ofNat n :: ·) := by
  have hhigh : isHighHalf n = false := by simp [isHighHalf]; omega
  have hlow : isLowHalf n = false := by simp [isLowHalf]; omega
  cases pieces with
  | nil => simp [joinPieces, hhigh, hlow]
  | cons piece pieces =>
      cases piece with
      | char c => simp [joinPieces, hhigh, hlow]
      | unit m => simp [joinPieces, hhigh, hlow]

theorem joinPieces_map_pieceOf (s : List Char) : joinPieces (s.map pieceOf) = some s := by
  induction s with
  | nil => rfl
  | cons c s ih =>
      rw [List.map_cons, pieceOf]
      split
      · rename_i hnumbered
        simp only [isNumbered, Bool.and_eq_true, decide_eq_true_eq] at hnumbered
        rw [joinPieces_unit hnumbered.1, ih, Option.map_some, Char.ofNat_toNat]
      · rw [joinPieces, ih, Option.map_some]

theorem readString_flatMap (s : String) (cs : List Char) :
    readString (s.toList.flatMap escapeChar ++ '"' :: cs) = some (some s, cs) := by
  rw [readString, readPieces_flatMap, Option.map_some]
  simp [joinPieces_map_pieceOf]

end Cypher.Json
