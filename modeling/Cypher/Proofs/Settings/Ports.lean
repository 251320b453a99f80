import Cypher.Proofs.Decimal.Digits
import Cypher.Proofs.Settings.Variables

/-!
# Reading a port

A port is read from its digits. Reading them one by one into a word of 16 bits, and giving up as
soon as a product or a sum does not fit, finds the same ports as the number that the digits spell:
zeros in front never fill the word, and whatever number is too large is refused, however many digits
it has.
-/

namespace Cypher.Settings

open Decimal (digits valueOf valueOf_cons)

def times? (a b : UInt16) : Option UInt16 :=
  if a.toNat * b.toNat < 65536 then some (a * b) else none

def plus? (a b : UInt16) : Option UInt16 :=
  if a.toNat + b.toNat < 65536 then some (a + b) else none

def digit? (c : Char) : Option UInt16 :=
  if c.isDigit then some (UInt16.ofNat (c.toNat - '0'.toNat)) else none

/-- Reads digits behind those that made up a word. -/
def readWord? (word : UInt16) : List Char → Option UInt16
  | [] => some word
  | c :: rest => do
    let scaled ← times? word 10
    let digit ← digit? c
    let next ← plus? scaled digit
    readWord? next rest

def withoutPlus : List Char → List Char
  | '+' :: rest => rest
  | cs => cs

/-- Reads a port digit by digit into a word. -/
def portInWord? (text : String) : Option UInt16 :=
  let ds := withoutPlus (Text.trim text.toList)
  if ds = [] then none else (readWord? 0 ds).filter (· ≠ 0)

theorem times?_eq_some_iff {a b c : UInt16} :
    times? a b = some c ↔ c.toNat = a.toNat * b.toNat := by
  have hc := c.toNat_lt
  rw [times?]
  split
  · rename_i hfits
    rw [Option.some.injEq, ← UInt16.toNat_inj, UInt16.toNat_mul, Nat.mod_eq_of_lt hfits]
    exact eq_comm
  · rename_i hfits
    simp only [reduceCtorEq, false_iff]
    omega

theorem plus?_eq_some_iff {a b c : UInt16} :
    plus? a b = some c ↔ c.toNat = a.toNat + b.toNat := by
  have hc := c.toNat_lt
  rw [plus?]
  split
  · rename_i hfits
    rw [Option.some.injEq, ← UInt16.toNat_inj, UInt16.toNat_add, Nat.mod_eq_of_lt hfits]
    exact eq_comm
  · rename_i hfits
    simp only [reduceCtorEq, false_iff]
    omega

theorem digit?_eq_some_iff {c : Char} {d : UInt16} :
    digit? c = some d ↔ c.isDigit = true ∧ d.toNat = c.toNat - '0'.toNat := by
  rw [digit?]
  split
  · rename_i hc
    have hsmall : c.toNat - '0'.toNat < 65536 := by
      have hnine := Decimal.digit_le_nine hc
      omega
    rw [Option.some.injEq, ← UInt16.toNat_inj, UInt16.toNat_ofNat_of_lt' hsmall, eq_comm]
    simp [hc]
  · rename_i hc
    simp [hc]

theorem exists_toNat_eq {n : Nat} (h : n < 65536) : ∃ word : UInt16, word.toNat = n :=
  ⟨UInt16.ofNat n, UInt16.toNat_ofNat_of_lt' h⟩

theorem readWord?_cons_eq_some_iff {word port : UInt16} {c : Char} {rest : List Char} :
    readWord? word (c :: rest) = some port ↔ c.isDigit = true ∧
      ∃ next : UInt16, next.toNat = word.toNat * 10 + (c.toNat - '0'.toNat) ∧
        readWord? next rest = some port := by
  simp only [readWord?, Option.bind_eq_bind, Option.bind_eq_some_iff, times?_eq_some_iff,
    plus?_eq_some_iff, digit?_eq_some_iff]
  constructor
  · rintro ⟨scaled, hscaled, digit, ⟨hc, hdigit⟩, next, hnext, hrest⟩
    refine ⟨hc, next, ?_, hrest⟩
    rw [hnext, hscaled, hdigit]
    rfl
  · rintro ⟨hc, next, hnext, hrest⟩
    have hfits := next.toNat_lt
    obtain ⟨scaled, hscaled⟩ := exists_toNat_eq (n := word.toNat * 10) (by omega)
    obtain ⟨digit, hdigit⟩ := exists_toNat_eq (n := c.toNat - '0'.toNat) (by omega)
    refine ⟨scaled, hscaled, digit, ⟨hc, hdigit⟩, next, ?_, hrest⟩
    rw [hnext, hscaled, hdigit]

theorem readWord?_eq_some_iff {word port : UInt16} {ds : List Char} :
    readWord? word ds = some port ↔
      (∀ c ∈ ds, c.isDigit = true) ∧ port.toNat = word.toNat * 10 ^ ds.length + valueOf ds := by
  induction ds generalizing word with
  | nil =>
      rw [readWord?, Option.some.injEq, ← UInt16.toNat_inj, eq_comm]
      simp [valueOf]
  | cons c rest ih =>
      have hsum : ∀ n, n * 10 ^ (c :: rest).length + valueOf (c :: rest) =
          (n * 10 + (c.toNat - '0'.toNat)) * 10 ^ rest.length + valueOf rest := by
        intro n
        rw [valueOf_cons, List.length_cons]
        ring
      rw [readWord?_cons_eq_some_iff, List.forall_mem_cons, and_assoc, hsum]
      apply and_congr_right
      intro hc
      simp only [ih]
      constructor
      · rintro ⟨next, hnext, hrest, hport⟩
        exact ⟨hrest, by rw [hport, hnext]⟩
      · rintro ⟨hrest, hport⟩
        -- no number on the way is larger than the one at the end
        have hpos : 1 ≤ 10 ^ rest.length := Nat.one_le_pow _ _ (by decide)
        have hgrows := Nat.le_mul_of_pos_right (word.toNat * 10 + (c.toNat - '0'.toNat)) hpos
        have hfits := port.toNat_lt
        obtain ⟨next, hnext⟩ :=
          exists_toNat_eq (n := word.toNat * 10 + (c.toNat - '0'.toNat)) (by omega)
        exact ⟨next, hnext, hrest, by rw [hport, hnext]⟩

theorem exists_sign (cs : List Char) :
    ∃ sign, cs = sign ++ withoutPlus cs ∧ (sign = [] ∨ sign = ['+']) := by
  unfold withoutPlus
  split
  · exact ⟨['+'], rfl, .inr rfl⟩
  · exact ⟨[], rfl, .inl rfl⟩

theorem withoutPlus_append {sign ds : List Char} (hsign : sign = [] ∨ sign = ['+'])
    (hds : ∀ c ∈ ds, c.isDigit = true) : withoutPlus (sign ++ ds) = ds := by
  rcases hsign with rfl | rfl
  · cases ds with
    | nil => rfl
    | cons c rest =>
        have hplus : c ≠ '+' := by
          rintro rfl
          exact absurd (hds '+' List.mem_cons_self) (by decide)
        simp [withoutPlus, hplus]
  · rfl

theorem portInWord?_eq_some_iff {text : String} {port : UInt16} :
    portInWord? text = some port ↔ SpellsPort text port := by
  have hpositive : 1 ≤ port.toNat ↔ port ≠ 0 := by
    rw [Nat.one_le_iff_ne_zero, ne_eq, ne_eq, ← UInt16.toNat_inj]
    rfl
  have hread : ∀ ds, readWord? 0 ds = some port ↔
      (∀ c ∈ ds, c.isDigit = true) ∧ valueOf ds = port.toNat := by
    intro ds
    rw [readWord?_eq_some_iff, eq_comm]
    simp
  have hword : portInWord? text = some port ↔ withoutPlus (Text.trim text.toList) ≠ [] ∧
      readWord? 0 (withoutPlus (Text.trim text.toList)) = some port ∧ 1 ≤ port.toNat := by
    rw [hpositive, portInWord?]
    split <;> simp_all [Option.filter_eq_some_iff]
  rw [hword, hread]
  constructor
  · rintro ⟨hne, ⟨hds, hvalue⟩, hpos⟩
    obtain ⟨sign, hsplit, hsign⟩ := exists_sign (Text.trim text.toList)
    exact ⟨sign, _, hsplit, hsign, hne, hds, hvalue, hpos⟩
  · rintro ⟨sign, ds, htrim, hsign, hne, hds, hvalue, hpos⟩
    rw [htrim, withoutPlus_append hsign hds]
    exact ⟨hne, ⟨hds, hvalue⟩, hpos⟩

theorem portInWord?_eq (text : String) : portInWord? text = portOfText? text := by
  apply Option.ext
  intro port
  rw [portInWord?_eq_some_iff, portOfText?_eq_some_iff]

/-- A text spells no port exactly if what stands behind its sign is empty, holds something else than
digits, or has a value out of range. -/
theorem not_spellsPort_iff {text : String} :
    (∀ port, ¬SpellsPort text port) ↔ ∀ sign ds, Text.trim text.toList = sign ++ ds →
      (sign = [] ∨ sign = ['+']) →
        ds = [] ∨ (∃ c ∈ ds, c.isDigit = false) ∨ valueOf ds = 0 ∨ 65535 < valueOf ds := by
  constructor
  · intro hnone sign ds htrim hsign
    by_contra hfits
    simp only [not_or, not_exists, not_and, Bool.not_eq_false, Nat.not_lt] at hfits
    obtain ⟨hne, hds, hpos, hsmall⟩ := hfits
    obtain ⟨port, hport⟩ := exists_toNat_eq (n := valueOf ds) (by omega)
    exact hnone port ⟨sign, ds, htrim, hsign, hne, hds, hport.symm, by omega⟩
  · rintro hbad port ⟨sign, ds, htrim, hsign, hne, hds, hvalue, hpos⟩
    have hfits := port.toNat_lt
    rcases hbad sign ds htrim hsign with hnil | ⟨c, hc, hother⟩ | hzero | hlarge
    · exact hne hnil
    · exact absurd (hds c hc) (by simp [hother])
    · omega
    · omega

theorem spellsPort_padded {text : String} {lead trail sign : List Char} {zeros : Nat}
    {port : UInt16} (hlead : ∀ c ∈ lead, Text.isBlank c = true)
    (htrail : ∀ c ∈ trail, Text.isBlank c = true) (hsign : sign = [] ∨ sign = ['+'])
    (hport : 1 ≤ port.toNat)
    (htext : text.toList =
      lead ++ (sign ++ (List.replicate zeros '0' ++ digits port.toNat)) ++ trail) :
    SpellsPort text port := by
  have hds : ∀ c ∈ List.replicate zeros '0' ++ digits port.toNat, c.isDigit = true := by
    intro c hc
    rcases List.mem_append.mp hc with hzero | hdigit
    · rw [(List.mem_replicate.mp hzero).2]
      rfl
    · exact Decimal.isDigit_of_mem_digits hdigit
  have hblank : ∀ c ∈ sign ++ (List.replicate zeros '0' ++ digits port.toNat),
      Text.isBlank c = false := by
    intro c hc
    rcases List.mem_append.mp hc with hplus | hdigit
    · rcases hsign with rfl | rfl
      · exact absurd hplus List.not_mem_nil
      · rw [List.mem_singleton.mp hplus]
        decide
    · exact Decimal.isBlank_of_isDigit (hds c hdigit)
  have htrim : Text.trim text.toList = sign ++ (List.replicate zeros '0' ++ digits port.toNat) := by
    rw [htext, Text.trim_padded hlead htrail]
    exact Text.isTrimmed_iff.mp (Text.isTrimmed_of_no_blank hblank)
  have hne : List.replicate zeros '0' ++ digits port.toNat ≠ [] := by
    simp [Decimal.digits_ne_nil]
  have hvalue : valueOf (List.replicate zeros '0' ++ digits port.toNat) = port.toNat := by
    rw [Decimal.valueOf_zeros_append, Decimal.valueOf_digits]
  exact ⟨sign, _, htrim, hsign, hne, hds, hvalue, hport⟩

/-- A text gives a port exactly if it spells it, so no number is taken modulo the size of a word;
any other text is an error that holds the text as it was given, and those are the texts in which
nothing stands behind the sign, or something else than digits, or a number out of range. Reading the
digits into a word one by one finds the same. The digits of every port are read back, whatever
zeros, plus sign and blanks are put around them. -/
theorem port_read_exactly_if_spelled (text : String) :
    (∀ port, readPort text = .ok port ↔ SpellsPort text port) ∧
      (∀ e, readPort text = .error e ↔ e = .invalidPort text ∧
        ∀ sign ds, Text.trim text.toList = sign ++ ds → (sign = [] ∨ sign = ['+']) →
          ds = [] ∨ (∃ c ∈ ds, c.isDigit = false) ∨ valueOf ds = 0 ∨ 65535 < valueOf ds) ∧
      portOfText? text = portInWord? text ∧
      ∀ (lead trail sign : List Char) (zeros : Nat) (port : UInt16),
        (∀ c ∈ lead, Text.isBlank c = true) → (∀ c ∈ trail, Text.isBlank c = true) →
        (sign = [] ∨ sign = ['+']) → 1 ≤ port.toNat →
        text.toList = lead ++ (sign ++ (List.replicate zeros '0' ++ digits port.toNat)) ++ trail →
          readPort text = .ok port := by
  refine ⟨fun port => readPort_eq_ok_iff, ?_, (portInWord?_eq text).symm, ?_⟩
  · intro e
    rw [← not_spellsPort_iff, and_comm]
    exact Variable.read_eq_error_iff (v := .port)
  · intro lead trail sign zeros port hlead htrail hsign hport htext
    exact readPort_eq_ok_iff.mpr (spellsPort_padded hlead htrail hsign hport htext)

/-- Zeros beyond every width of a word do not hide the largest port, and the number behind it is
refused. -/
theorem largest_port_read :
    readPort "\u00a0+00000000000065535\n" = .ok 65535 ∧
      readPort "65536" = .error (.invalidPort "65536") := by
  obtain ⟨-, -, -, hpadded⟩ := port_read_exactly_if_spelled "\u00a0+00000000000065535\n"
  obtain ⟨-, hrefused, -⟩ := port_read_exactly_if_spelled "65536"
  constructor
  · exact hpadded ['\u00a0'] ['\n'] ['+'] 12 65535 (by simp [Text.isBlank]) (by simp [Text.isBlank])
      (.inr rfl) (by decide) (by decide)
  · rw [hrefused]
    refine ⟨rfl, ?_⟩
    intro sign ds htrim hsign
    have hdigits : Text.trim "65536".toList = "65536".toList := by decide +kernel
    rw [hdigits] at htrim
    rcases hsign with rfl | rfl
    · rw [← htrim.trans (List.nil_append ds)]
      have hlarge : 65535 < valueOf "65536".toList := by simp [valueOf, Nat.ofDigitChars]
      exact .inr (.inr (.inr hlarge))
    · cases htrim

end Cypher.Settings
