import Cypher.Proofs.Text.Trim
import Cypher.Settings.Basic

/-!
# The variables of the settings

Each setting has a variable of its own, and what the text of the variable gives is said here apart
from how it is read: a port is a number in decimal digits, a truth value is one of six words, a host
is anything but blank, and the other texts are taken as they are. Reading a variable succeeds on the
texts that give something and on no other, and its error names the text that does not.
-/

namespace Cypher.Settings

/-- A text that spells a port: blanks aside, its decimal digits, with a plus sign or without. -/
def SpellsPort (text : String) (port : UInt16) : Prop :=
  ∃ sign ds, Text.trim text.toList = sign ++ ds ∧ (sign = [] ∨ sign = ['+']) ∧ ds ≠ [] ∧
    (∀ c ∈ ds, c.isDigit = true) ∧ Decimal.valueOf ds = port.toNat ∧ 1 ≤ port.toNat

def flagWords : Bool → List String
  | true => ["true", "1", "yes"]
  | false => ["false", "0", "no"]

/-- A text that spells a truth value: blanks and case aside, one of its words. -/
def SpellsFlag (text : String) (flag : Bool) : Prop :=
  ∃ word ∈ flagWords flag, Text.FoldsTo text word

inductive Variable where
  | host | port | username | password | encrypted | clientName | lazy
deriving DecidableEq

namespace Variable

def name : Variable → String
  | host => "MG_HOST"
  | port => "MG_PORT"
  | username => "MG_USERNAME"
  | password => "MG_PASSWORD"
  | encrypted => "MG_ENCRYPTED"
  | clientName => "MG_CLIENT_NAME"
  | lazy => "MG_LAZY"

/-- The values of the setting that a variable is for. -/
@[reducible] def Content : Variable → Type
  | host | username | password | clientName => String
  | port => UInt16
  | encrypted | lazy => Bool

def setting (s : Settings) : (v : Variable) → v.Content
  | host => s.host
  | port => s.port
  | username => s.username
  | password => s.password
  | encrypted => s.encrypted
  | clientName => s.clientName
  | lazy => s.lazy

/-- What the text of a variable gives. -/
def Gives : (v : Variable) → String → v.Content → Prop
  | host, text, content =>
    (∃ c ∈ text.toList, Text.isBlank c = false) ∧ content = Text.trimmed text
  | port, text, content => SpellsPort text content
  | encrypted, text, content | lazy, text, content => SpellsFlag text content
  | username, text, content | password, text, content | clientName, text, content =>
    content = text

/-- The error for a text of a variable that gives nothing. Only the variables that are checked have
such texts. -/
def fault : Variable → String → SettingsError
  | host, _ => .emptyHost
  | port, text => .invalidPort text
  | v, text => .invalidFlag v.name text

def read : (v : Variable) → String → Except SettingsError v.Content
  | host, text =>
    if (Text.trim text.toList).isEmpty then .error .emptyHost else .ok (Text.trimmed text)
  | port, text => readPort text
  | encrypted, text => readFlag encrypted.name text
  | lazy, text => readFlag lazy.name text
  | username, text | password, text | clientName, text => .ok text

end Variable

theorem portOfText?_of_digits {text : String} {sign ds : List Char}
    (htrim : Text.trim text.toList = sign ++ ds) (hsign : sign = [] ∨ sign = ['+'])
    (hne : ds ≠ []) (hds : ∀ c ∈ ds, c.isDigit = true) :
    portOfText? text =
      if 1 ≤ Decimal.valueOf ds ∧ Decimal.valueOf ds ≤ 65535 then
        some (UInt16.ofNat (Decimal.valueOf ds))
      else none := by
  have hall : ds.all Char.isDigit = true := List.all_eq_true.mpr hds
  rcases hsign with rfl | rfl
  · cases ds with
    | nil => exact absurd rfl hne
    | cons c rest =>
        have hplus : c ≠ '+' := by
          rintro rfl
          exact absurd (hds '+' List.mem_cons_self) (by decide)
        rw [List.nil_append] at htrim
        simp [portOfText?, htrim, hplus, hall]
  · rw [List.singleton_append] at htrim
    simp [portOfText?, htrim, hall, hne]

theorem exists_digits_of_portOfText? {text : String} {port : UInt16}
    (h : portOfText? text = some port) :
    ∃ sign ds, Text.trim text.toList = sign ++ ds ∧ (sign = [] ∨ sign = ['+']) ∧ ds ≠ [] ∧
      ∀ c ∈ ds, c.isDigit = true := by
  have hdigits : ∀ ds : List Char, ¬(ds.isEmpty || !ds.all Char.isDigit) = true →
      ds ≠ [] ∧ ∀ c ∈ ds, c.isDigit = true := by
    intro ds hds
    simpa [List.isEmpty_iff] using hds
  simp only [portOfText?] at h
  split at h
  · rename_i rest htrim
    split at h
    · cases h
    · rename_i hrest
      exact ⟨['+'], rest, htrim, .inr rfl, hdigits rest hrest⟩
  · split at h
    · cases h
    · rename_i hall
      exact ⟨[], _, rfl, .inl rfl, hdigits _ hall⟩

theorem portOfText?_eq_some_iff {text : String} {port : UInt16} :
    portOfText? text = some port ↔ SpellsPort text port := by
  have hport : port.toNat < 65536 := port.toNat_lt
  constructor
  · intro h
    obtain ⟨sign, ds, htrim, hsign, hne, hds⟩ := exists_digits_of_portOfText? h
    rw [portOfText?_of_digits htrim hsign hne hds] at h
    split at h
    · rename_i hrange
      have hvalue : Decimal.valueOf ds = port.toNat := by
        rw [← Option.some.inj h,
          UInt16.toNat_ofNat_of_lt' (Nat.lt_of_le_of_lt hrange.2 (by decide))]
      exact ⟨sign, ds, htrim, hsign, hne, hds, hvalue, hvalue ▸ hrange.1⟩
    · cases h
  · intro h
    obtain ⟨sign, ds, htrim, hsign, hne, hds, hvalue, hpos⟩ := h
    rw [portOfText?_of_digits htrim hsign hne hds, hvalue, if_pos ⟨hpos, by omega⟩,
      UInt16.ofNat_toNat]

theorem not_mem_flagWords_false : ∀ word ∈ flagWords true, word ∉ flagWords false := by decide

theorem flagOfText?_eq_some_iff {text : String} {flag : Bool} :
    Text.flagOfText? text = some flag ↔ SpellsFlag text flag := by
  simp only [SpellsFlag, Text.foldsTo_iff, exists_eq_right']
  change (if String.ofList (Text.lowered (Text.trim text.toList)) ∈ flagWords true then some true
    else if String.ofList (Text.lowered (Text.trim text.toList)) ∈ flagWords false then some false
    else none) = some flag ↔ _
  generalize String.ofList (Text.lowered (Text.trim text.toList)) = word
  by_cases htrue : word ∈ flagWords true
  · have hfalse := not_mem_flagWords_false word htrue
    cases flag <;> simp [htrue, hfalse]
  · cases flag <;> simp [htrue]

theorem readPort_eq_ok_iff {text : String} {port : UInt16} :
    readPort text = .ok port ↔ SpellsPort text port := by
  rw [← portOfText?_eq_some_iff, readPort]
  cases portOfText? text <;> simp

theorem readFlag_eq_ok_iff {name text : String} {flag : Bool} :
    readFlag name text = .ok flag ↔ SpellsFlag text flag := by
  rw [← flagOfText?_eq_some_iff, readFlag]
  cases Text.flagOfText? text <;> simp

namespace Variable

theorem read_eq_ok_iff {v : Variable} {text : String} {content : v.Content} :
    v.read text = .ok content ↔ v.Gives text content := by
  cases v with
  | host =>
      simp only [read, Gives, List.isEmpty_iff, Text.trim_eq_nil_iff]
      by_cases hblank : ∀ c ∈ text.toList, Text.isBlank c = true
      · rw [if_pos hblank]
        simpa using fun c hc hnot => absurd (hblank c hc) (by simp [hnot])
      · have hsome : ∃ c ∈ text.toList, Text.isBlank c = false := by simpa using hblank
        rw [if_neg hblank, Except.ok.injEq]
        exact ⟨fun h => ⟨hsome, h.symm⟩, fun h => h.2.symm⟩
  | port => exact readPort_eq_ok_iff
  | encrypted | lazy => exact readFlag_eq_ok_iff
  | username | password | clientName =>
      rw [read, Gives, Except.ok.injEq]
      exact eq_comm

theorem eq_fault_of_read {v : Variable} {text : String} {e : SettingsError}
    (h : v.read text = .error e) : e = v.fault text := by
  cases v with
  | host =>
      simp only [read] at h
      split at h
      · exact (Except.error.inj h).symm
      · cases h
  | port =>
      simp only [read, readPort] at h
      split at h
      · cases h
      · exact (Except.error.inj h).symm
  | encrypted | lazy =>
      simp only [read, readFlag] at h
      split at h
      · cases h
      · exact (Except.error.inj h).symm
  | username | password | clientName => cases h

theorem read_eq_error_iff {v : Variable} {text : String} {e : SettingsError} :
    v.read text = .error e ↔ (∀ content, ¬v.Gives text content) ∧ e = v.fault text := by
  simp only [← read_eq_ok_iff]
  constructor
  · intro h
    exact ⟨by simp [h], eq_fault_of_read h⟩
  · intro h
    cases hread : v.read text with
    | ok content => exact absurd hread (h.1 content)
    | error other => rw [h.2, eq_fault_of_read hread]

end Variable

end Cypher.Settings
