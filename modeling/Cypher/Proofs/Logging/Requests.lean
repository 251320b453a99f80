import Cypher.Logging.Setup
import Cypher.Proofs.Data.Ordered
import Cypher.Proofs.Text.Trim

/-!
# Requests for logging

What a request asks for, or why it is invalid, is told from the request alone. A request is valid if
its level is named by one of six words, blanks and case aside, and its directory, blanks aside, is
absolute. Two directories are the same place if their paths lead through the same names, whatever
empty parts and single dots stand between these. An invalid request changes nothing; a valid one
meets active logging, or starts it.
-/

namespace Cypher.Logging

variable {σ : Type}

/-- A request: what is asked for, and what starting logging does at that time. -/
structure Request (σ : Type) where
  level : String
  target : Target
  backend : Backend σ

/-- A text that names a level: blanks and case aside, its name, or the second name of `warn`. -/
def NamesLevel (text : String) (level : Level) : Prop :=
  Text.FoldsTo text level.name ∨ Text.FoldsTo text "warning" ∧ level = .warn

/-- The target that is meant by one that is given: a directory has an absolute path once it is
trimmed. -/
inductive Means : Target → Target → Prop where
  | stderr : Means .stderr .stderr
  | directory {path : String} (habsolute : isAbsolute (Text.trimmed path) = true) :
      Means (.directory path) (.directory (Text.trimmed path))

/-- The names that a path leads through: what stands between its slashes, but for nothing and single
dots. -/
def LeadsThrough (path : String) (names : List (List Char)) : Prop :=
  ∃ parts, parts ≠ [] ∧ (∀ part ∈ parts, '/' ∉ part) ∧ path.toList = ['/'].intercalate parts ∧
    names = parts.filter fun part => part ≠ [] ∧ part ≠ ['.']

/-- Two targets that are the same place: paths to a directory lead through the same names. -/
def SamePlace : Target → Target → Prop
  | .stderr, .stderr => True
  | .directory a, .directory b => ∃ names, LeadsThrough a names ∧ LeadsThrough b names
  | _, _ => False

theorem pathParts_eq_splitOn (path : String) : pathParts path = path.toList.splitOn '/' := by
  rw [pathParts]
  induction path.toList with
  | nil => rfl
  | cons c cs ih =>
      rw [List.foldr_cons, ih, List.splitOn_cons_eq_if_modifyHead]
      by_cases hc : c = '/'
      · simp [hc]
      · cases hsplit : cs.splitOn '/' with
        | nil => exact absurd hsplit (List.splitOn_ne_nil _ _)
        | cons part parts => simp [hc]

theorem slash_notMem_of_mem_splitOn {cs part : List Char} (h : part ∈ cs.splitOn '/') :
    '/' ∉ part := by
  induction cs generalizing part with
  | nil => simp_all
  | cons c cs ih =>
      rw [List.splitOn_cons_eq_if_modifyHead] at h
      by_cases hc : c = '/'
      · rcases List.mem_cons.mp (by simpa [hc] using h) with rfl | hpart
        · exact List.not_mem_nil
        · exact ih hpart
      · cases hsplit : cs.splitOn '/' with
        | nil => exact absurd hsplit (List.splitOn_ne_nil _ _)
        | cons first rest =>
            rw [hsplit] at h ih
            rcases List.mem_cons.mp (by simpa [hc] using h) with rfl | hpart
            · simpa [Ne.symm hc] using ih List.mem_cons_self
            · exact ih (List.mem_cons_of_mem first hpart)

/-- The components of a path are the names that it leads through. -/
theorem leadsThrough_iff {path : String} {names : List (List Char)} :
    LeadsThrough path names ↔ names = components path := by
  have hkept : ∀ parts : List (List Char),
      (parts.filter fun part => part ≠ [] ∧ part ≠ ['.']) =
        parts.filter fun part => !leadsNowhere part := by
    intro parts
    apply List.filter_congr
    intro part _
    rw [Bool.eq_iff_iff]
    simp [leadsNowhere]
  rw [components, pathParts_eq_splitOn, ← hkept]
  constructor
  · rintro ⟨parts, hne, hslash, hpath, rfl⟩
    rw [hpath, List.splitOn_intercalate _ hslash hne]
  · rintro rfl
    exact ⟨path.toList.splitOn '/', List.splitOn_ne_nil _ _,
      fun part => slash_notMem_of_mem_splitOn, (List.intercalate_splitOn _).symm, rfl⟩

theorem samePlace_directory_iff {a b : String} :
    SamePlace (.directory a) (.directory b) ↔ components a = components b := by
  simp only [SamePlace, leadsThrough_iff, exists_eq_left]

/-- What becomes of a valid request while logging is active. The levels are compared before the
targets. -/
inductive Verdict (active wanted : Active) : Except SetupError Unit → Prop where
  | agreed (hlevel : wanted.level = active.level)
      (htarget : SamePlace active.target wanted.target) : Verdict active wanted (.ok ())
  | level (hlevel : wanted.level ≠ active.level) :
      Verdict active wanted (.error (.levelConflict active.level wanted.level))
  | target (hlevel : wanted.level = active.level)
      (htarget : ¬SamePlace active.target wanted.target) :
      Verdict active wanted (.error (.targetConflict active.target wanted.target))

theorem Verdict.eq_ok_iff {active wanted : Active} {outcome : Except SetupError Unit}
    (h : Verdict active wanted outcome) : outcome = .ok () ↔
      wanted.level = active.level ∧ SamePlace active.target wanted.target := by
  cases h with
  | agreed hlevel htarget => simp [hlevel, htarget]
  | level hlevel => simp [hlevel]
  | target hlevel htarget => simp [htarget]

theorem Verdict.eq_targetConflict {active wanted : Active} {outcome : Except SetupError Unit}
    (h : Verdict active wanted outcome) (hlevel : wanted.level = active.level)
    (htarget : ¬SamePlace active.target wanted.target) :
    outcome = .error (.targetConflict active.target wanted.target) := by
  cases h with
  | agreed _ hsame => exact absurd hsame htarget
  | level hother => exact absurd hlevel hother
  | target => rfl

namespace Request

/-- What a valid request asks for. -/
structure Asks (r : Request σ) (wanted : Active) : Prop where
  level : NamesLevel r.level wanted.level
  target : Means r.target wanted.target

/-- Why a request is invalid. The level is judged before the directory. -/
inductive Invalid (r : Request σ) : SetupError → Prop where
  | level {word : String} (hword : Text.FoldsTo r.level word)
      (hlevel : ∀ level, ¬NamesLevel r.level level) : Invalid r (.unsupportedLevel word)
  | blank {level : Level} {path : String} (hlevel : NamesLevel r.level level)
      (htarget : r.target = .directory path) (hblank : Text.trimmed path = "") :
      Invalid r .emptyDirectory
  | relative {level : Level} {path : String} (hlevel : NamesLevel r.level level)
      (htarget : r.target = .directory path) (hfilled : Text.trimmed path ≠ "")
      (hrelative : isAbsolute (Text.trimmed path) = false) :
      Invalid r (.relativeDirectory (Text.trimmed path))

def read (r : Request σ) : Except SetupError Active := do
  let level ← readLevel r.level
  let target ← readTarget r.target
  return ⟨level, target⟩

end Request

theorem ofWord?_eq_some_iff {word : String} {level : Level} :
    Level.ofWord? word = some level ↔ word = level.name ∨ word = "warning" ∧ level = .warn := by
  constructor
  · intro h
    simp only [Level.ofWord?] at h
    split at h
    all_goals cases h
    all_goals simp [Level.name]
  · intro h
    rcases h with rfl | ⟨rfl, rfl⟩
    · exact Level.ofWord?_name level
    · rfl

theorem foldsTo_iff_normalSpelling {text word : String} :
    Text.FoldsTo text word ↔ Level.normalSpelling text = word :=
  Text.foldsTo_iff

theorem readLevel_eq_ok_iff {text : String} {level : Level} :
    readLevel text = .ok level ↔ NamesLevel text level := by
  rw [NamesLevel, foldsTo_iff_normalSpelling, foldsTo_iff_normalSpelling, ← ofWord?_eq_some_iff]
  simp only [readLevel]
  cases Level.ofWord? (Level.normalSpelling text) <;> simp

theorem readLevel_eq_error_iff {text : String} {e : SetupError} :
    readLevel text = .error e ↔ (∀ level, ¬NamesLevel text level) ∧
      ∃ word, Text.FoldsTo text word ∧ e = .unsupportedLevel word := by
  simp only [← readLevel_eq_ok_iff, foldsTo_iff_normalSpelling, exists_eq_left']
  simp only [readLevel]
  cases Level.ofWord? (Level.normalSpelling text) <;> simp [eq_comm]

theorem ne_empty_of_isAbsolute {path : String} (h : isAbsolute path = true) : path ≠ "" := by
  rintro rfl
  exact absurd h (by decide)

theorem readTarget_eq_ok_iff {given meant : Target} :
    readTarget given = .ok meant ↔ Means given meant := by
  constructor
  · intro h
    cases given with
    | stderr =>
        obtain rfl := Except.ok.inj h
        exact .stderr
    | directory path =>
        simp only [readTarget] at h
        split at h
        · cases h
        · split at h
          · rename_i habsolute
            obtain rfl := Except.ok.inj h
            exact .directory habsolute
          · cases h
  · intro h
    cases h with
    | stderr => rfl
    | directory habsolute =>
        simp [readTarget, habsolute, ne_empty_of_isAbsolute habsolute]

theorem readTarget_eq_error_iff {given : Target} {e : SetupError} :
    readTarget given = .error e ↔ ∃ path, given = .directory path ∧
      (Text.trimmed path = "" ∧ e = .emptyDirectory ∨
        Text.trimmed path ≠ "" ∧ isAbsolute (Text.trimmed path) = false ∧
          e = .relativeDirectory (Text.trimmed path)) := by
  cases given with
  | stderr => simp [readTarget]
  | directory path =>
      simp only [readTarget, String.isEmpty_iff, Target.directory.injEq, exists_eq_left']
      by_cases hblank : Text.trimmed path = ""
      · simpa [hblank] using eq_comm
      · cases habsolute : isAbsolute (Text.trimmed path) with
        | true => simp [hblank]
        | false => simpa [hblank] using eq_comm

namespace Request

variable {r : Request σ} {wanted : Active} {e : SetupError}

theorem read_eq_ok_iff : r.read = .ok wanted ↔ r.Asks wanted := by
  constructor
  · intro h
    obtain ⟨level, hlevel, h⟩ := bind_eq_ok h
    obtain ⟨target, htarget, h⟩ := bind_eq_ok h
    obtain rfl := Except.ok.inj h
    exact ⟨readLevel_eq_ok_iff.mp hlevel, readTarget_eq_ok_iff.mp htarget⟩
  · intro h
    rw [read, readLevel_eq_ok_iff.mpr h.level, readTarget_eq_ok_iff.mpr h.target]
    rfl

theorem read_eq_error_iff : r.read = .error e ↔ r.Invalid e := by
  rw [read, bind_eq_error_iff]
  constructor
  · intro h
    rcases h with h | ⟨level, hlevel, h⟩
    · obtain ⟨hnone, word, hword, rfl⟩ := readLevel_eq_error_iff.mp h
      exact .level hword hnone
    · have hnamed := readLevel_eq_ok_iff.mp hlevel
      rcases bind_eq_error_iff.mp h with h | ⟨target, -, h⟩
      · obtain ⟨path, htarget, ⟨hblank, rfl⟩ | ⟨hfilled, hrelative, rfl⟩⟩ :=
          readTarget_eq_error_iff.mp h
        · exact .blank hnamed htarget hblank
        · exact .relative hnamed htarget hfilled hrelative
      · cases h
  · intro h
    cases h with
    | level hword hnone => exact .inl (readLevel_eq_error_iff.mpr ⟨hnone, _, hword, rfl⟩)
    | @blank level path hlevel htarget hblank =>
        have herror := readTarget_eq_error_iff.mpr ⟨path, htarget, .inl ⟨hblank, rfl⟩⟩
        exact .inr ⟨level, readLevel_eq_ok_iff.mpr hlevel, bind_eq_error_iff.mpr (.inl herror)⟩
    | @relative level path hlevel htarget hfilled hrelative =>
        have herror := readTarget_eq_error_iff.mpr
          ⟨path, htarget, .inr ⟨hfilled, hrelative, rfl⟩⟩
        exact .inr ⟨level, readLevel_eq_ok_iff.mpr hlevel, bind_eq_error_iff.mpr (.inl herror)⟩

theorem Asks.unique {other : Active} (h : r.Asks wanted) (hother : r.Asks other) :
    wanted = other :=
  Except.ok.inj ((read_eq_ok_iff.mpr h).symm.trans (read_eq_ok_iff.mpr hother))

theorem invalid_or_asks (r : Request σ) : (∃ e, r.Invalid e) ∨ ∃ wanted, r.Asks wanted := by
  cases hread : r.read with
  | error e => exact .inl ⟨e, read_eq_error_iff.mp hread⟩
  | ok wanted => exact .inr ⟨wanted, read_eq_ok_iff.mp hread⟩

theorem existsUnique_asks_iff : (∃! wanted, r.Asks wanted) ↔ ∀ e, ¬r.Invalid e := by
  constructor
  · rintro ⟨wanted, hasks, -⟩ e hinvalid
    have hread := read_eq_ok_iff.mpr hasks
    rw [read_eq_error_iff.mpr hinvalid] at hread
    cases hread
  · intro hvalid
    rcases r.invalid_or_asks with ⟨e, hinvalid⟩ | ⟨wanted, hasks⟩
    · exact absurd hinvalid (hvalid e)
    · exact ⟨wanted, hasks, fun other hother => hother.unique hasks⟩

end Request

theorem isAbsolute_of_means {given : Target} {path : String} (h : Means given (.directory path)) :
    isAbsolute path = true := by
  cases h with
  | directory habsolute => exact habsolute

theorem same_iff_samePlace {given other meant wanted : Target} (hmeant : Means given meant)
    (hwanted : Means other wanted) : meant.same wanted = true ↔ SamePlace meant wanted := by
  cases meant with
  | stderr => cases wanted <;> simp [Target.same, SamePlace]
  | directory a =>
      cases wanted with
      | stderr => simp [Target.same, SamePlace]
      | directory b =>
          simp [Target.same, samePlace_directory_iff, isAbsolute_of_means hmeant,
            isAbsolute_of_means hwanted]

theorem verdict_agrees {active wanted : Active} {given other : Target}
    (hactive : Means given active.target) (hwanted : Means other wanted.target) :
    Verdict active wanted (active.agrees wanted.level wanted.target) := by
  have hplace := same_iff_samePlace hactive hwanted
  by_cases hlevel : active.level = wanted.level
  · by_cases hsame : active.target.same wanted.target = true
    · simpa [Active.agrees, hlevel, hsame] using Verdict.agreed hlevel.symm (hplace.mp hsame)
    · simpa [Active.agrees, hlevel, hsame] using
        Verdict.target hlevel.symm (fun h => hsame (hplace.mpr h))
  · simpa [Active.agrees, hlevel] using Verdict.level (Ne.symm hlevel)

end Cypher.Logging
