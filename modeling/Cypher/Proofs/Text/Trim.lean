import Mathlib
import Cypher.Text.Basic

/-!
# The ends and the case of texts

How a reader knows where a piece of a text ends, what trimming leaves of a text, and which texts
differ in the case of their letters alone.
-/

namespace Cypher.Text

/-! ## The front of a text

A run of characters of one kind ends where a character of another kind follows. So a text that is
put together from such runs can be taken apart again in one way only. -/

/-- The text does not go on with a character of a kind. -/
def StopsAt (p : Char → Bool) (cs : List Char) : Prop := ∀ c ∈ cs.head?, p c = false

variable {p : Char → Bool} {as bs cs ds : List Char}

theorem stopsAt_nil : StopsAt p [] := by
  intro c hc
  exact absurd hc (by simp)

theorem stopsAt_cons {c : Char} (h : p c = false) : StopsAt p (c :: cs) := by
  intro d hd
  rw [List.head?_cons, Option.mem_some_iff] at hd
  rw [← hd, h]

theorem StopsAt.of_imp {q : Char → Bool} (h : StopsAt q cs) (himp : ∀ c, p c = true → q c = true) :
    StopsAt p cs := by
  intro c hc
  have hq := h c hc
  by_contra hp
  rw [himp c (by simpa using hp)] at hq
  exact absurd hq (by simp)

theorem StopsAt.of_isPrefix (h : StopsAt p cs) (hfront : as <+: cs) : StopsAt p as := by
  obtain ⟨rest, rfl⟩ := hfront
  cases as with
  | nil => exact stopsAt_nil
  | cons c as => exact h

theorem StopsAt.append (h : StopsAt p as) (hfilled : as ≠ []) (bs : List Char) :
    StopsAt p (as ++ bs) := by
  intro c hc
  rw [List.head?_append_of_ne_nil _ hfilled] at hc
  exact h c hc

theorem stopsAt_dropWhile (p : Char → Bool) (cs : List Char) : StopsAt p (cs.dropWhile p) := by
  induction cs with
  | nil => exact stopsAt_nil
  | cons c cs ih =>
      by_cases hc : p c = true
      · rwa [List.dropWhile_cons_of_pos hc]
      · rw [List.dropWhile_cons_of_neg hc]
        exact stopsAt_cons (by simpa using hc)

theorem StopsAt.takeWhile_append (hcs : StopsAt p cs) (has : ∀ c ∈ as, p c = true) :
    (as ++ cs).takeWhile p = as := by
  rw [List.takeWhile_append_of_pos has]
  cases cs with
  | nil => simp
  | cons c cs => simp [hcs c rfl]

theorem StopsAt.dropWhile_append (hcs : StopsAt p cs) (has : ∀ c ∈ as, p c = true) :
    (as ++ cs).dropWhile p = cs := by
  rw [List.dropWhile_append_of_pos has]
  cases cs with
  | nil => rfl
  | cons c cs => simp [hcs c rfl]

theorem StopsAt.span_append (hcs : StopsAt p cs) (has : ∀ c ∈ as, p c = true) :
    (as ++ cs).span p = (as, cs) := by
  rw [List.span_eq_takeWhile_dropWhile, hcs.takeWhile_append has, hcs.dropWhile_append has]

/-- Two texts that start with a run of one kind have the same run and go on alike. -/
theorem StopsAt.append_inj (hcs : StopsAt p cs) (hds : StopsAt p ds)
    (has : ∀ c ∈ as, p c = true) (hbs : ∀ c ∈ bs, p c = true) (h : as ++ cs = bs ++ ds) :
    as = bs ∧ cs = ds := by
  have htake := congrArg (List.takeWhile p) h
  have hdrop := congrArg (List.dropWhile p) h
  rw [hcs.takeWhile_append has, hds.takeWhile_append hbs] at htake
  rw [hcs.dropWhile_append has, hds.dropWhile_append hbs] at hdrop
  exact ⟨htake, hdrop⟩

end Cypher.Text

/-! ## Trimmed and folded texts

Trimming leaves a text without a blank at either end, takes nothing from such a text, and leaves
nothing exactly of a blank text. Where case does not count either, the letters of the alphabet are
replaced one by one, and no other character is. -/

namespace Cypher.Text

def IsTrimmed (cs : List Char) : Prop := StopsAt isBlank cs ∧ StopsAt isBlank cs.reverse

theorem isBlank_of_graphic {c : Char} (hlow : 0x20 < c.toNat) (hhigh : c.toNat < 0x85) :
    isBlank c = false := by
  simp only [isBlank, Bool.or_eq_false_iff, Bool.and_eq_false_iff, decide_eq_false_iff_not,
    beq_eq_false_iff_ne]
  omega

theorem isTrimmed_of_no_blank {cs : List Char} (h : ∀ c ∈ cs, isBlank c = false) :
    IsTrimmed cs := by
  constructor
  · exact fun c hc => h c (List.mem_of_head? hc)
  · exact fun c hc => h c (List.mem_reverse.mp (List.mem_of_head? hc))

theorem trimStart_of_stopsAt {cs : List Char} (h : StopsAt isBlank cs) : trimStart cs = cs :=
  h.dropWhile_append (List.forall_mem_nil _)

theorem trimEnd_eq (cs : List Char) : trimEnd cs = (trimStart cs.reverse).reverse := rfl

theorem stopsAt_trimStart (cs : List Char) : StopsAt isBlank (trimStart cs) :=
  stopsAt_dropWhile isBlank cs

theorem stopsAt_reverse_trimEnd (cs : List Char) : StopsAt isBlank (trimEnd cs).reverse := by
  rw [trimEnd_eq, List.reverse_reverse]
  exact stopsAt_trimStart cs.reverse

theorem trimEnd_of_stopsAt {cs : List Char} (h : StopsAt isBlank cs.reverse) : trimEnd cs = cs := by
  rw [trimEnd_eq, trimStart_of_stopsAt h, List.reverse_reverse]

theorem isTrimmed_trim (cs : List Char) : IsTrimmed (trim cs) := by
  constructor
  · exact (stopsAt_trimStart cs).of_isPrefix (List.rdropWhile_prefix isBlank (trimStart cs))
  · exact stopsAt_reverse_trimEnd (trimStart cs)

theorem isTrimmed_iff {cs : List Char} : IsTrimmed cs ↔ trim cs = cs := by
  constructor
  · intro h
    rw [trim, trimStart_of_stopsAt h.1, trimEnd_of_stopsAt h.2]
  · intro h
    exact h ▸ isTrimmed_trim cs

@[simp] theorem trim_trim (cs : List Char) : trim (trim cs) = trim cs :=
  isTrimmed_iff.mp (isTrimmed_trim cs)

theorem trim_eq_nil_iff {cs : List Char} : trim cs = [] ↔ ∀ c ∈ cs, isBlank c = true := by
  constructor
  · intro h
    have hstart := stopsAt_trimStart cs
    have hblank : ∀ c ∈ trimStart cs, isBlank c = true := List.rdropWhile_eq_nil_iff.mp h
    have hnil : trimStart cs = [] := by
      cases hcs : trimStart cs with
      | nil => rfl
      | cons c rest =>
          rw [hcs] at hstart hblank
          exact absurd (hblank c List.mem_cons_self) (by simp [hstart c rfl])
    exact List.dropWhile_eq_nil_iff.mp hnil
  · intro h
    rw [trim, trimStart, List.dropWhile_eq_nil_iff.mpr h]
    rfl

theorem trim_padded {lead trail : List Char} (hlead : ∀ c ∈ lead, isBlank c = true)
    (htrail : ∀ c ∈ trail, isBlank c = true) (cs : List Char) :
    trim (lead ++ cs ++ trail) = trim cs := by
  have hfront : trimStart (lead ++ cs ++ trail) = trimStart (cs ++ trail) := by
    rw [List.append_assoc]
    exact List.dropWhile_append_of_pos hlead
  have hback : ∀ ds, trimEnd (ds ++ trail) = trimEnd ds := by
    intro ds
    have hreversed : ∀ c ∈ trail.reverse, isBlank c = true := by simpa using htrail
    rw [trimEnd_eq, trimEnd_eq, List.reverse_append]
    exact congrArg List.reverse (List.dropWhile_append_of_pos hreversed)
  rw [trim, trim, hfront, trimStart, trimStart, List.dropWhile_append]
  split
  · rename_i hblank
    rw [List.isEmpty_iff.mp hblank, List.dropWhile_eq_nil_iff.mpr htrail]
  · exact hback _

theorem exists_padding (cs : List Char) :
    ∃ lead trail, (∀ c ∈ lead, isBlank c = true) ∧ (∀ c ∈ trail, isBlank c = true) ∧
      cs = lead ++ trim cs ++ trail := by
  refine ⟨cs.takeWhile isBlank, (trimStart cs).rtakeWhile isBlank, ?_, ?_, ?_⟩
  · exact fun c hc => List.mem_takeWhile_imp hc
  · exact fun c hc => List.mem_rtakeWhile_imp hc
  · have hend : trim cs ++ (trimStart cs).rtakeWhile isBlank = trimStart cs :=
      List.rdropWhile_append_rtakeWhile
    rw [List.append_assoc, hend, trimStart, List.takeWhile_append_dropWhile]

theorem trimmed_eq_self {s : String} (h : IsTrimmed s.toList) : trimmed s = s := by
  rw [← String.toList_inj, toList_trimmed]
  exact isTrimmed_iff.mp h

theorem trimmed_eq_empty_iff {s : String} : trimmed s = "" ↔ trim s.toList = [] := by
  rw [← String.toList_eq_nil_iff, toList_trimmed]

/-- A text and what is left of it when the blanks at both its ends are taken off. -/
structure TrimsTo (s t : String) : Prop where
  isTrimmed : IsTrimmed t.toList
  padded : ∃ lead trail, (∀ c ∈ lead, isBlank c = true) ∧ (∀ c ∈ trail, isBlank c = true) ∧
    s.toList = lead ++ t.toList ++ trail

theorem trimsTo_iff {s t : String} : TrimsTo s t ↔ trimmed s = t := by
  constructor
  · rintro ⟨htrimmed, lead, trail, hlead, htrail, hs⟩
    rw [← String.toList_inj, toList_trimmed, hs, trim_padded hlead htrail]
    exact isTrimmed_iff.mp htrimmed
  · rintro rfl
    constructor
    · rw [toList_trimmed]
      exact isTrimmed_trim s.toList
    · rw [toList_trimmed]
      exact exists_padding s.toList

/-! ## Case -/

/-- The letters whose case does not count: capital letters of the alphabet, each with its small one. -/
def letterCases : List (Char × Char) :=
  "ABCDEFGHIJKLMNOPQRSTUVWXYZ".toList.zip "abcdefghijklmnopqrstuvwxyz".toList

/-- What becomes of a character if its case is dropped: of a capital letter the small one, and any
other character stays. -/
inductive Lowers : Char → Char → Prop
  | capital {c d : Char} (h : (c, d) ∈ letterCases) : Lowers c d
  | other {c : Char} (h : ∀ d, (c, d) ∉ letterCases) : Lowers c c

/-- A text and what is left of it without the blanks at its ends and the case of its letters. -/
def FoldsTo (s t : String) : Prop :=
  ∃ body, TrimsTo s body ∧ List.Forall₂ Lowers body.toList t.toList

theorem toLower_of_mem_letterCases : ∀ p ∈ letterCases, p.1.toLower = p.2 := by
  decide

theorem mem_letterCases_of_capital {c : Char} (hlow : 65 ≤ c.toNat) (hhigh : c.toNat ≤ 90) :
    (c, c.toLower) ∈ letterCases := by
  have hall : ∀ n < 26, (Char.ofNat (65 + n), (Char.ofNat (65 + n)).toLower) ∈ letterCases := by
    decide
  have hc : Char.ofNat (65 + (c.toNat - 65)) = c := by
    rw [Nat.add_sub_cancel' hlow, Char.ofNat_toNat]
  have hmem := hall (c.toNat - 65) (by omega)
  rwa [hc] at hmem

theorem capital_of_mem_letterCases : ∀ p ∈ letterCases, 65 ≤ p.1.toNat ∧ p.1.toNat ≤ 90 := by
  decide

theorem lowers_toLower (c : Char) : Lowers c c.toLower := by
  by_cases hc : 65 ≤ c.toNat ∧ c.toNat ≤ 90
  · exact .capital (mem_letterCases_of_capital hc.1 hc.2)
  · have hsame : c.toLower = c := dif_neg hc
    rw [hsame]
    exact .other fun d hd => hc (capital_of_mem_letterCases (c, d) hd)

theorem lowers_iff {c d : Char} : Lowers c d ↔ c.toLower = d := by
  constructor
  · intro h
    cases h with
    | capital h => exact toLower_of_mem_letterCases (c, d) h
    | other h => exact dif_neg fun hc => h _ (mem_letterCases_of_capital hc.1 hc.2)
  · rintro rfl
    exact lowers_toLower c

theorem forall₂_lowers_iff {cs ds : List Char} : List.Forall₂ Lowers cs ds ↔ lowered cs = ds := by
  have hlowers : Lowers = fun c d => c.toLower = d := funext₂ fun c d => propext lowers_iff
  rw [hlowers, ← List.forall₂_map_left_iff, List.forall₂_eq_eq_eq]
  rfl

/-- A text folds to one text only, which lowering its letters gives. -/
theorem foldsTo_iff {s t : String} : FoldsTo s t ↔ String.ofList (lowered (trim s.toList)) = t := by
  simp only [FoldsTo, trimsTo_iff, exists_eq_left', forall₂_lowers_iff, toList_trimmed]
  rw [← String.toList_inj, String.toList_ofList]

end Cypher.Text
