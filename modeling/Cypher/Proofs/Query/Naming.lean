import Cypher.Proofs.Query.Runs
import Cypher.Proofs.Text.Seams

/-!
# Names of projections

An expression is to be shown under its name, unless the name is blank or the expression itself. What
is tested is only whether the name is empty, so a list follows the rule if none of its names dangles:
is white space, but not empty and not the expression. Every dangling name leaves the two characters
of an `AS` in the query that the rule would keep out, however the blanks around it collapse.
-/

namespace Cypher

open Text (isBlank withoutBlanks)

namespace Text

/-- How many characters of a text are not blank. -/
def inkCount (cs : List Char) : Nat := (withoutBlanks cs).length

theorem inkCount_append (as bs : List Char) : inkCount (as ++ bs) = inkCount as + inkCount bs := by
  rw [inkCount, withoutBlanks, List.filter_append, List.length_append]
  rfl

theorem inkCount_eq_zero {cs : List Char} (h : cs.all isBlank = true) : inkCount cs = 0 := by
  rw [inkCount, List.length_eq_zero_iff, withoutBlanks, List.filter_eq_nil_iff]
  intro c hc
  simp [List.all_eq_true.mp h c hc]

theorem inkCount_collapse (cs : List Char) : inkCount (collapse cs) = inkCount cs := by
  rw [inkCount, withoutBlanks_collapse, inkCount]

theorem inkCount_flatMap {α : Type} (f : α → List Char) (xs : List α) :
    inkCount (xs.flatMap f) = (xs.map fun x => inkCount (f x)).sum := by
  induction xs with
  | nil => rfl
  | cons x rest ih => rw [List.flatMap_cons, inkCount_append, ih, List.map_cons, List.sum_cons]

theorem inkCount_intercalate (sep : List Char) (texts : List (List Char)) :
    inkCount (sep.intercalate texts) =
      (texts.map inkCount).sum + (texts.length - 1) * inkCount sep := by
  induction texts with
  | nil => simp [inkCount, withoutBlanks]
  | cons text rest ih =>
      cases rest with
      | nil => simp
      | cons next rest =>
          simp only [List.intercalate_cons_cons, inkCount_append, ih, List.map_cons, List.sum_cons,
            List.length_cons, Nat.add_sub_cancel, Nat.succ_mul]
          omega

end Text

open Text (inkCount)

namespace Projection

/-- What a projection is to be shown as. -/
inductive Shown (p : Projection) : String → Prop
  | bare (h : p.name.toList.all isBlank = true ∨ p.name = p.expression) : Shown p p.expression
  | named (hfilled : p.name.toList.all isBlank = false) (hother : p.name ≠ p.expression) :
      Shown p (p.expression ++ " AS " ++ p.name)

/-- The name is white space, but neither empty nor the expression. -/
def Dangles (p : Projection) : Prop :=
  p.name.toList.all isBlank = true ∧ p.name ≠ "" ∧ p.name ≠ p.expression

instance : DecidablePred Dangles := fun _ => inferInstanceAs (Decidable (_ ∧ _ ∧ _))

/-- The projection with an empty name for a blank one. -/
def withoutBlankName (p : Projection) : Projection :=
  if p.name.toList.all isBlank then { p with name := "" } else p

theorem text_of_bare {p : Projection} (h : p.name = "" ∨ p.name = p.expression) :
    p.text = p.expression := by
  rcases h with h | h <;> simp [text, h]

theorem text_of_named {p : Projection} (hfilled : p.name ≠ "") (hother : p.name ≠ p.expression) :
    p.text = p.expression ++ " AS " ++ p.name := by
  simp [text, hfilled, hother]

theorem text_withoutBlankName_of_blank {p : Projection} (h : p.name.toList.all isBlank = true) :
    p.withoutBlankName.text = p.expression := by
  rw [withoutBlankName, if_pos h]
  exact text_of_bare (.inl rfl)

/-- The rule shows a projection in one way, which is its text once a blank name is emptied. -/
theorem shown_iff {p : Projection} {s : String} : p.Shown s ↔ s = p.withoutBlankName.text := by
  by_cases hblank : p.name.toList.all isBlank = true
  · rw [text_withoutBlankName_of_blank hblank]
    constructor
    · intro h
      cases h with
      | bare => rfl
      | named hfilled => exact absurd hblank (by simp [hfilled])
    · rintro rfl
      exact .bare (.inl hblank)
  · have hfilled : p.name.toList.all isBlank = false := by rwa [Bool.not_eq_true] at hblank
    rw [withoutBlankName, if_neg hblank]
    by_cases hsame : p.name = p.expression
    · rw [text_of_bare (.inr hsame)]
      constructor
      · intro h
        cases h with
        | bare => rfl
        | named _ hother => exact absurd hsame hother
      · rintro rfl
        exact .bare (.inr hsame)
    · have hname : p.name ≠ "" := by
        intro hempty
        simp [hempty] at hfilled
      rw [text_of_named hname hsame]
      constructor
      · intro h
        cases h with
        | bare hbare => exact absurd hbare (not_or.mpr ⟨hblank, hsame⟩)
        | named => rfl
      · rintro rfl
        exact .named hfilled hsame

/-- A dangling name leaves its `AS` behind, which the rule does not. -/
theorem inkCount_text (p : Projection) :
    inkCount p.text.toList =
      inkCount p.withoutBlankName.text.toList + if p.Dangles then 2 else 0 := by
  by_cases hblank : p.name.toList.all isBlank = true
  · rw [text_withoutBlankName_of_blank hblank]
    by_cases hbare : p.name = "" ∨ p.name = p.expression
    · have hnot : ¬p.Dangles := fun h => hbare.elim h.2.1 h.2.2
      rw [text_of_bare hbare, if_neg hnot, Nat.add_zero]
    · rw [not_or] at hbare
      have hmark : inkCount " AS ".toList = 2 := by decide
      rw [text_of_named hbare.1 hbare.2, if_pos ⟨hblank, hbare⟩, String.toList_append,
        String.toList_append, Text.inkCount_append, Text.inkCount_append, hmark,
        Text.inkCount_eq_zero hblank, Nat.add_zero]
  · have hnot : ¬p.Dangles := fun h => hblank h.1
    rw [withoutBlankName, if_neg hblank, if_neg hnot, Nat.add_zero]

theorem text_withoutBlankName {p : Projection} (h : ¬p.Dangles) :
    p.withoutBlankName.text = p.text := by
  by_cases hblank : p.name.toList.all isBlank = true
  · have hbare : p.name = "" ∨ p.name = p.expression := by
      by_contra hnot
      exact h ⟨hblank, not_or.mp hnot⟩
    rw [text_withoutBlankName_of_blank hblank, text_of_bare hbare]
  · rw [withoutBlankName, if_neg hblank]

end Projection

open Projection (Shown Dangles withoutBlankName)

theorem toList_projectionList {ps : List Projection} (h : ps ≠ []) :
    (projectionList ps).toList =
      [',', ' '].intercalate (ps.map fun p => p.text.toList) := by
  simp [projectionList, h, Function.comp_def]

theorem projectionList_map_of_not_dangles {ps : List Projection} (h : ∀ p ∈ ps, ¬p.Dangles) :
    projectionList (ps.map withoutBlankName) = projectionList ps := by
  have htexts : (ps.map withoutBlankName).map Projection.text = ps.map Projection.text := by
    rw [List.map_map]
    apply List.map_congr_left
    intro p hp
    rw [Function.comp_apply, Projection.text_withoutBlankName (h p hp)]
  rw [projectionList, projectionList, htexts, List.isEmpty_map]

theorem sum_inkCount_text (ps : List Projection) :
    (ps.map fun p => inkCount p.text.toList).sum =
      (ps.map fun p => inkCount p.withoutBlankName.text.toList).sum +
        2 * ps.countP fun p => p.Dangles := by
  induction ps with
  | nil => rfl
  | cons p rest ih =>
      rw [List.map_cons, List.sum_cons, List.map_cons, List.sum_cons, List.countP_cons, ih,
        p.inkCount_text]
      simp only [decide_eq_true_eq]
      split <;> omega

theorem inkCount_projectionList (ps : List Projection) :
    inkCount (projectionList ps).toList =
      inkCount (projectionList (ps.map withoutBlankName)).toList +
        2 * ps.countP fun p => p.Dangles := by
  by_cases hnil : ps = []
  · subst hnil
    rfl
  · have hmap : ps.map withoutBlankName ≠ [] := by simpa using hnil
    have hsum := sum_inkCount_text ps
    rw [toList_projectionList hnil, toList_projectionList hmap, Text.inkCount_intercalate,
      Text.inkCount_intercalate]
    simp only [List.map_map, List.length_map, Function.comp_def]
    omega

theorem forall₂_shown_iff {ps : List Projection} {items : List String} :
    List.Forall₂ Shown ps items ↔ items = (ps.map withoutBlankName).map Projection.text := by
  induction ps generalizing items with
  | nil => simp
  | cons p rest ih => simp [List.forall₂_cons_left_iff, Projection.shown_iff, ih]

theorem projectionList_map_eq_iff {ps : List Projection} :
    projectionList (ps.map withoutBlankName) = projectionList ps ↔ ∀ p ∈ ps, ¬p.Dangles := by
  constructor
  · intro h
    have hcount := inkCount_projectionList ps
    rw [h] at hcount
    have hnone : (ps.countP fun p => p.Dangles) = 0 := by omega
    simpa [List.countP_eq_zero] using hnone
  · exact projectionList_map_of_not_dangles

theorem exists_shown_withoutBlankNames {ps : List Projection} (h : ps ≠ []) :
    ∃ items, List.Forall₂ Shown ps items ∧
      projectionList (ps.map withoutBlankName) = ", ".intercalate items := by
  refine ⟨(ps.map withoutBlankName).map Projection.text, forall₂_shown_iff.mpr rfl, ?_⟩
  simp [projectionList, h]

theorem exists_shown_iff {ps : List Projection} (h : ps ≠ []) :
    (∃ items, List.Forall₂ Shown ps items ∧ projectionList ps = ", ".intercalate items) ↔
      ∀ p ∈ ps, ¬p.Dangles := by
  obtain ⟨items, hitems, hruled⟩ := exists_shown_withoutBlankNames h
  rw [forall₂_shown_iff] at hitems
  simp only [forall₂_shown_iff, ← hitems, exists_eq_left, ← hruled]
  rw [eq_comm, projectionList_map_eq_iff]

namespace Clause

def projections : Clause → List Projection
  | withItems items => items
  | yieldItems items => items
  | returnItems items => items
  | _ => []

def withoutBlankNames : Clause → Clause
  | withItems items => withItems (items.map withoutBlankName)
  | yieldItems items => yieldItems (items.map withoutBlankName)
  | returnItems items => returnItems (items.map withoutBlankName)
  | c => c

/-- The clauses with projections, and their keywords. -/
inductive Projects : Clause → String → List Projection → Prop
  | withItems (ps : List Projection) : Projects (.withItems ps) "WITH" ps
  | yieldItems (ps : List Projection) : Projects (.yieldItems ps) "YIELD" ps
  | returnItems (ps : List Projection) : Projects (.returnItems ps) "RETURN" ps

theorem Projects.render {c : Clause} {keyword : String} {ps : List Projection}
    (h : c.Projects keyword ps) : c.render = " " ++ keyword ++ " " ++ projectionList ps ++ " " := by
  cases h <;> rfl

theorem Projects.withoutBlankNames {c : Clause} {keyword : String} {ps : List Projection}
    (h : c.Projects keyword ps) :
    c.withoutBlankNames.Projects keyword (ps.map withoutBlankName) := by
  cases h <;> constructor

theorem projects_or_projections_eq_nil (c : Clause) :
    (∃ keyword, c.Projects keyword c.projections) ∨
      c.projections = [] ∧ c.withoutBlankNames = c := by
  cases c with
  | withItems items => exact .inl ⟨_, .withItems items⟩
  | yieldItems items => exact .inl ⟨_, .yieldItems items⟩
  | returnItems items => exact .inl ⟨_, .returnItems items⟩
  | _ => exact .inr ⟨rfl, rfl⟩

theorem inkCount_render (c : Clause) :
    inkCount c.render.toList =
      inkCount c.withoutBlankNames.render.toList + 2 * c.projections.countP fun p => p.Dangles := by
  rcases c.projects_or_projections_eq_nil with ⟨keyword, hprojects⟩ | ⟨hnil, hsame⟩
  · have hlist := inkCount_projectionList c.projections
    rw [hprojects.render, hprojects.withoutBlankNames.render]
    simp only [String.toList_append, Text.inkCount_append]
    omega
  · rw [hnil, hsame]
    rfl

theorem render_withoutBlankNames {c : Clause} (h : ∀ p ∈ c.projections, ¬p.Dangles) :
    c.withoutBlankNames.render = c.render := by
  rcases c.projects_or_projections_eq_nil with ⟨keyword, hprojects⟩ | ⟨-, hsame⟩
  · rw [hprojects.withoutBlankNames.render, hprojects.render, projectionList_map_of_not_dangles h]
  · rw [hsame]

end Clause

namespace Query

def withoutBlankNames (q : Query) : Query :=
  { q with clauses := q.clauses.map Clause.withoutBlankNames }

def projections (q : Query) : List Projection := q.clauses.flatMap Clause.projections

theorem joined_withoutBlankNames (q : Query) :
    q.withoutBlankNames.joined = q.clauses.flatMap fun c => c.withoutBlankNames.render.toList := by
  rw [joined, withoutBlankNames, List.flatMap_map]

theorem inkCount_joined (q : Query) :
    inkCount q.joined =
      inkCount q.withoutBlankNames.joined + 2 * q.projections.countP fun p => p.Dangles := by
  rw [joined_withoutBlankNames, joined, projections, Text.inkCount_flatMap, Text.inkCount_flatMap]
  induction q.clauses with
  | nil => rfl
  | cons c rest ih =>
      rw [List.map_cons, List.sum_cons, List.map_cons, List.sum_cons, List.flatMap_cons,
        List.countP_append, ih, c.inkCount_render]
      omega

theorem text_withoutBlankNames_iff {q : Query} :
    q.withoutBlankNames.text = q.text ↔ ∀ c ∈ q.clauses, ∀ p ∈ c.projections, ¬p.Dangles := by
  constructor
  · intro h
    have hink := congrArg (fun s : String => inkCount s.toList) h
    simp only [toList_text, Text.inkCount_collapse] at hink
    have hcount := q.inkCount_joined
    have hnone : (q.projections.countP fun p => p.Dangles) = 0 := by omega
    intro c hc p hp
    have hlisted : p ∈ q.projections := List.mem_flatMap.mpr ⟨c, hc, hp⟩
    simpa using List.countP_eq_zero.mp hnone p hlisted
  · intro h
    rw [text, text, joined_withoutBlankNames, joined]
    congr 2
    exact List.flatMap_congr fun c hc => by rw [Clause.render_withoutBlankNames (h c hc)]

end Query

/-- A list of projections is written as the rule asks, one item for each projection in its order,
exactly if no name in it dangles; it is so once the blank names are emptied. The clauses with
projections show their list after their keyword, a star for an empty list. A query has the text that
the rule gives exactly if no name in its clauses dangles. -/
theorem names_follow_rule_unless_dangling {ps : List Projection} (h : ps ≠ []) (q : Query) :
    ((∃ items, List.Forall₂ Shown ps items ∧ projectionList ps = ", ".intercalate items) ↔
      ∀ p ∈ ps, ¬p.Dangles) ∧
    (∃ items, List.Forall₂ Shown ps items ∧
      projectionList (ps.map withoutBlankName) = ", ".intercalate items) ∧
    projectionList [] = "*" ∧
    (∀ (c : Clause) (keyword : String) (shown : List Projection), c.Projects keyword shown →
      c.render = " " ++ keyword ++ " " ++ projectionList shown ++ " " ∧
        c.withoutBlankNames.Projects keyword (shown.map withoutBlankName)) ∧
    (q.withoutBlankNames.text = q.text ↔
      ∀ c ∈ q.clauses, ∀ p ∈ c.projections, ¬p.Dangles) := by
  refine ⟨exists_shown_iff h, exists_shown_withoutBlankNames h, rfl, ?_,
    Query.text_withoutBlankNames_iff⟩
  intro c keyword shown hprojects
  exact ⟨hprojects.render, hprojects.withoutBlankNames⟩

theorem redundant_names_left_out :
    let ps : List Projection := [⟨"n", "n"⟩, ⟨"m.name", "name"⟩, ⟨"count(*)", ""⟩, ⟨"\t", "\t"⟩]
    (∃ items, List.Forall₂ Shown ps items ∧ projectionList ps = ", ".intercalate items) ∧
      (Clause.yieldItems ps).render = " YIELD n, m.name AS name, count(*), \t " ∧
      (Query.start none |>.applySteps [.yieldItems ps]).withoutBlankNames.text =
        (Query.start none |>.applySteps [.yieldItems ps]).text := by
  intro ps
  obtain ⟨hlist, -, -, hclause, hquery⟩ := names_follow_rule_unless_dangling
    (show ps ≠ [] by simp [ps]) (Query.start none |>.applySteps [.yieldItems ps])
  have hnone : ∀ p ∈ ps, ¬p.Dangles := by decide +kernel
  refine ⟨hlist.mpr hnone, ?_, ?_⟩
  · rw [(hclause _ _ _ (.yieldItems ps)).1]
    decide +kernel
  · rw [hquery]
    intro c hc p hp
    obtain rfl : c = .yieldItems ps := List.mem_singleton.mp hc
    exact hnone p hp

/-- A name of one space is shown, and the query ends in an `AS` without a name. -/
theorem space_name_shown :
    (¬∃ items, List.Forall₂ Shown [⟨"n", " "⟩] items ∧
      projectionList [⟨"n", " "⟩] = ", ".intercalate items) ∧
      ((Query.start none).applySteps [.returnItems [⟨"n", " "⟩]]).text = " RETURN n AS " := by
  constructor
  · rw [exists_shown_iff (by simp)]
    decide +kernel
  · decide +kernel

end Cypher
