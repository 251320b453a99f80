import Cypher.Proofs.Connection.Script
import Cypher.Proofs.Query.Runs
import Cypher.Proofs.Text.Spacing

/-!
# Queries that ask for rows

When running a query fetches its rows. The clauses decide, not the text that is sent: a return clause
asks for rows, and so does custom text that names the keyword between two spaces as it was given. The
text that is sent then names it between two spaces as well, since collapsing keeps a word between
spaces where it is. The converse fails: line breaks around the keyword become spaces only after the
custom text was judged.
-/

namespace Cypher

attribute [local instance (high)] List.instDecidableIsInfixOfDecidableEq

open Text (IsGap IsWord SpacesBeside)

theorem isWord_return : IsWord "RETURN".toList := by decide

theorem mentionsReturn_iff {text : String} :
    mentionsReturn text = true ↔ " RETURN ".toList <:+: text.toList :=
  decide_eq_true_iff

def Clause.AsksForRows : Clause → Prop
  | returnItems _ => True
  | custom text => " RETURN ".toList <:+: text.toList
  | _ => False

theorem Clause.exists_asksForRows_iff {cs : List Clause} :
    (∃ c ∈ cs, c.AsksForRows) ↔ (∃ items, .returnItems items ∈ cs) ∨
      ∃ text, .custom text ∈ cs ∧ " RETURN ".toList <:+: text.toList := by
  constructor
  · intro hasking
    obtain ⟨c, hc, hasks⟩ := hasking
    cases c with
    | returnItems items => exact .inl ⟨items, hc⟩
    | custom text => exact .inr ⟨text, hc, hasks⟩
    | _ => exact absurd hasks id
  · intro hfound
    rcases hfound with ⟨items, hc⟩ | ⟨text, hc, hasks⟩
    · exact ⟨_, hc, trivial⟩
    · exact ⟨_, hc, hasks⟩

theorem Clause.isInfix_render_of_asksForRows {c : Clause} (h : c.AsksForRows) :
    " RETURN ".toList <:+: c.render.toList := by
  cases c with
  | returnItems items =>
      rw [render_returnItems]
      exact ⟨[], (projectionList items).toList ++ [' '], by simp⟩
  | custom text => exact h
  | _ => exact absurd h id

theorem Opening.not_asksForRows (o : Opening) : ¬o.clause.AsksForRows := by
  cases o <;> exact id

theorem Step.asksForRows_iff {step : Step} {c : Clause} (h : step.clause? = some c) :
    step.asksForRows = true ↔ c.AsksForRows := by
  cases step with
  | opening o =>
      obtain rfl := Option.some.inj h
      exact iff_of_false (by simp [asksForRows]) o.not_asksForRows
  | condition connective item operator value =>
      obtain ⟨op, -, rfl⟩ := Option.map_eq_some_iff.mp h
      exact iff_of_false (by simp [asksForRows]) id
  | returnItems items =>
      obtain rfl := Option.some.inj h
      exact iff_of_true rfl trivial
  | custom text =>
      obtain rfl := Option.some.inj h
      exact mentionsReturn_iff
  | _ =>
      obtain rfl := Option.some.inj h
      exact iff_of_false (by simp [asksForRows]) id

namespace Query

/-- The flag of a query tells what its clauses ask for. -/
def FlagAgrees (q : Query) : Prop := q.fetches = true ↔ ∃ c ∈ q.clauses, c.AsksForRows

theorem flagAgrees_start (opening : Option Opening) : (start opening).FlagAgrees := by
  cases opening with
  | none => simp [start, empty, FlagAgrees]
  | some o => simp [start, ofOpening, push, empty, FlagAgrees, o.not_asksForRows]

theorem FlagAgrees.apply {q next : Query} {step : Step} (hq : q.FlagAgrees)
    (h : q.apply step = .ok next) : next.FlagAgrees := by
  obtain ⟨c, hc, rfl⟩ := apply_eq_ok h
  rw [FlagAgrees] at hq ⊢
  rw [Bool.or_eq_true, hq, Step.asksForRows_iff hc]
  simp [or_and_right, exists_or]

theorem FlagAgrees.applySteps {q : Query} (hq : q.FlagAgrees) (steps : List Step) :
    (q.applySteps steps).FlagAgrees := by
  induction steps generalizing q with
  | nil => exact hq
  | cons step rest ih =>
      rw [applySteps_cons]
      cases happly : q.apply step with
      | ok next =>
          rw [applyOrKeep_of_ok happly]
          exact ih (hq.apply happly)
      | error e =>
          rw [applyOrKeep_of_error happly]
          exact ih hq

theorem FlagAgrees.fetches_applySteps {q : Query} (hq : q.FlagAgrees) (steps : List Step)
    (h : q.fetches = true) : (q.applySteps steps).fetches = true := by
  obtain ⟨c, hc, hasks⟩ := hq.mp h
  exact (hq.applySteps steps).mpr ⟨c, (clauses_applySteps q steps).mem hc, hasks⟩

theorem FlagAgrees.isInfix_text {q : Query} (hq : q.FlagAgrees) (h : q.fetches = true) :
    " RETURN ".toList <:+: q.text.toList := by
  obtain ⟨c, hc, hasks⟩ := hq.mp h
  rw [toList_text]
  exact Text.spaced_isInfix_collapse isWord_return
    ((Clause.isInfix_render_of_asksForRows hasks).trans (isInfix_joined_of_mem hc))

/-- In the query that any run of steps builds, the flag is set exactly for a return clause or for
custom text with the keyword between two spaces, and it stays set. Where it is set, the text that is
sent has the keyword between two spaces, so running the query never fetches for a text without it. -/
theorem fetch_flag_agrees_with_clauses (opening : Option Opening) (steps : List Step) :
    let q := (start opening).applySteps steps
    (q.fetches = true ↔ (∃ items, .returnItems items ∈ q.clauses) ∨
        ∃ text, .custom text ∈ q.clauses ∧ " RETURN ".toList <:+: text.toList) ∧
      (∀ more, q.fetches = true → (q.applySteps more).fetches = true) ∧
      (q.fetches = true → " RETURN ".toList <:+: q.text.toList) ∧
      ∀ {σ : Type} (c : Connection σ) (state : σ) (query : String),
        .fetch query ∈ (q.execute c.noting (state, [])).state.2 →
          " RETURN ".toList <:+: query.toList := by
  intro q
  have hq : q.FlagAgrees := (flagAgrees_start opening).applySteps steps
  refine ⟨hq.trans Clause.exists_asksForRows_iff, hq.fetches_applySteps, hq.isInfix_text, ?_⟩
  intro σ c state query hquery
  rw [execute_noting, List.nil_append, List.mem_singleton, call] at hquery
  by_cases hfetches : q.fetches = true
  · rw [if_pos hfetches] at hquery
    obtain rfl := Call.fetch.inj hquery
    exact hq.isInfix_text hfetches
  · rw [if_neg hfetches] at hquery
    cases hquery

/-- The keyword is found in custom text between a tab and a line break, each with a space, and stays
when the clause behind it begins with a space as well. -/
theorem fetch_flag_of_custom_text :
    let q := (start (some .merge)).applySteps [.custom "(n)\t RETURN \nn", .limit "1"]
    q.fetches = true ∧ " RETURN ".toList <:+: q.text.toList ∧
      (q.applySteps [.skip "2"]).fetches = true := by
  intro q
  have hfetches : q.fetches = true := by decide +kernel
  obtain ⟨-, hstays, htext, -⟩ := fetch_flag_agrees_with_clauses (some .merge)
    [.custom "(n)\t RETURN \nn", .limit "1"]
  exact ⟨hfetches, htext hfetches, hstays _ hfetches⟩

theorem fetches_addCustom (q : Query) (text : String) :
    (q.addCustom text).fetches = (q.fetches || mentionsReturn text) := rfl

theorem fetches_addCustom_iff {q : Query} {text : String} :
    (q.addCustom text).fetches = true ↔
      q.fetches = true ∨ " RETURN ".toList <:+: text.toList := by
  simp only [fetches_addCustom, Bool.or_eq_true, mentionsReturn_iff]

theorem clauses_addCustom (q : Query) (text : String) :
    (q.addCustom text).clauses = q.clauses ++ [.custom text] := rfl

theorem joined_addCustom (q : Query) (text : String) :
    (q.addCustom text).joined = q.joined ++ text.toList := by
  rw [joined, clauses_addCustom, List.flatMap_append, List.flatMap_singleton]
  rfl

theorem toList_text_addCustom_empty (text : String) :
    (empty.addCustom text).text.toList = Text.collapse text.toList := by
  rw [toList_text, joined_addCustom]
  rfl

theorem answer_execute_of_fetches {q : Query} (h : q.fetches = true) {σ : Type} (c : Connection σ)
    (state : σ) : (q.execute c state).answer = (c.fetch state q.text).answer := by
  rw [execute, h, run_eq]
  rfl

/-- Custom text asks for rows if it has the keyword between two spaces as it was given; the text that
is sent has it between two spaces if the custom text has it between two gaps. So the first implies the
second, and the second implies the first where the blanks next to the keyword are spaces; the rows are
then handed back. -/
theorem custom_text_asks_as_sent (q : Query) (text : String) :
    let sent := (empty.addCustom text).text.toList
    ((q.addCustom text).fetches = true ↔
        q.fetches = true ∨ " RETURN ".toList <:+: text.toList) ∧
      (" RETURN ".toList <:+: sent ↔ ∃ before after, IsGap before ∧ IsGap after ∧
        before ++ ("RETURN".toList ++ after) <:+: text.toList) ∧
      (" RETURN ".toList <:+: text.toList → " RETURN ".toList <:+: sent) ∧
      (SpacesBeside "RETURN".toList text.toList → " RETURN ".toList <:+: sent →
        (q.addCustom text).fetches = true ∧
          ∀ {σ : Type} (c : Connection σ) (state : σ),
            ((q.addCustom text).execute c state).answer =
              (c.fetch state (q.addCustom text).text).answer) := by
  intro sent
  have hsent : sent = Text.collapse text.toList := toList_text_addCustom_empty text
  rw [hsent]
  refine ⟨fetches_addCustom_iff, Text.spaced_isInfix_collapse_iff isWord_return,
    Text.spaced_isInfix_collapse isWord_return, ?_⟩
  intro hspaces hkeyword
  have hraw := Text.spaced_isInfix_of_collapse isWord_return hspaces hkeyword
  have hfetches : (q.addCustom text).fetches = true := fetches_addCustom_iff.mpr (.inr hraw)
  exact ⟨hfetches, fun c state => answer_execute_of_fetches hfetches c state⟩

theorem custom_text_with_spaces :
    let text := "MATCH (n)\nWHERE n.x   RETURN  n"
    SpacesBeside "RETURN".toList text.toList ∧ (empty.addCustom text).fetches = true := by
  intro text
  have hspaces : SpacesBeside "RETURN".toList text.toList := by
    intro c hc hbeside
    have hmem : c ∈ text.toList := by
      rcases hbeside with hbefore | hafter
      · exact hbefore.subset (by simp)
      · exact hafter.subset (by simp)
    have hblanks : text.toList.filter Text.isBlank = ' ' :: '\n' :: List.replicate 6 ' ' := by
      decide +kernel
    have hblank : c ∈ text.toList.filter Text.isBlank := List.mem_filter.mpr ⟨hmem, hc⟩
    rw [hblanks, List.mem_cons, List.mem_cons, List.mem_replicate] at hblank
    rcases hblank with rfl | rfl | ⟨-, rfl⟩
    · rfl
    · exact absurd hbeside (by decide +kernel)
    · rfl
  exact ⟨hspaces, ((custom_text_asks_as_sent empty text).2.2.2 hspaces (by decide +kernel)).1⟩

/-- Two line breaks on each side of the keyword hide it in the custom text, and are spaces in the text
that is sent. -/
theorem line_breaks_hide_keyword :
    let text := "MATCH (n)\n\nRETURN\n\nn"
    (empty.addCustom text).text = "MATCH (n) RETURN n" ∧
      " RETURN ".toList <:+: (empty.addCustom text).text.toList ∧
      (empty.addCustom text).fetches = false := by
  decide +kernel

end Query

end Cypher
