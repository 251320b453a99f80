import Mathlib
import Cypher.Query.Basic
import Cypher.Query.Clause

/-!
# Clauses and runs of building steps

A query is built step by step, and each step that is accepted adds a clause.
-/

namespace Cypher

/-! ## Carried texts of clauses

Clauses carry texts that were rendered before: conditions, property maps, paths. What a clause
carries stands in its text as one piece. -/

theorem Operator.isInfix_condition (op : Operator) (item value : String) :
    value.toList <:+: (op.condition item value).toList := by
  rw [condition]
  split
  · exact ⟨item.toList ++ [':'], [], by simp⟩
  · exact ⟨item.toList ++ ' ' :: op.symbol.toList ++ [' '], [], by simp⟩

namespace Clause

theorem render_loadCsv (path : String) (header : Bool) (row : String) :
    (loadCsv path header row).render =
      " LOAD CSV FROM " ++ Text.quoted path ++ " " ++ (if header then "WITH" else "NO") ++
        " HEADER AS " ++ row ++ " " := rfl

theorem render_condition (connective : Connective) (text : String) :
    (condition connective text).render = " " ++ connective.keyword ++ " " ++ text ++ " " := rfl

theorem render_node (binding : Option String) (labels properties : String) :
    (node binding labels properties).render =
      if properties.isEmpty then "(" ++ binding.getD "" ++ labels ++ ")"
      else "(" ++ binding.getD "" ++ labels ++ " " ++ properties ++ ")" := rfl

theorem render_edge (binding : Option String) (types properties : String) (direction : Direction) :
    (edge binding types properties direction).render =
      arrow direction (binding.getD "" ++ types ++ properties) := rfl

theorem render_returnItems (items : List Projection) :
    (returnItems items).render = " RETURN " ++ projectionList items ++ " " := rfl

theorem render_custom (text : String) : (custom text).render = text := rfl

theorem isInfix_render_loadCsv (path : String) (header : Bool) (row : String) :
    Text.quote path.toList <:+: (loadCsv path header row).render.toList := by
  rw [render_loadCsv]
  refine ⟨" LOAD CSV FROM ".toList, ' ' :: (if header then "WITH" else "NO").toList ++
    " HEADER AS ".toList ++ row.toList ++ [' '], ?_⟩
  simp

theorem isInfix_render_condition (connective : Connective) (text : String) :
    text.toList <:+: (condition connective text).render.toList := by
  rw [render_condition]
  exact ⟨' ' :: connective.keyword.toList ++ [' '], [' '], by simp⟩

theorem isInfix_render_node (binding : Option String) (labels properties : String) :
    properties.toList <:+: (node binding labels properties).render.toList := by
  rw [render_node]
  by_cases hempty : properties.isEmpty
  · rw [String.isEmpty_iff.mp hempty]
    exact List.nil_infix
  · rw [if_neg hempty]
    exact ⟨'(' :: ((binding.getD "").toList ++ labels.toList ++ [' ']), [')'], by simp⟩

theorem isInfix_arrow (direction : Direction) (body : String) :
    body.toList <:+: (arrow direction body).toList := by
  cases direction with
  | outgoing => exact ⟨['-', '['], [']', '-', '>'], by simp [arrow]⟩
  | incoming => exact ⟨['<', '-', '['], [']', '-'], by simp [arrow]⟩
  | undirected => exact ⟨['-', '['], [']', '-'], by simp [arrow]⟩

theorem isInfix_render_edge (binding : Option String) (types properties : String)
    (direction : Direction) :
    properties.toList <:+: (edge binding types properties direction).render.toList := by
  rw [render_edge]
  have hbody : properties.toList <:+: (binding.getD "" ++ types ++ properties).toList :=
    ⟨(binding.getD "").toList ++ types.toList, [], by simp⟩
  exact hbody.trans (isInfix_arrow direction _)

end Clause

/-! ## Runs of building steps

What one step does to a query, and what a whole run of steps does. An accepted step adds the one
clause that it stands for, whatever the query holds by then; a rejected step leaves the query as it
is, and building goes on from there. -/

/-- The clause that a step stands for; a condition with an unknown operator stands for none. -/
def Step.clause? : Step → Option Clause
  | .opening o => some o.clause
  | .node pattern => some pattern.clause
  | .edgeTo pattern => some (pattern.clause .outgoing)
  | .edgeFrom pattern => some (pattern.clause .incoming)
  | .condition connective item operator value =>
    (Operator.ofText? operator).map fun op => .condition connective (op.condition item value.literal)
  | .union duplicates => some (.union duplicates)
  | .delete expressions detach => some (.delete expressions detach)
  | .remove items => some (.remove items)
  | .yieldItems items => some (.yieldItems items)
  | .returnItems items => some (.returnItems items)
  | .orderBy expression => some (.orderBy expression)
  | .limit expression => some (.limit expression)
  | .skip expression => some (.skip expression)
  | .custom text => some (.custom text)
  | .loadCsv path header row => some (.loadCsv path header row)

def Step.asksForRows : Step → Bool
  | .returnItems _ => true
  | .custom text => mentionsReturn text
  | _ => false

namespace Query

/-- The query that building starts from: an opening step, or nothing. -/
def start (opening : Option Opening) : Query := opening.elim empty ofOpening

def applySteps (q : Query) (steps : List Step) : Query := steps.foldl applyOrKeep q

/-- The steps of a run that are accepted, in order. -/
def accepted (q : Query) : List Step → List Step
  | [] => []
  | step :: rest =>
    match q.apply step with
    | .ok next => step :: next.accepted rest
    | .error _ => q.accepted rest

theorem link_eq_ok {q next : Query} {kind : ClauseKind} {c : Clause}
    (h : q.link kind c = .ok next) : next = q.push c := by
  simp only [link] at h
  split at h
  · split at h
    · cases h
    · exact (Except.ok.inj h).symm
  · exact (Except.ok.inj h).symm

theorem apply_eq_ok {q next : Query} {step : Step} (h : q.apply step = .ok next) :
    ∃ c, step.clause? = some c ∧ next = ⟨q.clauses ++ [c], q.fetches || step.asksForRows⟩ := by
  cases step with
  | node pattern => exact ⟨_, rfl, by simp [link_eq_ok h, push, Step.asksForRows]⟩
  | edgeTo pattern => exact ⟨_, rfl, by simp [link_eq_ok h, push, Step.asksForRows]⟩
  | edgeFrom pattern => exact ⟨_, rfl, by simp [link_eq_ok h, push, Step.asksForRows]⟩
  | condition connective item operator value =>
      simp only [apply, addCondition] at h
      cases hop : Operator.ofText? operator with
      | none => simp [hop] at h
      | some op =>
          simp only [hop, Except.ok.injEq] at h
          refine ⟨.condition connective (op.condition item value.literal), ?_, ?_⟩
          · simp [Step.clause?, hop]
          · simp [← h, push, Step.asksForRows]
  | returnItems items =>
      simp only [apply, Except.ok.injEq] at h
      exact ⟨_, rfl, by simp [← h, push, Step.asksForRows]⟩
  | custom text =>
      simp only [apply, addCustom, Except.ok.injEq] at h
      exact ⟨_, rfl, by simp [← h, push, Step.asksForRows]⟩
  | _ =>
      simp only [apply, Except.ok.injEq] at h
      exact ⟨_, rfl, by simp [← h, push, Step.asksForRows]⟩

theorem applyOrKeep_of_ok {q next : Query} {step : Step} (h : q.apply step = .ok next) :
    q.applyOrKeep step = next := by
  simp [applyOrKeep, h]

theorem applyOrKeep_of_error {q : Query} {step : Step} {e : BuildError}
    (h : q.apply step = .error e) : q.applyOrKeep step = q := by
  simp [applyOrKeep, h]

@[simp] theorem applySteps_cons (q : Query) (step : Step) (rest : List Step) :
    q.applySteps (step :: rest) = (q.applyOrKeep step).applySteps rest := rfl

theorem clauses_applyOrKeep (q : Query) (step : Step) :
    q.clauses <+: (q.applyOrKeep step).clauses := by
  cases h : q.apply step with
  | ok next =>
      obtain ⟨c, -, rfl⟩ := apply_eq_ok h
      rw [applyOrKeep_of_ok h]
      exact List.prefix_append _ _
  | error e =>
      rw [applyOrKeep_of_error h]

theorem clauses_applySteps (q : Query) (steps : List Step) :
    q.clauses <+: (q.applySteps steps).clauses := by
  induction steps generalizing q with
  | nil => exact List.prefix_rfl
  | cons step rest ih => exact (clauses_applyOrKeep q step).trans (ih (q.applyOrKeep step))

theorem mem_clauses_applySteps {q : Query} {steps : List Step} {step : Step}
    (h : step ∈ q.accepted steps) : ∃ c ∈ (q.applySteps steps).clauses, step.clause? = some c := by
  induction steps generalizing q with
  | nil => exact absurd h List.not_mem_nil
  | cons first rest ih =>
      rw [applySteps_cons]
      cases happly : q.apply first with
      | ok next =>
          simp only [accepted, happly] at h
          rw [applyOrKeep_of_ok happly]
          rcases List.mem_cons.mp h with rfl | hrest
          · obtain ⟨c, hc, rfl⟩ := apply_eq_ok happly
            exact ⟨c, (clauses_applySteps _ rest).mem (by simp), hc⟩
          · exact ih hrest
      | error e =>
          simp only [accepted, happly] at h
          rw [applyOrKeep_of_error happly]
          exact ih h

theorem isInfix_joined_of_mem {q : Query} {c : Clause} (h : c ∈ q.clauses) :
    c.render.toList <:+: q.joined := by
  obtain ⟨before, after, hsplit⟩ := List.append_of_mem h
  refine ⟨before.flatMap fun c => c.render.toList, after.flatMap fun c => c.render.toList, ?_⟩
  simp [joined, hsplit]

end Query

end Cypher
