import Mathlib
import Cypher.Proofs.Query.Runs

/-!
# Legal runs of steps

Which runs of building steps succeed. A step is judged by its operator, if it is a condition, and by
the kind of the clause before it, which is the kind of the step before it as long as no step was
rejected. So a run succeeds exactly if it is legal as a list of steps, and it fails at the first step
that is not.
-/

namespace Cypher

def Opening.kind : Opening → ClauseKind
  | create => .create
  | matchPattern _ => .matchPattern
  | merge => .merge
  | call .. => .call
  | unwind .. => .unwind
  | withItems _ => .withItems

def Step.kind : Step → ClauseKind
  | .opening o => o.kind
  | .node _ => .node
  | .edgeTo _ => .edge
  | .edgeFrom _ => .edge
  | .condition connective .. => connective.kind
  | .union _ => .union
  | .delete .. => .delete
  | .remove _ => .remove
  | .yieldItems _ => .yieldItems
  | .returnItems _ => .returnItems
  | .orderBy _ => .orderBy
  | .limit _ => .limit
  | .skip _ => .skip
  | .custom _ => .custom
  | .loadCsv .. => .loadCsv

/-- Whether a clause of one kind may stand directly behind a clause of another: everything but a node
behind a node and an edge behind an edge. -/
def ClauseKind.Links (previous next : ClauseKind) : Prop :=
  ¬(previous = next ∧ (next = .node ∨ next = .edge))

/-- A step that is a condition uses a supported operator, in whatever spelling. -/
def Step.KnownOperator : Step → Prop
  | .condition _ _ operator _ => ∃ op : Operator, op.symbol = Operator.normalSpelling operator
  | _ => True

/-- The kinds of the clauses that a run of steps adds, behind the kind of one that is there. -/
def runKinds (previous : Option ClauseKind) (steps : List Step) : List ClauseKind :=
  previous.toList ++ steps.map Step.kind

/-- A run of steps without unknown operators in which no node directly follows a node and no edge
directly follows an edge. -/
structure LegalRun (previous : Option ClauseKind) (steps : List Step) : Prop where
  known : ∀ step ∈ steps, step.KnownOperator
  linked : (runKinds previous steps).IsChain ClauseKind.Links

/-- What is wrong with a step, given the kind of the clause before it. -/
inductive Step.Offends (previous : Option ClauseKind) : Step → BuildError → Prop
  | chain {step : Step} (hkind : step.kind = .node ∨ step.kind = .edge)
      (hprevious : previous = some step.kind) : Offends previous step (.invalidChain step.kind)
  | operator {connective : Connective} {item operator : String} {value : Value}
      (hoperator : ∀ op : Operator, op.symbol ≠ Operator.normalSpelling operator) :
      Offends previous (.condition connective item operator value) (.unknownOperator operator)

theorem Operator.mem_all (op : Operator) : op ∈ all := by
  cases op <;> decide

theorem Operator.ofText?_eq_none_iff {text : String} :
    ofText? text = none ↔ ∀ op : Operator, op.symbol ≠ normalSpelling text := by
  rw [ofText?, List.find?_eq_none]
  constructor
  · intro h op
    simpa using h op op.mem_all
  · intro h op _
    simpa using h op

@[simp] theorem Opening.kind_clause (o : Opening) : o.clause.kind = o.kind := by
  cases o <;> rfl

namespace Step

theorem kind_of_clause? {step : Step} {c : Clause} (h : step.clause? = some c) :
    c.kind = step.kind := by
  cases step with
  | opening o =>
      obtain rfl := Option.some.inj h
      exact o.kind_clause
  | condition connective item operator value =>
      obtain ⟨op, -, rfl⟩ := Option.map_eq_some_iff.mp h
      rfl
  | _ =>
      obtain rfl := Option.some.inj h
      rfl

theorem map_kind_of_clauses {steps : List Step} {cs : List Clause}
    (h : List.Forall₂ (fun step c => step.clause? = some c) steps cs) :
    cs.map Clause.kind = steps.map kind := by
  induction h with
  | nil => rfl
  | cons hc _ ih => rw [List.map_cons, List.map_cons, ih, kind_of_clause? hc]

theorem exists_node_of_kind {step : Step} (h : step.kind = .node) :
    ∃ pattern, step = .node pattern := by
  cases step with
  | node pattern => exact ⟨pattern, rfl⟩
  | opening o => cases o <;> cases h
  | condition connective => cases connective <;> cases h
  | _ => cases h

theorem exists_edge_of_kind {step : Step} (h : step.kind = .edge) :
    ∃ pattern, step = .edgeTo pattern ∨ step = .edgeFrom pattern := by
  cases step with
  | edgeTo pattern => exact ⟨pattern, .inl rfl⟩
  | edgeFrom pattern => exact ⟨pattern, .inr rfl⟩
  | opening o => cases o <;> cases h
  | condition connective => cases connective <;> cases h
  | _ => cases h

theorem exists_offends_iff {previous : Option ClauseKind} {step : Step} :
    (∃ e, step.Offends previous e) ↔
      ¬(step.KnownOperator ∧ ∀ kind ∈ previous, kind.Links step.kind) := by
  constructor
  · intro hoffending hfits
    obtain ⟨e, hoffends⟩ := hoffending
    obtain ⟨hknown, hlinks⟩ := hfits
    cases hoffends with
    | chain hkind hprevious => exact hlinks _ hprevious ⟨rfl, hkind⟩
    | operator hoperator =>
        obtain ⟨op, hop⟩ := hknown
        exact hoperator op hop
  · intro h
    by_cases hknown : step.KnownOperator
    · have hchain : ∃ kind ∈ previous, ¬kind.Links step.kind := by simpa [hknown] using h
      obtain ⟨kind, hprevious, hlinks⟩ := hchain
      obtain ⟨rfl, hkind⟩ := not_not.mp hlinks
      exact ⟨_, .chain hkind hprevious⟩
    · cases step with
      | condition connective item operator value =>
          exact ⟨_, .operator fun op hop => hknown ⟨op, hop⟩⟩
      | _ => exact absurd trivial hknown

end Step

theorem legalRun_cons_iff {previous : Option ClauseKind} {step : Step} {rest : List Step} :
    LegalRun previous (step :: rest) ↔
      (¬∃ e, step.Offends previous e) ∧ LegalRun (some step.kind) rest := by
  have hkinds : runKinds previous (step :: rest) =
      previous.toList ++ runKinds (some step.kind) rest := rfl
  rw [Step.exists_offends_iff, not_not]
  -- the first step is judged at the seam of the chain, between the kind before it and its own
  constructor
  · intro hlegal
    obtain ⟨hknown, hlinked⟩ := hlegal
    rw [hkinds, List.isChain_append] at hlinked
    obtain ⟨-, hrest, hseam⟩ := hlinked
    refine ⟨⟨hknown step (by simp), ?_⟩, ?_, hrest⟩
    · intro kind hkind
      obtain rfl := Option.mem_def.mp hkind
      exact hseam kind (by simp) step.kind (by simp [runKinds])
    · intro other hother
      exact hknown other (by simp [hother])
  · intro hparts
    obtain ⟨⟨hstep, hlinks⟩, hknown, hlinked⟩ := hparts
    constructor
    · intro other hother
      rcases List.mem_cons.mp hother with rfl | hrest
      · exact hstep
      · exact hknown other hrest
    · rw [hkinds, List.isChain_append]
      refine ⟨?_, hlinked, ?_⟩
      · cases previous <;> simp
      · intro kind hkind next hnext
        obtain rfl : next = step.kind := by simpa [runKinds, eq_comm] using hnext
        exact hlinks kind (by cases previous <;> simp_all)

namespace Query

def lastKind (q : Query) : Option ClauseKind := (q.clauses.map Clause.kind).getLast?

theorem lastKind_of_apply {q next : Query} {step : Step} (h : q.apply step = .ok next) :
    next.lastKind = some step.kind := by
  obtain ⟨c, hc, rfl⟩ := apply_eq_ok h
  simp [lastKind, Step.kind_of_clause? hc]

theorem link_eq_error_iff {q : Query} {kind : ClauseKind} {c : Clause} {e : BuildError} :
    q.link kind c = .error e ↔ q.lastKind = some kind ∧ .invalidChain kind = e := by
  rw [link, lastKind, List.getLast?_map]
  cases q.clauses.getLast? with
  | none => simp
  | some last =>
      by_cases hkind : last.kind = kind
      · simp [hkind]
      · simp [hkind]

/-- A step is rejected exactly for what is wrong with it where it stands. -/
theorem apply_eq_error_iff {q : Query} {step : Step} {e : BuildError} :
    q.apply step = .error e ↔ step.Offends q.lastKind e := by
  constructor
  · intro h
    cases step with
    | node pattern =>
        obtain ⟨hlast, rfl⟩ := link_eq_error_iff.mp h
        exact .chain (.inl rfl) hlast
    | edgeTo pattern =>
        obtain ⟨hlast, rfl⟩ := link_eq_error_iff.mp h
        exact .chain (.inr rfl) hlast
    | edgeFrom pattern =>
        obtain ⟨hlast, rfl⟩ := link_eq_error_iff.mp h
        exact .chain (.inr rfl) hlast
    | condition connective item operator value =>
        simp only [apply, addCondition] at h
        cases hop : Operator.ofText? operator with
        | some op => simp [hop] at h
        | none =>
            simp only [hop, Except.error.injEq] at h
            rw [← h]
            exact .operator (Operator.ofText?_eq_none_iff.mp hop)
    | _ => cases h
  · intro h
    cases h with
    | chain hkind hlast =>
        rcases hkind with hnode | hedge
        · obtain ⟨pattern, rfl⟩ := Step.exists_node_of_kind hnode
          exact link_eq_error_iff.mpr ⟨hlast, rfl⟩
        · obtain ⟨pattern, rfl | rfl⟩ := Step.exists_edge_of_kind hedge
          · exact link_eq_error_iff.mpr ⟨hlast, rfl⟩
          · exact link_eq_error_iff.mpr ⟨hlast, rfl⟩
    | operator hoperator =>
        simp only [apply, addCondition, Operator.ofText?_eq_none_iff.mpr hoperator]

theorem applyAll_cons_of_ok {q next : Query} {step : Step} (h : q.apply step = .ok next)
    (rest : List Step) : q.applyAll (step :: rest) = next.applyAll rest := by
  simp [applyAll, h, bind, Except.bind]

theorem applyAll_cons_of_error {q : Query} {step : Step} {e : BuildError}
    (h : q.apply step = .error e) (rest : List Step) : q.applyAll (step :: rest) = .error e := by
  simp [applyAll, h, bind, Except.bind]

theorem exists_applyAll_eq_ok_iff {q : Query} {steps : List Step} :
    (∃ next, q.applyAll steps = .ok next) ↔ LegalRun q.lastKind steps := by
  induction steps generalizing q with
  | nil =>
      have hlegal : LegalRun q.lastKind [] := by
        constructor
        · intro step hstep
          exact absurd hstep List.not_mem_nil
        · rw [runKinds]
          cases q.lastKind <;> simp
      exact iff_of_true ⟨q, rfl⟩ hlegal
  | cons step rest ih =>
      rw [legalRun_cons_iff]
      cases happly : q.apply step with
      | ok next =>
          rw [applyAll_cons_of_ok happly, ih, lastKind_of_apply happly, iff_and_self]
          intro _ hoffending
          obtain ⟨e, hoffends⟩ := hoffending
          rw [apply_eq_error_iff.mpr hoffends] at happly
          cases happly
      | error e =>
          rw [applyAll_cons_of_error happly]
          apply iff_of_false
          · simp
          · intro hlegal
            exact hlegal.1 ⟨e, apply_eq_error_iff.mp happly⟩

theorem clauses_of_applyAll {q next : Query} {steps : List Step}
    (h : q.applyAll steps = .ok next) :
    ∃ cs, next.clauses = q.clauses ++ cs ∧
      List.Forall₂ (fun step c => step.clause? = some c) steps cs := by
  induction steps generalizing q with
  | nil =>
      obtain rfl := Except.ok.inj h
      exact ⟨[], by simp, .nil⟩
  | cons step rest ih =>
      cases happly : q.apply step with
      | ok middle =>
          rw [applyAll_cons_of_ok happly] at h
          obtain ⟨cs, hcs, hrest⟩ := ih h
          obtain ⟨c, hc, rfl⟩ := apply_eq_ok happly
          exact ⟨c :: cs, by simp [hcs], .cons hc hrest⟩
      | error e =>
          rw [applyAll_cons_of_error happly] at h
          cases h

theorem kinds_of_applyAll {q next : Query} {steps : List Step} (h : q.applyAll steps = .ok next) :
    next.clauses.map Clause.kind = q.clauses.map Clause.kind ++ steps.map Step.kind := by
  obtain ⟨cs, hcs, hsteps⟩ := clauses_of_applyAll h
  rw [hcs, List.map_append, Step.map_kind_of_clauses hsteps]

theorem lastKind_of_applyAll {q next : Query} {steps : List Step}
    (h : q.applyAll steps = .ok next) : next.lastKind = (runKinds q.lastKind steps).getLast? := by
  rw [lastKind, kinds_of_applyAll h, runKinds, lastKind, List.getLast?_append,
    List.getLast?_append]
  cases (q.clauses.map Clause.kind).getLast? <;> rfl

theorem applyAll_append_of_ok {q middle : Query} {before : List Step}
    (h : q.applyAll before = .ok middle) (after : List Step) :
    q.applyAll (before ++ after) = middle.applyAll after := by
  rw [applyAll] at h
  rw [applyAll, List.foldlM_append, h]
  rfl

theorem exists_of_applyAll_eq_error {q : Query} {steps : List Step} {e : BuildError}
    (h : q.applyAll steps = .error e) :
    ∃ before step after middle, steps = before ++ step :: after ∧
      q.applyAll before = .ok middle ∧ middle.apply step = .error e := by
  induction steps generalizing q with
  | nil => cases h
  | cons step rest ih =>
      cases happly : q.apply step with
      | ok next =>
          rw [applyAll_cons_of_ok happly] at h
          obtain ⟨before, offending, after, middle, rfl, hbefore, herror⟩ := ih h
          refine ⟨step :: before, offending, after, middle, rfl, ?_, herror⟩
          rwa [applyAll_cons_of_ok happly]
      | error e' =>
          rw [applyAll_cons_of_error happly] at h
          exact ⟨[], step, rest, q, rfl, rfl, happly.trans h⟩

/-- Running some steps fails with what is wrong with the first step that is not in order. -/
theorem applyAll_eq_error_iff {q : Query} {steps : List Step} {e : BuildError} :
    q.applyAll steps = .error e ↔ ∃ before step after, steps = before ++ step :: after ∧
      LegalRun q.lastKind before ∧ step.Offends (runKinds q.lastKind before).getLast? e := by
  constructor
  · intro h
    obtain ⟨before, step, after, middle, hsplit, hbefore, herror⟩ := exists_of_applyAll_eq_error h
    refine ⟨before, step, after, hsplit, exists_applyAll_eq_ok_iff.mp ⟨middle, hbefore⟩, ?_⟩
    rw [← lastKind_of_applyAll hbefore]
    exact apply_eq_error_iff.mp herror
  · intro hfirst
    obtain ⟨before, step, after, rfl, hlegal, hoffends⟩ := hfirst
    obtain ⟨middle, hbefore⟩ := exists_applyAll_eq_ok_iff.mpr hlegal
    rw [← lastKind_of_applyAll hbefore] at hoffends
    rw [applyAll_append_of_ok hbefore, applyAll_cons_of_error (apply_eq_error_iff.mpr hoffends)]

/-- The accepted steps of a run that goes on after rejected ones are a run that succeeds, and it
builds the same query. -/
theorem applyAll_accepted (q : Query) (steps : List Step) :
    q.applyAll (q.accepted steps) = .ok (q.applySteps steps) := by
  induction steps generalizing q with
  | nil => rfl
  | cons step rest ih =>
      rw [applySteps_cons]
      cases happly : q.apply step with
      | ok next =>
          simp only [accepted, happly]
          rw [applyAll_cons_of_ok happly, applyOrKeep_of_ok happly]
          exact ih next
      | error e =>
          simp only [accepted, happly]
          rw [applyOrKeep_of_error happly]
          exact ih q

theorem clauses_start (opening : Option Opening) :
    (start opening).clauses = opening.toList.map Opening.clause := by
  cases opening <;> rfl

theorem lastKind_start (opening : Option Opening) :
    (start opening).lastKind = opening.map Opening.kind := by
  cases opening <;> simp [lastKind, clauses_start]

theorem linked_applySteps (opening : Option Opening) (steps : List Step) :
    ((start opening).applySteps steps).clauses.IsChain fun c d => c.kind.Links d.kind := by
  have haccepted := applyAll_accepted (start opening) steps
  have hlinked := (exists_applyAll_eq_ok_iff.mp ⟨_, haccepted⟩).linked
  have hstart : (start opening).lastKind.toList = (start opening).clauses.map Clause.kind := by
    cases opening <;> simp [lastKind, clauses_start]
  rw [runKinds, hstart, ← kinds_of_applyAll haccepted] at hlinked
  exact List.isChain_map Clause.kind |>.mp hlinked

/-- Building succeeds exactly for the legal runs of steps, with one clause for the opening and each
step; otherwise it ends with the error of the first step that is not in order. Building that goes on
after each rejected step gives the query of the accepted steps alone, which is properly linked. -/
theorem chaining_accepts_legal_runs (opening : Option Opening) (steps : List Step) :
    let first := opening.map Opening.kind
    let q := start opening
    ((∃ next, q.applyAll steps = .ok next) ↔ LegalRun first steps) ∧
      (∀ next, q.applyAll steps = .ok next →
        (∃ cs, next.clauses = opening.toList.map Opening.clause ++ cs ∧
          List.Forall₂ (fun step c => step.clause? = some c) steps cs) ∧
        next.clauses.map Clause.kind = runKinds first steps) ∧
      (∀ e, q.applyAll steps = .error e ↔
        ∃ before step after, steps = before ++ step :: after ∧ LegalRun first before ∧
          step.Offends (runKinds first before).getLast? e) ∧
      q.applyAll (q.accepted steps) = .ok (q.applySteps steps) ∧
      (q.applySteps steps).clauses.IsChain fun c d => c.kind.Links d.kind := by
  intro first q
  have hfirst : q.lastKind = first := lastKind_start opening
  have hclauses : q.clauses = opening.toList.map Opening.clause := clauses_start opening
  have hkinds : q.clauses.map Clause.kind = first.toList := by
    rw [hclauses]
    cases opening <;> simp [first]
  rw [← hfirst, ← hclauses]
  refine ⟨exists_applyAll_eq_ok_iff, ?_, fun e => applyAll_eq_error_iff,
    applyAll_accepted q steps, linked_applySteps opening steps⟩
  intro next hnext
  constructor
  · exact clauses_of_applyAll hnext
  · rw [kinds_of_applyAll hnext, hkinds, hfirst, runKinds]

theorem path_with_condition_built :
    let steps : List Step :=
      [.node (NodePattern.empty.bind "n"), .edgeTo .empty, .node .empty,
        .condition .whereItem "n.name" "starts\n with" (.string "A")]
    ∃ next, (start (some (.matchPattern false))).applyAll steps = .ok next ∧
      next.clauses.map Clause.kind = [.matchPattern, .node, .edge, .node, .whereItem] := by
  intro steps
  have hlegal : LegalRun (some .matchPattern) steps := by
    constructor
    · intro step hstep
      simp only [steps, List.mem_cons, List.not_mem_nil, or_false] at hstep
      rcases hstep with rfl | rfl | rfl | rfl
      · trivial
      · trivial
      · trivial
      · exact ⟨.startsWith, by decide +kernel⟩
    · simp [runKinds, steps, Step.kind, ClauseKind.Links, Connective.kind]
  obtain ⟨haccepts, hbuilt, -⟩ := chaining_accepts_legal_runs (some (.matchPattern false)) steps
  obtain ⟨next, hnext⟩ := haccepts.mpr hlegal
  exact ⟨next, hnext, (hbuilt next hnext).2⟩

end Query

end Cypher
