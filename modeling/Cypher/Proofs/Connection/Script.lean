import Mathlib
import Cypher.Connection.Basic

/-!
# Calls on connections and scripts

What is called on a connection, apart from what the connection does with it. A connection can be made
to note its calls without any other change, so that a statement about the calls of a program is a
statement about a list.
-/

namespace Cypher

inductive Call where
  | execute (query : String)
  | fetch (query : String)
deriving DecidableEq, Repr

namespace Call

variable {σ : Type}

def query : Call → String
  | execute query => query
  | fetch query => query

def perform (c : Connection σ) (state : σ) : Call → Reply σ (List Record)
  | execute query =>
    let reply := c.execute state query
    ⟨reply.answer.map fun () => [], reply.events, reply.state⟩
  | fetch query => c.fetch state query

end Call

namespace Connection

variable {σ : Type}

/-- The connection that does the same and notes its calls, in order. -/
def noting (c : Connection σ) : Connection (σ × List Call) where
  execute state query :=
    let reply := c.execute state.1 query
    ⟨reply.answer, reply.events, (reply.state, state.2 ++ [.execute query])⟩
  fetch state query :=
    let reply := c.fetch state.1 query
    ⟨reply.answer, reply.events, (reply.state, state.2 ++ [.fetch query])⟩

theorem perform_noting (c : Connection σ) (call : Call) (state : σ) (calls : List Call) :
    call.perform c.noting (state, calls) =
      let reply := call.perform c state
      ⟨reply.answer, reply.events, (reply.state, calls ++ [call])⟩ := by
  cases call <;> rfl

end Connection

namespace Query

variable {σ : Type}

/-- The call that running the query makes, with its rows fetched or discarded. -/
def call (q : Query) (fetch : Bool) : Call := if fetch then .fetch q.text else .execute q.text

theorem run_eq (q : Query) (c : Connection σ) (fetch : Bool) (state : σ) :
    q.run c fetch state =
      let reply := (q.call fetch).perform c state
      ⟨reply.answer, .queryStarted q.text :: reply.events ++
        [outcomeEvent fetch q.text.utf8ByteSize reply.answer], reply.state⟩ := by
  cases fetch <;> rfl

theorem run_noting (q : Query) (c : Connection σ) (fetch : Bool) (state : σ) (calls : List Call) :
    q.run c.noting fetch (state, calls) =
      let reply := q.run c fetch state
      ⟨reply.answer, reply.events, (reply.state, calls ++ [q.call fetch])⟩ := by
  simp only [run_eq, Connection.perform_noting]

theorem execute_noting (q : Query) (c : Connection σ) (state : σ) (calls : List Call) :
    q.execute c.noting (state, calls) =
      let reply := q.execute c state
      ⟨reply.answer, reply.events, (reply.state, calls ++ [q.call q.fetches])⟩ :=
  run_noting q c q.fetches state calls

theorem single_noting (q : Query) (c : Connection σ) (column : String) (state : σ)
    (calls : List Call) :
    q.single c.noting column (state, calls) =
      let reply := q.single c column state
      ⟨reply.answer, reply.events, (reply.state, calls ++ [.fetch q.text])⟩ := by
  simp only [single, run_noting]
  rfl

@[simp] theorem query_call (q : Query) (fetch : Bool) : (q.call fetch).query = q.text := by
  cases fetch <;> rfl

end Query

end Cypher

/-! ## Runs of a scripted connection

What a scripted connection did and holds after any run of its four operations. Each operation holds
the connection from its start to its end, so what several clients do is one list of actions, in the
order in which they got hold of it, and a statement about every list covers every interleaving. The
state is a function of that list: the queries received, the failure that is still due, and the result
sets pushed and not yet handed over. -/

namespace Cypher.Script

/-- What a client does with a scripted connection. -/
inductive Action where
  | push (rows : List Record)
  | fail (message : String)
  | call (call : Call)

namespace Action

def query? : Action → Option String
  | call c => some c.query
  | _ => none

def rows? : Action → Option (List Record)
  | push rows => some rows
  | _ => none

end Action

def step (s : Script) : Action → Script
  | .push rows => s.pushResult rows
  | .fail message => s.failNext message
  | .call c => (c.perform connection s).state

def after (s : Script) (actions : List Action) : Script := actions.foldl step s

/-- The result set that an action hands over: the rows of a fetch that succeeds while sets wait. -/
def handed (s : Script) : Action → List (List Record)
  | .call (.fetch query) =>
    match (connection.fetch s query).answer with
    | .ok rows => if s.results.isEmpty then [] else [rows]
    | .error _ => []
  | _ => []

/-- The result sets that some actions hand over, in order. -/
def handedOver (s : Script) : List Action → List (List Record)
  | [] => []
  | action :: rest => s.handed action ++ (s.step action).handedOver rest

/-- Since the last call, or the start, a failure was armed, at last with this message. -/
def ArmedBy (message : String) (actions : List Action) : Prop :=
  ∃ before since, actions = before ++ .fail message :: since ∧
    ∀ action ∈ since, ∃ rows, action = .push rows

theorem answer_perform (s : Script) (c : Call) :
    (c.perform connection s).answer =
      match s.failure with
      | some message => .error (.query message)
      | none => .ok (match c with
        | .execute _ => []
        | .fetch _ => s.results.headD []) := by
  obtain ⟨executed, results, failure⟩ := s
  cases c <;> cases failure <;> cases results <;> rfl

theorem state_perform (s : Script) (c : Call) :
    (c.perform connection s).state =
      { executed := s.executed ++ [c.query]
        results := match c, s.failure with
          | .fetch _, none => s.results.tail
          | _, _ => s.results
        failure := none } := by
  obtain ⟨executed, results, failure⟩ := s
  cases c <;> cases failure <;> cases results <;> rfl

theorem handed_fetch (s : Script) (query : String) :
    s.handed (.call (.fetch query)) =
      match s.failure with
      | some _ => []
      | none => s.results.take 1 := by
  obtain ⟨executed, results, failure⟩ := s
  cases failure <;> cases results <;> rfl

theorem rows_eq_nil_of_fetch {s : Script} {query : String} {rows : List Record}
    (hresults : s.results = []) (h : (connection.fetch s query).answer = .ok rows) : rows = [] := by
  have hanswer := (answer_perform s (.fetch query)).symm.trans h
  rw [hresults] at hanswer
  cases hfailure : s.failure with
  | some message => simp [hfailure] at hanswer
  | none => simpa [hfailure] using hanswer.symm

@[simp] theorem after_nil (s : Script) : s.after [] = s := rfl

@[simp] theorem after_cons (s : Script) (action : Action) (rest : List Action) :
    s.after (action :: rest) = (s.step action).after rest := rfl

theorem after_concat (s : Script) (actions : List Action) (action : Action) :
    s.after (actions ++ [action]) = (s.after actions).step action := by
  simp [after]

theorem executed_step (s : Script) (action : Action) :
    (s.step action).executed = s.executed ++ action.query?.toList := by
  cases action with
  | push rows => simp [step, pushResult, Action.query?]
  | fail message => simp [step, failNext, Action.query?]
  | call c => simp [step, state_perform, Action.query?]

theorem executed_after (s : Script) (actions : List Action) :
    (s.after actions).executed = s.executed ++ actions.filterMap Action.query? := by
  induction actions generalizing s with
  | nil => simp
  | cons action rest ih =>
      rw [after_cons, ih, executed_step, List.append_assoc]
      cases h : action.query? <;> simp [h]

/-- An action hands over the first sets of the queue with its own set behind it, and keeps the
others. -/
theorem results_step (s : Script) (action : Action) :
    s.handed action ++ (s.step action).results = s.results ++ action.rows?.toList := by
  cases action with
  | push rows => simp [step, handed, pushResult, Action.rows?]
  | fail message => simp [step, handed, failNext, Action.rows?]
  | call c =>
      cases c with
      | execute query => simp [step, handed, state_perform, Action.rows?]
      | fetch query =>
          rw [handed_fetch, step, state_perform]
          cases s.failure with
          | some message => simp [Action.rows?]
          | none => simp [Action.rows?, ← List.drop_one]

theorem handedOver_append_results (s : Script) (actions : List Action) :
    s.handedOver actions ++ (s.after actions).results =
      s.results ++ actions.filterMap Action.rows? := by
  induction actions generalizing s with
  | nil => simp [handedOver]
  | cons action rest ih =>
      rw [handedOver, after_cons, List.append_assoc, ih, ← List.append_assoc, results_step,
        List.append_assoc]
      cases h : action.rows? <;> simp [h]

theorem not_armedBy_nil (message : String) : ¬ArmedBy message [] := by
  intro harmed
  obtain ⟨before, since, h, -⟩ := harmed
  exact absurd h (by simp)

theorem armedBy_concat_iff {message : String} {actions : List Action} {action : Action} :
    ArmedBy message (actions ++ [action]) ↔
      action = .fail message ∨ (∃ rows, action = .push rows) ∧ ArmedBy message actions := by
  constructor
  · intro harmed
    obtain ⟨before, since, hsplit, hsince⟩ := harmed
    rcases List.eq_nil_or_concat since with rfl | ⟨since, last, rfl⟩
    · exact .inl (List.singleton_inj.mp (List.append_inj' hsplit rfl).2)
    · rw [List.concat_eq_append, ← List.cons_append, ← List.append_assoc] at hsplit
      obtain ⟨rfl, hlast⟩ := List.append_inj' hsplit rfl
      obtain rfl := List.singleton_inj.mp hlast
      exact .inr ⟨hsince action (by simp), before, since, rfl,
        fun other hother => hsince other (by simp [hother])⟩
  · intro hlast
    rcases hlast with rfl | ⟨⟨rows, rfl⟩, before, since, rfl, hsince⟩
    · exact ⟨actions, [], rfl, by simp⟩
    · refine ⟨before, since ++ [.push rows], by simp, ?_⟩
      intro other hother
      rcases List.mem_append.mp hother with hother | hother
      · exact hsince other hother
      · exact ⟨rows, List.mem_singleton.mp hother⟩

theorem failure_after_iff {message : String} {actions : List Action} :
    (empty.after actions).failure = some message ↔ ArmedBy message actions := by
  -- from the end of the run, since the last action decides whether a failure is due
  induction actions using List.reverseRecOn with
  | nil => exact iff_of_false (by simp [empty]) (not_armedBy_nil message)
  | append_singleton actions action ih =>
      rw [after_concat, armedBy_concat_iff]
      cases action with
      | push rows => simpa [step, pushResult] using ih
      | fail other => simp [step, failNext]
      | call c => simp [step, state_perform]

theorem answer_perform_eq_error_iff {s : Script} {c : Call} {error : ConnectionError} :
    (c.perform connection s).answer = .error error ↔
      ∃ message, error = .query message ∧ s.failure = some message := by
  rw [answer_perform]
  cases s.failure with
  | none => simp
  | some message => simp [eq_comm]

/-- After any run, the queries received are those of all calls; a call fails exactly if a failure was
armed since the last call, with the message armed last; neither a call that fails nor one that
discards rows takes a result set; and the result sets handed over, followed by those that wait, are
those that were pushed. -/
theorem script_follows_history (actions : List Action) :
    let s := empty.after actions
    s.executed = actions.filterMap Action.query? ∧
      (∀ (c : Call) (error : ConnectionError), (c.perform connection s).answer = .error error ↔
        ∃ message, error = .query message ∧ ArmedBy message actions) ∧
      (∀ (c : Call) (error : ConnectionError), (c.perform connection s).answer = .error error →
        (c.perform connection s).state.results = s.results) ∧
      (∀ query, (connection.execute s query).state.results = s.results) ∧
      (∀ query rows, s.results = [] → (connection.fetch s query).answer = .ok rows → rows = []) ∧
      empty.handedOver actions ++ s.results = actions.filterMap Action.rows? := by
  intro s
  refine ⟨executed_after empty actions, ?_, ?_, fun query => rfl,
    fun query rows => rows_eq_nil_of_fetch, handedOver_append_results empty actions⟩
  · intro c error
    simp only [answer_perform_eq_error_iff, s, failure_after_iff]
  · intro c error herror
    obtain ⟨message, -, hfailure⟩ := answer_perform_eq_error_iff.mp herror
    rw [state_perform, hfailure]
    cases c <;> rfl

theorem failed_fetch_keeps_results :
    let s := empty.after [.push [∅], .fail "first", .push [], .fail "second"]
    (connection.fetch s "RETURN 1").answer = .error (.query "second") ∧
      (connection.fetch s "RETURN 1").state.results = [[∅], []] := by
  intro s
  obtain ⟨-, hfails, hkeeps, -⟩ :=
    script_follows_history [.push [∅], .fail "first", .push [], .fail "second"]
  have hfailed := (hfails (.fetch "RETURN 1") (.query "second")).mpr
    ⟨"second", rfl, [.push [∅], .fail "first", .push []], [], rfl, by simp⟩
  exact ⟨hfailed, hkeeps (.fetch "RETURN 1") (.query "second") hfailed⟩

end Cypher.Script
