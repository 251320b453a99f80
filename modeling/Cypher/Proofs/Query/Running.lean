import Cypher.Proofs.Connection.Script

/-!
# Running queries on a script

Running a query makes one call on the connection and hands back what the call answers. The log tells
of it in three entries: the query before the call, the number of calls so far, and how the call
ended. The last one judges the call alone, not what is read from the rows afterwards.
-/

namespace Cypher

def Event.entry (e : Event) : Level × Event := (e.level, e)

namespace Script

theorem events_perform (s : Script) (c : Call) :
    (c.perform connection s).events =
      [.scriptedCall (s.executed.length + 1) c.query.utf8ByteSize] := by
  obtain ⟨executed, results, failure⟩ := s
  cases c <;> cases failure <;> cases results <;>
    simp [Call.perform, connection, fetch, record, Call.query]

theorem executed_perform (s : Script) (c : Call) :
    (c.perform connection s).state.executed = s.executed ++ [c.query] := by
  rw [state_perform]

theorem results_of_fetched {s : Script} {query : String} {rows : List Record}
    (h : (connection.fetch s query).answer = .ok rows) :
    (connection.fetch s query).state.results = s.results.tail := by
  have hanswer := (answer_perform s (.fetch query)).symm.trans h
  have hstate : (connection.fetch s query).state = _ := state_perform s (.fetch query)
  cases hfailure : s.failure with
  | none => rw [hstate, hfailure]
  | some message => simp [hfailure] at hanswer

end Script

namespace Query

open Script (connection)

/-- The log of one run of a query, for the number of calls after it and what its call answered. -/
inductive Reports (q : Query) (fetch : Bool) (calls : Nat) :
    Except ConnectionError (List Record) → List (Level × Event) → Prop where
  | ok (rows : List Record) : Reports q fetch calls (.ok rows)
      [(.debug, .queryStarted q.text), (.debug, .scriptedCall calls q.text.utf8ByteSize),
        (.info, .querySucceeded fetch rows.length q.text.utf8ByteSize)]
  | error (error : ConnectionError) : Reports q fetch calls (.error error)
      [(.debug, .queryStarted q.text), (.debug, .scriptedCall calls q.text.utf8ByteSize),
        (.error, .queryFailed fetch q.text.utf8ByteSize error)]

theorem events_run (q : Query) (fetch : Bool) (s : Script) :
    (q.run connection fetch s).events =
      [.queryStarted q.text, .scriptedCall (s.executed.length + 1) q.text.utf8ByteSize,
        outcomeEvent fetch q.text.utf8ByteSize (q.run connection fetch s).answer] := by
  simp only [run_eq, Script.events_perform, query_call, List.cons_append, List.nil_append]

theorem executed_run (q : Query) (fetch : Bool) (s : Script) :
    (q.run connection fetch s).state.executed = s.executed ++ [q.text] := by
  rw [run_eq, Script.executed_perform, query_call]

theorem reports_run (q : Query) (fetch : Bool) (s : Script) :
    Reports q fetch (q.run connection fetch s).state.executed.length
      (q.run connection fetch s).answer ((q.run connection fetch s).events.map Event.entry) := by
  rw [events_run, executed_run, List.length_append, List.length_singleton]
  cases (q.run connection fetch s).answer with
  | ok rows => exact .ok rows
  | error error => exact .error error

theorem answer_single_of_run {q : Query} {column : String} {s : Script}
    {answer : Except ConnectionError (List Record)}
    (h : (connection.fetch s q.text).answer = answer) :
    (q.single connection column s).answer = answer.bind (firstValue column) := by
  rw [← h]
  rfl

/-- Running a query, for its rows or for one column, makes one call on any connection, and a script
records it once. What is handed back and left is what the call answers and leaves; for one column
the rows are taken from the queue also if there is nothing to read in them. The log has the query,
the call and its end, which is a success exactly if the call succeeded. -/
theorem run_is_one_reported_call (q : Query) (column : String) (s : Script) :
    let executed := q.execute connection s
    let single := q.single connection column s
    let fetched := connection.fetch s q.text
    let discarded := connection.execute s q.text
    (∀ {σ : Type} (c : Connection σ) (state : σ),
      (q.execute c.noting (state, [])).state.2 =
          [if q.fetches then .fetch q.text else .execute q.text] ∧
        (q.single c.noting column (state, [])).state.2 = [.fetch q.text]) ∧
      executed.state.executed = s.executed ++ [q.text] ∧
      single.state.executed = s.executed ++ [q.text] ∧
      (q.fetches = true → executed.answer = fetched.answer ∧ executed.state = fetched.state) ∧
      (q.fetches = false → executed.answer = discarded.answer.map (fun () => []) ∧
        executed.state = discarded.state) ∧
      single.state = fetched.state ∧
      (∀ error, fetched.answer = .error error → single.answer = .error error) ∧
      (∀ rows, fetched.answer = .ok rows → single.state.results = s.results.tail ∧
        match rows with
        | [] => single.answer = .ok none
        | row :: _ => (∀ value, row.get? column = some value → single.answer = .ok (some value)) ∧
          (row.get? column = none → single.answer = .error (.missingColumn column))) ∧
      Reports q q.fetches executed.state.executed.length executed.answer
        (executed.events.map Event.entry) ∧
      Reports q true single.state.executed.length fetched.answer
        (single.events.map Event.entry) := by
  intro executed single fetched discarded
  refine ⟨?_, executed_run q q.fetches s, executed_run q true s, ?_, ?_, rfl, ?_, ?_,
    reports_run q q.fetches s, reports_run q true s⟩
  · intro σ c state
    rw [execute_noting, single_noting]
    exact ⟨rfl, rfl⟩
  · intro hfetches
    simp only [executed, execute, hfetches]
    exact ⟨rfl, rfl⟩
  · intro hfetches
    simp only [executed, execute, hfetches]
    exact ⟨rfl, rfl⟩
  · intro error herror
    exact answer_single_of_run herror
  · intro rows hrows
    have hanswer : single.answer = firstValue column rows := answer_single_of_run hrows
    refine ⟨Script.results_of_fetched hrows, ?_⟩
    rw [hanswer]
    cases rows with
    | nil => rfl
    | cons row rest =>
        constructor
        · intro value hvalue
          simp [firstValue, hvalue]
        · intro hmissing
          simp [firstValue, hmissing]

/-- A row without the requested column is a failure for the caller only: its rows are taken, and the
log tells of a success. The query itself asks for no rows. -/
theorem missing_column_reported_as_success :
    let q := empty.addCustom "CALL db.labels() YIELD label"
    let s := Script.empty.after [.push [∅], .push []]
    let single := q.single connection "name" s
    q.fetches = false ∧ (q.execute connection s).answer = .ok [] ∧
      single.answer = .error (.missingColumn "name") ∧ single.state.results = [[]] ∧
      Reports q true 1 (.ok [∅]) (single.events.map Event.entry) := by
  intro q s single
  obtain ⟨-, -, -, -, hdiscards, -, -, hfetched, -, hlog⟩ := run_is_one_reported_call q "name" s
  have hfetches : q.fetches = false := by decide +kernel
  obtain ⟨hresults, -, hmissing⟩ := hfetched [∅] rfl
  exact ⟨hfetches, (hdiscards hfetches).1, hmissing rfl, hresults, hlog⟩

end Query

/-! ## What the log tells of queries

Above the debug level the log tells nothing of a query but its length and whether its rows are
fetched. Two sessions that differ in their queries alone run in step: their scripts hold the same
but for the queries received, so they hand back the same and leave the same entries in the log. -/

open Script (connection)

/-- Whether entries of a level are more severe than those for debugging. -/
def Level.aboveDebug : Level → Bool
  | .trace | .debug => false
  | .info | .warn | .error => true

/-- The log above the debug level, with the text to put for running times. -/
def publicLog (elapsed : String) (events : List Event) : List (Level × String) :=
  (events.filter fun e => e.level.aboveDebug).map fun e => (e.level, e.message elapsed)

theorem publicLog_append (elapsed : String) (earlier later : List Event) :
    publicLog elapsed (earlier ++ later) =
      publicLog elapsed earlier ++ publicLog elapsed later := by
  rw [publicLog, List.filter_append, List.map_append]
  rfl

/-- What a program does with its script. -/
inductive Use where
  | push (rows : List Record)
  | fail (message : String)
  | execute (q : Query)
  | single (q : Query) (column : String)

/-- What a use hands back to the program. -/
inductive Handback where
  | nothing
  | rows (answer : Except ConnectionError (List Record))
  | value (answer : Except ConnectionError (Option Value))

structure Session where
  handed : List Handback
  events : List Event

namespace Use

def perform (s : Script) : Use → Handback × List Event × Script
  | push rows => (.nothing, [], s.pushResult rows)
  | fail message => (.nothing, [], s.failNext message)
  | execute q =>
    let reply := q.execute connection s
    (.rows reply.answer, reply.events, reply.state)
  | single q column =>
    let reply := q.single connection column s
    (.value reply.answer, reply.events, reply.state)

def runsQuery : Use → Bool
  | push _ | fail _ => false
  | execute _ | single _ _ => true

/-- Two uses that differ in their queries alone. The queries are of the same length, and where they
decide whether rows are fetched they agree on it. -/
inductive Alike : Use → Use → Prop where
  | push (rows : List Record) : Alike (push rows) (push rows)
  | fail (message : String) : Alike (fail message) (fail message)
  | execute {q r : Query} (hfetches : q.fetches = r.fetches)
      (hlength : q.text.utf8ByteSize = r.text.utf8ByteSize) : Alike (execute q) (execute r)
  | single {q r : Query} (column : String)
      (hlength : q.text.utf8ByteSize = r.text.utf8ByteSize) :
      Alike (single q column) (single r column)

end Use

def Script.session (s : Script) : List Use → Session
  | [] => ⟨[], []⟩
  | use :: rest =>
    let (handed, events, next) := use.perform s
    let later := next.session rest
    ⟨handed :: later.handed, events ++ later.events⟩

/-- Two scripts that hold the same but for the queries received. -/
structure Script.InStep (s t : Script) : Prop where
  calls : s.executed.length = t.executed.length
  results : s.results = t.results
  failure : s.failure = t.failure

namespace Query

theorem publicLog_run (elapsed : String) (q : Query) (fetch : Bool) (s : Script) :
    publicLog elapsed (q.run connection fetch s).events =
      publicLog elapsed
        [outcomeEvent fetch q.text.utf8ByteSize (q.run connection fetch s).answer] := by
  rw [events_run]
  rfl

theorem length_publicLog_run (elapsed : String) (q : Query) (fetch : Bool) (s : Script) :
    (publicLog elapsed (q.run connection fetch s).events).length = 1 := by
  rw [publicLog_run]
  cases (q.run connection fetch s).answer <;> rfl

end Query

namespace Script.InStep

variable {s t : Script}

theorem answer_run (h : s.InStep t) (q r : Query) (fetch : Bool) :
    (q.run connection fetch s).answer = (r.run connection fetch t).answer := by
  simp only [Query.run_eq, answer_perform, h.failure, h.results]
  cases fetch <;> rfl

theorem state_run (h : s.InStep t) (q r : Query) (fetch : Bool) :
    (q.run connection fetch s).state.InStep (r.run connection fetch t).state := by
  simp only [Query.run_eq, state_perform, h.failure, h.results]
  refine ⟨?_, ?_, rfl⟩
  · simp only [List.length_append, List.length_singleton, h.calls]
  · cases fetch <;> cases t.failure <;> rfl

theorem publicLog_run (h : s.InStep t) {q r : Query}
    (hlength : q.text.utf8ByteSize = r.text.utf8ByteSize) (fetch : Bool) (elapsed : String) :
    publicLog elapsed (q.run connection fetch s).events =
      publicLog elapsed (r.run connection fetch t).events := by
  rw [Query.publicLog_run, Query.publicLog_run, hlength, h.answer_run q r fetch]

/-- One step of both sessions: the same is handed back and logged, and the scripts stay in step. -/
theorem perform (h : s.InStep t) {a b : Use} (hab : a.Alike b) :
    (a.perform s).1 = (b.perform t).1 ∧
      (∀ elapsed, publicLog elapsed (a.perform s).2.1 = publicLog elapsed (b.perform t).2.1) ∧
      (a.perform s).2.2.InStep (b.perform t).2.2 := by
  cases hab with
  | push rows =>
      refine ⟨rfl, fun elapsed => rfl, h.calls, ?_, h.failure⟩
      exact congrArg (· ++ [rows]) h.results
  | fail message => exact ⟨rfl, fun elapsed => rfl, h.calls, h.results, rfl⟩
  | @execute q r hfetches hlength =>
      simp only [Use.perform, Query.execute, hfetches]
      refine ⟨?_, h.publicLog_run hlength r.fetches, h.state_run q r r.fetches⟩
      rw [h.answer_run q r r.fetches]
  | @single q r column hlength =>
      refine ⟨?_, h.publicLog_run hlength true, h.state_run q r true⟩
      simp only [Use.perform, Query.single, h.answer_run q r true]

theorem session (h : s.InStep t) {first second : List Use}
    (hsame : List.Forall₂ Use.Alike first second) :
    (s.session first).handed = (t.session second).handed ∧
      ∀ elapsed, publicLog elapsed (s.session first).events =
        publicLog elapsed (t.session second).events := by
  -- along both lists at once; what carries over is that the scripts are in step
  induction hsame generalizing s t with
  | nil => exact ⟨rfl, fun elapsed => rfl⟩
  | cons huse hrest ih =>
      obtain ⟨hhanded, hlog, hnext⟩ := h.perform huse
      obtain ⟨ihhanded, ihlog⟩ := ih hnext
      refine ⟨?_, ?_⟩
      · simp only [Script.session, hhanded, ihhanded]
      · intro elapsed
        simp only [Script.session, publicLog_append, hlog, ihlog]

end Script.InStep

theorem length_publicLog_perform (elapsed : String) (s : Script) (use : Use) :
    (publicLog elapsed (use.perform s).2.1).length = if use.runsQuery then 1 else 0 := by
  cases use with
  | push rows => rfl
  | fail message => rfl
  | execute q => exact q.length_publicLog_run elapsed q.fetches s
  | single q column => exact q.length_publicLog_run elapsed true s

theorem length_publicLog_session (elapsed : String) (s : Script) (uses : List Use) :
    (publicLog elapsed (s.session uses).events).length = uses.countP Use.runsQuery := by
  induction uses generalizing s with
  | nil => rfl
  | cons use rest ih =>
      rw [List.countP_cons, Script.session, publicLog_append, List.length_append, ih,
        length_publicLog_perform, Nat.add_comm]

/-- Two sessions from the start that push and arm the same and run queries of the same lengths, for
the same columns and with rows fetched alike, hand back the same, and the log above the debug level
is the same in both, with one entry for every query that was run. -/
theorem public_log_tells_lengths_only {first second : List Use}
    (h : List.Forall₂ Use.Alike first second) :
    (Script.empty.session first).handed = (Script.empty.session second).handed ∧
      ∀ elapsed, publicLog elapsed (Script.empty.session first).events =
          publicLog elapsed (Script.empty.session second).events ∧
        (publicLog elapsed (Script.empty.session first).events).length =
          first.countP Use.runsQuery := by
  obtain ⟨hhanded, hlog⟩ := Script.InStep.session ⟨rfl, rfl, rfl⟩ h
  exact ⟨hhanded, fun elapsed => ⟨hlog elapsed, length_publicLog_session elapsed _ first⟩⟩

/-- Two queries of nine bytes, one of which has a letter of two bytes, are not told apart by a run
that fails and a column that is missing from the rows of the next run. -/
theorem queries_of_nine_bytes_look_alike :
    let uses (text : String) : List Use := [.push [∅], .fail "boom",
      .execute (Query.empty.addCustom text), .single (Query.empty.addCustom text) "n"]
    let first := Script.empty.session (uses "CALL é()")
    let second := Script.empty.session (uses "CALL ab()")
    first.handed = second.handed ∧ publicLog "*" first.events = publicLog "*" second.events ∧
      (publicLog "*" first.events).length = 2 := by
  intro uses first second
  have hlength : (Query.empty.addCustom "CALL é()").text.utf8ByteSize =
      (Query.empty.addCustom "CALL ab()").text.utf8ByteSize := by decide +kernel
  have hfetches : (Query.empty.addCustom "CALL é()").fetches =
      (Query.empty.addCustom "CALL ab()").fetches := by decide +kernel
  have halike : List.Forall₂ Use.Alike (uses "CALL é()") (uses "CALL ab()") :=
    .cons (.push [∅]) (.cons (.fail "boom")
      (.cons (.execute hfetches hlength) (.cons (.single "n" hlength) .nil)))
  obtain ⟨hhanded, hlog⟩ := public_log_tells_lengths_only halike
  exact ⟨hhanded, (hlog "*").1, (hlog "*").2⟩

end Cypher
