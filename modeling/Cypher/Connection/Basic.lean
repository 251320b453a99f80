import Cypher.Logging.Setup
import Cypher.Query.Basic
import Cypher.Text.Basic
import Cypher.Value.Basic

/-!
# Connections

The seam between queries and a database. A connection is a state together with what its two calls
do: each call answers, may emit log events, and leaves a new state. Events are kept apart from their
wording; the running time of a query, which no rule here depends on, is a text that the reader of the
log supplies.
-/

namespace Cypher

inductive ConnectionError where
  /-- The server rejected the query. -/
  | query (message : String)
  /-- The connection itself failed. -/
  | transport (message : String)
  /-- The first row lacks the requested column. -/
  | missingColumn (column : String)
deriving DecidableEq, Repr

def ConnectionError.message : ConnectionError → String
  | .query message => "query failed: " ++ message
  | .transport message => "connection failed: " ++ message
  | .missingColumn column => "result row has no column `" ++ column ++ "`"

/-- What is logged while queries run. Lengths of queries are counted in UTF-8 bytes. -/
inductive Event where
  | queryStarted (query : String)
  | scriptedCall (calls queryLength : Nat)
  | querySucceeded (fetch : Bool) (rows queryLength : Nat)
  | queryFailed (fetch : Bool) (queryLength : Nat) (error : ConnectionError)
deriving DecidableEq, Repr

namespace Event

/-- The level of an event. The text of a query occurs at the level `debug` only. -/
def level : Event → Level
  | queryStarted _ => .debug
  | scriptedCall .. => .debug
  | querySucceeded .. => .info
  | queryFailed .. => .error

def message (elapsed : String) : Event → String
  | queryStarted query => "event=query_execute module=query status=start query=" ++ query
  | scriptedCall calls queryLength =>
    "event=scripted_call module=connection calls=" ++ calls.repr ++ " query_len=" ++
      queryLength.repr
  | querySucceeded fetch rows queryLength =>
    "event=query_execute module=query status=ok fetch=" ++ Text.flagText fetch ++ " rows=" ++
      rows.repr ++ " query_len=" ++ queryLength.repr ++ " duration_ms=" ++ elapsed
  | queryFailed fetch queryLength error =>
    "event=query_execute module=query status=error fetch=" ++ Text.flagText fetch ++ " query_len=" ++
      queryLength.repr ++ " duration_ms=" ++ elapsed ++ " error=" ++ error.message

end Event

/-- What a call leaves: its answer, the events it emitted and the state of the connection. -/
structure Reply (σ α : Type) where
  answer : Except ConnectionError α
  events : List Event
  state : σ

structure Connection (σ : Type) where
  /-- Runs a query and discards its rows. -/
  execute : σ → String → Reply σ Unit
  /-- Runs a query and returns all its rows, in order. -/
  fetch : σ → String → Reply σ (List Record)

/-- The connection that fails every call for the same reason and leaves its state alone. -/
def Connection.unreachable (σ : Type) (message : String) : Connection σ where
  execute state _ := ⟨.error (.transport message), [], state⟩
  fetch state _ := ⟨.error (.transport message), [], state⟩

/-! ## Scripted connections

A connection that answers from a script. It records every query, also one whose call fails; result
sets that were queued are handed out in order, one for each successful fetch; and an armed failure
strikes the next call of either kind, once. -/

structure Script where
  /-- The queries received so far, in order. -/
  executed : List String
  /-- The result sets that wait to be fetched, in order. -/
  results : List (List Record)
  /-- The failure that the next call meets. -/
  failure : Option String

namespace Script

def empty : Script := ⟨[], [], none⟩

def pushResult (rows : List Record) (s : Script) : Script :=
  { s with results := s.results ++ [rows] }

/-- Arms a failure, in place of one that is armed already. -/
def failNext (message : String) (s : Script) : Script := { s with failure := some message }

/-- Records a query and meets the armed failure, if there is one. -/
def record (s : Script) (query : String) : Reply Script Unit :=
  let executed := s.executed ++ [query]
  { answer := match s.failure with
      | some message => .error (.query message)
      | none => .ok ()
    events := [.scriptedCall executed.length query.utf8ByteSize]
    state := { s with executed := executed, failure := none } }

/-- Answers a fetch: the first result set that waits, or no rows. A failed call takes none. -/
def fetch (s : Script) (query : String) : Reply Script (List Record) :=
  let reply := s.record query
  match reply.answer with
  | .error error => ⟨.error error, reply.events, reply.state⟩
  | .ok () =>
    match reply.state.results with
    | [] => ⟨.ok [], reply.events, reply.state⟩
    | rows :: rest => ⟨.ok rows, reply.events, { reply.state with results := rest }⟩

def connection : Connection Script := ⟨record, fetch⟩

end Script

end Cypher

/-! ## Running queries

Running a query is one call on a connection, framed by two events: one that carries the query when
the call starts, and one that tells its outcome when it ends. -/

namespace Cypher.Query

def outcomeEvent (fetch : Bool) (queryLength : Nat) : Except ConnectionError (List Record) → Event
  | .ok rows => .querySucceeded fetch rows.length queryLength
  | .error error => .queryFailed fetch queryLength error

/-- Makes one call, with the rows fetched or discarded, and reports it. -/
def run {σ : Type} (q : Query) (c : Connection σ) (fetch : Bool) (state : σ) :
    Reply σ (List Record) :=
  let query := q.text
  let call : Reply σ (List Record) :=
    if fetch then c.fetch state query
    else
      let reply := c.execute state query
      ⟨reply.answer.map fun () => [], reply.events, reply.state⟩
  { call with
    events := .queryStarted query :: call.events ++
      [outcomeEvent fetch query.utf8ByteSize call.answer] }

/-- Runs the query; its rows are fetched if it asks for rows, and there are none otherwise. -/
def execute {σ : Type} (q : Query) (c : Connection σ) (state : σ) : Reply σ (List Record) :=
  q.run c q.fetches state

def firstValue (column : String) : List Record → Except ConnectionError (Option Value)
  | [] => .ok none
  | row :: _ =>
    match row.get? column with
    | some value => .ok (some value)
    | none => .error (.missingColumn column)

/-- Runs the query, fetching its rows whatever it asks for, and returns one column of the first
row. -/
def single {σ : Type} (q : Query) (c : Connection σ) (column : String) (state : σ) :
    Reply σ (Option Value) :=
  let reply := q.run c true state
  ⟨reply.answer.bind (firstValue column), reply.events, reply.state⟩

end Cypher.Query
