import Cypher.Query.Clause
import Cypher.Text.Basic

/-!
# Queries

A query under construction: its clauses in call order, and whether running it fetches rows. Every
step adds one clause or fails and adds none. A node may not follow a node and an edge may not follow
an edge; a condition must use a known operator. The text of the query is the text of its clauses
with runs of blanks collapsed.
-/

namespace Cypher

attribute [local instance (high)] List.instDecidableIsInfixOfDecidableEq

inductive BuildError where
  /-- A node after a node, or an edge after an edge. -/
  | invalidChain (kind : ClauseKind)
  /-- A condition with an operator that is not known, as it was given. -/
  | unknownOperator (text : String)
deriving DecidableEq, Repr

def BuildError.message : BuildError → String
  | .invalidChain kind =>
    "invalid match query when linking: " ++ kind.name ++ " cannot follow " ++ kind.name
  | .unknownOperator text => "unknown comparison operator `" ++ text ++ "`"

structure Query where
  /-- The clauses in the order in which they were added. -/
  clauses : List Clause
  /-- Whether running the query fetches rows. -/
  fetches : Bool
deriving DecidableEq, Repr

inductive Opening where
  | create
  | matchPattern (optional : Bool)
  | merge
  | call (procedure : String) (arguments : Option String)
  | unwind (list binding : String)
  | withItems (items : List Projection)
deriving DecidableEq, Repr

def Opening.clause : Opening → Clause
  | create => .create
  | matchPattern optional => .matchPattern optional
  | merge => .merge
  | call procedure arguments => .call procedure arguments
  | unwind list binding => .unwind list binding
  | withItems items => .withItems items

inductive Step where
  | opening (opening : Opening)
  | node (pattern : NodePattern)
  /-- An edge that leads to the next node. -/
  | edgeTo (pattern : EdgePattern)
  /-- An edge that comes from the next node. -/
  | edgeFrom (pattern : EdgePattern)
  | condition (connective : Connective) (item operator : String) (value : Value)
  | union (duplicates : Bool)
  | delete (expressions : List String) (detach : Bool)
  | remove (items : List String)
  | yieldItems (items : List Projection)
  | returnItems (items : List Projection)
  | orderBy (expression : String)
  | limit (expression : String)
  | skip (expression : String)
  | custom (text : String)
  | loadCsv (path : String) (header : Bool) (row : String)

/-- Whether a text names the keyword that asks for rows, set off by spaces. -/
def mentionsReturn (text : String) : Bool := decide (" RETURN ".toList <:+: text.toList)

namespace Query

def empty : Query := ⟨[], false⟩

def push (q : Query) (c : Clause) : Query := { q with clauses := q.clauses ++ [c] }

def ofOpening (o : Opening) : Query := empty.push o.clause

/-- The query with the clause of a pattern of some kind, unless its last clause is of that kind. -/
def link (q : Query) (kind : ClauseKind) (c : Clause) : Except BuildError Query :=
  match q.clauses.getLast? with
  | some last => if last.kind = kind then .error (.invalidChain kind) else .ok (q.push c)
  | none => .ok (q.push c)

def addCondition (q : Query) (connective : Connective) (item operator : String) (value : Value) :
    Except BuildError Query :=
  match Operator.ofText? operator with
  | some op => .ok (q.push (.condition connective (op.condition item value.literal)))
  | none => .error (.unknownOperator operator)

/-- The query with custom text. The text asks for rows if it says so as it was given. -/
def addCustom (q : Query) (text : String) : Query :=
  { q.push (.custom text) with fetches := q.fetches || mentionsReturn text }

def apply (q : Query) : Step → Except BuildError Query
  | .opening o => .ok (q.push o.clause)
  | .node pattern => q.link .node pattern.clause
  | .edgeTo pattern => q.link .edge (pattern.clause .outgoing)
  | .edgeFrom pattern => q.link .edge (pattern.clause .incoming)
  | .condition connective item operator value => q.addCondition connective item operator value
  | .union duplicates => .ok (q.push (.union duplicates))
  | .delete expressions detach => .ok (q.push (.delete expressions detach))
  | .remove items => .ok (q.push (.remove items))
  | .yieldItems items => .ok (q.push (.yieldItems items))
  | .returnItems items => .ok { q.push (.returnItems items) with fetches := true }
  | .orderBy expression => .ok (q.push (.orderBy expression))
  | .limit expression => .ok (q.push (.limit expression))
  | .skip expression => .ok (q.push (.skip expression))
  | .custom text => .ok (q.addCustom text)
  | .loadCsv path header row => .ok (q.push (.loadCsv path header row))

/-- The query after some steps; the first rejected step ends the building. -/
def applyAll (q : Query) (steps : List Step) : Except BuildError Query := steps.foldlM apply q

/-- The query after a step, or the query itself if the step is rejected. -/
def applyOrKeep (q : Query) (step : Step) : Query :=
  match q.apply step with
  | .ok next => next
  | .error _ => q

def joined (q : Query) : List Char := q.clauses.flatMap fun c => c.render.toList

def text (q : Query) : String := String.ofList (Text.collapse q.joined)

@[simp] theorem toList_text (q : Query) : q.text.toList = Text.collapse q.joined := by
  simp [text]

def bindsVariable (q : Query) : Bool :=
  q.clauses.any fun c => (c.binding?.getD "") != ""

end Query

end Cypher
