import Cypher.Text.Basic
import Cypher.Value.Basic

/-!
# Clauses

What a query is put together from: its clauses, the operators in their conditions, and the patterns
of nodes and edges.
-/

namespace Cypher

/-! ## Comparison operators

The fifteen operators that a condition may use. An operator may be spelled in any case of its ASCII
letters, with any blanks between its words and at its ends. -/

inductive Operator where
  | equal | lessOrGreater | notEqual | less | greater | lessEqual | greaterEqual | regexMatch
  | hasLabel | memberOf | startsWith | endsWith | contains | identical | notIdentical
deriving DecidableEq, Repr

namespace Operator

def all : List Operator :=
  [.equal, .lessOrGreater, .notEqual, .less, .greater, .lessEqual, .greaterEqual, .regexMatch,
    .hasLabel, .memberOf, .startsWith, .endsWith, .contains, .identical, .notIdentical]

def words : Operator → List String
  | equal => ["="]
  | lessOrGreater => ["<>"]
  | notEqual => ["!="]
  | less => ["<"]
  | greater => [">"]
  | lessEqual => ["<="]
  | greaterEqual => [">="]
  | regexMatch => ["=~"]
  | hasLabel => [":"]
  | memberOf => ["IN"]
  | startsWith => ["STARTS", "WITH"]
  | endsWith => ["ENDS", "WITH"]
  | contains => ["CONTAINS"]
  | identical => ["IS"]
  | notIdentical => ["IS", "NOT"]

def symbol (op : Operator) : String := " ".intercalate op.words

/-- The normal spelling of an operator: its words in upper case, one space between them. -/
def normalSpelling (s : String) : String :=
  String.ofList (Text.uppered ([' '].intercalate (Text.words s.toList)))

def ofText? (s : String) : Option Operator := all.find? fun op => op.symbol == normalSpelling s

/-- The condition that compares an item with a rendered value. A label test is written without
spaces. -/
def condition (op : Operator) (item value : String) : String :=
  if op = .hasLabel then item ++ ":" ++ value else item ++ " " ++ op.symbol ++ " " ++ value

end Operator

/-! ## Clauses

One clause of a query, with its variable parts already rendered, and its text. A clause that opens
with a keyword is padded with spaces; the patterns of nodes and edges are not, so that a path stays
in one piece; custom text stands as it is. -/

/-- What a clause is, as far as chaining is concerned. -/
inductive ClauseKind where
  | andWhere | call | create | custom | delete | edge | limit | loadCsv | matchPattern | merge
  | node | orderBy | orWhere | remove | returnItems | skip | union | unwind | whereItem | withItems
  | yieldItems | xorWhere
deriving DecidableEq, Repr

def ClauseKind.name : ClauseKind → String
  | andWhere => "AND_WHERE"
  | call => "CALL"
  | create => "CREATE"
  | custom => "CUSTOM"
  | delete => "DELETE"
  | edge => "EDGE"
  | limit => "LIMIT"
  | loadCsv => "LOAD_CSV"
  | matchPattern => "MATCH"
  | merge => "MERGE"
  | node => "NODE"
  | orderBy => "ORDER_BY"
  | orWhere => "OR_WHERE"
  | remove => "REMOVE"
  | returnItems => "RETURN"
  | skip => "SKIP"
  | union => "UNION"
  | unwind => "UNWIND"
  | whereItem => "WHERE"
  | withItems => "WITH"
  | yieldItems => "YIELD"
  | xorWhere => "XOR_WHERE"

inductive Connective where
  | whereItem | and | or | xor
deriving DecidableEq, Repr

namespace Connective

def keyword : Connective → String
  | whereItem => "WHERE"
  | and => "AND"
  | or => "OR"
  | xor => "XOR"

def kind : Connective → ClauseKind
  | whereItem => .whereItem
  | and => .andWhere
  | or => .orWhere
  | xor => .xorWhere

end Connective

inductive Direction where
  | outgoing | incoming | undirected
deriving DecidableEq, Repr

/-- An expression and the name it gets; an empty name leaves it unnamed. -/
structure Projection where
  expression : String
  name : String
deriving DecidableEq, Repr

/-- The text of a projection. The name is left out if it is empty or the expression itself. -/
def Projection.text (p : Projection) : String :=
  if p.name.isEmpty || p.name == p.expression then p.expression
  else p.expression ++ " AS " ++ p.name

/-- The text of a list of projections; an empty list stands for everything in scope. -/
def projectionList (ps : List Projection) : String :=
  if ps.isEmpty then "*" else ", ".intercalate (ps.map Projection.text)

inductive Clause where
  | loadCsv (path : String) (header : Bool) (row : String)
  | matchPattern (optional : Bool)
  | merge
  | create
  | call (procedure : String) (arguments : Option String)
  | condition (connective : Connective) (text : String)
  | node (binding : Option String) (labels properties : String)
  | edge (binding : Option String) (types properties : String) (direction : Direction)
  | unwind (list binding : String)
  | withItems (items : List Projection)
  | union (duplicates : Bool)
  | delete (expressions : List String) (detach : Bool)
  | remove (items : List String)
  | yieldItems (items : List Projection)
  | returnItems (items : List Projection)
  | orderBy (expression : String)
  | limit (expression : String)
  | skip (expression : String)
  | custom (text : String)
deriving DecidableEq, Repr

namespace Clause

def kind : Clause → ClauseKind
  | loadCsv .. => .loadCsv
  | matchPattern _ => .matchPattern
  | merge => .merge
  | create => .create
  | call .. => .call
  | condition connective _ => connective.kind
  | node .. => .node
  | edge .. => .edge
  | unwind .. => .unwind
  | withItems _ => .withItems
  | union _ => .union
  | delete .. => .delete
  | remove _ => .remove
  | yieldItems _ => .yieldItems
  | returnItems _ => .returnItems
  | orderBy _ => .orderBy
  | limit _ => .limit
  | skip _ => .skip
  | custom _ => .custom

/-- The variable that a node or an edge binds. -/
def binding? : Clause → Option String
  | node binding _ _ => binding
  | edge binding _ _ _ => binding
  | _ => none

def arrow (direction : Direction) (body : String) : String :=
  match direction with
  | .outgoing => "-[" ++ body ++ "]->"
  | .incoming => "<-[" ++ body ++ "]-"
  | .undirected => "-[" ++ body ++ "]-"

def render : Clause → String
  | loadCsv path header row =>
    " LOAD CSV FROM " ++ Text.quoted path ++ " " ++ (if header then "WITH" else "NO") ++
      " HEADER AS " ++ row ++ " "
  | matchPattern true => " OPTIONAL MATCH "
  | matchPattern false => " MATCH "
  | merge => " MERGE "
  | create => " CREATE "
  | call procedure arguments => " CALL " ++ procedure ++ "(" ++ arguments.getD "" ++ ") "
  | condition connective text => " " ++ connective.keyword ++ " " ++ text ++ " "
  | node binding labels properties =>
    if properties.isEmpty then "(" ++ binding.getD "" ++ labels ++ ")"
    else "(" ++ binding.getD "" ++ labels ++ " " ++ properties ++ ")"
  | edge binding types properties direction =>
    arrow direction (binding.getD "" ++ types ++ properties)
  | unwind list binding => " UNWIND " ++ list ++ " AS " ++ binding ++ " "
  | withItems items => " WITH " ++ projectionList items ++ " "
  | union true => " UNION ALL "
  | union false => " UNION "
  | delete expressions detach =>
    " " ++ (if detach then "DETACH" else "") ++ " DELETE " ++ ", ".intercalate expressions ++ " "
  | remove items => " REMOVE " ++ ", ".intercalate items ++ " "
  | yieldItems items => " YIELD " ++ projectionList items ++ " "
  | returnItems items => " RETURN " ++ projectionList items ++ " "
  | orderBy expression => " ORDER BY " ++ expression ++ " "
  | limit expression => " LIMIT " ++ expression ++ " "
  | skip expression => " SKIP " ++ expression ++ " "
  | custom text => text

end Clause

/-! ## Patterns

What a node or an edge of a query shall look like. A pattern keeps its labels as they were given;
they are trimmed, and blank ones dropped, when the pattern becomes a clause. -/

/-- The labels as a chain `:A:B`, trimmed, without the blank ones. -/
def labelChain (labels : List String) : String :=
  String.ofList (labels.flatMap fun label =>
    let text := Text.trim label.toList
    if text.isEmpty then [] else ':' :: text)

structure NodePattern where
  binding : Option String
  labels : List String
  properties : Properties

namespace NodePattern

def empty : NodePattern := ⟨none, [], ∅⟩

/-- The pattern with the labels and properties of a node. -/
def ofNode (n : Node) : NodePattern := ⟨none, n.labels.toList, n.properties⟩

def bind (name : String) (p : NodePattern) : NodePattern := { p with binding := some name }

def withLabel (label : String) (p : NodePattern) : NodePattern :=
  { p with labels := p.labels ++ [label] }

def withLabels (labels : List String) (p : NodePattern) : NodePattern :=
  { p with labels := p.labels ++ labels }

def withProperty (name : String) (value : Value) (p : NodePattern) : NodePattern :=
  { p with properties := p.properties.insert name value }

def clause (p : NodePattern) : Clause :=
  .node p.binding (labelChain p.labels) (Properties.patternText p.properties)

end NodePattern

structure EdgePattern where
  binding : Option String
  type : Option String
  properties : Properties
  /-- Whether the edge has the direction in which it is added. -/
  directed : Bool

namespace EdgePattern

def empty : EdgePattern := ⟨none, none, ∅, true⟩

def ofRelationship (r : Relationship) : EdgePattern := ⟨none, some r.type, r.properties, true⟩

def bind (name : String) (p : EdgePattern) : EdgePattern := { p with binding := some name }

def withType (type : String) (p : EdgePattern) : EdgePattern := { p with type := some type }

def withProperty (name : String) (value : Value) (p : EdgePattern) : EdgePattern :=
  { p with properties := p.properties.insert name value }

def undirected (p : EdgePattern) : EdgePattern := { p with directed := false }

/-- The clause of the pattern, added in a direction. -/
def clause (p : EdgePattern) (direction : Direction) : Clause :=
  .edge p.binding (labelChain p.type.toList) (Properties.patternText p.properties)
    (if p.directed then direction else .undirected)

end EdgePattern

end Cypher
