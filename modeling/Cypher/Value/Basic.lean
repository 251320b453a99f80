import Cypher.Data.Ordered
import Cypher.Decimal.Numeral
import Cypher.Decimal.Shortest
import Cypher.Temporal.Basic
import Cypher.Text.Basic

/-!
# Values

What a property, a condition or a result column can hold: scalars, temporal values, lists, maps,
raw query expressions, and the entities of the graph, whose properties are values again.
-/

namespace Cypher

structure NodeOf (V : Type) where
  /-- The identity in the database; `none` for a node that was not read from one. -/
  id : Option Int64
  labels : LabelSet
  properties : PropertyMap V

structure RelationshipOf (V : Type) where
  /-- The identity in the database; `none` for a relationship that was not read from one. -/
  id : Option Int64
  startNode : Option Int64
  endNode : Option Int64
  /-- The type of the relationship. -/
  type : String
  properties : PropertyMap V

inductive Value where
  | null
  | bool (flag : Bool)
  | int (number : Int64)
  | float (number : Binary64)
  | string (text : String)
  | list (items : List Value)
  | map (entries : PropertyMap Value)
  /-- A raw query expression, written as it is. -/
  | expression (text : String)
  | date (date : Date)
  | localTime (time : TimeOfDay)
  | localDateTime (time : DateTime)
  | duration (duration : Duration)
  | node (node : NodeOf Value)
  | relationship (relationship : RelationshipOf Value)

abbrev Node := NodeOf Value

abbrev Relationship := RelationshipOf Value

abbrev Properties := PropertyMap Value

/-- One row of a result: values by column name. -/
abbrev Record := PropertyMap Value

instance : Inhabited Value := ⟨.null⟩

namespace NodeOf

variable {V : Type}

def empty : NodeOf V := ⟨none, ∅, ∅⟩

/-- The node with one more label, trimmed; a blank label is ignored. -/
def withLabel (label : String) (n : NodeOf V) : NodeOf V :=
  { n with labels := n.labels.add label }

def withProperty (name : String) (value : V) (n : NodeOf V) : NodeOf V :=
  { n with properties := n.properties.insert name value }

def hasLabel (n : NodeOf V) (label : String) : Bool := n.labels.contains label

def property? (n : NodeOf V) (name : String) : Option V := n.properties.get? name

end NodeOf

namespace RelationshipOf

variable {V : Type}

def ofType (type : String) : RelationshipOf V := ⟨none, none, none, type, ∅⟩

def between (startNode endNode : Int64) (r : RelationshipOf V) : RelationshipOf V :=
  { r with startNode := some startNode, endNode := some endNode }

def withProperty (name : String) (value : V) (r : RelationshipOf V) : RelationshipOf V :=
  { r with properties := r.properties.insert name value }

def property? (r : RelationshipOf V) (name : String) : Option V := r.properties.get? name

end RelationshipOf

namespace Value

def isNull : Value → Bool
  | .null => true
  | _ => false

def asString? : Value → Option String
  | .string text => some text
  | _ => none

def asInt? : Value → Option Int64
  | .int number => some number
  | _ => none

def asNode? : Value → Option Node
  | .node n => some n
  | _ => none

def asRelationship? : Value → Option Relationship
  | .relationship r => some r
  | _ => none

def asMap? : Value → Option Properties
  | .map entries => some entries
  | _ => none

/-- The map that assigns the pairs in order. -/
def ofPairs (pairs : List (String × Value)) : Value := .map (PropertyMap.ofPairs pairs)

end Value

/-! ## Kinds of values

The tag that a value carries in its serialized form. -/

inductive Kind where
  | null | bool | int | float | string | list | map | expression | date | localTime | localDateTime
  | duration | node | relationship
deriving DecidableEq, Repr

namespace Kind

/-- Every kind, in the order in which kinds are numbered. -/
def all : List Kind :=
  [.null, .bool, .int, .float, .string, .list, .map, .expression, .date, .localTime, .localDateTime,
    .duration, .node, .relationship]

def name : Kind → String
  | null => "null"
  | bool => "bool"
  | int => "int"
  | float => "float"
  | string => "string"
  | list => "list"
  | map => "map"
  | expression => "variable"
  | date => "date"
  | localTime => "local_time"
  | localDateTime => "local_date_time"
  | duration => "duration"
  | node => "node"
  | relationship => "relationship"

def ofName? (s : String) : Option Kind := all.find? fun kind => kind.name == s

@[simp] theorem ofName?_name (kind : Kind) : ofName? kind.name = some kind := by
  cases kind <;> decide

end Kind

def Value.kind : Value → Kind
  | .null => .null
  | .bool _ => .bool
  | .int _ => .int
  | .float _ => .float
  | .string _ => .string
  | .list _ => .list
  | .map _ => .map
  | .expression _ => .expression
  | .date _ => .date
  | .localTime _ => .localTime
  | .localDateTime _ => .localDateTime
  | .duration _ => .duration
  | .node _ => .node
  | .relationship _ => .relationship

/-! ## Literals

The text of a value in a query. Texts are quoted, lists and maps are written with their separators,
temporal values call their constructors, an entity is the map of its properties, and a raw
expression stands as it is. Rendering never fails. -/

/-- Literals are written with a point from `0.0001` up to sixteen digits before the point; a
positive exponent has no sign, and of two equally near shortest numbers the larger is written. -/
def literalFloats : Decimal.FloatFormat := ⟨3, 16, false, .upper⟩

/-- The literal of a floating-point number. Infinities and what is no number are written as
quotients, which the server evaluates. -/
def floatLiteral (x : Binary64) : List Char :=
  if x.isNaN then "0.0/0.0".toList
  else if !x.isFinite then (if x.negative then "-1.0/0.0".toList else "1.0/0.0".toList)
  else literalFloats.render x

def constructorCall (name : String) (text : List Char) : String :=
  name ++ "('" ++ String.ofList text ++ "')"

namespace Value

mutual

def literal : Value → String
  | .null => "null"
  | .bool flag => Text.flagText flag
  | .int number => String.ofList (Decimal.signed number.toInt)
  | .float number => String.ofList (floatLiteral number)
  | .string text => Text.quoted text
  | .list items => "[" ++ ", ".intercalate (itemLiterals items) ++ "]"
  | .map entries => "\x7b" ++ ", ".intercalate (entryLiterals entries.entries) ++ "\x7d"
  | .expression text => text
  | .date d => constructorCall "date" d.text
  | .localTime t => constructorCall "localTime" t.literalText
  | .localDateTime t => constructorCall "localDateTime" t.literalText
  | .duration d => constructorCall "duration" d.literalText
  | .node n => "\x7b" ++ ", ".intercalate (entryLiterals n.properties.entries) ++ "\x7d"
  | .relationship r => "\x7b" ++ ", ".intercalate (entryLiterals r.properties.entries) ++ "\x7d"

def itemLiterals : List Value → List String
  | [] => []
  | item :: rest => literal item :: itemLiterals rest

/-- The entries of a map as `name: literal`; names stand as they are. -/
def entryLiterals : List (String × Value) → List String
  | [] => []
  | (name, value) :: rest => (name ++ ": " ++ literal value) :: entryLiterals rest

end

end Value

/-- The text of a property map in a pattern: a map literal, or nothing if the map is empty. -/
def Properties.patternText (properties : Properties) : String :=
  if properties.entries.isEmpty then "" else (Value.map properties).literal

end Cypher
