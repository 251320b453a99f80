import Cypher.Decimal.Shortest
import Cypher.Json.Basic
import Cypher.Value.Basic

/-!
# Serialized values

Values as JSON documents: an object with the kind under `type` and the content under `value`, which
null does without. Floating-point numbers that are not finite and durations beyond 64 bits of
microseconds have no serialized form; the first such leaf, in the order of writing, is reported.
-/

namespace Cypher

inductive EncodeError where
  | nonFinite (number : Binary64)
  | longDuration
deriving DecidableEq

def nonFiniteName (x : Binary64) : String :=
  if x.isNaN then "NaN" else if x.negative then "-inf" else "inf"

def EncodeError.message : EncodeError → String
  | .nonFinite x => "non-finite float `" ++ nonFiniteName x ++ "` has no serialized form"
  | .longDuration => "duration does not fit into i64 microseconds"

/-- Serialized numbers are written with a point from `0.00001` up to sixteen digits before the
point; every exponent has a sign, and of two equally near shortest numbers the even one is written. -/
def serializedFloats : Decimal.FloatFormat := ⟨4, 16, true, .even⟩

def encodeId : Option Int64 → Json
  | none => .null
  | some n => .ofInt64 n

def encodeLabels (labels : LabelSet) : Json := .array (labels.toList.map .ofString)

/-- The document of a value of some kind with the given content. -/
def tagged (kind : Kind) (content : Json) : Json :=
  .ofMembers [("type", .ofString kind.name), ("value", content)]

def nodeDocument (n : Node) (properties : Json) : Json :=
  .ofMembers
    [("id", encodeId n.id), ("labels", encodeLabels n.labels), ("properties", properties)]

def relationshipDocument (r : Relationship) (properties : Json) : Json :=
  .ofMembers
    [("id", encodeId r.id), ("start_node_id", encodeId r.startNode),
      ("end_node_id", encodeId r.endNode), ("type", .ofString r.type), ("properties", properties)]

def encodeFloat (x : Binary64) : Except EncodeError Json :=
  if x.isFinite then .ok (.number (serializedFloats.numeral x)) else .error (.nonFinite x)

def encodeDuration (d : Duration) : Except EncodeError Json :=
  match d.microseconds? with
  | some n => .ok (.ofInt64 n)
  | none => .error .longDuration

/-- The document of a text given by its characters. -/
def encodeText (cs : List Char) : Json := .ofString (String.ofList cs)

namespace Value

mutual

def encode : Value → Except EncodeError Json
  | .null => .ok (.ofMembers [("type", .ofString Kind.null.name)])
  | .bool flag => .ok (tagged .bool (.bool flag))
  | .int n => .ok (tagged .int (.ofInt64 n))
  | .float x => (encodeFloat x).map (tagged .float)
  | .string s => .ok (tagged .string (.ofString s))
  | .list items => (encodeItems items).map fun items => tagged .list (.array items)
  | .map entries => (encodeEntries entries.entries).map fun members =>
    tagged .map (.ofMembers members)
  | .expression e => .ok (tagged .expression (.ofString e))
  | .date d => .ok (tagged .date (encodeText d.text))
  | .localTime t => .ok (tagged .localTime (encodeText t.exactText))
  | .localDateTime t => .ok (tagged .localDateTime (encodeText t.exactText))
  | .duration d => (encodeDuration d).map (tagged .duration)
  | .node n => (encodeEntries n.properties.entries).map fun members =>
    tagged .node (nodeDocument n (.ofMembers members))
  | .relationship r => (encodeEntries r.properties.entries).map fun members =>
    tagged .relationship (relationshipDocument r (.ofMembers members))

def encodeItems : List Value → Except EncodeError (List Json)
  | [] => .ok []
  | item :: rest => do
    let document ← encode item
    let documents ← encodeItems rest
    return document :: documents

def encodeEntries : List (String × Value) → Except EncodeError (List (String × Json))
  | [] => .ok []
  | (name, value) :: rest => do
    let document ← encode value
    let members ← encodeEntries rest
    return (name, document) :: members

end

end Value

def NodeOf.encode (n : Node) : Except EncodeError Json :=
  (Value.encodeEntries n.properties.entries).map fun members =>
    nodeDocument n (.ofMembers members)

def RelationshipOf.encode (r : Relationship) : Except EncodeError Json :=
  (Value.encodeEntries r.properties.entries).map fun members =>
    relationshipDocument r (.ofMembers members)

def Properties.encode (p : Properties) : Except EncodeError Json :=
  (Value.encodeEntries p.entries).map Json.ofMembers

end Cypher
