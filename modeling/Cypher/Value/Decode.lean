import Cypher.Json.Basic
import Cypher.Temporal.Reader
import Cypher.Value.Basic

/-!
# Reading serialized values

The value that a JSON document stands for. A value is an object with the members `type` and `value`
in either order, or an array of the two; a structure is an object with its fields in any order, or an
array of all its fields. Members of other names are ignored.

When `type` comes first, the content is read straight from the text as what it must be. When `value`
comes first, the content has to be held until its kind is known, so all of it must be sound, and a
held document is read a little more freely: a kind may be given by its number in the array form.
-/

namespace Cypher

open Json (Members Source member? fitsFields)

/-- The kind that the `type` member of an object gives: its name, or an object with the name as its
only member and no content. -/
def kindOfMember? (source : Source) : Json → Option Kind
  | .string name => name.bind Kind.ofName?
  | .object [(some name, content)] => do
    let _ ← source.enter?
    match source, content with
    | _, .null => Kind.ofName? name
    | .memory, .object [] => Kind.ofName? name
    | _, _ => none
  | _ => none

/-- The kind that the first item of an array gives: its name, or in memory also its number. -/
def kindOfItem? (source : Source) : Json → Option Kind
  | .string name => name.bind Kind.ofName?
  | .number n =>
    match source with
    | .memory =>
      if n.fraction.isEmpty && n.exponent.isNone && !n.negative then Kind.all[n.whole]? else none
    | .text _ => none
  | _ => none

def decodeId? : Json → Option (Option Int64)
  | .null => some none
  | document => document.asInt64?.map some

def idMember? (members : Members) (name : String) : Option (Option Int64) :=
  match member? members name with
  | none => some none
  | some document => decodeId? document

def decodeLabels? (source : Source) : Json → Option LabelSet
  | .array items => do
    let _ ← source.enter?
    return LabelSet.ofList (← items.mapM Json.asString?)
  | _ => none

/-- The node of an object whose properties are already read. -/
def nodeOfMembers? (source : Source) (members : Members) (properties : Option Properties) :
    Option Node :=
  if fitsFields ["id", "labels", "properties"] members then do
    let id ← idMember? members "id"
    let labels ← (member? members "labels").bind (decodeLabels? source)
    let properties ← properties
    return ⟨id, labels, properties⟩
  else none

/-- The relationship of an object whose properties are already read. -/
def relationshipOfMembers? (members : Members) (properties : Option Properties) :
    Option Relationship :=
  if fitsFields ["id", "start_node_id", "end_node_id", "type", "properties"] members then do
    let id ← idMember? members "id"
    let startNode ← idMember? members "start_node_id"
    let endNode ← idMember? members "end_node_id"
    let type ← (member? members "type").bind Json.asString?
    let properties ← properties
    return ⟨id, startNode, endNode, type, properties⟩
  else none

/-- Whether the member `type` precedes the member `value`. -/
def typeComesFirst : Members → Bool
  | [] => false
  | (name, _) :: rest =>
    if name = some "type" then true else if name = some "value" then false
    else typeComesFirst rest

/-- Where the content of a value is read from: the same source if its kind is known by then, memory
otherwise. -/
def contentSource? (source : Source) (members : Members) : Option Source :=
  if typeComesFirst members then some source
  else
    match member? members "value" with
    | some content => if source.canHold content then some .memory else none
    | none => none

namespace Value

mutual

def decode? (source : Source) : Json → Option Value
  | .object members => do
    let source ← source.enter?
    if fitsFields ["type", "value"] members then
      let kind ← (member? members "type").bind (kindOfMember? source)
      if (member? members "value").isNone then
        if kind = .null then some .null else none
      else
        let contentSource ← contentSource? source members
        decodeMember? contentSource kind members
    else none
  | .array [tag, content] => do
    let source ← source.enter?
    let kind ← kindOfItem? source tag
    decodeContent? source kind content
  | _ => none

/-- The value of a kind whose content is the member `value`. -/
def decodeMember? (source : Source) (kind : Kind) : Members → Option Value
  | [] => none
  | (name, document) :: rest =>
    if name = some "value" then decodeContent? source kind document
    else decodeMember? source kind rest

def decodeContent? (source : Source) : Kind → Json → Option Value
  | .null, .null => some .null
  | .bool, .bool flag => some (.bool flag)
  | .int, .number n => n.toInt64?.map .int
  | .float, .number n => n.toBinary64?.map .float
  | .string, .string s => s.map .string
  | .list, .array items => do
    let source ← source.enter?
    return .list (← decodeItems? source items)
  | .map, .object members => do
    let source ← source.enter?
    return .ofPairs (← decodeEntries? source members)
  | .expression, .string s => s.map .expression
  | .date, .string s => s.bind fun s => (Temporal.readDate s.toList).map .date
  | .localTime, .string s => s.bind fun s => (Temporal.readTime s.toList).map .localTime
  | .localDateTime, .string s =>
    s.bind fun s => (Temporal.readDateTime s.toList).map .localDateTime
  | .duration, .number n => n.toInt64?.map fun n => .duration (Duration.ofMicroseconds n)
  | .node, .object members => do
    let source ← source.enter?
    return .node (← nodeOfMembers? source members (propertiesMember? source members))
  | .node, .array [id, labels, .object properties] => do
    let source ← source.enter?
    let id ← decodeId? id
    let labels ← decodeLabels? source labels
    let source ← source.enter?
    return .node ⟨id, labels, .ofPairs (← decodeEntries? source properties)⟩
  | .relationship, .object members => do
    let source ← source.enter?
    return .relationship (← relationshipOfMembers? members (propertiesMember? source members))
  | .relationship, .array [id, startNode, endNode, type, .object properties] => do
    let source ← source.enter?
    let id ← decodeId? id
    let startNode ← decodeId? startNode
    let endNode ← decodeId? endNode
    let type ← type.asString?
    let source ← source.enter?
    return .relationship
      ⟨id, startNode, endNode, type, .ofPairs (← decodeEntries? source properties)⟩
  | _, _ => none

def decodeItems? (source : Source) : List Json → Option (List Value)
  | [] => some []
  | item :: rest => do
    let value ← decode? source item
    let values ← decodeItems? source rest
    return value :: values

def decodeEntries? (source : Source) : Members → Option (List (String × Value))
  | [] => some []
  | (name, document) :: rest => do
    let name ← name
    let value ← decode? source document
    let entries ← decodeEntries? source rest
    return (name, value) :: entries

def propertiesMember? (source : Source) : Members → Option Properties
  | [] => none
  | (name, .object members) :: rest =>
    if name = some "properties" then do
      let source ← source.enter?
      return .ofPairs (← decodeEntries? source members)
    else propertiesMember? source rest
  | (name, _) :: rest =>
    if name = some "properties" then none else propertiesMember? source rest

end

end Value

def NodeOf.decode? (source : Source) (document : Json) : Option Node :=
  (Value.decodeContent? source .node document).bind Value.asNode?

def RelationshipOf.decode? (source : Source) (document : Json) : Option Relationship :=
  (Value.decodeContent? source .relationship document).bind Value.asRelationship?

def Properties.decode? (source : Source) (document : Json) : Option Properties :=
  (Value.decodeContent? source .map document).bind Value.asMap?

end Cypher
