import Cypher.Value.Basic

/-!
# Equality of values

Values are compared part by part, floating-point numbers as numbers: the two zeros are equal, and
what is no number equals nothing, so a value that holds such a leaf is not equal to itself.
-/

namespace Cypher.Value

mutual

def equal : Value → Value → Bool
  | .null, .null => true
  | .bool a, .bool b => a == b
  | .int a, .int b => a == b
  | .float a, .float b => a.equal b
  | .string a, .string b => a == b
  | .list a, .list b => equalItems a b
  | .map a, .map b => equalEntries a.entries b.entries
  | .expression a, .expression b => a == b
  | .date a, .date b => a == b
  | .localTime a, .localTime b => a == b
  | .localDateTime a, .localDateTime b => a == b
  | .duration a, .duration b => a == b
  | .node a, .node b =>
    a.id == b.id && a.labels == b.labels && equalEntries a.properties.entries b.properties.entries
  | .relationship a, .relationship b =>
    a.id == b.id && a.startNode == b.startNode && a.endNode == b.endNode && a.type == b.type &&
      equalEntries a.properties.entries b.properties.entries
  | _, _ => false

def equalItems : List Value → List Value → Bool
  | [], [] => true
  | a :: as, b :: bs => equal a b && equalItems as bs
  | _, _ => false

def equalEntries : List (String × Value) → List (String × Value) → Bool
  | [], [] => true
  | (k, a) :: as, (l, b) :: bs => k == l && equal a b && equalEntries as bs
  | _, _ => false

end

instance : BEq Value := ⟨equal⟩

end Cypher.Value

namespace Cypher

instance : BEq Node := ⟨fun a b => Value.equal (.node a) (.node b)⟩

instance : BEq Relationship := ⟨fun a b => Value.equal (.relationship a) (.relationship b)⟩

end Cypher
