import Cypher.Proofs.Data.Ordered
import Cypher.Proofs.Decimal.Digits
import Cypher.Proofs.Decimal.Shortest
import Cypher.Proofs.Json.Document
import Cypher.Proofs.Json.Structure
import Cypher.Proofs.Temporal.Duration
import Cypher.Proofs.Temporal.Reader
import Cypher.Proofs.Value.Parts
import Cypher.Value.Decode
import Cypher.Value.Encode

/-!
# Serialized values are read back

The document of a value gives the value again, up to durations, which lose what is less than a
microsecond, and leap seconds after a second other than 59, which are read as the second behind it.
All maps have their names in order, as every map that is built has; a document is read straight from
its text, so its nesting counts against the limit of the reader.
-/

namespace Cypher

open Json (Written levels_array_le_iff levels_ofMembers_le_iff)

theorem toInt64?_ofInt (n : Int64) : (Decimal.Numeral.ofInt n.toInt).toInt64? = some n := by
  have hlower := n.le_toInt
  have hupper := n.toInt_lt
  have hvalue : (if n.toInt < 0 then -(n.toInt.natAbs : Int) else n.toInt.natAbs) = n.toInt := by
    split <;> omega
  have hplain : (decide (n.toInt < 0) && n.toInt.natAbs == 0) = false := by
    rw [Bool.and_eq_false_iff, decide_eq_false_iff_not, beq_eq_false_iff_ne]
    omega
  simp only [Decimal.Numeral.toInt64?, Decimal.Numeral.ofInt, List.isEmpty_nil, Option.isNone_none,
    hplain, decide_eq_true_eq, hvalue, Bool.not_false, Bool.and_self, if_true]
  rw [if_pos ⟨hlower, hupper⟩, Int64.ofInt_toInt]

theorem decodeId?_encodeId (id : Option Int64) : decodeId? (encodeId id) = some id := by
  cases id with
  | none => rfl
  | some n =>
      have hread := toInt64?_ofInt n
      simp [encodeId, decodeId?, Json.ofInt64, Json.asInt64?, hread]

theorem mapM_asString?_map_ofString (labels : List String) :
    (labels.map Json.ofString).mapM Json.asString? = some labels := by
  induction labels with
  | nil => rfl
  | cons label rest ih => simp [Json.ofString, Json.asString?, ih]

theorem decodeLabels?_encodeLabels (labels : LabelSet) (n : Nat) :
    decodeLabels? (.text (n + 1)) (encodeLabels labels) = some labels := by
  simp only [encodeLabels, decodeLabels?, Json.Source.enter?, mapM_asString?_map_ofString,
    Option.bind_eq_bind, Option.bind_some, LabelSet.ofList_toList]
  rfl

theorem ofMicroseconds_of_microseconds? {d : Duration} {n : Int64} (h : d.microseconds? = some n) :
    Duration.ofMicroseconds n = d.wholeMicros := by
  simp only [Duration.microseconds?] at h
  split at h
  · rename_i hrange
    have hvalue : n.toInt = d.microseconds := by
      rw [← Option.some.inj h]
      exact Int64.toInt_ofInt_of_le hrange.1 (by simpa using hrange.2)
    simp only [Duration.ofMicroseconds, Duration.wholeMicros, hvalue]
  · exact absurd h (by simp)

namespace Value

/-- All maps in the value, and all properties, have their names in order. -/
def Ordered (v : Value) : Prop :=
  ∀ part ∈ v.parts, (part.fields.map Prod.fst).Pairwise (· < ·)

instance (v : Value) : Decidable v.Ordered :=
  inferInstanceAs (Decidable (∀ part ∈ v.parts, (part.fields.map Prod.fst).Pairwise (· < ·)))

theorem Ordered.child {v child : Value} (h : v.Ordered) (hchild : child ∈ v.children) :
    child.Ordered := by
  intro part hpart
  exact h part (mem_parts_of_child hchild hpart)

theorem Ordered.fields {v : Value} (h : v.Ordered) :
    (v.fields.map Prod.fst).Pairwise (· < ·) :=
  h v (self_mem_parts v)

mutual

/-- The value with every duration in it cut off to whole microseconds, and every leap second after a
second other than 59 carried into the next second. -/
def normalized : Value → Value
  | .list items => .list (normalizedItems items)
  | .map entries => .map ⟨normalizedFields entries.entries⟩
  | .localTime t => .localTime t.carried
  | .localDateTime t => .localDateTime t.carried
  | .duration d => .duration d.wholeMicros
  | .node n => .node { n with properties := ⟨normalizedFields n.properties.entries⟩ }
  | .relationship r => .relationship { r with properties := ⟨normalizedFields r.properties.entries⟩ }
  | v => v

def normalizedItems : List Value → List Value
  | [] => []
  | item :: rest => normalized item :: normalizedItems rest

def normalizedFields : List (String × Value) → List (String × Value)
  | [] => []
  | (name, value) :: rest => (name, normalized value) :: normalizedFields rest

end

theorem names_normalizedFields (fields : List (String × Value)) :
    (normalizedFields fields).map Prod.fst = fields.map Prod.fst := by
  induction fields with
  | nil => rfl
  | cons field rest ih =>
      obtain ⟨name, value⟩ := field
      rw [normalizedFields, List.map_cons, List.map_cons, ih]

theorem encodeItems_cons_eq_ok {item : Value} {rest : List Value} {documents : List Json}
    (h : encodeItems (item :: rest) = .ok documents) :
    ∃ first others, item.encode = .ok first ∧ encodeItems rest = .ok others ∧
      documents = first :: others := by
  rw [encodeItems] at h
  obtain ⟨first, hfirst, h⟩ := bind_eq_ok h
  obtain ⟨others, hothers, h⟩ := bind_eq_ok h
  exact ⟨first, others, hfirst, hothers, (Except.ok.inj h).symm⟩

theorem encodeEntries_cons_eq_ok {name : String} {value : Value} {rest : List (String × Value)}
    {members : List (String × Json)} (h : encodeEntries ((name, value) :: rest) = .ok members) :
    ∃ first others, value.encode = .ok first ∧ encodeEntries rest = .ok others ∧
      members = (name, first) :: others := by
  rw [encodeEntries] at h
  obtain ⟨first, hfirst, h⟩ := bind_eq_ok h
  obtain ⟨others, hothers, h⟩ := bind_eq_ok h
  exact ⟨first, others, hfirst, hothers, (Except.ok.inj h).symm⟩

def MemberOf (entry : String × Value) (member : String × Json) : Prop :=
  member.1 = entry.1 ∧ entry.2.encode = .ok member.2

theorem encodeEntries_eq_ok_iff {entries : List (String × Value)} {members : List (String × Json)} :
    encodeEntries entries = .ok members ↔ List.Forall₂ MemberOf entries members := by
  constructor
  · intro h
    induction entries generalizing members with
    | nil =>
        obtain rfl := Except.ok.inj h
        exact .nil
    | cons entry rest ih =>
        obtain ⟨first, others, hfirst, hothers, rfl⟩ := encodeEntries_cons_eq_ok h
        exact .cons ⟨rfl, hfirst⟩ (ih hothers)
  · intro h
    induction h with
    | nil => rfl
    | @cons entry member rest others hentry _ ih =>
        rw [encodeEntries, hentry.2, ih, ← hentry.1]
        rfl

/-- A document of the value has a text, and gives the value again if its nesting is allowed. -/
def ReadBack (v : Value) : Prop :=
  ∀ document, v.encode = .ok document → Written document ∧
    ∀ n, document.levels ≤ n → decode? (.text n) document = some v.normalized

theorem decodeItems?_encodeItems {items : List Value} {documents : List Json}
    (h : encodeItems items = .ok documents) (hitems : ∀ item ∈ items, item.ReadBack) :
    (∀ document ∈ documents, Written document) ∧
      ∀ n, (∀ document ∈ documents, document.levels ≤ n) →
        decodeItems? (.text n) documents = some (normalizedItems items) := by
  induction items generalizing documents with
  | nil =>
      rw [← Except.ok.inj h]
      exact ⟨by simp, fun n _ => rfl⟩
  | cons item rest ih =>
      obtain ⟨first, others, hfirst, hothers, rfl⟩ := encodeItems_cons_eq_ok h
      obtain ⟨hwritten, hread⟩ := hitems item List.mem_cons_self first hfirst
      obtain ⟨hwrittens, hreads⟩ := ih hothers
        fun other hother => hitems other (List.mem_cons_of_mem item hother)
      refine ⟨List.forall_mem_cons.mpr ⟨hwritten, hwrittens⟩, fun n hlevels => ?_⟩
      simp only [List.mem_cons, forall_eq_or_imp] at hlevels
      simp only [decodeItems?, hread n hlevels.1, hreads n hlevels.2, Option.bind_eq_bind,
        Option.bind_some, normalizedItems]
      rfl

theorem decodeEntries?_encodeEntries {fields : List (String × Value)}
    {members : List (String × Json)} (h : encodeEntries fields = .ok members)
    (hfields : ∀ field ∈ fields, field.2.ReadBack) :
    (∀ member ∈ members, Written member.2) ∧
      ∀ n, (∀ member ∈ members, member.2.levels ≤ n) →
        decodeEntries? (.text n) (members.map fun (name, value) => (some name, value)) =
          some (normalizedFields fields) := by
  induction fields generalizing members with
  | nil =>
      rw [← Except.ok.inj h]
      exact ⟨by simp, fun n _ => rfl⟩
  | cons field rest ih =>
      obtain ⟨name, value⟩ := field
      obtain ⟨first, others, hfirst, hothers, rfl⟩ := encodeEntries_cons_eq_ok h
      obtain ⟨hwritten, hread⟩ := hfields (name, value) List.mem_cons_self first hfirst
      obtain ⟨hwrittens, hreads⟩ := ih hothers
        fun other hother => hfields other (List.mem_cons_of_mem (name, value) hother)
      refine ⟨List.forall_mem_cons.mpr ⟨hwritten, hwrittens⟩, fun n hlevels => ?_⟩
      simp only [List.mem_cons, forall_eq_or_imp] at hlevels
      simp only [List.map_cons, decodeEntries?, hread n hlevels.1, hreads n hlevels.2,
        Option.bind_eq_bind, Option.bind_some, normalizedFields]
      rfl

theorem decode?_tagged (kind : Kind) (content : Json) (n : Nat) :
    decode? (.text (n + 1)) (tagged kind content) = decodeContent? (.text n) kind content := by
  simp only [tagged, Json.ofMembers, Json.ofString, List.map_cons, List.map_nil]
  rw [decode?]
  simp [Json.Source.enter?, Json.fitsFields, Json.occurrences, Json.member?, kindOfMember?,
    contentSource?, typeComesFirst, decodeMember?, List.lookup]

theorem written_tagged {kind : Kind} {content : Json} (h : Written content) :
    Written (tagged kind content) := by
  refine .object ?_
  simp only [List.mem_cons, List.not_mem_nil, or_false, forall_eq_or_imp, forall_eq]
  exact ⟨.string _, h⟩

theorem readBack_of_content {v : Value}
    (h : ∀ document, v.encode = .ok document → ∃ kind content, document = tagged kind content ∧
      Written content ∧ ∀ n, content.levels ≤ n →
        decodeContent? (.text n) kind content = some v.normalized) : v.ReadBack := by
  intro document hdocument
  obtain ⟨kind, content, rfl, hwritten, hread⟩ := h document hdocument
  refine ⟨written_tagged hwritten, fun n hlevels => ?_⟩
  obtain ⟨m, rfl, hmembers⟩ := levels_ofMembers_le_iff.mp hlevels
  rw [decode?_tagged]
  exact hread m (hmembers ("value", content) (by simp))

theorem readBack_of_tagged {v : Value} {kind : Kind} {content : Json}
    (h : v.encode = .ok (tagged kind content)) (hwritten : Written content)
    (hread : ∀ n, decodeContent? (.text n) kind content = some v.normalized) : v.ReadBack := by
  refine readBack_of_content fun document hdocument => ?_
  rw [h] at hdocument
  exact ⟨kind, content, (Except.ok.inj hdocument).symm, hwritten, fun n _ => hread n⟩

theorem readBack_null : Value.null.ReadBack := by
  intro document hdocument
  rw [← Except.ok.inj hdocument]
  refine ⟨.object ?_, fun n hlevels => ?_⟩
  · simp only [List.mem_cons, List.not_mem_nil, or_false, forall_eq]
    exact .string _
  · obtain ⟨m, rfl, -⟩ := levels_ofMembers_le_iff.mp hlevels
    simp only [Json.ofMembers, Json.ofString, List.map_cons, List.map_nil]
    rw [decode?]
    simp [Json.Source.enter?, Json.fitsFields, Json.occurrences, Json.member?, kindOfMember?,
      List.lookup, normalized]

theorem encode_float {x : Binary64} (h : x.isFinite = true) :
    (Value.float x).encode = .ok (tagged .float (.number (serializedFloats.numeral x))) := by
  rw [encode, encodeFloat, if_pos h]
  rfl

theorem readBack_float (x : Binary64) : (Value.float x).ReadBack := by
  refine readBack_of_content fun document hdocument => ?_
  obtain ⟨content, hcontent, rfl⟩ := map_eq_ok hdocument
  simp only [encodeFloat] at hcontent
  split at hcontent
  · rename_i hfinite
    rw [← Except.ok.inj hcontent]
    refine ⟨.float, _, rfl, .number (serializedFloats.isDigit_fraction_numeral x), fun n _ => ?_⟩
    simp [decodeContent?, serializedFloats.toBinary64?_numeral hfinite, normalized]
  · exact absurd hcontent (by simp)

theorem readBack_duration (d : Duration) : (Value.duration d).ReadBack := by
  refine readBack_of_content fun document hdocument => ?_
  obtain ⟨content, hcontent, rfl⟩ := map_eq_ok hdocument
  simp only [encodeDuration] at hcontent
  split at hcontent
  · rename_i micros hmicros
    rw [← Except.ok.inj hcontent]
    refine ⟨.duration, _, rfl, .number (by simp [Decimal.Numeral.ofInt]), fun n _ => ?_⟩
    simp [Json.ofInt64, decodeContent?, toInt64?_ofInt, ofMicroseconds_of_microseconds? hmicros,
      normalized]
  · exact absurd hcontent (by simp)

theorem decodeMap?_encodeEntries {properties : Properties} {members : List (String × Json)}
    (h : encodeEntries properties.entries = .ok members)
    (hordered : (properties.entries.map Prod.fst).Pairwise (· < ·))
    (hfields : ∀ field ∈ properties.entries, field.2.ReadBack) :
    Written (.ofMembers members) ∧
      ∀ n, (Json.ofMembers members).levels ≤ n →
        decodeContent? (.text n) .map (.ofMembers members) =
          some (.map ⟨normalizedFields properties.entries⟩) := by
  obtain ⟨hwritten, hread⟩ := decodeEntries?_encodeEntries h hfields
  refine ⟨.object hwritten, fun n hlevels => ?_⟩
  obtain ⟨m, rfl, hmembers⟩ := levels_ofMembers_le_iff.mp hlevels
  rw [← names_normalizedFields] at hordered
  simp only [Json.ofMembers, decodeContent?, Json.Source.enter?, hread m hmembers,
    Option.bind_eq_bind, Option.bind_some, ofPairs, PropertyMap.ofPairs_of_ascending hordered]
  rfl

theorem propertiesMember?_cons_of_ne {source : Json.Source} {name : String} (document : Json)
    (rest : Json.Members) (h : name ≠ "properties") :
    propertiesMember? source ((some name, document) :: rest) = propertiesMember? source rest := by
  cases document <;> simp [propertiesMember?, h]

theorem propertiesMember?_properties {properties : Properties} {members : List (String × Json)}
    (hordered : (properties.entries.map Prod.fst).Pairwise (· < ·)) {n : Nat}
    (hread : decodeEntries? (.text n) (members.map fun (name, value) => (some name, value)) =
      some (normalizedFields properties.entries)) :
    propertiesMember? (.text (n + 1)) [(some "properties", .ofMembers members)] =
      some ⟨normalizedFields properties.entries⟩ := by
  rw [← names_normalizedFields] at hordered
  simp only [Json.ofMembers, propertiesMember?, if_true, Json.Source.enter?, hread,
    Option.bind_eq_bind, Option.bind_some, PropertyMap.ofPairs_of_ascending hordered]
  rfl

theorem written_encodeId (id : Option Int64) : Written (encodeId id) := by
  cases id with
  | none => exact .null
  | some n => exact .number (by simp [Decimal.Numeral.ofInt])

theorem written_encodeLabels (labels : LabelSet) : Written (encodeLabels labels) := by
  refine .array fun item hitem => ?_
  obtain ⟨label, -, rfl⟩ := List.mem_map.mp hitem
  exact .string label

theorem decodeNode?_encodeEntries {node : Node} {members : List (String × Json)}
    (h : encodeEntries node.properties.entries = .ok members)
    (hordered : (node.properties.entries.map Prod.fst).Pairwise (· < ·))
    (hfields : ∀ field ∈ node.properties.entries, field.2.ReadBack) :
    Written (nodeDocument node (.ofMembers members)) ∧
      ∀ n, (nodeDocument node (.ofMembers members)).levels ≤ n →
        decodeContent? (.text n) .node (nodeDocument node (.ofMembers members)) =
          some (normalized (.node node)) := by
  obtain ⟨hwritten, hread⟩ := decodeEntries?_encodeEntries h hfields
  constructor
  · refine .object ?_
    simp only [List.mem_cons, List.not_mem_nil, or_false, forall_eq_or_imp, forall_eq]
    exact ⟨written_encodeId _, written_encodeLabels _, .object hwritten⟩
  · intro n hlevels
    obtain ⟨m, rfl, hcontents⟩ := levels_ofMembers_le_iff.mp hlevels
    obtain ⟨k, rfl, hmembers⟩ := levels_ofMembers_le_iff.mp
      (hcontents ("properties", .ofMembers members) (by simp))
    have hid := decodeId?_encodeId node.id
    have hlabels := decodeLabels?_encodeLabels node.labels k
    have hproperties : propertiesMember? (.text (k + 1))
        [(some "id", encodeId node.id), (some "labels", encodeLabels node.labels),
          (some "properties", .ofMembers members)] =
            some ⟨normalizedFields node.properties.entries⟩ := by
      rw [propertiesMember?_cons_of_ne _ _ (by decide),
        propertiesMember?_cons_of_ne _ _ (by decide)]
      exact propertiesMember?_properties hordered (hread k hmembers)
    rw [nodeDocument, Json.ofMembers]
    simp only [List.map_cons, List.map_nil, decodeContent?, Json.Source.enter?, hproperties,
      Option.bind_eq_bind, Option.bind_some]
    simp [nodeOfMembers?, Json.fitsFields, Json.occurrences, Json.member?, idMember?, List.lookup,
      hid, hlabels, normalized]

theorem decodeRelationship?_encodeEntries {r : Relationship} {members : List (String × Json)}
    (h : encodeEntries r.properties.entries = .ok members)
    (hordered : (r.properties.entries.map Prod.fst).Pairwise (· < ·))
    (hfields : ∀ field ∈ r.properties.entries, field.2.ReadBack) :
    Written (relationshipDocument r (.ofMembers members)) ∧
      ∀ n, (relationshipDocument r (.ofMembers members)).levels ≤ n →
        decodeContent? (.text n) .relationship (relationshipDocument r (.ofMembers members)) =
          some (normalized (.relationship r)) := by
  obtain ⟨hwritten, hread⟩ := decodeEntries?_encodeEntries h hfields
  constructor
  · refine .object ?_
    simp only [List.mem_cons, List.not_mem_nil, or_false, forall_eq_or_imp, forall_eq]
    exact ⟨written_encodeId _, written_encodeId _, written_encodeId _, .string _,
      .object hwritten⟩
  · intro n hlevels
    obtain ⟨m, rfl, hcontents⟩ := levels_ofMembers_le_iff.mp hlevels
    obtain ⟨k, rfl, hmembers⟩ := levels_ofMembers_le_iff.mp
      (hcontents ("properties", .ofMembers members) (by simp))
    have hid := decodeId?_encodeId r.id
    have hstart := decodeId?_encodeId r.startNode
    have hend := decodeId?_encodeId r.endNode
    have hproperties : propertiesMember? (.text (k + 1))
        [(some "id", encodeId r.id), (some "start_node_id", encodeId r.startNode),
          (some "end_node_id", encodeId r.endNode), (some "type", .ofString r.type),
          (some "properties", .ofMembers members)] = some ⟨normalizedFields r.properties.entries⟩ := by
      rw [propertiesMember?_cons_of_ne _ _ (by decide),
        propertiesMember?_cons_of_ne _ _ (by decide), propertiesMember?_cons_of_ne _ _ (by decide),
        propertiesMember?_cons_of_ne _ _ (by decide)]
      exact propertiesMember?_properties hordered (hread k hmembers)
    rw [relationshipDocument, Json.ofMembers]
    simp only [List.map_cons, List.map_nil, decodeContent?, Json.Source.enter?, hproperties,
      Option.bind_eq_bind, Option.bind_some]
    simp [relationshipOfMembers?, Json.fitsFields, Json.occurrences, Json.member?, idMember?,
      List.lookup, Json.ofString, Json.asString?, hid, hstart, hend, normalized]

theorem readBack_of_ordered {v : Value} (hv : v.Ordered) : v.ReadBack := by
  induction v using induction_children with
  | step v ih =>
      have hchildren : ∀ child ∈ v.children, child.ReadBack := fun child hchild =>
        ih child hchild (hv.child hchild)
      have hfields : ∀ field ∈ v.fields, field.2.ReadBack := fun field hfield =>
        hchildren field.2 (List.mem_append_right _ (List.mem_map_of_mem hfield))
      have hordered := hv.fields
      cases v with
      | null => exact readBack_null
      | bool flag =>
          exact readBack_of_tagged rfl (.bool flag) fun n => by simp [decodeContent?, normalized]
      | int number =>
          exact readBack_of_tagged rfl (.number (by simp [Decimal.Numeral.ofInt])) fun n => by
            simp [Json.ofInt64, decodeContent?, toInt64?_ofInt, normalized]
      | float number => exact readBack_float number
      | string text =>
          exact readBack_of_tagged rfl (.string text) fun n => by
            simp [Json.ofString, decodeContent?, normalized]
      | expression text =>
          exact readBack_of_tagged rfl (.string text) fun n => by
            simp [Json.ofString, decodeContent?, normalized]
      | list items =>
          refine readBack_of_content fun document hdocument => ?_
          obtain ⟨documents, hdocuments, rfl⟩ := map_eq_ok hdocument
          obtain ⟨hwritten, hread⟩ := decodeItems?_encodeItems hdocuments
            fun item hitem => hchildren item (by rwa [children_list])
          refine ⟨.list, _, rfl, .array hwritten, fun n hlevels => ?_⟩
          obtain ⟨m, rfl, hitems⟩ := levels_array_le_iff.mp hlevels
          simp [decodeContent?, Json.Source.enter?, hread m hitems, normalized]
      | map entries =>
          refine readBack_of_content fun document hdocument => ?_
          obtain ⟨members, hmembers, rfl⟩ := map_eq_ok hdocument
          exact ⟨.map, _, rfl, decodeMap?_encodeEntries hmembers hordered hfields⟩
      | date d =>
          exact readBack_of_tagged rfl (.string _) fun n => by
            simp [encodeText, Json.ofString, decodeContent?, Temporal.readDate_text,
              normalized]
      | localTime t =>
          exact readBack_of_tagged rfl (.string _) fun n => by
            simp [encodeText, Json.ofString, decodeContent?, Temporal.readTime_exactText,
              normalized]
      | localDateTime t =>
          exact readBack_of_tagged rfl (.string _) fun n => by
            simp [encodeText, Json.ofString, decodeContent?, Temporal.readDateTime_exactText,
              normalized]
      | duration d => exact readBack_duration d
      | node n =>
          refine readBack_of_content fun document hdocument => ?_
          obtain ⟨members, hmembers, rfl⟩ := map_eq_ok hdocument
          exact ⟨.node, _, rfl, decodeNode?_encodeEntries hmembers hordered hfields⟩
      | relationship r =>
          refine readBack_of_content fun document hdocument => ?_
          obtain ⟨members, hmembers, rfl⟩ := map_eq_ok hdocument
          exact ⟨.relationship, _, rfl, decodeRelationship?_encodeEntries hmembers hordered hfields⟩

end Value

end Cypher
