import Cypher.Proofs.RoundTrip
import Cypher.Proofs.Value.Refusals

/-!
# What is read can be written

A value that a text gives has a serialized form, and that form gives the value again. Only finite
numbers and whole microseconds are ever read, names and labels come out in order, and no way of
writing a value takes fewer containers than the serialized form does.
-/

namespace Cypher

open Json (Source levels_array_le_iff levels_ofMembers_le_iff)

theorem levels_tagged_le_iff {kind : Kind} {content : Json} {n : Nat} :
    (tagged kind content).levels ≤ n + 1 ↔ content.levels ≤ n := by
  rw [tagged, levels_ofMembers_le_iff]
  constructor
  · rintro ⟨m, hm, h⟩
    rw [Nat.add_right_cancel hm]
    exact h ("value", content) (by simp)
  · intro h
    refine ⟨n, rfl, ?_⟩
    simp only [List.mem_cons, List.not_mem_nil, or_false, forall_eq_or_imp, forall_eq]
    exact ⟨Nat.zero_le n, h⟩

theorem levels_ofMembers_pos (members : List (String × Json)) :
    0 < (Json.ofMembers members).levels :=
  Nat.succ_pos _

theorem levels_encodeId (id : Option Int64) : (encodeId id).levels = 0 := by
  cases id <;> rfl

theorem levels_encodeLabels (labels : LabelSet) : (encodeLabels labels).levels ≤ 1 := by
  refine levels_array_le_iff.mpr ⟨0, rfl, fun item hitem => ?_⟩
  obtain ⟨label, -, rfl⟩ := List.mem_map.mp hitem
  exact le_rfl

theorem levels_nodeDocument_le_iff {node : Node} {members : List (String × Json)} {n : Nat} :
    (nodeDocument node (.ofMembers members)).levels ≤ n + 1 ↔
      (Json.ofMembers members).levels ≤ n := by
  have hpos := levels_ofMembers_pos members
  have hid := levels_encodeId node.id
  have hlabels := levels_encodeLabels node.labels
  rw [nodeDocument, levels_ofMembers_le_iff]
  simp only [List.mem_cons, List.not_mem_nil, or_false, forall_eq_or_imp, forall_eq]
  constructor
  · rintro ⟨m, hm, -, -, hproperties⟩
    omega
  · intro h
    exact ⟨n, rfl, by omega, by omega, h⟩

theorem levels_relationshipDocument_le_iff {r : Relationship} {members : List (String × Json)}
    {n : Nat} :
    (relationshipDocument r (.ofMembers members)).levels ≤ n + 1 ↔
      (Json.ofMembers members).levels ≤ n := by
  rw [relationshipDocument, levels_ofMembers_le_iff]
  simp only [List.mem_cons, List.not_mem_nil, or_false, forall_eq_or_imp, forall_eq,
    levels_encodeId]
  constructor
  · rintro ⟨m, hm, -, -, -, -, hproperties⟩
    omega
  · intro h
    exact ⟨n, rfl, Nat.zero_le n, Nat.zero_le n, Nat.zero_le n, Nat.zero_le n, h⟩

/-- A map that is written within some levels, and read back as it is. -/
structure Properties.Stable (n : Nat) (p : Properties) : Prop where
  ordered : Properties.Ordered p
  whole : Properties.normalized p = p
  written : ∃ d, Properties.encode p = .ok d ∧ d.levels ≤ n

namespace Value

structure Stable (n : Nat) (v : Value) : Prop where
  ordered : v.Ordered
  whole : v.normalized = v
  written : ∃ d, v.encode = .ok d ∧ d.levels ≤ n

theorem Stable.mono {m n : Nat} {v : Value} (h : v.Stable m) (hle : m ≤ n) : v.Stable n where
  ordered := h.ordered
  whole := h.whole
  written := by
    obtain ⟨d, hd, hlevels⟩ := h.written
    exact ⟨d, hd, hlevels.trans hle⟩

theorem ordered_of_children {v : Value} (hfields : (v.fields.map Prod.fst).Pairwise (· < ·))
    (h : ∀ child ∈ v.children, child.Ordered) : v.Ordered := by
  intro part hpart
  rcases mem_parts.mp hpart with rfl | ⟨child, hchild, hpart⟩
  · exact hfields
  · exact h child hchild part hpart

theorem ordered_iff_of_fields {v : Value} {p : Properties} (hitems : v.items = [])
    (hfields : v.fields = p.entries) : v.Ordered ↔ Properties.Ordered p := by
  have hchildren : v.children = p.entries.map Prod.snd := by
    rw [children, hitems, hfields, List.nil_append]
  constructor
  · intro h
    refine ⟨?_, fun entry hentry => h.child ?_⟩
    · have hnames := h.fields
      rwa [hfields] at hnames
    · rw [hchildren]
      exact List.mem_map_of_mem hentry
  · intro h
    apply ordered_of_children
    · rw [hfields]
      exact h.ascending
    · intro child hchild
      rw [hchildren] at hchild
      obtain ⟨entry, hentry, rfl⟩ := List.mem_map.mp hchild
      exact h.values entry hentry

/-! ### Scalars -/

theorem stable_of_tagged {v : Value} (kind : Kind) (content : Json)
    (h : v.encode = .ok (tagged kind content)) (hlevels : content.levels = 0)
    (hwhole : v.normalized = v) (hchildren : v.children = []) : v.Stable 1 where
  ordered := by
    have hfields : v.fields = [] := by simp_all [children]
    apply ordered_of_children
    · simp [hfields]
    · simp [hchildren]
  whole := hwhole
  written := ⟨_, h, levels_tagged_le_iff.mpr hlevels.le⟩

theorem stable_null : Value.null.Stable 1 where
  ordered := ordered_of_children List.Pairwise.nil (by simp [children, items, fields])
  whole := rfl
  written := ⟨_, rfl, le_rfl⟩

theorem stable_float {x : Binary64} (h : x.isFinite = true) : (Value.float x).Stable 1 :=
  stable_of_tagged _ _ (encode_float h) rfl rfl rfl

theorem stable_duration (n : Int64) : (Value.duration (.ofMicroseconds n)).Stable 1 := by
  have hmicros := Duration.microseconds?_ofMicroseconds n
  have hencode : (Value.duration (.ofMicroseconds n)).encode =
      .ok (tagged .duration (.ofInt64 n)) := by
    rw [encode, encodeDuration, hmicros]
    rfl
  refine stable_of_tagged _ _ hencode rfl ?_ rfl
  rw [normalized, ← ofMicroseconds_of_microseconds? hmicros]

/-! ### Lists, maps and entities -/

theorem normalizedItems_eq_self {items : List Value} (h : ∀ item ∈ items, item.normalized = item) :
    normalizedItems items = items := by
  induction items with
  | nil => rfl
  | cons item rest ih =>
      rw [List.forall_mem_cons] at h
      rw [normalizedItems, h.1, ih h.2]

theorem normalizedFields_eq_self {fields : List (String × Value)}
    (h : ∀ field ∈ fields, field.2.normalized = field.2) : normalizedFields fields = fields := by
  induction fields with
  | nil => rfl
  | cons field rest ih =>
      obtain ⟨name, value⟩ := field
      rw [List.forall_mem_cons] at h
      rw [normalizedFields, h.1, ih h.2]

theorem exists_encodeItems {items : List Value} {n : Nat} (h : ∀ item ∈ items, item.Stable n) :
    ∃ documents, encodeItems items = .ok documents ∧ ∀ d ∈ documents, d.levels ≤ n := by
  induction items with
  | nil => exact ⟨[], rfl, by simp⟩
  | cons item rest ih =>
      rw [List.forall_mem_cons] at h
      obtain ⟨d, hd, hlevels⟩ := h.1.written
      obtain ⟨documents, hdocuments, hrest⟩ := ih h.2
      refine ⟨d :: documents, ?_, List.forall_mem_cons.mpr ⟨hlevels, hrest⟩⟩
      rw [encodeItems, hd, hdocuments]
      rfl

theorem exists_encodeEntries {fields : List (String × Value)} {n : Nat}
    (h : ∀ field ∈ fields, field.2.Stable n) :
    ∃ members, encodeEntries fields = .ok members ∧ ∀ member ∈ members, member.2.levels ≤ n := by
  induction fields with
  | nil => exact ⟨[], rfl, by simp⟩
  | cons field rest ih =>
      obtain ⟨name, value⟩ := field
      rw [List.forall_mem_cons] at h
      obtain ⟨d, hd, hlevels⟩ := h.1.written
      obtain ⟨members, hmembers, hrest⟩ := ih h.2
      refine ⟨(name, d) :: members, ?_, List.forall_mem_cons.mpr ⟨hlevels, hrest⟩⟩
      rw [encodeEntries, hd, hmembers]
      rfl

theorem stable_list {items : List Value} {n : Nat} (h : ∀ item ∈ items, item.Stable n) :
    (Value.list items).Stable (n + 2) where
  ordered := by
    apply ordered_of_children List.Pairwise.nil
    intro item hitem
    rw [children_list] at hitem
    exact (h item hitem).ordered
  whole := by rw [normalized, normalizedItems_eq_self fun item hitem => (h item hitem).whole]
  written := by
    obtain ⟨documents, hdocuments, hlevels⟩ := exists_encodeItems h
    refine ⟨tagged .list (.array documents), by rw [encode, hdocuments]; rfl, ?_⟩
    exact levels_tagged_le_iff.mpr (levels_array_le_iff.mpr ⟨n, rfl, hlevels⟩)

theorem stable_properties {p : Properties} {n : Nat} (hascending : p.Ascending)
    (h : ∀ entry ∈ p.entries, entry.2.Stable n) : Properties.Stable (n + 1) p where
  ordered := ⟨hascending, fun entry hentry => (h entry hentry).ordered⟩
  whole := by
    rw [Properties.normalized, normalizedFields_eq_self fun entry hentry => (h entry hentry).whole]
  written := by
    obtain ⟨members, hmembers, hlevels⟩ := exists_encodeEntries h
    refine ⟨.ofMembers members, by rw [Properties.encode, hmembers]; rfl, ?_⟩
    exact levels_ofMembers_le_iff.mpr ⟨n, rfl, hlevels⟩

/-- A value whose children are those of a map is as stable as the map, if it is written and cut off
by way of the map. -/
theorem stable_iff_of_fields {v : Value} {p : Properties} {m n : Nat} (hitems : v.items = [])
    (hfields : v.fields = p.entries) (hwhole : v.normalized = v ↔ Properties.normalized p = p)
    (hwritten : (∃ d, v.encode = .ok d ∧ d.levels ≤ m) ↔
      ∃ d, Properties.encode p = .ok d ∧ d.levels ≤ n) :
    v.Stable m ↔ Properties.Stable n p := by
  have hordered := ordered_iff_of_fields hitems hfields
  constructor
  · intro h
    exact ⟨hordered.mp h.ordered, hwhole.mp h.whole, hwritten.mp h.written⟩
  · intro h
    exact ⟨hordered.mpr h.ordered, hwhole.mpr h.whole, hwritten.mpr h.written⟩

theorem stable_map_iff {p : Properties} {n : Nat} :
    (Value.map p).Stable (n + 1) ↔ Properties.Stable n p := by
  apply stable_iff_of_fields rfl rfl
  · rw [normalized, Value.map.injEq, Properties.normalized]
  · rw [encode, Properties.encode, exists_map_eq_ok_iff, exists_map_eq_ok_iff]
    simp only [levels_tagged_le_iff]

theorem stable_node_iff {node : Node} {n : Nat} :
    (Value.node node).Stable (n + 2) ↔ Properties.Stable n node.properties := by
  apply stable_iff_of_fields rfl rfl
  · cases node
    simp only [normalized, Value.node.injEq, NodeOf.mk.injEq, true_and, Properties.normalized]
  · rw [encode, Properties.encode, exists_map_eq_ok_iff, exists_map_eq_ok_iff]
    simp only [levels_tagged_le_iff, levels_nodeDocument_le_iff]

theorem stable_relationship_iff {r : Relationship} {n : Nat} :
    (Value.relationship r).Stable (n + 2) ↔ Properties.Stable n r.properties := by
  apply stable_iff_of_fields rfl rfl
  · cases r
    simp only [normalized, Value.relationship.injEq, RelationshipOf.mk.injEq, true_and,
      Properties.normalized]
  · rw [encode, Properties.encode, exists_map_eq_ok_iff, exists_map_eq_ok_iff]
    simp only [levels_tagged_le_iff, levels_relationshipDocument_le_iff]

/-! ### Reading -/

theorem decodeMember?_eq_bind (source : Source) (kind : Kind) (members : Json.Members) :
    decodeMember? source kind members =
      (Json.member? members "value").bind (decodeContent? source kind) := by
  induction members with
  | nil => rfl
  | cons member rest ih =>
      obtain ⟨name, d⟩ := member
      rw [decodeMember?, Json.member?, List.lookup_cons]
      by_cases hname : name = some "value"
      · simp [hname]
      · have hne : (some "value" == name) = false := beq_eq_false_iff_ne.mpr (Ne.symm hname)
        rw [if_neg hname, hne, ih]
        rfl

theorem decode?_properties (source : Source) (members : Json.Members) :
    Properties.decode? source (.object members) =
      source.enter?.bind fun inner => (decodeEntries? inner members).map PropertyMap.ofPairs := by
  rw [Properties.decode?, decodeContent?]
  cases source.enter? with
  | none => rfl
  | some inner =>
      cases hentries : decodeEntries? inner members with
      | none => simp [hentries]
      | some entries => simp [hentries, ofPairs, asMap?]

theorem propertiesMember?_eq_bind (source : Source) (members : Json.Members) :
    propertiesMember? source members =
      (Json.member? members "properties").bind (Properties.decode? source) := by
  induction members with
  | nil => rfl
  | cons member rest ih =>
      obtain ⟨name, d⟩ := member
      rw [Json.member?, List.lookup_cons]
      by_cases hname : name = some "properties"
      · subst hname
        cases d with
        | object members =>
            simp [propertiesMember?, decode?_properties, Option.map_eq_bind]
        | _ => simp [propertiesMember?, Properties.decode?, decodeContent?]
      · have hne : (some "properties" == name) = false := beq_eq_false_iff_ne.mpr (Ne.symm hname)
        rw [hne]
        cases d <;> simp [propertiesMember?, hname, ih, Json.member?]

theorem properties_of_nodeOfMembers? {source : Source} {members : Json.Members}
    {properties : Option Properties} {node : Node}
    (h : nodeOfMembers? source members properties = some node) :
    properties = some node.properties := by
  rw [nodeOfMembers?, Option.ite_none_right_eq_some] at h
  obtain ⟨-, h⟩ := h
  simp only [Option.bind_eq_bind, Option.bind_eq_some_iff] at h
  obtain ⟨id, -, labels, -, p, rfl, hnode⟩ := h
  rw [← Option.some.inj hnode]

theorem properties_of_relationshipOfMembers? {members : Json.Members}
    {properties : Option Properties} {r : Relationship}
    (h : relationshipOfMembers? members properties = some r) : properties = some r.properties := by
  rw [relationshipOfMembers?, Option.ite_none_right_eq_some] at h
  obtain ⟨-, h⟩ := h
  simp only [Option.bind_eq_bind, Option.bind_eq_some_iff] at h
  obtain ⟨id, -, startNode, -, endNode, -, type, -, p, rfl, hr⟩ := h
  rw [← Option.some.inj hr]

/-- What a document gives: a scalar, or a value that is put together from the contents of the
document. -/
inductive Given (source : Source) (d : Json) : Value → Prop
  | scalar {v : Value} (h : v.Stable 1) : Given source d v
  | list {inner : Source} {values : List Value} (henter : source.enter? = some inner)
      (hcontainer : 0 < d.levels) (h : decodeItems? inner d.contents = some values) :
      Given source d (.list values)
  | map {inner : Source} {members : Json.Members} {entries : List (String × Value)}
      (henter : source.enter? = some inner) (hd : d = .object members)
      (h : decodeEntries? inner members = some entries) : Given source d (.ofPairs entries)
  | node {inner : Source} {content : Json} {node : Node} (henter : source.enter? = some inner)
      (hcontent : content ∈ d.contents)
      (h : Properties.decode? inner content = some node.properties) : Given source d (.node node)
  | relationship {inner : Source} {content : Json} {r : Relationship}
      (henter : source.enter? = some inner) (hcontent : content ∈ d.contents)
      (h : Properties.decode? inner content = some r.properties) : Given source d (.relationship r)

theorem given_of_decodeContent? {source : Source} {kind : Kind} {d : Json} {v : Value}
    (h : decodeContent? source kind d = some v) : Given source d v := by
  unfold decodeContent? at h
  split at h
  case h_1 =>
      rw [← Option.some.inj h]
      exact .scalar stable_null
  case h_2 flag =>
      rw [← Option.some.inj h]
      exact .scalar (stable_of_tagged .bool (.bool flag) rfl rfl rfl rfl)
  case h_3 n =>
      obtain ⟨i, -, rfl⟩ := Option.map_eq_some_iff.mp h
      exact .scalar (stable_of_tagged .int (.ofInt64 i) rfl rfl rfl rfl)
  case h_4 n =>
      obtain ⟨x, hx, rfl⟩ := Option.map_eq_some_iff.mp h
      exact .scalar (stable_float (Decimal.Numeral.isFinite_of_toBinary64? hx))
  case h_5 s =>
      obtain ⟨text, -, rfl⟩ := Option.map_eq_some_iff.mp h
      exact .scalar (stable_of_tagged .string (.ofString text) rfl rfl rfl rfl)
  case h_6 items =>
      simp only [Option.bind_eq_bind, Option.bind_eq_some_iff] at h
      obtain ⟨inner, henter, values, hvalues, hv⟩ := h
      rw [← Option.some.inj hv]
      exact .list henter (Nat.succ_pos _) hvalues
  case h_7 members =>
      simp only [Option.bind_eq_bind, Option.bind_eq_some_iff] at h
      obtain ⟨inner, henter, entries, hentries, hv⟩ := h
      rw [← Option.some.inj hv]
      exact .map henter rfl hentries
  case h_8 s =>
      obtain ⟨text, -, rfl⟩ := Option.map_eq_some_iff.mp h
      exact .scalar (stable_of_tagged .expression (.ofString text) rfl rfl rfl rfl)
  case h_9 s =>
      obtain ⟨text, -, h⟩ := Option.bind_eq_some_iff.mp h
      obtain ⟨date, -, rfl⟩ := Option.map_eq_some_iff.mp h
      exact .scalar (stable_of_tagged .date _ rfl rfl rfl rfl)
  case h_10 s =>
      obtain ⟨text, -, h⟩ := Option.bind_eq_some_iff.mp h
      obtain ⟨time, htime, rfl⟩ := Option.map_eq_some_iff.mp h
      have hwhole : (Value.localTime time).normalized = .localTime time := by
        rw [normalized, Temporal.carried_of_readTime htime]
      exact .scalar (stable_of_tagged .localTime _ rfl rfl hwhole rfl)
  case h_11 s =>
      obtain ⟨text, -, h⟩ := Option.bind_eq_some_iff.mp h
      obtain ⟨time, htime, rfl⟩ := Option.map_eq_some_iff.mp h
      have hwhole : (Value.localDateTime time).normalized = .localDateTime time := by
        rw [normalized, Temporal.carried_of_readDateTime htime]
      exact .scalar (stable_of_tagged .localDateTime _ rfl rfl hwhole rfl)
  case h_12 n =>
      obtain ⟨micros, -, rfl⟩ := Option.map_eq_some_iff.mp h
      exact .scalar (stable_duration micros)
  case h_13 members =>
      simp only [Option.bind_eq_bind, Option.bind_eq_some_iff] at h
      obtain ⟨inner, henter, node, hnode, hv⟩ := h
      rw [← Option.some.inj hv]
      have hproperties := properties_of_nodeOfMembers? hnode
      rw [propertiesMember?_eq_bind] at hproperties
      obtain ⟨content, hcontent, hread⟩ := Option.bind_eq_some_iff.mp hproperties
      exact .node henter (Json.mem_contents_of_member? hcontent) hread
  case h_14 idPart labelsPart properties =>
      simp only [Option.bind_eq_bind, Option.bind_eq_some_iff] at h
      obtain ⟨inner, henter, id, -, labels, -, innermost, hopen, entries, hentries, hv⟩ := h
      rw [← Option.some.inj hv]
      have hcontent : Json.object properties ∈
          (Json.array [idPart, labelsPart, .object properties]).contents := by simp [Json.contents]
      refine .node henter hcontent ?_
      rw [decode?_properties, hopen, Option.bind_some, hentries, Option.map_some]
  case h_15 members =>
      simp only [Option.bind_eq_bind, Option.bind_eq_some_iff] at h
      obtain ⟨inner, henter, r, hr, hv⟩ := h
      rw [← Option.some.inj hv]
      have hproperties := properties_of_relationshipOfMembers? hr
      rw [propertiesMember?_eq_bind] at hproperties
      obtain ⟨content, hcontent, hread⟩ := Option.bind_eq_some_iff.mp hproperties
      exact .relationship henter (Json.mem_contents_of_member? hcontent) hread
  case h_16 idPart startPart endPart typePart properties =>
      simp only [Option.bind_eq_bind, Option.bind_eq_some_iff] at h
      obtain ⟨inner, henter, id, -, startNode, -, endNode, -, type, -, innermost, hopen, entries,
        hentries, hv⟩ := h
      rw [← Option.some.inj hv]
      have hcontent : Json.object properties ∈
          (Json.array [idPart, startPart, endPart, typePart, .object properties]).contents := by
        simp [Json.contents]
      refine .relationship henter hcontent ?_
      rw [decode?_properties, hopen, Option.bind_some, hentries, Option.map_some]
  case h_17 => exact absurd h (by simp)

theorem stable_of_decodeItems? {source : Source} {items : List Json} {values : List Value} {n : Nat}
    (h : decodeItems? source items = some values)
    (hitems : ∀ item ∈ items, ∀ v, decode? source item = some v → v.Stable n) :
    ∀ v ∈ values, v.Stable n := by
  induction items generalizing values with
  | nil =>
      rw [← Option.some.inj h]
      simp
  | cons item rest ih =>
      simp only [decodeItems?, Option.bind_eq_bind, Option.bind_eq_some_iff] at h
      obtain ⟨first, hfirst, others, hothers, hvalues⟩ := h
      rw [← Option.some.inj hvalues]
      rw [List.forall_mem_cons] at hitems
      exact List.forall_mem_cons.mpr ⟨hitems.1 first hfirst, ih hothers hitems.2⟩

theorem stable_of_decodeEntries? {source : Source} {members : Json.Members}
    {entries : List (String × Value)} {n : Nat} (h : decodeEntries? source members = some entries)
    (hmembers : ∀ member ∈ members, ∀ v, decode? source member.2 = some v → v.Stable n) :
    ∀ entry ∈ entries, entry.2.Stable n := by
  induction members generalizing entries with
  | nil =>
      rw [← Option.some.inj h]
      simp
  | cons member rest ih =>
      simp only [decodeEntries?, Option.bind_eq_bind, Option.bind_eq_some_iff] at h
      obtain ⟨name, -, first, hfirst, others, hothers, hentries⟩ := h
      rw [← Option.some.inj hentries]
      rw [List.forall_mem_cons] at hmembers
      exact List.forall_mem_cons.mpr ⟨hmembers.1 first hfirst, ih hothers hmembers.2⟩

theorem stable_ofPairs {pairs : List (String × Value)} {n : Nat}
    (h : ∀ pair ∈ pairs, pair.2.Stable n) : Properties.Stable (n + 1) (.ofPairs pairs) := by
  apply stable_properties (PropertyMap.ascending_ofPairs pairs)
  intro entry hentry
  exact h entry (PropertyMap.mem_of_mem_ofPairs hentry)

theorem reach_le_of_contentSource? {source contentSource : Source} {members : Json.Members}
    {content : Json} (h : contentSource? source members = some contentSource)
    (hcontent : Json.member? members "value" = some content) :
    contentSource.reach content ≤ source.reach content := by
  rw [contentSource?, hcontent] at h
  split at h
  · rw [Option.some.inj h]
  · simp only [Option.ite_none_right_eq_some] at h
    rw [← Option.some.inj h.2]
    exact Source.levels_le_reach_of_canHold h.1

theorem exists_content_of_decode? {source : Source} {d : Json} {v : Value}
    (h : decode? source d = some v) :
    ∃ inner, source.enter? = some inner ∧ 0 < d.levels ∧
      (v = .null ∨ ∃ content ∈ d.contents, ∃ contentSource kind,
        contentSource.reach content ≤ inner.reach content ∧
          decodeContent? contentSource kind content = some v) := by
  unfold decode? at h
  split at h
  case h_1 members =>
      simp only [Option.bind_eq_bind, Option.bind_eq_some_iff, Option.ite_none_right_eq_some] at h
      obtain ⟨inner, henter, -, kind, -, h⟩ := h
      refine ⟨inner, henter, Nat.succ_pos _, ?_⟩
      split at h
      · rw [Option.ite_none_right_eq_some] at h
        exact .inl (Option.some.inj h.2).symm
      · obtain ⟨contentSource, hsource, hread⟩ := Option.bind_eq_some_iff.mp h
        rw [decodeMember?_eq_bind] at hread
        obtain ⟨content, hcontent, hread⟩ := Option.bind_eq_some_iff.mp hread
        exact .inr ⟨content, Json.mem_contents_of_member? hcontent, contentSource, kind,
          reach_le_of_contentSource? hsource hcontent, hread⟩
  case h_2 tag content =>
      simp only [Option.bind_eq_bind, Option.bind_eq_some_iff] at h
      obtain ⟨inner, henter, kind, -, hread⟩ := h
      exact ⟨inner, henter, Nat.succ_pos _, .inr ⟨content, by simp [Json.contents], inner, kind,
        le_rfl, hread⟩⟩
  case h_3 => exact absurd h (by simp)

theorem stable_of_decode?_properties {source : Source} {d : Json} {p : Properties} {n : Nat}
    (h : Properties.decode? source d = some p)
    (hd : ∀ kind v, decodeContent? source kind d = some v → v.Stable (n + 1)) :
    Properties.Stable n p := by
  obtain ⟨v, hv, hp⟩ := Option.bind_eq_some_iff.mp h
  have hstable := hd .map v hv
  cases v with
  | map entries =>
      rw [← Option.some.inj hp]
      exact stable_map_iff.mp hstable
  | _ => exact absurd hp (by simp [asMap?])

/-- What gives stable values, with one level more if it is read as the content of a value. -/
def GivesStable (d : Json) : Prop :=
  ∀ (source : Source) (n : Nat), source.reach d ≤ n →
    (∀ v, decode? source d = some v → v.Stable n) ∧
    ∀ kind v, decodeContent? source kind d = some v → v.Stable (n + 1)

/-- Every document gives stable values only, nested no more deeply than the reader could go. -/
theorem givesStable (d : Json) : GivesStable d := by
  induction d using Json.induction_contents with
  | step d ih =>
      intro source n hn
      constructor
      · intro v hv
        obtain ⟨inner, henter, hcontainer, hread⟩ := exists_content_of_decode? hv
        obtain ⟨m, rfl, hreach⟩ := Source.reach_le_of_enter? henter hcontainer hn
        rcases hread with rfl | ⟨content, hcontent, contentSource, kind, hsource, hread⟩
        · exact stable_null.mono (by omega)
        · have hinner := hsource.trans (hreach content hcontent)
          exact (ih content hcontent contentSource m hinner).2 kind v hread
      · intro kind v hv
        cases given_of_decodeContent? hv with
        | scalar h => exact h.mono (by omega)
        | list henter hcontainer h =>
            obtain ⟨m, rfl, hreach⟩ := Source.reach_le_of_enter? henter hcontainer hn
            refine stable_list (stable_of_decodeItems? h fun item hitem => ?_)
            exact (ih item hitem _ m (hreach item hitem)).1
        | @map inner members entries henter hd h =>
            subst hd
            have hcontainer : 0 < (Json.object members).levels := Nat.succ_pos _
            obtain ⟨m, rfl, hreach⟩ := Source.reach_le_of_enter? henter hcontainer hn
            refine stable_map_iff.mpr (stable_ofPairs (stable_of_decodeEntries? h ?_))
            intro member hmember
            have hcontent : member.2 ∈ (Json.object members).contents := List.mem_map_of_mem hmember
            exact (ih member.2 hcontent inner m (hreach member.2 hcontent)).1
        | node henter hcontent h =>
            have hcontainer := Nat.zero_lt_of_lt (Json.levels_lt_of_mem_contents hcontent)
            obtain ⟨m, rfl, hreach⟩ := Source.reach_le_of_enter? henter hcontainer hn
            apply stable_node_iff.mpr
            exact stable_of_decode?_properties h (ih _ hcontent _ m (hreach _ hcontent)).2
        | relationship henter hcontent h =>
            have hcontainer := Nat.zero_lt_of_lt (Json.levels_lt_of_mem_contents hcontent)
            obtain ⟨m, rfl, hreach⟩ := Source.reach_le_of_enter? henter hcontainer hn
            apply stable_relationship_iff.mpr
            exact stable_of_decode?_properties h (ih _ hcontent _ m (hreach _ hcontent)).2

end Value

/-- What has only representable leaves, is written, and is again what its text gives. -/
structure Reproduced {α : Type} (encode : α → Except EncodeError Json)
    (decode? : Source → Json → Option α) (leaves : List PlacedLeaf) (x : α) : Prop where
  representable : ∀ l ∈ leaves, l.leaf.Representable
  read_back : ∃ d, encode x = .ok d ∧ (Json.parse? d.text).bind (decode? .wholeText) = some x

theorem reproduced_of_written {α : Type} {encode : α → Except EncodeError Json}
    {decode? : Source → Json → Option α} {leaves : List PlacedLeaf} {x : α}
    (hfirst : ReportsFirst (encode x) leaves)
    (hwritten : ∃ d, encode x = .ok d ∧ d.levels ≤ Source.levelLimit)
    (hread : ∀ d, encode x = .ok d → d.levels ≤ Source.levelLimit →
      (Json.parse? d.text).bind (decode? .wholeText) = some x) :
    Reproduced encode decode? leaves x := by
  obtain ⟨d, hd, hlevels⟩ := hwritten
  exact ⟨hfirst.succeeds_iff.mp ⟨d, hd⟩, d, hd, hread d hd hlevels⟩

theorem Value.Stable.reproduced {v : Value} (h : v.Stable Source.levelLimit) :
    Reproduced Value.encode Value.decode? v.leaves v := by
  apply reproduced_of_written v.reportsFirst_encode h.written
  intro d hd hlevels
  rw [Value.parse?_bind_decode? h.ordered hd hlevels, h.whole]

theorem Properties.Stable.reproduced {p : Properties} (h : Properties.Stable Source.levelLimit p) :
    Reproduced Properties.encode Properties.decode? (Value.map p).leaves p := by
  apply reproduced_of_written (Properties.reportsFirst_encode p) h.written
  intro d hd hlevels
  rw [Properties.parse?_bind_decode? h.ordered hd hlevels, h.whole]

theorem NodeOf.reproduced {n : Node} (h : (Value.node n).Stable (Source.levelLimit + 1)) :
    Reproduced NodeOf.encode NodeOf.decode? (Value.node n).leaves n := by
  have hproperties : Properties.Stable 126 n.properties := Value.stable_node_iff.mp h
  apply reproduced_of_written n.reportsFirst_encode
  · have hwritten := hproperties.written
    rw [Properties.encode, exists_map_eq_ok_iff] at hwritten
    obtain ⟨members, hmembers, hlevels⟩ := hwritten
    rw [NodeOf.encode, hmembers]
    exact ⟨_, rfl, levels_nodeDocument_le_iff.mpr hlevels⟩
  · intro d hd hlevels
    rw [NodeOf.parse?_bind_decode? hproperties.ordered hd hlevels, NodeOf.normalized,
      hproperties.whole]

theorem RelationshipOf.reproduced {r : Relationship}
    (h : (Value.relationship r).Stable (Source.levelLimit + 1)) :
    Reproduced RelationshipOf.encode RelationshipOf.decode? (Value.relationship r).leaves r := by
  have hproperties : Properties.Stable 126 r.properties := Value.stable_relationship_iff.mp h
  apply reproduced_of_written r.reportsFirst_encode
  · have hwritten := hproperties.written
    rw [Properties.encode, exists_map_eq_ok_iff] at hwritten
    obtain ⟨members, hmembers, hlevels⟩ := hwritten
    rw [RelationshipOf.encode, hmembers]
    exact ⟨_, rfl, levels_relationshipDocument_le_iff.mpr hlevels⟩
  · intro d hd hlevels
    rw [RelationshipOf.parse?_bind_decode? hproperties.ordered hd hlevels,
      RelationshipOf.normalized, hproperties.whole]

/-- Every value, node, relationship or record that a text gives is written without an error, and is
what that second text gives. -/
theorem decoded_texts_reproduced (text : String) :
    (∀ v : Value, (Json.parse? text).bind (Value.decode? .wholeText) = some v →
      Reproduced Value.encode Value.decode? v.leaves v) ∧
    (∀ n : Node, (Json.parse? text).bind (NodeOf.decode? .wholeText) = some n →
      Reproduced NodeOf.encode NodeOf.decode? (Value.node n).leaves n) ∧
    (∀ r : Relationship, (Json.parse? text).bind (RelationshipOf.decode? .wholeText) = some r →
      Reproduced RelationshipOf.encode RelationshipOf.decode? (Value.relationship r).leaves r) ∧
    ∀ p : Record, (Json.parse? text).bind (Properties.decode? .wholeText) = some p →
      Reproduced Properties.encode Properties.decode? (Value.map p).leaves p := by
  refine ⟨fun v h => ?_, fun n h => ?_, fun r h => ?_, fun p h => ?_⟩
  · obtain ⟨d, -, hread⟩ := Option.bind_eq_some_iff.mp h
    exact ((Value.givesStable d .wholeText _ le_rfl).1 v hread).reproduced
  · obtain ⟨d, -, hread⟩ := Option.bind_eq_some_iff.mp h
    obtain ⟨v, hv, hn⟩ := Option.bind_eq_some_iff.mp hread
    have hstable := (Value.givesStable d .wholeText _ le_rfl).2 .node v hv
    cases v with
    | node node =>
        rw [← Option.some.inj hn]
        exact NodeOf.reproduced hstable
    | _ => exact absurd hn (by simp [Value.asNode?])
  · obtain ⟨d, -, hread⟩ := Option.bind_eq_some_iff.mp h
    obtain ⟨v, hv, hr⟩ := Option.bind_eq_some_iff.mp hread
    have hstable := (Value.givesStable d .wholeText _ le_rfl).2 .relationship v hv
    cases v with
    | relationship relationship =>
        rw [← Option.some.inj hr]
        exact RelationshipOf.reproduced hstable
    | _ => exact absurd hr (by simp [Value.asRelationship?])
  · obtain ⟨d, -, hread⟩ := Option.bind_eq_some_iff.mp h
    have hstable := Value.stable_of_decode?_properties hread
      (Value.givesStable d .wholeText Source.levelLimit le_rfl).2
    exact hstable.reproduced

/-- Arrays for objects, a content before its kind, unknown members, and names and labels given twice:
what is read is reproduced all the same. -/
theorem unusual_texts_reproduced :
    let valueText := "\x7b\"value\":[[\"float\",5e-1],\x7b\"of\":[],\"type\":\"map\"," ++
      "\"value\":\x7b\"b\":[\"duration\",-1],\"a\":[\"int\",2],\"a\":[\"int\",1]\x7d\x7d]," ++
      "\"type\":\"list\"\x7d"
    let nodeText := "[null,[\"B\",\"A\",\"B\"],\x7b\"p\":[\"null\",null]\x7d]"
    (∃ v, (Json.parse? valueText).bind (Value.decode? .wholeText) = some v ∧
      v.literal = "[0.5, \x7ba: 1, b: duration('-P0DT0H0M0.000001S')\x7d]" ∧
      Reproduced Value.encode Value.decode? v.leaves v) ∧
    ∃ n, (Json.parse? nodeText).bind (NodeOf.decode? .wholeText) = some n ∧
      n.labels.toList = ["A", "B"] ∧
      Reproduced NodeOf.encode NodeOf.decode? (Value.node n).leaves n := by
  intro valueText nodeText
  have hvalue : ((Json.parse? valueText).bind (Value.decode? .wholeText)).map Value.literal =
      some "[0.5, \x7ba: 1, b: duration('-P0DT0H0M0.000001S')\x7d]" := by decide +kernel
  have hnode : ((Json.parse? nodeText).bind (NodeOf.decode? .wholeText)).map
      (fun n => n.labels.toList) = some ["A", "B"] := by decide +kernel
  obtain ⟨v, hv, hliteral⟩ := Option.map_eq_some_iff.mp hvalue
  obtain ⟨n, hn, hlabels⟩ := Option.map_eq_some_iff.mp hnode
  exact ⟨⟨v, hv, hliteral, (decoded_texts_reproduced valueText).1 v hv⟩,
    n, hn, hlabels, (decoded_texts_reproduced nodeText).2.1 n hn⟩

end Cypher
