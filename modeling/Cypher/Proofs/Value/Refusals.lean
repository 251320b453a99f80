import Cypher.Proofs.Value.Leaves
import Cypher.Proofs.Value.Parts

/-!
# Values without serialized form

A value has a serialized form if every number in it is finite and every duration fits into 64 bits
of microseconds. The error is that of the first leaf, in the order of writing, of which this is not
so. The literal of the value is not affected.
-/

namespace Cypher

/-- What is no finite number, and the name it has in an error. -/
inductive Binary64.Named : Binary64 → String → Prop
  | nan {x : Binary64} (h : x.isNaN = true) : Named x "NaN"
  | infinity {x : Binary64} (h : x.isFinite = false ∧ x.isNaN = false ∧ x.negative = false) :
      Named x "inf"
  | negInfinity {x : Binary64} (h : x.isFinite = false ∧ x.isNaN = false ∧ x.negative = true) :
      Named x "-inf"

theorem Binary64.named_iff {x : Binary64} {name : String} :
    x.Named name ↔ x.isFinite = false ∧ nonFiniteName x = name := by
  constructor
  · intro h
    cases h with
    | nan h =>
        have hfinite : x.isFinite = false := by simp_all [isNaN, isFinite]
        exact ⟨hfinite, by rw [nonFiniteName, if_pos h]⟩
    | infinity h => exact ⟨h.1, by simp [nonFiniteName, h.2]⟩
    | negInfinity h => exact ⟨h.1, by simp [nonFiniteName, h.2]⟩
  · rintro ⟨hfinite, rfl⟩
    rw [nonFiniteName]
    split
    · rename_i hnan
      exact .nan hnan
    · rename_i hnan
      rw [Bool.not_eq_true] at hnan
      split
      · rename_i hneg
        exact .negInfinity ⟨hfinite, hnan, hneg⟩
      · rename_i hneg
        rw [Bool.not_eq_true] at hneg
        exact .infinity ⟨hfinite, hnan, hneg⟩

namespace Leaf

/-- The leaf can be written as a number in a document. -/
def Representable : Leaf → Prop
  | float x => x.isFinite = true
  | duration d =>
    -2 ^ (63 : Nat) ≤ d.nanoseconds.tdiv 1000 ∧ d.nanoseconds.tdiv 1000 ≤ 2 ^ (63 : Nat) - 1

instance : DecidablePred Representable := fun leaf =>
  match leaf with
  | float x => inferInstanceAs (Decidable (x.isFinite = true))
  | duration d => inferInstanceAs (Decidable
      (-2 ^ (63 : Nat) ≤ d.nanoseconds.tdiv 1000 ∧ d.nanoseconds.tdiv 1000 ≤ 2 ^ (63 : Nat) - 1))

/-- The text that a leaf is refused with. -/
inductive Refused : Leaf → String → Prop
  | float {x : Binary64} {name : String} (h : x.Named name) :
      Refused (.float x) ("non-finite float `" ++ name ++ "` has no serialized form")
  | duration {d : Duration} (h : ¬(Leaf.duration d).Representable) :
      Refused (.duration d) "duration does not fit into i64 microseconds"

def fault? : Leaf → Option EncodeError
  | float x => failure? (encodeFloat x)
  | duration d => failure? (encodeDuration d)

theorem fault?_float (x : Binary64) :
    (float x).fault? = if x.isFinite then none else some (.nonFinite x) := by
  rw [fault?, encodeFloat]
  split <;> rfl

theorem fault?_duration (d : Duration) :
    (duration d).fault? = if (duration d).Representable then none else some .longDuration := by
  have hrange : (duration d).Representable ↔
      -2 ^ (63 : Nat) ≤ d.microseconds ∧ d.microseconds < 2 ^ (63 : Nat) := by
    rw [Representable, Duration.microseconds]
    omega
  rw [fault?, encodeDuration, Duration.microseconds?]
  by_cases h : (duration d).Representable
  · rw [if_pos h, if_pos (hrange.mp h)]
    rfl
  · rw [if_neg h, if_neg fun hword => h (hrange.mpr hword)]
    rfl

theorem fault?_eq_none_iff {leaf : Leaf} : leaf.fault? = none ↔ leaf.Representable := by
  cases leaf with
  | float x => simp [fault?_float, Representable]
  | duration d => simp [fault?_duration]

theorem exists_message_iff {leaf : Leaf} {text : String} :
    (∃ e, leaf.fault? = some e ∧ e.message = text) ↔ leaf.Refused text := by
  constructor
  · intro hfault
    obtain ⟨e, he, rfl⟩ := hfault
    cases leaf with
    | float x =>
        rw [fault?_float] at he
        split at he
        · exact absurd he (by simp)
        · rename_i hfinite
          rw [Bool.not_eq_true] at hfinite
          rw [← Option.some.inj he]
          exact .float (Binary64.named_iff.mpr ⟨hfinite, rfl⟩)
    | duration d =>
        rw [fault?_duration] at he
        split at he
        · exact absurd he (by simp)
        · rename_i hlong
          rw [← Option.some.inj he]
          exact .duration hlong
  · intro hrefused
    cases hrefused with
    | @float x name h =>
        obtain ⟨hfinite, rfl⟩ := Binary64.named_iff.mp h
        exact ⟨.nonFinite x, by rw [fault?_float, hfinite]; rfl, rfl⟩
    | duration h => exact ⟨.longDuration, by rw [fault?_duration, if_neg h], rfl⟩

end Leaf

namespace Value

theorem failure?_encodeItems (items : List Value) :
    failure? (encodeItems items) = items.findSome? fun item => failure? item.encode := by
  induction items with
  | nil => rfl
  | cons item rest ih =>
      rw [encodeItems, ← List.singleton_append, List.findSome?_append, List.findSome?_singleton,
        ← ih]
      apply failure?_bind
      intro document
      rw [bind_pure_comp]
      exact failure?_map _ _

theorem failure?_encodeEntries (fields : List (String × Value)) :
    failure? (encodeEntries fields) =
      (fields.map Prod.snd).findSome? fun value => failure? value.encode := by
  induction fields with
  | nil => rfl
  | cons field rest ih =>
      obtain ⟨name, value⟩ := field
      rw [encodeEntries, List.map_cons, ← List.singleton_append, List.findSome?_append,
        List.findSome?_singleton, ← ih]
      apply failure?_bind
      intro document
      rw [bind_pure_comp]
      exact failure?_map _ _

theorem failure?_encode (v : Value) :
    failure? v.encode =
      (v.ownLeaf?.bind Leaf.fault?).or
        (v.children.findSome? fun child => failure? child.encode) := by
  cases v with
  | float x => simp [encode, ownLeaf?, Leaf.fault?, children, items, fields]
  | duration d => simp [encode, ownLeaf?, Leaf.fault?, children, items, fields]
  | list items => simp [encode, ownLeaf?, failure?_encodeItems]
  | map entries => simp [encode, ownLeaf?, failure?_encodeEntries]
  | node n => simp [encode, ownLeaf?, failure?_encodeEntries]
  | relationship r => simp [encode, ownLeaf?, failure?_encodeEntries]
  | _ => simp [encode, ownLeaf?, children, items, fields]

theorem findSome?_flatMap_leavesAt {contents : List (Place × Value)}
    (h : ∀ content ∈ contents,
      failure? content.2.encode = content.2.leaves.findSome? fun l => l.leaf.fault?) :
    ((contents.flatMap leavesAt).findSome? fun l => l.leaf.fault?) =
      (contents.map Prod.snd).findSome? fun child => failure? child.encode := by
  induction contents with
  | nil => rfl
  | cons content rest ih =>
      have hcontent : ((leavesAt content).findSome? fun l => l.leaf.fault?) =
          failure? content.2.encode := by
        rw [h content List.mem_cons_self, leavesAt, List.findSome?_map]
        rfl
      rw [List.flatMap_cons, List.findSome?_append, hcontent,
        ih fun other hother => h other (List.mem_cons_of_mem content hother), List.map_cons,
        ← List.singleton_append, List.findSome?_append, List.findSome?_singleton]

/-- A value fails to be written as the first of its leaves that does. -/
theorem failure?_encode_eq_findSome? (v : Value) :
    failure? v.encode = v.leaves.findSome? fun l => l.leaf.fault? := by
  induction v using induction_children with
  | step v ih =>
      have hread : ∀ content ∈ v.contents,
          failure? content.2.encode = content.2.leaves.findSome? fun l => l.leaf.fault? := by
        intro content hcontent
        apply ih
        rw [← map_snd_contents]
        exact List.mem_map_of_mem hcontent
      have hcontents := findSome?_flatMap_leavesAt hread
      rw [map_snd_contents] at hcontents
      rw [failure?_encode, leaves_eq, List.findSome?_append, hcontents]
      cases v.ownLeaf? <;> simp

end Value

/-- What is written either has a document, and then all its leaves have one, or fails with the text
of the first leaf that has none. -/
structure ReportsFirst (written : Except EncodeError Json) (leaves : List PlacedLeaf) : Prop where
  succeeds_iff : (∃ d, written = .ok d) ↔ ∀ l ∈ leaves, l.leaf.Representable
  fails_iff : ∀ text, (∃ e, written = .error e ∧ e.message = text) ↔
    ∃ before l after, leaves = before ++ l :: after ∧
      (∀ earlier ∈ before, earlier.leaf.Representable) ∧ l.leaf.Refused text

theorem reportsFirst_of_failure? {written : Except EncodeError Json} {leaves : List PlacedLeaf}
    (h : failure? written = leaves.findSome? fun l => l.leaf.fault?) :
    ReportsFirst written leaves where
  succeeds_iff := by
    rw [← failure?_eq_none_iff, h, List.findSome?_eq_none_iff]
    simp only [Leaf.fault?_eq_none_iff]
  fails_iff text := by
    simp only [← failure?_eq_some_iff, h, List.findSome?_eq_some_iff, Leaf.fault?_eq_none_iff,
      ← Leaf.exists_message_iff]
    constructor
    · rintro ⟨e, ⟨before, l, after, hsplit, hfault, hbefore⟩, htext⟩
      exact ⟨before, l, after, hsplit, hbefore, e, hfault, htext⟩
    · rintro ⟨before, l, after, hsplit, hbefore, e, hfault, htext⟩
      exact ⟨e, ⟨before, l, after, hsplit, hfault, hbefore⟩, htext⟩

theorem Value.reportsFirst_encode (v : Value) : ReportsFirst v.encode v.leaves :=
  reportsFirst_of_failure? v.failure?_encode_eq_findSome?

theorem NodeOf.reportsFirst_encode (n : Node) : ReportsFirst n.encode (Value.node n).leaves := by
  apply reportsFirst_of_failure?
  rw [← Value.failure?_encode_eq_findSome?, Value.encode, NodeOf.encode, failure?_map, failure?_map]

theorem RelationshipOf.reportsFirst_encode (r : Relationship) :
    ReportsFirst r.encode (Value.relationship r).leaves := by
  apply reportsFirst_of_failure?
  rw [← Value.failure?_encode_eq_findSome?, Value.encode, RelationshipOf.encode, failure?_map,
    failure?_map]

theorem Properties.reportsFirst_encode (p : Properties) :
    ReportsFirst (Properties.encode p) (Value.map p).leaves := by
  apply reportsFirst_of_failure?
  rw [← Value.failure?_encode_eq_findSome?, Value.encode, Properties.encode, failure?_map,
    failure?_map]

/-- Values, nodes, relationships and records are written unless one of their numbers is not finite or
one of their durations does not fit into 64 bits of microseconds; the first of these, in the order of
indices and names, is reported. Counting the microseconds of the seconds and of the rest one after
the other overflows for the same durations. The leaves of a value are found where their paths lead,
and the literal of the value contains theirs in any case. -/
theorem first_unrepresentable_leaf_reported :
    (∀ v : Value, ReportsFirst v.encode v.leaves) ∧
    (∀ n : Node, ReportsFirst n.encode (Value.node n).leaves) ∧
    (∀ r : Relationship, ReportsFirst r.encode (Value.relationship r).leaves) ∧
    (∀ p : Properties, ReportsFirst (Properties.encode p) (Value.map p).leaves) ∧
    (∀ d : Duration, d.countedMicros? = d.microseconds?.map Int64.toInt) ∧
    ∀ v : Value,
      (∀ leaf : Leaf, (∃ l ∈ v.leaves, l.leaf = leaf) ↔ leaf.value ∈ v.parts) ∧
      (v.Ordered →
        (∀ path leaf, ⟨path, leaf⟩ ∈ v.leaves ↔ v.at? path = some leaf.value) ∧
        v.leaves.Pairwise fun a b => List.Lex Place.Before a.path b.path) ∧
      ∀ l ∈ v.leaves, l.leaf.value.literal.toList <:+: v.literal.toList := by
  refine ⟨Value.reportsFirst_encode, NodeOf.reportsFirst_encode, RelationshipOf.reportsFirst_encode,
    Properties.reportsFirst_encode, Duration.countedMicros?_eq, fun v => ⟨?_, ?_, ?_⟩⟩
  · intro leaf
    exact Value.exists_mem_leaves_iff
  · intro hv
    exact ⟨fun path leaf => Value.mem_leaves_iff hv, Value.pairwise_leaves hv⟩
  · intro l hl
    exact Value.isInfix_literal_of_mem_parts (Value.exists_mem_leaves_iff.mp ⟨l, hl, rfl⟩)

/-- The longest durations that fit are passed over, and nothing after the infinity is reached. -/
theorem infinity_reported_before_nan :
    let shortest : Duration := ⟨-9223372036854775808999, by decide⟩
    let longest : Duration := ⟨9223372036854775807999, by decide⟩
    let v : Value := .map ⟨[("a", .list [.null, .duration longest, .duration shortest]),
      ("b", .float ⟨0xfff0000000000000⟩), ("c", .float ⟨0x7ff8000000000000⟩)]⟩
    v.Ordered ∧ ⟨[.name "a", .index 1], .duration longest⟩ ∈ v.leaves ∧
      (v.leaves.Pairwise fun a b => List.Lex Place.Before a.path b.path) ∧
      ∃ e, v.encode = .error e ∧ e.message = "non-finite float `-inf` has no serialized form" := by
  intro shortest longest v
  have hordered : v.Ordered := by decide +kernel
  obtain ⟨hvalue, -, -, -, -, hleaves⟩ := first_unrepresentable_leaf_reported
  obtain ⟨hlisted, hpairwise⟩ := (hleaves v).2.1 hordered
  refine ⟨hordered, (hlisted _ _).mpr rfl, hpairwise, ((hvalue v).fails_iff _).mpr ?_⟩
  refine ⟨[⟨[.name "a", .index 1], .duration longest⟩, ⟨[.name "a", .index 2], .duration shortest⟩],
    ⟨[.name "b"], .float ⟨0xfff0000000000000⟩⟩,
    [⟨[.name "c"], .float ⟨0x7ff8000000000000⟩⟩], by decide +kernel, by decide +kernel, ?_⟩
  have hname : (⟨0xfff0000000000000⟩ : Binary64).Named "-inf" := .negInfinity (by decide +kernel)
  exact .float hname

end Cypher
