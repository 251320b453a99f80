import Cypher.Proofs.Data.Ordered
import Cypher.Proofs.Query.Runs
import Cypher.Proofs.Value.Codec
import Cypher.Proofs.Value.Parts
import Cypher.Query.Clause

/-!
# Labels and properties of entities and patterns

A node trims its labels when they are added and keeps a set of them. A pattern keeps all labels as
they are given and trims them when it becomes a clause. Both drop what is blank, so they agree on
what a label is; they differ in that the set is ordered and the chain of a pattern is not.
-/

namespace Cypher

open Text (TrimsTo IsTrimmed isBlank)

def NodeOf.withLabels {V : Type} (added : List String) (n : NodeOf V) : NodeOf V :=
  added.foldl (fun n label => n.withLabel label) n

/-- The labels of a list that a clause shows: trimmed, without the blank ones. -/
def shownLabels (labels : List String) : List String :=
  (labels.map Text.trimmed).filter (· ≠ "")

theorem NodeOf.withLabels_eq {V : Type} (added : List String) (n : NodeOf V) :
    n.withLabels added = { n with labels := n.labels.addAll added } := by
  induction added generalizing n with
  | nil => rfl
  | cons label rest ih => exact ih (n.withLabel label)

theorem NodeOf.hasLabel_withLabels {V : Type} {id : Option Int64} {properties : PropertyMap V}
    {added : List String} {s : String} :
    ((⟨id, ∅, properties⟩ : NodeOf V).withLabels added).hasLabel s = true ↔
      s ≠ "" ∧ ∃ label ∈ added, TrimsTo label s := by
  have hempty : s ∉ (∅ : LabelSet).toList := List.not_mem_nil
  rw [NodeOf.withLabels_eq, NodeOf.hasLabel, LabelSet.contains_iff, LabelSet.mem_addAll]
  simp only [hempty, false_or]

theorem shownLabels_append (xs ys : List String) :
    shownLabels (xs ++ ys) = shownLabels xs ++ shownLabels ys := by
  rw [shownLabels, List.map_append, List.filter_append]
  rfl

theorem shownLabels_cons (label : String) (rest : List String) :
    shownLabels (label :: rest) =
      if Text.trimmed label = "" then shownLabels rest
      else Text.trimmed label :: shownLabels rest := by
  rw [shownLabels, List.map_cons, List.filter_cons]
  by_cases hblank : Text.trimmed label = ""
  · simp [hblank, shownLabels]
  · simp [hblank, shownLabels]

theorem shownLabels_of_forms {labels : List String}
    (h : ∀ label ∈ labels, label ≠ "" ∧ IsTrimmed label.toList) : shownLabels labels = labels := by
  induction labels with
  | nil => rfl
  | cons label rest ih =>
      obtain ⟨hfilled, htrimmed⟩ := h label List.mem_cons_self
      rw [shownLabels_cons, Text.trimmed_eq_self htrimmed, if_neg hfilled,
        ih fun other hother => h other (List.mem_cons_of_mem label hother)]

theorem shownLabels_of_forall₂ {labels forms : List String}
    (h : List.Forall₂ TrimsTo labels forms) : shownLabels labels = forms.filter (· ≠ "") := by
  have hforms : labels.map Text.trimmed = forms := by
    induction h with
    | nil => rfl
    | cons hlabel _ ih => rw [List.map_cons, ih, Text.trimsTo_iff.mp hlabel]
  rw [shownLabels, hforms]

theorem labelChain_eq_join (labels : List String) :
    labelChain labels = String.join ((shownLabels labels).map (":" ++ ·)) := by
  rw [← String.toList_inj, String.toList_join, labelChain, String.toList_ofList]
  induction labels with
  | nil => rfl
  | cons label rest ih =>
      rw [List.flatMap_cons, ih, shownLabels_cons]
      by_cases hblank : Text.trimmed label = ""
      · simp [hblank, Text.trimmed_eq_empty_iff.mp hblank]
      · simp [hblank, mt Text.trimmed_eq_empty_iff.mpr hblank]

theorem labelChain_append (xs ys : List String) :
    labelChain (xs ++ ys) = labelChain xs ++ labelChain ys := by
  rw [labelChain_eq_join, shownLabels_append, List.map_append, String.join_append,
    ← labelChain_eq_join, ← labelChain_eq_join]

theorem labelChain_of_blank {label : String} (h : ∀ c ∈ label.toList, isBlank c = true)
    (xs ys : List String) : labelChain (xs ++ label :: ys) = labelChain (xs ++ ys) := by
  have hblank : Text.trimmed label = "" :=
    Text.trimmed_eq_empty_iff.mpr (Text.trim_eq_nil_iff.mpr h)
  rw [labelChain_eq_join, labelChain_eq_join, shownLabels_append, shownLabels_append,
    shownLabels_cons, if_pos hblank]

theorem labelChain_of_trimsTo {label form : String} (h : TrimsTo label form) (xs ys : List String) :
    labelChain (xs ++ label :: ys) = labelChain (xs ++ form :: ys) := by
  have hlabel : Text.trimmed label = form := Text.trimsTo_iff.mp h
  have hform : Text.trimmed form = form := Text.trimmed_eq_self h.isTrimmed
  rw [labelChain_eq_join, labelChain_eq_join, shownLabels_append, shownLabels_append,
    shownLabels_cons, shownLabels_cons, hlabel, hform]

/-- A node made by adding labels has exactly their trimmed forms that are not blank, whatever their
order and however often they are added, and its clause shows each once in ascending order. The chain
of a list shows the forms in the order of the list, each as often as it is given. -/
theorem node_and_pattern_labels_agree (id : Option Int64) (properties : Properties)
    (labels : List String) :
    let n : Node := (⟨id, ∅, properties⟩ : Node).withLabels labels
    (∀ s, n.hasLabel s = true ↔ s ≠ "" ∧ ∃ label ∈ labels, TrimsTo label s) ∧
      (∀ others : List String, (∀ label, label ∈ others ↔ label ∈ labels) →
        (⟨id, ∅, properties⟩ : Node).withLabels others = n) ∧
      (∀ s, n.hasLabel s = true → s ≠ "" ∧ IsTrimmed s.toList) ∧
      n.id = id ∧ n.properties = properties ∧
      (n.labels.toList.Pairwise (· < ·) ∧ (∀ s, s ∈ n.labels.toList ↔ n.hasLabel s = true) ∧
        (NodePattern.ofNode n).clause =
          .node none (String.join (n.labels.toList.map (":" ++ ·)))
            (Properties.patternText properties)) ∧
      (∀ xs ys, labelChain (xs ++ ys) = labelChain xs ++ labelChain ys) ∧
      (∀ xs forms, List.Forall₂ TrimsTo xs forms →
        labelChain xs = String.join ((forms.filter (· ≠ "")).map (":" ++ ·))) ∧
      (∀ xs ys label, (∀ c ∈ label.toList, isBlank c = true) →
        labelChain (xs ++ label :: ys) = labelChain (xs ++ ys)) ∧
      ∀ xs ys label form, TrimsTo label form →
        labelChain (xs ++ label :: ys) = labelChain (xs ++ form :: ys) := by
  intro n
  have hmember : ∀ s, s ∈ n.labels.toList ↔ n.hasLabel s = true := by
    intro s
    exact LabelSet.contains_iff.symm
  have hforms : ∀ s, n.hasLabel s = true → s ≠ "" ∧ IsTrimmed s.toList := by
    intro s hs
    obtain ⟨hfilled, label, -, hlabel⟩ := NodeOf.hasLabel_withLabels.mp hs
    exact ⟨hfilled, hlabel.isTrimmed⟩
  have hframe : n.id = id ∧ n.properties = properties := by
    constructor <;> simp only [n, NodeOf.withLabels_eq]
  have hclause : (NodePattern.ofNode n).clause =
      .node none (String.join (n.labels.toList.map (":" ++ ·)))
        (Properties.patternText properties) := by
    have hshown : shownLabels n.labels.toList = n.labels.toList := by
      apply shownLabels_of_forms
      intro label hlabel
      exact hforms label ((hmember label).mp hlabel)
    rw [NodePattern.clause, NodePattern.ofNode, labelChain_eq_join, hshown, hframe.2]
  refine ⟨fun s => NodeOf.hasLabel_withLabels, ?_, hforms, hframe.1, hframe.2,
    ⟨n.labels.ascending, hmember, hclause⟩, labelChain_append, ?_, ?_, ?_⟩
  · intro others hothers
    simp only [n, NodeOf.withLabels_eq, LabelSet.addAll_eq_of_mem_iff ∅ hothers]
  · intro xs forms hxs
    rw [labelChain_eq_join, shownLabels_of_forall₂ hxs]
  · exact fun xs ys label hblank => labelChain_of_blank hblank xs ys
  · exact fun xs ys label form hform => labelChain_of_trimsTo hform xs ys

/-- A label in two paddings is one label of the node, and two in the chain of the list. -/
theorem label_in_two_paddings :
    let labels := ["\u3000B", "A", " \t", "B\n"]
    let n : Node := (⟨none, ∅, ∅⟩ : Node).withLabels labels
    n.hasLabel "B" = true ∧
      (⟨none, ∅, ∅⟩ : Node).withLabels ["B\n", " \t", "A", "A", "\u3000B"] = n ∧
      (NodePattern.ofNode n).clause = .node none ":A:B" "" ∧
      labelChain labels = ":B:A:B" ∧ labelChain labels = labelChain ["B", "A", "B\n"] := by
  intro labels n
  obtain ⟨hlabel, hsame, -, -, -, ⟨-, -, hclause⟩, -, hchain, hblank, htrim⟩ :=
    node_and_pattern_labels_agree none ∅ labels
  have hpadded : TrimsTo "\u3000B" "B" := Text.trimsTo_iff.mpr (by decide)
  have hforms : List.Forall₂ TrimsTo labels ["B", "A", "", "B"] := by
    refine .cons hpadded (.cons ?_ (.cons ?_ (.cons ?_ .nil)))
    all_goals exact Text.trimsTo_iff.mpr (by decide)
  refine ⟨(hlabel "B").mpr ⟨by decide, "\u3000B", List.mem_cons_self, hpadded⟩, ?_, ?_, ?_, ?_⟩
  · apply hsame
    intro label
    simp only [labels, List.mem_cons, List.not_mem_nil, or_false]
    tauto
  · rw [hclause]
    decide +kernel
  · rw [hchain labels _ hforms]
    decide
  · have hskipped := hblank ["\u3000B", "A"] ["B\n"] " \t" (by simp [isBlank])
    exact hskipped.trans (htrim [] ["A", "B\n"] "\u3000B" "B" hpadded)

end Cypher

/-! ## Assigning properties

Map values, nodes, relationships and the patterns of both hold properties, and all of them assign
one in the same way: nothing but the property map changes. So what a sequence of assignments makes
of any of them is told by the property map that it makes, and that map by the values of each name. -/

namespace Cypher

open PropertyMap (valuesOf)

inductive PropertyHolder where
  | map (entries : Properties)
  | node (n : Node)
  | relationship (r : Relationship)
  | nodePattern (p : NodePattern)
  | edgePattern (p : EdgePattern)

/-- The text of a map with the given entries, each written once in their order. -/
def mapText (entries : List (String × Value)) : String :=
  "\x7b" ++ ", ".intercalate (entries.map fun entry => entry.1 ++ ": " ++ entry.2.literal) ++ "\x7d"

def Clause.propertyText? : Clause → Option String
  | .node _ _ properties => some properties
  | .edge _ _ properties _ => some properties
  | _ => none

namespace PropertyHolder

def properties : PropertyHolder → Properties
  | map entries => entries
  | node n => n.properties
  | relationship r => r.properties
  | nodePattern p => p.properties
  | edgePattern p => p.properties

def withProperties (held : Properties) : PropertyHolder → PropertyHolder
  | map _ => map held
  | node n => node { n with properties := held }
  | relationship r => relationship { r with properties := held }
  | nodePattern p => nodePattern { p with properties := held }
  | edgePattern p => edgePattern { p with properties := held }

def withProperty (name : String) (value : Value) : PropertyHolder → PropertyHolder
  | map entries => map (entries.insert name value)
  | node n => node (n.withProperty name value)
  | relationship r => relationship (r.withProperty name value)
  | nodePattern p => nodePattern (p.withProperty name value)
  | edgePattern p => edgePattern (p.withProperty name value)

def assign (pairs : List (String × Value)) (h : PropertyHolder) : PropertyHolder :=
  pairs.foldl (fun h pair => h.withProperty pair.1 pair.2) h

def property? (h : PropertyHolder) (name : String) : Option Value :=
  match h with
  | map entries => entries.get? name
  | node n => n.property? name
  | relationship r => r.property? name
  | nodePattern p => p.properties.get? name
  | edgePattern p => p.properties.get? name

/-- An entity copied into a pattern; what is no entity stays as it is. -/
def toPattern : PropertyHolder → PropertyHolder
  | node n => nodePattern (NodePattern.ofNode n)
  | relationship r => edgePattern (EdgePattern.ofRelationship r)
  | h => h

def value? : PropertyHolder → Option Value
  | map entries => some (.map entries)
  | node n => some (.node n)
  | relationship r => some (.relationship r)
  | _ => none

/-- The steps by which the holder joins a query, as a node or as an edge in either direction. -/
def steps : PropertyHolder → List Step
  | map _ => []
  | node n => [.node (NodePattern.ofNode n)]
  | relationship r =>
    [.edgeTo (EdgePattern.ofRelationship r), .edgeFrom (EdgePattern.ofRelationship r)]
  | nodePattern p => [.node p]
  | edgePattern p => [.edgeTo p, .edgeFrom p]

def serialized : PropertyHolder → List (Except EncodeError Json)
  | map entries => [Properties.encode entries, (Value.map entries).encode]
  | node n => [n.encode, (Value.node n).encode]
  | relationship r => [r.encode, (Value.relationship r).encode]
  | _ => []

/-- The documents of the holder, by itself and as a value, around the members of its properties. -/
def forms : PropertyHolder → List (List (String × Json) → Json)
  | map _ => [Json.ofMembers, fun members => tagged .map (.ofMembers members)]
  | node n =>
    [fun members => nodeDocument n (.ofMembers members),
      fun members => tagged .node (nodeDocument n (.ofMembers members))]
  | relationship r =>
    [fun members => relationshipDocument r (.ofMembers members),
      fun members => tagged .relationship (relationshipDocument r (.ofMembers members))]
  | _ => []

variable {h : PropertyHolder} {pairs : List (String × Value)}

theorem property?_eq (h : PropertyHolder) (name : String) :
    h.property? name = h.properties.get? name := by
  cases h <;> rfl

@[simp] theorem properties_withProperties (h : PropertyHolder) (held : Properties) :
    (h.withProperties held).properties = held := by
  cases h <;> rfl

@[simp] theorem withProperties_withProperties (h : PropertyHolder) (held other : Properties) :
    (h.withProperties held).withProperties other = h.withProperties other := by
  cases h <;> rfl

@[simp] theorem withProperties_properties (h : PropertyHolder) :
    h.withProperties h.properties = h := by
  cases h <;> rfl

theorem withProperty_eq (h : PropertyHolder) (name : String) (value : Value) :
    h.withProperty name value = h.withProperties (h.properties.insert name value) := by
  cases h <;> rfl

theorem assign_eq (h : PropertyHolder) (pairs : List (String × Value)) :
    h.assign pairs = h.withProperties (h.properties.assign pairs) := by
  induction pairs generalizing h with
  | nil => exact h.withProperties_properties.symm
  | cons pair rest ih =>
      have hstep : h.assign (pair :: rest) = (h.withProperty pair.1 pair.2).assign rest := rfl
      rw [hstep, ih, withProperty_eq, properties_withProperties, withProperties_withProperties,
        PropertyMap.assign_cons]

theorem properties_assign (h : PropertyHolder) (pairs : List (String × Value)) :
    (h.assign pairs).properties = h.properties.assign pairs := by
  rw [assign_eq, properties_withProperties]

theorem ascending_assign (hordered : h.properties.Ascending) (pairs : List (String × Value)) :
    (h.assign pairs).properties.Ascending := by
  rw [properties_assign]
  exact hordered.assign pairs

theorem property?_assign (h : PropertyHolder) (pairs : List (String × Value)) (name : String) :
    (h.assign pairs).property? name = (valuesOf name pairs).getLast?.or (h.property? name) := by
  rw [property?_eq, properties_assign, PropertyMap.get?_assign, property?_eq]

theorem property?_assign_of_last {before after : List (String × Value)} {name : String}
    {value : Value} (hlast : name ∉ after.map Prod.fst) :
    (h.assign (before ++ (name, value) :: after)).property? name = some value := by
  rw [property?_assign, PropertyMap.valuesOf_append, PropertyMap.valuesOf_cons, if_pos rfl,
    PropertyMap.valuesOf_eq_nil_iff.mpr hlast, List.getLast?_concat, Option.some_or]

theorem property?_assign_of_not_mem {name : String} (hname : name ∉ pairs.map Prod.fst) :
    (h.assign pairs).property? name = h.property? name := by
  rw [property?_assign, PropertyMap.valuesOf_eq_nil_iff.mpr hname, List.getLast?_nil,
    Option.none_or]

/-- Only the order of the values of one and the same name matters. -/
theorem assign_of_same_values {others : List (String × Value)}
    (hordered : h.properties.Ascending)
    (hvalues : ∀ name, valuesOf name others = valuesOf name pairs) :
    h.assign others = h.assign pairs := by
  rw [assign_eq, hordered.assign_eq hvalues, ← assign_eq]

theorem properties_toPattern (h : PropertyHolder) : h.toPattern.properties = h.properties := by
  cases h <;> rfl

theorem toPattern_withProperties (h : PropertyHolder) (held : Properties) :
    (h.withProperties held).toPattern = h.toPattern.withProperties held := by
  cases h <;> rfl

theorem toPattern_assign (h : PropertyHolder) (pairs : List (String × Value)) :
    (h.assign pairs).toPattern = h.toPattern.assign pairs := by
  rw [assign_eq, assign_eq, toPattern_withProperties, properties_toPattern]

theorem steps_toPattern (h : PropertyHolder) : h.toPattern.steps = h.steps := by
  cases h <;> rfl

theorem literal_of_value? {v : Value} (hv : h.value? = some v) :
    v.literal = mapText h.properties.entries := by
  cases h with
  | nodePattern p => cases hv
  | edgePattern p => cases hv
  | _ =>
      obtain rfl := Option.some.inj hv
      rw [Value.literal, Value.entryLiterals_eq_map, mapText, properties]

theorem patternText_eq (held : Properties) :
    Properties.patternText held =
      if held.entries = [] then "" else mapText held.entries := by
  have hliteral : (Value.map held).literal = mapText held.entries :=
    literal_of_value? (h := map held) rfl
  rw [Properties.patternText, hliteral]
  simp only [List.isEmpty_iff]

theorem exists_clause_of_mem_steps {step : Step} (hstep : step ∈ h.steps) :
    ∃ c, step.clause? = some c ∧
      c.propertyText? = some (Properties.patternText h.properties) := by
  cases h with
  | map entries => exact absurd hstep List.not_mem_nil
  | node n =>
      obtain rfl := List.mem_singleton.mp hstep
      exact ⟨_, rfl, rfl⟩
  | nodePattern p =>
      obtain rfl := List.mem_singleton.mp hstep
      exact ⟨_, rfl, rfl⟩
  | _ =>
      rcases List.mem_cons.mp hstep with rfl | hstep
      · exact ⟨_, rfl, rfl⟩
      · obtain rfl := List.mem_singleton.mp hstep
        exact ⟨_, rfl, rfl⟩

theorem serialized_eq (h : PropertyHolder) :
    h.serialized = h.forms.map fun form => (Value.encodeEntries h.properties.entries).map form := by
  cases h with
  | nodePattern p => rfl
  | edgePattern p => rfl
  | _ =>
      rw [serialized, Value.encode]
      rfl

theorem serialized_of_members {members : List (String × Json)}
    (hmembers : List.Forall₂ Value.MemberOf h.properties.entries members) :
    h.serialized = h.forms.map fun form => .ok (form members) := by
  rw [serialized_eq, Value.encodeEntries_eq_ok_iff.mpr hmembers]
  rfl

theorem exists_members_of_serialized {document : Json} (hdocument : .ok document ∈ h.serialized) :
    ∃ members, List.Forall₂ Value.MemberOf h.properties.entries members ∧
      ∃ form ∈ h.forms, form members = document := by
  rw [serialized_eq] at hdocument
  obtain ⟨form, hform, hencoded⟩ := List.mem_map.mp hdocument
  obtain ⟨members, hmembers, hwhole⟩ := map_eq_ok hencoded
  exact ⟨members, Value.encodeEntries_eq_ok_iff.mp hmembers, form, hform, hwhole⟩

/-- What a holder has after a sequence of assignments: under each name the value assigned last, or
what it had before; everything else as before. Its texts and documents list the names once and in
ascending order, and neither the order in which different names get their values nor copying an
entity into a pattern before them changes the holder or a query. -/
theorem last_assignments_determine_holder (h : PropertyHolder) (pairs : List (String × Value))
    (hordered : h.properties.Ascending) :
    let assigned := h.assign pairs
    let entries := assigned.properties.entries
    assigned.withProperties h.properties = h ∧
      (∀ before name value after, pairs = before ++ (name, value) :: after →
        name ∉ after.map Prod.fst → assigned.property? name = some value) ∧
      (∀ name, name ∉ pairs.map Prod.fst → assigned.property? name = h.property? name ∧
        (h.properties = ∅ → assigned.property? name = none)) ∧
      ((entries.map Prod.fst).Pairwise (· < ·) ∧
        (∀ name, name ∈ entries.map Prod.fst ↔
          name ∈ h.properties.names ∨ name ∈ pairs.map Prod.fst) ∧
        ∀ name value, (name, value) ∈ entries ↔ assigned.property? name = some value) ∧
      (∀ v, assigned.value? = some v → v.literal = mapText entries) ∧
      (∀ step ∈ assigned.steps, ∃ c, step.clause? = some c ∧
        c.propertyText? = some (if entries = [] then "" else mapText entries)) ∧
      (∀ members, List.Forall₂ Value.MemberOf entries members →
        assigned.serialized = assigned.forms.map fun form => .ok (form members)) ∧
      (∀ document, .ok document ∈ assigned.serialized →
        ∃ members, List.Forall₂ Value.MemberOf entries members ∧
          ∃ form ∈ assigned.forms, form members = document) ∧
      (∀ others, (∀ name, valuesOf name others = valuesOf name pairs) →
        h.assign others = assigned ∧ (h.assign others).toPattern = h.toPattern.assign pairs ∧
          (h.assign others).steps.map Step.clause? =
            (h.toPattern.assign pairs).steps.map Step.clause? ∧
          ∀ (q : Query) (earlier later : List Step),
            ((h.assign others).steps.map fun step =>
                (q.applyAll (earlier ++ step :: later)).map Query.text) =
              (h.toPattern.assign pairs).steps.map fun step =>
                (q.applyAll (earlier ++ step :: later)).map Query.text) ∧
      ((map ∅).assign pairs).value? = some (Value.ofPairs pairs) := by
  intro assigned entries
  have hascending : assigned.properties.Ascending := ascending_assign hordered pairs
  refine ⟨?_, ?_, ?_, ⟨hascending, ?_, ?_⟩, fun v hv => literal_of_value? hv, ?_,
    fun members hmembers => serialized_of_members hmembers,
    fun document hdocument => exists_members_of_serialized hdocument, ?_, ?_⟩
  · show (h.assign pairs).withProperties h.properties = h
    rw [assign_eq, withProperties_withProperties, withProperties_properties]
  · rintro before name value after rfl hlast
    exact property?_assign_of_last hlast
  · intro name hname
    have hkept : assigned.property? name = h.property? name := property?_assign_of_not_mem hname
    refine ⟨hkept, ?_⟩
    intro hempty
    rw [hkept, property?_eq, hempty, PropertyMap.get?_empty]
  · intro name
    show name ∈ (h.assign pairs).properties.names ↔ _
    rw [properties_assign, PropertyMap.mem_names_assign]
  · intro name value
    rw [hascending.mem_entries_iff, property?_eq]
  · intro step hstep
    rw [← patternText_eq]
    exact exists_clause_of_mem_steps hstep
  · intro others hvalues
    have hsame : h.assign others = assigned := assign_of_same_values hordered hvalues
    have hpattern : (h.assign others).toPattern = h.toPattern.assign pairs := by
      rw [hsame, toPattern_assign]
    have hsteps : (h.assign others).steps = (h.toPattern.assign pairs).steps := by
      rw [← hpattern, steps_toPattern]
    rw [hsteps]
    exact ⟨hsame, hpattern, rfl, fun q earlier later => rfl⟩
  · rw [assign_eq, Value.ofPairs, PropertyMap.ofPairs_eq_assign]
    rfl

/-- The second value of `b` is the one that counts, and `a` may get its value before or between. -/
theorem twice_assigned_node :
    let n := node (NodeOf.empty : Node)
    let pairs := [("b", Value.int 1), ("a", .bool true), ("b", .int 2)]
    let others := [("a", Value.bool true), ("b", .int 1), ("b", .int 2)]
    (n.assign pairs).property? "b" = some (.int 2) ∧ (n.assign pairs).property? "c" = none ∧
      (n.assign pairs).value?.map Value.literal = some "\x7ba: true, b: 2\x7d" ∧
      n.assign others = n.assign pairs ∧
      (n.assign others).toPattern = n.toPattern.assign pairs := by
  intro n pairs others
  have hempty : n.properties.Ascending := PropertyMap.ascending_empty
  obtain ⟨-, hlast, hnever, -, hliteral, -, -, -, hsame, -⟩ :=
    last_assignments_determine_holder n pairs hempty
  have hvalues : ∀ name, valuesOf name others = valuesOf name pairs := by
    intro name
    simp only [others, pairs, PropertyMap.valuesOf_cons]
    by_cases ha : "a" = name
    · subst ha
      simp
    · simp [ha]
  obtain ⟨hholder, hpattern, -⟩ := hsame others hvalues
  refine ⟨hlast [("b", .int 1), ("a", .bool true)] "b" (.int 2) [] rfl List.not_mem_nil,
    (hnever "c" (by decide)).2 rfl, Option.map_eq_some_iff.mpr ⟨_, rfl, ?_⟩, hholder, hpattern⟩
  rw [hliteral _ rfl]
  decide +kernel

end PropertyHolder

end Cypher
