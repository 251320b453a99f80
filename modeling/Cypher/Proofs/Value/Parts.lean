import Mathlib
import Cypher.Proofs.Text.Quoted
import Cypher.Value.Basic

/-!
# Parts of values

A value and everything in it, at any depth: the items of lists, and the values under the names of
maps and of the properties of entities. Proofs about values go from the children to the value
(`induction_children`), and the literal of a part always stands in the literal of the whole.
-/

namespace Cypher.Value

def items : Value → List Value
  | .list items => items
  | _ => []

/-- The named values of a map, or of the properties of an entity. -/
def fields : Value → List (String × Value)
  | .map entries => entries.entries
  | .node n => n.properties.entries
  | .relationship r => r.properties.entries
  | _ => []

def children (v : Value) : List Value := v.items ++ v.fields.map Prod.snd

mutual

/-- A value and all values in it, at any depth. -/
def parts : Value → List Value
  | .list items => .list items :: partsOfItems items
  | .map entries => .map entries :: partsOfFields entries.entries
  | .node n => .node n :: partsOfFields n.properties.entries
  | .relationship r => .relationship r :: partsOfFields r.properties.entries
  | v => [v]

def partsOfItems : List Value → List Value
  | [] => []
  | item :: rest => parts item ++ partsOfItems rest

def partsOfFields : List (String × Value) → List Value
  | [] => []
  | (_, value) :: rest => parts value ++ partsOfFields rest

end

/-- The names of maps and of properties in a value, at any depth. -/
def names (v : Value) : List String := v.parts.flatMap fun part => part.fields.map Prod.fst

/-- The texts in a value, at any depth. -/
def texts (v : Value) : List String := v.parts.filterMap asString?

/-- No raw query expression occurs in the value. -/
def ExpressionFree (v : Value) : Prop := ∀ text, Value.expression text ∉ v.parts

@[simp] theorem children_list (items : List Value) : (Value.list items).children = items := by
  simp [children, Value.items, fields]

@[simp] theorem children_map (entries : Properties) :
    (Value.map entries).children = entries.entries.map Prod.snd := rfl

@[simp] theorem children_node (n : Node) :
    (Value.node n).children = n.properties.entries.map Prod.snd := rfl

@[simp] theorem children_relationship (r : Relationship) :
    (Value.relationship r).children = r.properties.entries.map Prod.snd := rfl

theorem sizeOf_lt_of_mem_entries {m : Properties} {e : String × Value} (h : e ∈ m.entries) :
    sizeOf e.2 < sizeOf m := by
  have hlist := List.sizeOf_lt_of_mem h
  cases m with
  | mk entries =>
      cases e with
      | mk name value =>
          simp only [PropertyMap.mk.sizeOf_spec, Prod.mk.sizeOf_spec] at *
          omega

theorem sizeOf_lt_of_mem_children {v child : Value} (h : child ∈ v.children) :
    sizeOf child < sizeOf v := by
  have of_fields {m : Properties} (h : child ∈ m.entries.map Prod.snd) :
      sizeOf child < sizeOf m := by
    obtain ⟨e, he, rfl⟩ := List.mem_map.mp h
    exact sizeOf_lt_of_mem_entries he
  cases v with
  | list items =>
      rw [children_list] at h
      have hitem := List.sizeOf_lt_of_mem h
      simp only [Value.list.sizeOf_spec]
      omega
  | map entries =>
      have hfield := of_fields h
      simp only [Value.map.sizeOf_spec]
      omega
  | node n =>
      have hfield : sizeOf child < sizeOf n.properties := of_fields h
      cases n
      dsimp only at hfield
      simp only [Value.node.sizeOf_spec, NodeOf.mk.sizeOf_spec]
      omega
  | relationship r =>
      have hfield : sizeOf child < sizeOf r.properties := of_fields h
      cases r
      dsimp only at hfield
      simp only [Value.relationship.sizeOf_spec, RelationshipOf.mk.sizeOf_spec]
      omega
  | _ => simp [children, Value.items, fields] at h

@[elab_as_elim]
theorem induction_children {motive : Value → Prop}
    (step : ∀ v, (∀ child ∈ v.children, motive child) → motive v) (v : Value) : motive v :=
  step v fun child _ => induction_children step child
termination_by sizeOf v
decreasing_by exact sizeOf_lt_of_mem_children ‹_›

theorem mem_partsOfItems {w : Value} {items : List Value} :
    w ∈ partsOfItems items ↔ ∃ item ∈ items, w ∈ item.parts := by
  induction items with
  | nil => simp [partsOfItems]
  | cons item rest ih => simp [partsOfItems, ih]

theorem mem_partsOfFields {w : Value} {fields : List (String × Value)} :
    w ∈ partsOfFields fields ↔ ∃ child ∈ fields.map Prod.snd, w ∈ child.parts := by
  induction fields with
  | nil => simp [partsOfFields]
  | cons field rest ih => simp [partsOfFields, ih]

theorem mem_parts {v w : Value} : w ∈ v.parts ↔ w = v ∨ ∃ child ∈ v.children, w ∈ child.parts := by
  cases v with
  | list items => simp [parts, mem_partsOfItems]
  | map entries => simp only [parts, List.mem_cons, mem_partsOfFields, children_map]
  | node n => simp only [parts, List.mem_cons, mem_partsOfFields, children_node]
  | relationship r => simp only [parts, List.mem_cons, mem_partsOfFields, children_relationship]
  | _ => simp [parts, children, items, fields]

theorem self_mem_parts (v : Value) : v ∈ v.parts := mem_parts.mpr (.inl rfl)

theorem mem_parts_of_child {v child w : Value} (hchild : child ∈ v.children)
    (hw : w ∈ child.parts) : w ∈ v.parts :=
  mem_parts.mpr (.inr ⟨child, hchild, hw⟩)

theorem ExpressionFree.child {v child : Value} (h : v.ExpressionFree)
    (hchild : child ∈ v.children) : child.ExpressionFree := by
  intro text hmem
  exact h text (mem_parts_of_child hchild hmem)

theorem ExpressionFree.ne {v : Value} (h : v.ExpressionFree) (text : String) :
    v ≠ .expression text := by
  rintro rfl
  exact h text (self_mem_parts _)

theorem mem_names {v : Value} {name : String} :
    name ∈ v.names ↔ name ∈ v.fields.map Prod.fst ∨ ∃ child ∈ v.children, name ∈ child.names := by
  simp only [names, List.mem_flatMap]
  constructor
  · rintro ⟨part, hpart, hname⟩
    rcases mem_parts.mp hpart with rfl | ⟨child, hchild, hpart⟩
    · exact .inl hname
    · exact .inr ⟨child, hchild, part, hpart, hname⟩
  · rintro (hname | ⟨child, hchild, part, hpart, hname⟩)
    · exact ⟨v, self_mem_parts v, hname⟩
    · exact ⟨part, mem_parts_of_child hchild hpart, hname⟩

theorem mem_texts {v : Value} {text : String} : text ∈ v.texts ↔ Value.string text ∈ v.parts := by
  simp only [texts, List.mem_filterMap]
  constructor
  · rintro ⟨part, hpart, htext⟩
    cases part <;> simp [asString?] at htext
    subst htext
    exact hpart
  · intro h
    exact ⟨_, h, rfl⟩

/-! ## Literals as characters

The literal of a list or a map is its brackets around the literals of what is in it, separated by a
comma and a space. So the literal of every part is a piece of the literal of the whole. -/

/-- The characters between two items of a list or two entries of a map. -/
def separator : List Char := [',', ' ']

def fieldText (field : String × Value) : List Char :=
  field.1.toList ++ ':' :: ' ' :: field.2.literal.toList

def bracedText (fields : List (String × Value)) : List Char :=
  '\x7b' :: (separator.intercalate (fields.map fieldText) ++ ['\x7d'])

def bracketedText (items : List Value) : List Char :=
  '[' :: (separator.intercalate (items.map fun item => item.literal.toList) ++ [']'])

theorem itemLiterals_eq_map (items : List Value) : itemLiterals items = items.map literal := by
  induction items with
  | nil => rfl
  | cons item rest ih => rw [itemLiterals, ih, List.map_cons]

theorem entryLiterals_eq_map (fields : List (String × Value)) :
    entryLiterals fields = fields.map fun field => field.1 ++ ": " ++ field.2.literal := by
  induction fields with
  | nil => rfl
  | cons field rest ih =>
      obtain ⟨name, value⟩ := field
      rw [entryLiterals, ih, List.map_cons]

theorem toList_literal_list (items : List Value) :
    (Value.list items).literal.toList = bracketedText items := by
  simp [literal, itemLiterals_eq_map, bracketedText, separator, Function.comp_def]

theorem toList_braced (fields : List (String × Value)) :
    ("\x7b" ++ ", ".intercalate (entryLiterals fields) ++ "\x7d").toList = bracedText fields := by
  have hfield : (fun field : String × Value => (field.1 ++ ": " ++ field.2.literal).toList) =
      fieldText := by
    funext field
    simp [fieldText]
  simp [entryLiterals_eq_map, bracedText, separator, Function.comp_def, ← hfield]

theorem toList_literal_map (entries : Properties) :
    (Value.map entries).literal.toList = bracedText entries.entries := toList_braced _

theorem toList_literal_node (n : Node) :
    (Value.node n).literal.toList = bracedText n.properties.entries := toList_braced _

theorem toList_literal_relationship (r : Relationship) :
    (Value.relationship r).literal.toList = bracedText r.properties.entries := toList_braced _

theorem toList_literal_string (text : String) :
    (Value.string text).literal.toList = Text.quote text.toList := Text.toList_quoted text

theorem isInfix_intercalate_of_mem {α : Type} {xs : List α} {xss : List (List α)} (sep : List α)
    (h : xs ∈ xss) : xs <:+: sep.intercalate xss := by
  induction xss with
  | nil => exact absurd h List.not_mem_nil
  | cons head rest ih =>
      by_cases hrest : rest = []
      · subst hrest
        rw [List.mem_singleton.mp h, List.intercalate_singleton]
      · rw [List.intercalate_cons_of_ne_nil hrest]
        rcases List.mem_cons.mp h with rfl | hmem
        · exact (List.prefix_append _ _).isInfix.trans (List.prefix_append _ _).isInfix
        · exact (ih hmem).trans (List.suffix_append _ _).isInfix

theorem isInfix_bracedText_of_mem {fields : List (String × Value)} {child : Value}
    (h : child ∈ fields.map Prod.snd) : child.literal.toList <:+: bracedText fields := by
  obtain ⟨field, hfield, rfl⟩ := List.mem_map.mp h
  have hvalue : field.2.literal.toList <:+: fieldText field :=
    ⟨field.1.toList ++ [':', ' '], [], by simp [fieldText]⟩
  have hjoined := isInfix_intercalate_of_mem separator (List.mem_map_of_mem (f := fieldText) hfield)
  exact (hvalue.trans hjoined).trans ⟨['\x7b'], ['\x7d'], rfl⟩

theorem isInfix_literal_of_mem_children {v child : Value} (h : child ∈ v.children) :
    child.literal.toList <:+: v.literal.toList := by
  cases v with
  | list items =>
      rw [children_list] at h
      rw [toList_literal_list]
      have hjoined := isInfix_intercalate_of_mem separator
        (List.mem_map_of_mem (f := fun item : Value => item.literal.toList) h)
      exact hjoined.trans ⟨['['], [']'], rfl⟩
  | map entries =>
      rw [toList_literal_map]
      exact isInfix_bracedText_of_mem h
  | node n =>
      rw [toList_literal_node]
      exact isInfix_bracedText_of_mem h
  | relationship r =>
      rw [toList_literal_relationship]
      exact isInfix_bracedText_of_mem h
  | _ => simp [children, items, fields] at h

theorem isInfix_literal_of_mem_parts {v w : Value} (h : w ∈ v.parts) :
    w.literal.toList <:+: v.literal.toList := by
  induction v using induction_children with
  | step v ih =>
      rcases mem_parts.mp h with rfl | ⟨child, hchild, hw⟩
      · exact List.infix_rfl
      · exact (ih child hchild hw).trans (isInfix_literal_of_mem_children hchild)

theorem isInfix_literal_of_mem_texts {v : Value} {text : String} (h : text ∈ v.texts) :
    Text.quote text.toList <:+: v.literal.toList := by
  rw [← toList_literal_string]
  exact isInfix_literal_of_mem_parts (mem_texts.mp h)

end Cypher.Value
