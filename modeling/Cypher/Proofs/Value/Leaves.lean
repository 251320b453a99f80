import Cypher.Proofs.Value.Codec

/-!
# Leaves that are numbers or durations

Floating-point numbers and durations are the only values that may have no serialized form. They are
listed here with the places where they stand, in the order in which a value is written: list items by
index, the values of maps and properties by name. The paths in the list are exactly those that lead
to such a leaf (`mem_leaves_iff`), and they ascend (`pairwise_leaves`).
-/

namespace Cypher

/-- Where a value stands in the value around it. -/
inductive Place where
  | index (i : Nat)
  | name (s : String)
deriving DecidableEq

/-- The order of places in one list, or in one map with ascending names. -/
inductive Place.Before : Place → Place → Prop
  | index {i j : Nat} (h : i < j) : Before (.index i) (.index j)
  | name {s t : String} (h : s < t) : Before (.name s) (.name t)

inductive Leaf where
  | float (x : Binary64)
  | duration (d : Duration)
deriving DecidableEq

def Leaf.value : Leaf → Value
  | float x => .float x
  | duration d => .duration d

/-- A leaf and the places that lead to it, the outermost first. -/
structure PlacedLeaf where
  path : List Place
  leaf : Leaf
deriving DecidableEq

def PlacedLeaf.under (place : Place) (l : PlacedLeaf) : PlacedLeaf := ⟨place :: l.path, l.leaf⟩

namespace Value

mutual

/-- The leaves of a value, in the order of writing. -/
def leaves : Value → List PlacedLeaf
  | .float x => [⟨[], .float x⟩]
  | .duration d => [⟨[], .duration d⟩]
  | .list items => leavesOfItems 0 items
  | .map entries => leavesOfFields entries.entries
  | .node n => leavesOfFields n.properties.entries
  | .relationship r => leavesOfFields r.properties.entries
  | _ => []

def leavesOfItems (i : Nat) : List Value → List PlacedLeaf
  | [] => []
  | item :: rest => (leaves item).map (.under (.index i)) ++ leavesOfItems (i + 1) rest

def leavesOfFields : List (String × Value) → List PlacedLeaf
  | [] => []
  | (name, value) :: rest => (leaves value).map (.under (.name name)) ++ leavesOfFields rest

end

def ownLeaf? : Value → Option Leaf
  | .float x => some (.float x)
  | .duration d => some (.duration d)
  | _ => none

/-- The values that stand directly in a value, with their places. -/
def contents (v : Value) : List (Place × Value) :=
  (v.items.zipIdx.map fun item => (.index item.2, item.1)) ++
    v.fields.map fun field => (.name field.1, field.2)

def leavesAt (content : Place × Value) : List PlacedLeaf :=
  content.2.leaves.map (.under content.1)

theorem map_snd_contents (v : Value) : v.contents.map Prod.snd = v.children := by
  simp [contents, children, Function.comp_def]

theorem leavesOfItems_eq_flatMap (i : Nat) (items : List Value) :
    leavesOfItems i items =
      ((items.zipIdx i).map fun item => (Place.index item.2, item.1)).flatMap leavesAt := by
  induction items generalizing i with
  | nil => rfl
  | cons item rest ih =>
      rw [leavesOfItems, ih, List.zipIdx_cons, List.map_cons, List.flatMap_cons]
      rfl

theorem leavesOfFields_eq_flatMap (fields : List (String × Value)) :
    leavesOfFields fields =
      (fields.map fun field => (Place.name field.1, field.2)).flatMap leavesAt := by
  induction fields with
  | nil => rfl
  | cons field rest ih =>
      obtain ⟨name, value⟩ := field
      rw [leavesOfFields, ih, List.map_cons, List.flatMap_cons]
      rfl

theorem leaves_eq (v : Value) :
    v.leaves = v.ownLeaf?.toList.map (PlacedLeaf.mk []) ++ v.contents.flatMap leavesAt := by
  cases v with
  | list items => simp [leaves, leavesOfItems_eq_flatMap, ownLeaf?, contents, Value.items, fields]
  | map entries => simp [leaves, leavesOfFields_eq_flatMap, ownLeaf?, contents, items, fields]
  | node n => simp [leaves, leavesOfFields_eq_flatMap, ownLeaf?, contents, items, fields]
  | relationship r => simp [leaves, leavesOfFields_eq_flatMap, ownLeaf?, contents, items, fields]
  | _ => simp [leaves, ownLeaf?, contents, items, fields]

theorem ownLeaf?_eq_some_iff {v : Value} {leaf : Leaf} :
    v.ownLeaf? = some leaf ↔ leaf.value = v := by
  cases v <;> cases leaf <;> simp [ownLeaf?, Leaf.value, eq_comm]

/-- What is listed are all floating-point numbers and durations among the parts of a value. -/
theorem exists_mem_leaves_iff {v : Value} {leaf : Leaf} :
    (∃ l ∈ v.leaves, l.leaf = leaf) ↔ leaf.value ∈ v.parts := by
  induction v using induction_children with
  | step v ih =>
      have hcontents : (∃ l ∈ v.contents.flatMap leavesAt, l.leaf = leaf) ↔
          ∃ child ∈ v.children, leaf.value ∈ child.parts := by
        rw [← map_snd_contents]
        constructor
        · intro hlisted
          obtain ⟨l, hl, rfl⟩ := hlisted
          obtain ⟨content, hcontent, hl⟩ := List.mem_flatMap.mp hl
          obtain ⟨inner, hinner, rfl⟩ := List.mem_map.mp hl
          have hchild : content.2 ∈ v.contents.map Prod.snd := List.mem_map_of_mem hcontent
          exact ⟨content.2, hchild,
            (ih content.2 (map_snd_contents v ▸ hchild)).mp ⟨inner, hinner, rfl⟩⟩
        · intro hpart
          obtain ⟨child, hchild, hpart⟩ := hpart
          obtain ⟨inner, hinner, hleaf⟩ := (ih child (map_snd_contents v ▸ hchild)).mpr hpart
          obtain ⟨content, hcontent, rfl⟩ := List.mem_map.mp hchild
          exact ⟨inner.under content.1,
            List.mem_flatMap.mpr ⟨content, hcontent, List.mem_map_of_mem hinner⟩, hleaf⟩
      rw [leaves_eq, mem_parts, ← hcontents, ← ownLeaf?_eq_some_iff]
      simp [or_and_right, exists_or]

def child? (v : Value) : Place → Option Value
  | .index i => v.items[i]?
  | .name s => v.fields.lookup s

/-- The value that a path leads to. -/
def at? (v : Value) : List Place → Option Value
  | [] => some v
  | place :: rest => (v.child? place).bind fun child => child.at? rest

theorem mem_contents_iff {v : Value} (hv : (v.fields.map Prod.fst).Pairwise (· < ·)) {place : Place}
    {child : Value} : (place, child) ∈ v.contents ↔ v.child? place = some child := by
  cases place with
  | index i => simp [contents, child?, List.mem_zipIdx_iff_getElem?]
  | name s =>
      have hfields : (Place.name s, child) ∈ v.contents ↔ (s, child) ∈ v.fields := by
        simp [contents]
      rw [hfields, child?]
      constructor
      · intro hmem
        obtain ⟨before, after, hsplit⟩ := List.append_of_mem hmem
        refine List.lookup_eq_some_iff.mpr ⟨before, after, hsplit, fun field hfield => ?_⟩
        rw [hsplit, List.map_append, List.pairwise_append] at hv
        have hlt := hv.2.2 field.1 (List.mem_map_of_mem hfield) s (by simp)
        rw [bne_iff_ne]
        rintro rfl
        exact String.lt_irrefl _ hlt
      · intro hlookup
        obtain ⟨before, after, hsplit, -⟩ := List.lookup_eq_some_iff.mp hlookup
        simp [hsplit]

theorem mem_leaves_iff {v : Value} (hv : v.Ordered) {path : List Place} {leaf : Leaf} :
    ⟨path, leaf⟩ ∈ v.leaves ↔ v.at? path = some leaf.value := by
  induction v using induction_children generalizing path with
  | step v ih =>
      rw [leaves_eq, List.mem_append]
      cases path with
      | nil =>
          have howned : (⟨[], leaf⟩ : PlacedLeaf) ∈ v.ownLeaf?.toList.map (PlacedLeaf.mk []) ↔
              leaf.value = v := by
            simp [← ownLeaf?_eq_some_iff]
          have hnone : (⟨[], leaf⟩ : PlacedLeaf) ∉ v.contents.flatMap leavesAt := by
            simp [leavesAt, PlacedLeaf.under]
          rw [howned, at?, Option.some.injEq, or_iff_left hnone, eq_comm]
      | cons place rest =>
          have hnone : (⟨place :: rest, leaf⟩ : PlacedLeaf) ∉
              v.ownLeaf?.toList.map (PlacedLeaf.mk []) := by
            simp
          have hinside : (⟨place :: rest, leaf⟩ : PlacedLeaf) ∈ v.contents.flatMap leavesAt ↔
              ∃ child, (place, child) ∈ v.contents ∧ ⟨rest, leaf⟩ ∈ child.leaves := by
            constructor
            · intro hlisted
              obtain ⟨content, hcontent, hlisted⟩ := List.mem_flatMap.mp hlisted
              obtain ⟨l, hl, heq⟩ := List.mem_map.mp hlisted
              cases heq
              exact ⟨content.2, hcontent, hl⟩
            · intro hlisted
              obtain ⟨child, hcontent, hl⟩ := hlisted
              exact List.mem_flatMap.mpr ⟨(place, child), hcontent, List.mem_map_of_mem hl⟩
          rw [or_iff_right hnone, hinside, at?, Option.bind_eq_some_iff]
          apply exists_congr
          intro child
          rw [mem_contents_iff hv.fields]
          apply and_congr_right
          intro hchild
          have hmem : child ∈ v.children := by
            rw [← map_snd_contents]
            exact List.mem_map_of_mem ((mem_contents_iff hv.fields).mpr hchild)
          exact ih child hmem (hv.child hmem)

theorem pairwise_contents {v : Value} (hv : (v.fields.map Prod.fst).Pairwise (· < ·)) :
    v.contents.Pairwise fun a b => Place.Before a.1 b.1 := by
  have hitems : (v.items.zipIdx.map fun item => (Place.index item.2, item.1)).Pairwise
      fun a b => Place.Before a.1 b.1 := by
    have hindices : (v.items.zipIdx.map Prod.snd).Pairwise (· < ·) := by
      rw [List.zipIdx_map_snd]
      exact List.pairwise_lt_range'
    rw [List.pairwise_map] at hindices ⊢
    exact hindices.imp fun hlt => .index hlt
  have hfields : (v.fields.map fun field => (Place.name field.1, field.2)).Pairwise
      fun a b => Place.Before a.1 b.1 := by
    rw [List.pairwise_map] at hv ⊢
    exact hv.imp fun hlt => .name hlt
  -- a value has items or fields, but not both
  cases v with
  | list items => simpa [contents, fields] using hitems
  | _ => simpa [contents, items] using hfields

theorem pairwise_leaves {v : Value} (hv : v.Ordered) :
    v.leaves.Pairwise fun a b => List.Lex Place.Before a.path b.path := by
  induction v using induction_children with
  | step v ih =>
      rw [leaves_eq, List.pairwise_append]
      refine ⟨?_, List.pairwise_flatMap.mpr ⟨?_, ?_⟩, ?_⟩
      · cases v.ownLeaf? <;> simp
      · intro content hcontent
        have hchild : content.2 ∈ v.children :=
          map_snd_contents v ▸ List.mem_map_of_mem hcontent
        exact (ih content.2 hchild (hv.child hchild)).map _ fun _ _ hlex => .cons hlex
      · apply (pairwise_contents hv.fields).imp
        intro a b hbefore x hx y hy
        obtain ⟨l, -, rfl⟩ := List.mem_map.mp hx
        obtain ⟨r, -, rfl⟩ := List.mem_map.mp hy
        exact .rel hbefore
      · intro x hx y hy
        obtain ⟨leaf, -, rfl⟩ := List.mem_map.mp hx
        obtain ⟨content, -, hy⟩ := List.mem_flatMap.mp hy
        obtain ⟨r, -, rfl⟩ := List.mem_map.mp hy
        exact .nil

end Value

end Cypher
