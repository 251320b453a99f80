import Cypher.Text.Basic

/-!
# Labels and properties

Collections whose text does not depend on the order in which they were filled.
-/

namespace Cypher

/-! ## Property maps

Finite maps from property names to values, as association lists. Every operation that builds a map
keeps the names in strictly ascending code-point order, so each name has one entry and two maps that
answer alike are the same list; `Ascending` states that order. -/

structure PropertyMap (α : Type) where
  /-- Names and values, in ascending order of the names. -/
  entries : List (String × α)

namespace PropertyMap

variable {α : Type}

def empty : PropertyMap α := ⟨[]⟩

instance : EmptyCollection (PropertyMap α) := ⟨empty⟩

def names (m : PropertyMap α) : List String := m.entries.map Prod.fst

def Ascending (m : PropertyMap α) : Prop := m.names.Pairwise (· < ·)

/-- Puts an entry in its place in an ascending list, over an older entry of the same name. -/
def insertEntry (name : String) (value : α) : List (String × α) → List (String × α)
  | [] => [(name, value)]
  | (other, old) :: rest =>
    if name < other then (name, value) :: (other, old) :: rest
    else if name = other then (name, value) :: rest
    else (other, old) :: insertEntry name value rest

/-- The map with a value assigned to a name; an older value of that name is replaced. -/
def insert (name : String) (value : α) (m : PropertyMap α) : PropertyMap α :=
  ⟨insertEntry name value m.entries⟩

def get? (m : PropertyMap α) (name : String) : Option α := m.entries.lookup name

/-- The map that assigns the pairs in order, later ones over earlier ones of the same name. -/
def ofPairs (pairs : List (String × α)) : PropertyMap α :=
  pairs.foldl (fun m (name, value) => m.insert name value) ∅

@[simp] theorem get?_empty (name : String) : (∅ : PropertyMap α).get? name = none := rfl

theorem lookup_cons_of_ne {name other : String} (h : other ≠ name) (value : α)
    (entries : List (String × α)) : ((name, value) :: entries).lookup other = entries.lookup other := by
  rw [List.lookup_cons, beq_eq_false_iff_ne.mpr h]

theorem lookup_insertEntry {name other : String} {value : α} {entries : List (String × α)} :
    (insertEntry name value entries).lookup other =
      if other = name then some value else entries.lookup other := by
  induction entries with
  | nil =>
    by_cases h : other = name
    · simp [insertEntry, h]
    · simp [insertEntry, h, lookup_cons_of_ne h]
  | cons head rest ih =>
    obtain ⟨first, old⟩ := head
    simp only [insertEntry]
    by_cases hlt : name < first
    · by_cases h : other = name
      · simp [hlt, h]
      · simp [hlt, h, lookup_cons_of_ne h]
    · by_cases heq : name = first
      · subst heq
        by_cases h : other = name
        · simp [h]
        · simp [h, lookup_cons_of_ne h]
      · by_cases h : other = first
        · subst h; simp [hlt, heq, Ne.symm heq]
        · simp [hlt, heq, lookup_cons_of_ne h, ih]

@[simp] theorem get?_insert (m : PropertyMap α) (name other : String) (value : α) :
    (m.insert name value).get? other = if other = name then some value else m.get? other :=
  lookup_insertEntry

theorem mem_names_insertEntry {name other : String} {value : α} {entries : List (String × α)} :
    other ∈ (insertEntry name value entries).map Prod.fst ↔
      other = name ∨ other ∈ entries.map Prod.fst := by
  induction entries with
  | nil => simp [insertEntry]
  | cons head rest ih =>
    obtain ⟨first, old⟩ := head
    simp only [insertEntry]
    by_cases hlt : name < first
    · simp [hlt]
    · by_cases heq : name = first
      · subst heq; simp
      · simp only [hlt, heq, if_false, List.map_cons, List.mem_cons, ih]
        grind

@[simp] theorem ascending_empty : (∅ : PropertyMap α).Ascending := List.Pairwise.nil

theorem pairwise_insertEntry {name : String} {value : α} {entries : List (String × α)}
    (h : (entries.map Prod.fst).Pairwise (· < ·)) :
    ((insertEntry name value entries).map Prod.fst).Pairwise (· < ·) := by
  induction entries with
  | nil => simp [insertEntry]
  | cons head rest ih =>
    obtain ⟨first, old⟩ := head
    obtain ⟨hhead, hrest⟩ := List.pairwise_cons.mp h
    simp only [insertEntry]
    by_cases hlt : name < first
    · simp only [hlt, if_true, List.map_cons, List.pairwise_cons]
      refine ⟨fun other hmem => ?_, hhead, hrest⟩
      rcases List.mem_cons.mp hmem with rfl | hmem
      · exact hlt
      · exact String.lt_trans hlt (hhead other hmem)
    · by_cases heq : name = first
      · subst heq; simpa [hlt] using h
      · simp only [hlt, heq, if_false, List.map_cons, List.pairwise_cons]
        refine ⟨fun other hmem => ?_, ih hrest⟩
        rcases mem_names_insertEntry.mp hmem with rfl | hmem
        · exact Std.lt_of_le_of_ne (String.not_lt.mp hlt) (Ne.symm heq)
        · exact hhead other hmem

theorem Ascending.insert {m : PropertyMap α} (h : m.Ascending) (name : String) (value : α) :
    (m.insert name value).Ascending :=
  pairwise_insertEntry h

theorem ascending_ofPairs (pairs : List (String × α)) : (ofPairs pairs).Ascending := by
  suffices h : ∀ m : PropertyMap α, m.Ascending →
      (pairs.foldl (fun m (name, value) => m.insert name value) m).Ascending from
    h ∅ ascending_empty
  induction pairs with
  | nil => exact fun _ h => h
  | cons pair rest ih => exact fun m h => ih _ (h.insert pair.1 pair.2)

end PropertyMap

/-! ## Label sets

Finite sets of labels, kept in ascending code-point order without repetition. Adding a label trims
it and ignores a blank one; reading a stored set takes its members as they are. -/

/-- Puts a label into an ascending list, unless it is there already. -/
def insertLabel (label : String) : List String → List String
  | [] => [label]
  | other :: rest =>
    if label < other then label :: other :: rest
    else if label = other then other :: rest
    else other :: insertLabel label rest

theorem mem_insertLabel {label other : String} {labels : List String} :
    other ∈ insertLabel label labels ↔ other = label ∨ other ∈ labels := by
  induction labels with
  | nil => simp [insertLabel]
  | cons head rest ih =>
    by_cases hlt : label < head
    · simp [insertLabel, hlt]
    · by_cases heq : label = head
      · subst heq; simp [insertLabel]
      · simp [insertLabel, hlt, heq, ih]
        grind

theorem pairwise_insertLabel {label : String} {labels : List String}
    (h : labels.Pairwise (· < ·)) : (insertLabel label labels).Pairwise (· < ·) := by
  induction labels with
  | nil => simp [insertLabel]
  | cons head rest ih =>
    obtain ⟨hhead, hrest⟩ := List.pairwise_cons.mp h
    by_cases hlt : label < head
    · simp only [insertLabel, hlt, if_true, List.pairwise_cons]
      refine ⟨fun other hmem => ?_, hhead, hrest⟩
      rcases List.mem_cons.mp hmem with rfl | hmem
      · exact hlt
      · exact String.lt_trans hlt (hhead other hmem)
    · by_cases heq : label = head
      · simpa [insertLabel, hlt, heq] using h
      · simp only [insertLabel, hlt, heq, if_false, List.pairwise_cons]
        refine ⟨fun other hmem => ?_, ih hrest⟩
        rcases mem_insertLabel.mp hmem with rfl | hmem
        · exact Std.lt_of_le_of_ne (String.not_lt.mp hlt) (Ne.symm heq)
        · exact hhead other hmem

structure LabelSet where
  /-- The labels in ascending order. -/
  toList : List String
  ascending : toList.Pairwise (· < ·)
deriving DecidableEq

namespace LabelSet

def empty : LabelSet := ⟨[], List.Pairwise.nil⟩

instance : EmptyCollection LabelSet := ⟨empty⟩

/-- The set with one more member, taken as it is. -/
def insert (label : String) (labels : LabelSet) : LabelSet :=
  ⟨insertLabel label labels.toList, pairwise_insertLabel labels.ascending⟩

/-- The set with one more label: trimmed, and ignored if it is blank. -/
def add (label : String) (labels : LabelSet) : LabelSet :=
  if (Text.trim label.toList).isEmpty then labels else labels.insert (Text.trimmed label)

def ofList (labels : List String) : LabelSet := labels.foldl (fun set label => set.insert label) ∅

def contains (labels : LabelSet) (label : String) : Bool := labels.toList.contains label

end LabelSet

end Cypher
