import Mathlib
import Cypher.Data.Ordered
import Cypher.Proofs.Text.Trim

/-!
# Outcomes and ordered collections

What may fail, and what does not depend on the order in which it was filled.
-/

namespace Cypher

/-! ## Outcomes of several steps

What is known of the steps of a computation that may fail, from how it ended as a whole. -/

variable {α β ε : Type}

theorem map_eq_ok {f : α → β} {x : Except ε α} {b : β} (h : x.map f = .ok b) :
    ∃ a, x = .ok a ∧ f a = b := by
  cases x with
  | error e => exact absurd h (by simp [Except.map])
  | ok a => exact ⟨a, rfl, Except.ok.inj h⟩

theorem exists_map_eq_ok_iff {f : α → β} {x : Except ε α} {P : β → Prop} :
    (∃ b, x.map f = .ok b ∧ P b) ↔ ∃ a, x = .ok a ∧ P (f a) := by
  cases x <;> simp [Except.map]

theorem bind_eq_ok {x : Except ε α} {f : α → Except ε β} {b : β} (h : x >>= f = .ok b) :
    ∃ a, x = .ok a ∧ f a = .ok b := by
  cases x with
  | error e => exact absurd h (by simp [bind, Except.bind])
  | ok a => exact ⟨a, rfl, h⟩

theorem bind_eq_error_iff {x : Except ε α} {f : α → Except ε β} {e : ε} :
    x >>= f = .error e ↔ x = .error e ∨ ∃ a, x = .ok a ∧ f a = .error e := by
  cases x <;> simp [bind, Except.bind]

theorem bind_congr_of_ok {x : Except ε α} {f g : α → Except ε β}
    (h : ∀ a, x = .ok a → f a = g a) : x >>= f = x >>= g := by
  cases x with
  | error e => rfl
  | ok a => exact h a rfl

def failure? : Except ε α → Option ε
  | .error e => some e
  | .ok _ => none

@[simp] theorem failure?_ok (a : α) : failure? (.ok a : Except ε α) = none := rfl

@[simp] theorem failure?_error (e : ε) : failure? (.error e : Except ε α) = some e := rfl

theorem failure?_eq_some_iff {x : Except ε α} {e : ε} : failure? x = some e ↔ x = .error e := by
  cases x <;> simp

theorem failure?_eq_none_iff {x : Except ε α} : failure? x = none ↔ ∃ a, x = .ok a := by
  cases x <;> simp

@[simp] theorem failure?_map (f : α → β) (x : Except ε α) : failure? (x.map f) = failure? x := by
  cases x <;> rfl

/-- Of two steps the first one to fail decides, if the second does not depend on what the first
gives. -/
theorem failure?_bind {x : Except ε α} {f : α → Except ε β} {e : Option ε}
    (h : ∀ a, failure? (f a) = e) : failure? (x >>= f) = (failure? x).or e := by
  cases x with
  | error first => rfl
  | ok a => exact h a

end Cypher

/-! ## Rebuilding ordered maps and sets

A map or a set that is put together again from its members in their order is the same: each member
goes behind the earlier ones. -/

namespace Cypher

namespace PropertyMap

variable {α : Type}

instance (m : PropertyMap α) : Decidable m.Ascending :=
  inferInstanceAs (Decidable (m.names.Pairwise (· < ·)))

theorem insertEntry_of_all_lt {name : String} {value : α} {entries : List (String × α)}
    (h : ∀ entry ∈ entries, entry.1 < name) :
    insertEntry name value entries = entries ++ [(name, value)] := by
  induction entries with
  | nil => rfl
  | cons entry rest ih =>
      have hlt := h entry List.mem_cons_self
      have hnot : ¬name < entry.1 := String.lt_asymm hlt
      have hne : name ≠ entry.1 := by
        intro heq
        rw [heq] at hlt
        exact String.lt_irrefl _ hlt
      simp only [insertEntry, hnot, hne, if_false]
      rw [ih fun other hother => h other (List.mem_cons_of_mem entry hother), List.cons_append]

theorem foldl_insert_of_ascending {rest before : List (String × α)}
    (h : ((before ++ rest).map Prod.fst).Pairwise (· < ·)) :
    rest.foldl (fun m pair => m.insert pair.1 pair.2) (⟨before⟩ : PropertyMap α) =
      ⟨before ++ rest⟩ := by
  induction rest generalizing before with
  | nil => rw [List.foldl_nil, List.append_nil]
  | cons pair rest ih =>
      have hbefore : ∀ entry ∈ before, entry.1 < pair.1 := by
        rw [List.map_append, List.pairwise_append] at h
        intro entry hentry
        exact h.2.2 entry.1 (List.mem_map_of_mem hentry) pair.1 (by simp)
      have hinsert : (⟨before⟩ : PropertyMap α).insert pair.1 pair.2 = ⟨before ++ [pair]⟩ := by
        rw [insert, insertEntry_of_all_lt hbefore]
      have hshift : before ++ pair :: rest = before ++ [pair] ++ rest := by simp
      rw [hshift] at h ⊢
      rw [List.foldl_cons, hinsert]
      exact ih h

theorem ofPairs_of_ascending {pairs : List (String × α)}
    (h : (pairs.map Prod.fst).Pairwise (· < ·)) : ofPairs pairs = ⟨pairs⟩ :=
  foldl_insert_of_ascending h

end PropertyMap

namespace LabelSet

theorem insertLabel_of_all_lt {label : String} {labels : List String}
    (h : ∀ other ∈ labels, other < label) : insertLabel label labels = labels ++ [label] := by
  induction labels with
  | nil => rfl
  | cons other rest ih =>
      have hlt := h other List.mem_cons_self
      have hnot : ¬label < other := String.lt_asymm hlt
      have hne : label ≠ other := by
        rintro rfl
        exact String.lt_irrefl _ hlt
      simp only [insertLabel, hnot, hne, if_false]
      rw [ih fun another hmem => h another (List.mem_cons_of_mem other hmem), List.cons_append]

theorem toList_foldl_insert {rest : List String} {set : LabelSet}
    (h : (set.toList ++ rest).Pairwise (· < ·)) :
    (rest.foldl (fun set label => set.insert label) set).toList = set.toList ++ rest := by
  induction rest generalizing set with
  | nil => rw [List.foldl_nil, List.append_nil]
  | cons label rest ih =>
      have hbefore : ∀ other ∈ set.toList, other < label := by
        rw [List.pairwise_append] at h
        exact fun other hother => h.2.2 other hother label List.mem_cons_self
      have hinsert : (set.insert label).toList = set.toList ++ [label] :=
        insertLabel_of_all_lt hbefore
      have hshift : set.toList ++ label :: rest = set.toList ++ [label] ++ rest := by simp
      rw [hshift, ← hinsert] at h ⊢
      rw [List.foldl_cons]
      exact ih h

theorem ofList_toList (labels : LabelSet) : ofList labels.toList = labels := by
  have hlist : (ofList labels.toList).toList = labels.toList :=
    toList_foldl_insert labels.ascending
  obtain ⟨members, hmembers⟩ := labels
  rw [LabelSet.mk.injEq]
  exact hlist

end LabelSet

/-! ## What sets and maps hold

An ordered set is determined by its members, and an ordered map by its answers. So neither depends
on the order in which it was filled, as long as the assignments to one and the same name stay in
their order: the last of them is the answer. -/

namespace LabelSet

theorem contains_iff {labels : LabelSet} {s : String} :
    labels.contains s = true ↔ s ∈ labels.toList := by
  rw [contains, List.contains_iff_mem]

theorem eq_of_mem_iff {as bs : LabelSet} (h : ∀ s, s ∈ as.toList ↔ s ∈ bs.toList) : as = bs := by
  have hlists : as.toList = bs.toList := as.ascending.eq_of_mem_iff bs.ascending h
  obtain ⟨labels, hlabels⟩ := as
  obtain ⟨others, hothers⟩ := bs
  rw [LabelSet.mk.injEq]
  exact hlists

theorem mem_add {labels : LabelSet} {label s : String} :
    s ∈ (labels.add label).toList ↔ s ∈ labels.toList ∨ s ≠ "" ∧ Text.TrimsTo label s := by
  rw [add, Text.trimsTo_iff]
  simp only [List.isEmpty_iff, ← Text.trimmed_eq_empty_iff]
  by_cases hblank : Text.trimmed label = ""
  · rw [if_pos hblank, hblank]
    grind
  · rw [if_neg hblank, insert, mem_insertLabel]
    grind

def addAll (added : List String) (labels : LabelSet) : LabelSet :=
  added.foldl (fun set label => set.add label) labels

theorem mem_addAll {added : List String} {labels : LabelSet} {s : String} :
    s ∈ (labels.addAll added).toList ↔
      s ∈ labels.toList ∨ s ≠ "" ∧ ∃ label ∈ added, Text.TrimsTo label s := by
  induction added generalizing labels with
  | nil => simp [addAll]
  | cons label rest ih =>
      have hstep : labels.addAll (label :: rest) = (labels.add label).addAll rest := rfl
      rw [hstep, ih, mem_add, List.exists_mem_cons_iff]
      tauto

/-- Neither the order of added labels nor their number matters. -/
theorem addAll_eq_of_mem_iff {added others : List String} (labels : LabelSet)
    (h : ∀ label, label ∈ others ↔ label ∈ added) : labels.addAll others = labels.addAll added := by
  apply eq_of_mem_iff
  intro s
  simp only [mem_addAll, h]

end LabelSet

namespace PropertyMap

variable {α : Type}

/-- The values that some assignments give to a name, in their order. -/
def valuesOf (name : String) (pairs : List (String × α)) : List α :=
  (pairs.filter fun pair => pair.1 == name).map Prod.snd

def assign (pairs : List (String × α)) (m : PropertyMap α) : PropertyMap α :=
  pairs.foldl (fun m pair => m.insert pair.1 pair.2) m

theorem assign_cons (pair : String × α) (rest : List (String × α)) (m : PropertyMap α) :
    m.assign (pair :: rest) = (m.insert pair.1 pair.2).assign rest := rfl

theorem valuesOf_append (name : String) (before after : List (String × α)) :
    valuesOf name (before ++ after) = valuesOf name before ++ valuesOf name after := by
  rw [valuesOf, List.filter_append, List.map_append]
  rfl

theorem valuesOf_cons (name : String) (pair : String × α) (rest : List (String × α)) :
    valuesOf name (pair :: rest) =
      if pair.1 = name then pair.2 :: valuesOf name rest else valuesOf name rest := by
  by_cases h : pair.1 = name
  · simp [valuesOf, h]
  · simp [valuesOf, h]

theorem valuesOf_eq_nil_iff {name : String} {pairs : List (String × α)} :
    valuesOf name pairs = [] ↔ name ∉ pairs.map Prod.fst := by
  rw [valuesOf, List.map_eq_nil_iff, List.filter_eq_nil_iff]
  simp only [List.mem_map, beq_iff_eq, not_exists, not_and]

theorem get?_assign (m : PropertyMap α) (pairs : List (String × α)) (name : String) :
    (m.assign pairs).get? name = (valuesOf name pairs).getLast?.or (m.get? name) := by
  induction pairs generalizing m with
  | nil => rfl
  | cons pair rest ih =>
      rw [assign_cons, ih, get?_insert, valuesOf_cons]
      by_cases h : name = pair.1
      · subst h
        rw [if_pos rfl, if_pos rfl, List.getLast?_cons]
        cases (valuesOf pair.1 rest).getLast? <;> rfl
      · rw [if_neg h, if_neg (Ne.symm h)]

theorem Ascending.assign {m : PropertyMap α} (h : m.Ascending) (pairs : List (String × α)) :
    (m.assign pairs).Ascending := by
  induction pairs generalizing m with
  | nil => exact h
  | cons pair rest ih => exact ih (h.insert pair.1 pair.2)

theorem ofPairs_eq_assign (pairs : List (String × α)) : ofPairs pairs = assign pairs ∅ := rfl

theorem mem_names_assign {m : PropertyMap α} {pairs : List (String × α)} {name : String} :
    name ∈ (m.assign pairs).names ↔ name ∈ m.names ∨ name ∈ pairs.map Prod.fst := by
  induction pairs generalizing m with
  | nil => simp [assign]
  | cons pair rest ih =>
      have hinsert : name ∈ (m.insert pair.1 pair.2).names ↔ name = pair.1 ∨ name ∈ m.names :=
        mem_names_insertEntry
      rw [assign_cons, ih, hinsert, List.map_cons, List.mem_cons]
      tauto

theorem Ascending.mem_entries_iff {m : PropertyMap α} (h : m.Ascending) {entry : String × α} :
    entry ∈ m.entries ↔ m.get? entry.1 = some entry.2 := by
  obtain ⟨name, value⟩ := entry
  rw [get?, List.lookup_eq_some_iff]
  constructor
  · intro hmem
    obtain ⟨before, after, hsplit⟩ := List.append_of_mem hmem
    refine ⟨before, after, hsplit, ?_⟩
    intro earlier hearlier
    have hlt : earlier.1 < name := by
      rw [Ascending, names, hsplit, List.map_append, List.pairwise_append] at h
      exact h.2.2 earlier.1 (List.mem_map_of_mem hearlier) name (by simp)
    rw [bne_iff_ne]
    rintro rfl
    exact String.lt_irrefl _ hlt
  · rintro ⟨before, after, hsplit, -⟩
    rw [hsplit]
    simp

theorem Ascending.pairwise_entries {m : PropertyMap α} (h : m.Ascending) :
    m.entries.Pairwise (InvImage (· < ·) Prod.fst) := by
  rw [Ascending, names, List.pairwise_map] at h
  exact h

theorem Ascending.eq_of_get? {m k : PropertyMap α} (hm : m.Ascending) (hk : k.Ascending)
    (h : ∀ name, m.get? name = k.get? name) : m = k := by
  have hentries : m.entries = k.entries := by
    apply hm.pairwise_entries.eq_of_mem_iff hk.pairwise_entries
    intro entry
    rw [hm.mem_entries_iff, hk.mem_entries_iff, h]
  obtain ⟨entries⟩ := m
  obtain ⟨others⟩ := k
  rw [PropertyMap.mk.injEq]
  exact hentries

/-- Assignments to different names may change places. -/
theorem Ascending.assign_eq {m : PropertyMap α} (hm : m.Ascending)
    {pairs others : List (String × α)} (h : ∀ name, valuesOf name pairs = valuesOf name others) :
    m.assign pairs = m.assign others := by
  apply (hm.assign pairs).eq_of_get? (hm.assign others)
  intro name
  rw [get?_assign, get?_assign, h]

theorem Ascending.insert_comm {m : PropertyMap α} (hm : m.Ascending) {name other : String}
    (h : name ≠ other) (value value' : α) :
    (m.insert name value).insert other value' = (m.insert other value').insert name value := by
  apply ((hm.insert name value).insert other value').eq_of_get?
    ((hm.insert other value').insert name value)
  intro asked
  simp only [get?_insert]
  by_cases hname : asked = name
  · simp [hname, h]
  · simp [hname]

theorem ofPairs_eq_of_perm {pairs others : List (String × α)} (h : pairs.Perm others)
    (hdistinct : (pairs.map Prod.fst).Nodup) : ofPairs pairs = ofPairs others := by
  suffices hassign : ∀ m : PropertyMap α, m.Ascending → m.assign pairs = m.assign others from
    hassign ∅ ascending_empty
  induction h with
  | nil => exact fun m _ => rfl
  | cons pair _ ih =>
      intro m hm
      exact ih (List.nodup_cons.mp hdistinct).2 _ (hm.insert pair.1 pair.2)
  | swap pair other rest =>
      intro m hm
      have hne : other.1 ≠ pair.1 := by
        intro heq
        simp [heq] at hdistinct
      simp only [assign_cons, hm.insert_comm hne]
  | trans hfirst _ ih ih' =>
      intro m hm
      rw [ih hdistinct m hm, ih' ((hfirst.map Prod.fst).nodup_iff.mp hdistinct) m hm]

end PropertyMap

end Cypher
