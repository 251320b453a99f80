import Mathlib
import Cypher.Json.Basic

/-!
# Levels and members of documents

The levels of a document are the containers around its innermost part. A reader that may open so many
containers can open every container in the document. Proofs about documents go from the contents of a
document to the document (`induction_contents`).
-/

namespace Cypher.Json

mutual

/-- How many containers are around the innermost part of a document. -/
def levels : Json → Nat
  | .array items => itemsLevels items + 1
  | .object members => membersLevels members + 1
  | _ => 0

def itemsLevels : List Json → Nat
  | [] => 0
  | item :: rest => max (levels item) (itemsLevels rest)

def membersLevels : Members → Nat
  | [] => 0
  | (_, value) :: rest => max (levels value) (membersLevels rest)

end

theorem itemsLevels_le_iff {items : List Json} {n : Nat} :
    itemsLevels items ≤ n ↔ ∀ item ∈ items, item.levels ≤ n := by
  induction items with
  | nil => simp [itemsLevels]
  | cons item rest ih => simp [itemsLevels, ih]

theorem membersLevels_le_iff {members : Members} {n : Nat} :
    membersLevels members ≤ n ↔ ∀ member ∈ members, member.2.levels ≤ n := by
  induction members with
  | nil => simp [membersLevels]
  | cons member rest ih =>
      obtain ⟨name, value⟩ := member
      simp [membersLevels, ih]

theorem levels_array_le_iff {items : List Json} {n : Nat} :
    (Json.array items).levels ≤ n ↔ ∃ m, n = m + 1 ∧ ∀ item ∈ items, item.levels ≤ m := by
  rw [levels]
  constructor
  · intro h
    exact ⟨n - 1, by omega, itemsLevels_le_iff.mp (by omega)⟩
  · rintro ⟨m, rfl, h⟩
    exact Nat.succ_le_succ (itemsLevels_le_iff.mpr h)

theorem levels_object_le_iff {members : Members} {n : Nat} :
    (Json.object members).levels ≤ n ↔
      ∃ m, n = m + 1 ∧ ∀ member ∈ members, member.2.levels ≤ m := by
  rw [levels]
  constructor
  · intro h
    exact ⟨n - 1, by omega, membersLevels_le_iff.mp (by omega)⟩
  · rintro ⟨m, rfl, h⟩
    exact Nat.succ_le_succ (membersLevels_le_iff.mpr h)

theorem levels_ofMembers_le_iff {members : List (String × Json)} {n : Nat} :
    (Json.ofMembers members).levels ≤ n ↔
      ∃ m, n = m + 1 ∧ ∀ member ∈ members, member.2.levels ≤ m := by
  rw [ofMembers, levels_object_le_iff]
  simp only [List.forall_mem_map]

/-- The documents that stand directly in a document. -/
def contents : Json → List Json
  | .array items => items
  | .object members => members.map Prod.snd
  | _ => []

theorem sizeOf_lt_of_mem_contents {d content : Json} (h : content ∈ d.contents) :
    sizeOf content < sizeOf d := by
  cases d with
  | array items =>
      rw [contents] at h
      have hitem := List.sizeOf_lt_of_mem h
      simp only [array.sizeOf_spec]
      omega
  | object members =>
      obtain ⟨member, hmember, rfl⟩ := List.mem_map.mp h
      have hsize := List.sizeOf_lt_of_mem hmember
      cases member
      simp only [object.sizeOf_spec, Prod.mk.sizeOf_spec] at *
      omega
  | _ => exact absurd h List.not_mem_nil

@[elab_as_elim]
theorem induction_contents {motive : Json → Prop}
    (step : ∀ d, (∀ content ∈ d.contents, motive content) → motive d) (d : Json) : motive d :=
  step d fun content _ => induction_contents step content
termination_by sizeOf d
decreasing_by exact sizeOf_lt_of_mem_contents ‹_›

theorem levels_lt_of_mem_contents {d content : Json} (h : content ∈ d.contents) :
    content.levels < d.levels := by
  cases d with
  | array items => exact Nat.lt_succ_of_le (itemsLevels_le_iff.mp le_rfl content h)
  | object members =>
      obtain ⟨member, hmember, rfl⟩ := List.mem_map.mp h
      exact Nat.lt_succ_of_le (membersLevels_le_iff.mp le_rfl member hmember)
  | _ => exact absurd h List.not_mem_nil

theorem isSound_of_itemsSound {n : Nat} {items : List Json} (h : itemsSound n items = true) :
    ∀ item ∈ items, isSound n item = true := by
  induction items with
  | nil => simp
  | cons item rest ih =>
      rw [itemsSound, Bool.and_eq_true] at h
      exact List.forall_mem_cons.mpr ⟨h.1, ih h.2⟩

theorem isSound_of_membersSound {n : Nat} {members : Members} (h : membersSound n members = true) :
    ∀ member ∈ members, isSound n member.2 = true := by
  induction members with
  | nil => simp
  | cons member rest ih =>
      obtain ⟨name, value⟩ := member
      rw [membersSound, Bool.and_eq_true, Bool.and_eq_true] at h
      exact List.forall_mem_cons.mpr ⟨h.1.2, ih h.2⟩

theorem levels_le_of_isSound {d : Json} {n : Nat} (h : isSound n d = true) : d.levels ≤ n := by
  induction d using induction_contents generalizing n with
  | step d ih =>
      cases d with
      | array items =>
          cases n with
          | zero => simp [isSound] at h
          | succ n =>
              refine levels_array_le_iff.mpr ⟨n, rfl, fun item hitem => ?_⟩
              exact ih item hitem (isSound_of_itemsSound h item hitem)
      | object members =>
          cases n with
          | zero => simp [isSound] at h
          | succ n =>
              refine levels_object_le_iff.mpr ⟨n, rfl, fun member hmember => ?_⟩
              exact ih member.2 (List.mem_map_of_mem hmember)
                (isSound_of_membersSound h member hmember)
      | _ => exact Nat.zero_le n

theorem mem_contents_of_member? {members : Members} {name : String} {content : Json}
    (h : member? members name = some content) : content ∈ (Json.object members).contents := by
  obtain ⟨before, after, hsplit, -⟩ := List.lookup_eq_some_iff.mp h
  simp [contents, hsplit]

/-- How many containers, one inside the other, a reader can open in a document from some source. -/
def Source.reach : Source → Json → Nat
  | .text levels, _ => levels
  | .memory, document => document.levels

/-- Opening a container takes one level from what is inside. -/
theorem Source.reach_le_of_enter? {source inner : Source} {d : Json} {n : Nat}
    (henter : source.enter? = some inner) (hcontainer : 0 < d.levels) (h : source.reach d ≤ n) :
    ∃ m, n = m + 1 ∧ ∀ content ∈ d.contents, inner.reach content ≤ m := by
  cases source with
  | memory =>
      rw [enter?, Option.some.injEq] at henter
      rw [reach] at h
      refine ⟨n - 1, by omega, fun content hcontent => ?_⟩
      have hlt := levels_lt_of_mem_contents hcontent
      rw [← henter, reach]
      omega
  | text levels =>
      cases levels with
      | zero => exact absurd henter (by simp [enter?])
      | succ levels =>
          rw [enter?, Option.some.injEq] at henter
          rw [reach] at h
          refine ⟨n - 1, by omega, fun content _ => ?_⟩
          rw [← henter, reach]
          omega

theorem Source.levels_le_reach_of_canHold {source : Source} {d : Json}
    (h : source.canHold d = true) : d.levels ≤ source.reach d := by
  cases source with
  | text levels => exact levels_le_of_isSound h
  | memory => exact le_rfl

/-! ## Members in another order

The members of an object may change places, and members of other names may come in between. What can
be asked about the named fields stays the same, as long as none of them occurs twice. A document
inside another one is put in place of another by `Frame.plug`. -/

variable {fields : List String} {members others : Members}

/-- One object has the members of the other in some order, and possibly more members, none of which
has the name of a field. -/
def Reordered (fields : List String) (members others : Members) : Prop :=
  ∃ added : Members, (∀ member ∈ added, ∃ name, member.1 = some name ∧ name ∉ fields) ∧
    others.Perm (members ++ added)

theorem Reordered.filter_perm (h : Reordered fields members others) {field : String}
    (hfield : field ∈ fields) :
    (others.filter fun member => member.1 == some field).Perm
      (members.filter fun member => member.1 == some field) := by
  obtain ⟨added, hadded, hperm⟩ := h
  have hnone : added.filter (fun member => member.1 == some field) = [] := by
    rw [List.filter_eq_nil_iff]
    intro member hmember
    obtain ⟨name, hname, hnot⟩ := hadded member hmember
    rw [hname, beq_iff_eq, Option.some.injEq]
    rintro rfl
    exact hnot hfield
  have hfiltered := hperm.filter fun member => member.1 == some field
  rwa [List.filter_append, hnone, List.append_nil] at hfiltered

theorem Reordered.fitsFields_eq (h : Reordered fields members others) :
    fitsFields fields others = fitsFields fields members := by
  have hnames : others.all (·.1.isSome) = members.all (·.1.isSome) := by
    obtain ⟨added, hadded, hperm⟩ := h
    have hadded : added.all (·.1.isSome) = true := by
      rw [List.all_eq_true]
      intro member hmember
      obtain ⟨name, hname, -⟩ := hadded member hmember
      rw [hname, Option.isSome_some]
    rw [hperm.all_eq, List.all_append, hadded, Bool.and_true]
  have hoccurrences : ∀ field ∈ fields,
      occurrences others field = occurrences members field := by
    intro field hfield
    rw [occurrences, occurrences, List.countP_eq_length_filter, List.countP_eq_length_filter,
      (h.filter_perm hfield).length_eq]
  rw [fitsFields, fitsFields, hnames]
  congr 1
  rw [Bool.eq_iff_iff, List.all_eq_true, List.all_eq_true]
  exact forall₂_congr fun field hfield => by rw [hoccurrences field hfield]

theorem member?_eq_head? (members : Members) (name : String) :
    member? members name =
      (members.filter fun member => member.1 == some name).head?.map Prod.snd := by
  induction members with
  | nil => rfl
  | cons member rest ih =>
      obtain ⟨other, d⟩ := member
      rw [member?, List.lookup_cons]
      by_cases hname : other = some name
      · simp [hname]
      · have hne : (some name == other) = false := beq_eq_false_iff_ne.mpr (Ne.symm hname)
        rw [hne, List.filter_cons_of_neg (by simpa using hname)]
        exact ih

theorem occurrences_le_one {field : String} (h : fitsFields fields members = true)
    (hfield : field ∈ fields) : occurrences members field ≤ 1 := by
  rw [fitsFields, Bool.and_eq_true] at h
  exact of_decide_eq_true (List.all_eq_true.mp h.2 field hfield)

theorem Reordered.member?_eq (h : Reordered fields members others)
    (hfits : fitsFields fields members = true) (field : String) (hfield : field ∈ fields) :
    member? others field = member? members field := by
  have honce := occurrences_le_one hfits hfield
  rw [occurrences, List.countP_eq_length_filter] at honce
  have hperm := h.filter_perm hfield
  have hsame : others.filter (fun member => member.1 == some field) =
      members.filter fun member => member.1 == some field := by
    generalize members.filter (fun member => member.1 == some field) = found at honce hperm
    match found with
    | [] => exact hperm.eq_nil
    | [member] => exact List.perm_singleton.mp hperm
    | _ :: _ :: _ => simp at honce
  rw [member?_eq_head?, member?_eq_head?, hsame]

/-- What surrounds a document that stands in an array or in an object. -/
inductive Frame where
  | item (before after : List Json)
  | member (before : Members) (name : Option String) (after : Members)

def Frame.plug : Frame → Json → Json
  | .item before after, d => .array (before ++ d :: after)
  | .member before name after, d => .object (before ++ (name, d) :: after)

theorem Frame.mem_contents_plug (frame : Frame) (d : Json) : d ∈ (frame.plug d).contents := by
  cases frame <;> simp [plug, contents]

theorem member?_append (before after : Members) (name : String) :
    member? (before ++ after) name = (member? before name).or (member? after name) := by
  induction before with
  | nil => simp [member?]
  | cons member rest ih =>
      obtain ⟨other, d⟩ := member
      simp only [member?, List.cons_append, List.lookup_cons] at ih ⊢
      split
      · rfl
      · exact ih

theorem member?_cons (name : Option String) (d : Json) (rest : Members) (other : String) :
    member? ((name, d) :: rest) other = if name = some other then some d else member? rest other := by
  rw [member?, List.lookup_cons]
  by_cases hname : name = some other
  · simp [hname]
  · rw [if_neg hname, beq_eq_false_iff_ne.mpr (Ne.symm hname)]
    rfl

theorem member?_plug_of_ne {name : Option String} {other : String} (h : name ≠ some other)
    (before after : Members) (d : Json) :
    member? (before ++ (name, d) :: after) other = member? (before ++ after) other := by
  rw [member?_append, member?_append, member?_cons, if_neg h]

theorem fitsFields_plug (fields : List String) (before after : Members) (name : Option String)
    (d d' : Json) :
    fitsFields fields (before ++ (name, d) :: after) =
      fitsFields fields (before ++ (name, d') :: after) := by
  simp only [fitsFields, occurrences, List.all_append, List.all_cons, List.countP_append,
    List.countP_cons]

theorem member?_eq_none_of_fits {field : String} {before after : Members} {d : Json}
    (h : fitsFields fields (before ++ (some field, d) :: after) = true) (hfield : field ∈ fields) :
    member? before field = none := by
  have honce := occurrences_le_one h hfield
  have hbefore : occurrences before field = 0 := by
    simp only [occurrences, List.countP_append, List.countP_cons, beq_self_eq_true, if_true]
      at honce ⊢
    omega
  rw [occurrences, List.countP_eq_length_filter, List.length_eq_zero_iff] at hbefore
  rw [member?_eq_head?, hbefore]
  rfl

/-- What stands under the name of a field is what is found, since the name stands nowhere else. -/
theorem member?_plug_of_fits {field : String} {before after : Members} {d : Json}
    (h : fitsFields fields (before ++ (some field, d) :: after) = true) (hfield : field ∈ fields) :
    member? (before ++ (some field, d) :: after) field = some d := by
  rw [member?_append, member?_eq_none_of_fits h hfield, member?_cons, if_pos rfl, Option.none_or]

/-- What is found splits the members where it stands first. -/
theorem exists_plug_of_member? {name : String} {d : Json} (h : member? members name = some d) :
    ∃ before after, members = before ++ (some name, d) :: after ∧ member? before name = none := by
  obtain ⟨before, after, hsplit, hbefore⟩ := List.lookup_eq_some_iff.mp h
  exact ⟨before, after, hsplit, List.lookup_eq_none_iff.mpr hbefore⟩

theorem Source.enter?_memory : Source.memory.enter? = some .memory := rfl

theorem Source.enter?_text (levels : Nat) :
    (Source.text (levels + 1)).enter? = some (.text levels) := rfl

theorem levels_plug_pos (frame : Frame) (d : Json) : 0 < (frame.plug d).levels := by
  have hlt := levels_lt_of_mem_contents (frame.mem_contents_plug d)
  omega

theorem exists_contents_sound {n : Nat} {d : Json} (h : isSound n d = true) (hd : 0 < d.levels) :
    ∃ m, n = m + 1 ∧ ∀ content ∈ d.contents, isSound m content = true := by
  cases d with
  | array items =>
      cases n with
      | zero => simp [isSound] at h
      | succ n => exact ⟨n, rfl, isSound_of_itemsSound h⟩
  | object members =>
      cases n with
      | zero => simp [isSound] at h
      | succ n =>
          refine ⟨n, rfl, ?_⟩
          rw [contents, List.forall_mem_map]
          exact isSound_of_membersSound h
  | _ => simp [levels] at hd

end Cypher.Json
