import Cypher.Proofs.Value.Leaves
import Cypher.Proofs.Value.Readability
import Cypher.Value.Basic
import Cypher.Value.Equality

/-!
# Laws of equality

Two values are equal if neither holds what is no number and both become the same value when the
signs of their zeros are left out (`equal_iff`). The laws of equality are read off that. The literals
of equal values differ only where the two hold zeros of opposite sign.
-/

namespace Cypher

namespace Binary64

/-- The number, where a zero has no sign. -/
def unsignedZero (x : Binary64) : Binary64 := if x.isZero then ⟨0⟩ else x

theorem isZero_of_unsignedZero_eq {x y : Binary64} (h : x.unsignedZero = y.unsignedZero)
    (hx : x.isZero = true) : y.isZero = true := by
  by_contra hy
  rw [unsignedZero, if_pos hx, unsignedZero, if_neg hy] at h
  exact hy (h ▸ by decide)

theorem unsignedZero_eq_iff {x y : Binary64} :
    x.unsignedZero = y.unsignedZero ↔ x = y ∨ x.isZero = true ∧ y.isZero = true := by
  constructor
  · intro h
    by_cases hx : x.isZero = true
    · exact .inr ⟨hx, isZero_of_unsignedZero_eq h hx⟩
    · have hy : ¬y.isZero = true := fun hy => hx (isZero_of_unsignedZero_eq h.symm hy)
      rw [unsignedZero, if_neg hx, unsignedZero, if_neg hy] at h
      exact .inl h
  · rintro (rfl | ⟨hx, hy⟩)
    · rfl
    · rw [unsignedZero, if_pos hx, unsignedZero, if_pos hy]

theorem equal_iff {x y : Binary64} :
    x.equal y = true ↔
      x.isNaN = false ∧ y.isNaN = false ∧ x.unsignedZero = y.unsignedZero := by
  simp [equal, unsignedZero_eq_iff, and_assoc]

end Binary64

/-- The brackets in the literals of a form. -/
def Form.brackets? : Form → Option (Char × Char)
  | .list => some ('[', ']')
  | .map => some ('\x7b', '\x7d')
  | _ => none

namespace Value

mutual

/-- The value, where no zero at any depth has a sign. -/
def unsignedZeros : Value → Value
  | .float x => .float x.unsignedZero
  | .list items => .list (unsignedItems items)
  | .map entries => .map ⟨unsignedFields entries.entries⟩
  | .node n => .node ⟨n.id, n.labels, ⟨unsignedFields n.properties.entries⟩⟩
  | .relationship r =>
    .relationship ⟨r.id, r.startNode, r.endNode, r.type, ⟨unsignedFields r.properties.entries⟩⟩
  | v => v

def unsignedItems : List Value → List Value
  | [] => []
  | item :: rest => unsignedZeros item :: unsignedItems rest

def unsignedFields : List (String × Value) → List (String × Value)
  | [] => []
  | (name, value) :: rest => (name, unsignedZeros value) :: unsignedFields rest

end

theorem unsignedItems_eq_map (items : List Value) :
    unsignedItems items = items.map unsignedZeros := by
  induction items with
  | nil => rfl
  | cons item rest ih => rw [unsignedItems, ih, List.map_cons]

theorem unsignedFields_eq_map (fields : List (String × Value)) :
    unsignedFields fields = fields.map fun field => (field.1, field.2.unsignedZeros) := by
  induction fields with
  | nil => rfl
  | cons field rest ih =>
      obtain ⟨name, value⟩ := field
      rw [unsignedFields, ih, List.map_cons]

theorem kind_unsignedZeros (v : Value) : v.unsignedZeros.kind = v.kind := by
  cases v <;> rfl

theorem form_unsignedZeros (v : Value) : v.unsignedZeros.form = v.form := by
  cases v <;> rfl

theorem contents_unsignedZeros (v : Value) :
    v.unsignedZeros.contents = v.contents.map fun content => (content.1, content.2.unsignedZeros) := by
  cases v with
  | list items =>
      simp [unsignedZeros, unsignedItems_eq_map, contents, Value.items, fields, List.zipIdx_map]
  | map entries => simp [unsignedZeros, unsignedFields_eq_map, contents, items, fields]
  | node n => simp [unsignedZeros, unsignedFields_eq_map, contents, items, fields]
  | relationship r => simp [unsignedZeros, unsignedFields_eq_map, contents, items, fields]
  | _ => simp [unsignedZeros, contents, items, fields]

/-- No floating-point number at any depth is no number. -/
def NaNFree (v : Value) : Prop := ∀ x, Value.float x ∈ v.parts → x.isNaN = false

theorem nanFree_iff {v : Value} :
    v.NaNFree ↔
      (∀ x, v = .float x → x.isNaN = false) ∧ ∀ child ∈ v.children, child.NaNFree := by
  constructor
  · intro h
    constructor
    · rintro x rfl
      exact h x (self_mem_parts _)
    · intro child hchild x hx
      exact h x (mem_parts_of_child hchild hx)
  · rintro ⟨hself, hchildren⟩ x hx
    rcases mem_parts.mp hx with heq | ⟨child, hchild, hx⟩
    · exact hself x heq.symm
    · exact hchildren child hchild x hx

theorem equalItems_iff {items others : List Value}
    (h : ∀ a ∈ items, ∀ b, a.equal b = true ↔
      a.NaNFree ∧ b.NaNFree ∧ a.unsignedZeros = b.unsignedZeros) :
    equalItems items others = true ↔
      (∀ a ∈ items, a.NaNFree) ∧ (∀ b ∈ others, b.NaNFree) ∧
        items.map unsignedZeros = others.map unsignedZeros := by
  induction items generalizing others with
  | nil => cases others <;> simp [equalItems]
  | cons a items ih =>
      obtain ⟨hhead, hrest⟩ := List.forall_mem_cons.mp h
      cases others with
      | nil => simp [equalItems]
      | cons b others =>
          simp only [equalItems, Bool.and_eq_true, hhead, ih hrest, List.forall_mem_cons,
            List.map_cons, List.cons.injEq]
          tauto

theorem equalEntries_iff {entries others : List (String × Value)}
    (h : ∀ a ∈ entries.map Prod.snd, ∀ b, a.equal b = true ↔
      a.NaNFree ∧ b.NaNFree ∧ a.unsignedZeros = b.unsignedZeros) :
    equalEntries entries others = true ↔
      (∀ a ∈ entries.map Prod.snd, a.NaNFree) ∧ (∀ b ∈ others.map Prod.snd, b.NaNFree) ∧
        unsignedFields entries = unsignedFields others := by
  induction entries generalizing others with
  | nil =>
      cases others with
      | nil => simp [equalEntries]
      | cons b others => simp [equalEntries, unsignedFields]
  | cons a entries ih =>
      obtain ⟨hhead, hrest⟩ := List.forall_mem_cons.mp h
      cases others with
      | nil => simp [equalEntries, unsignedFields]
      | cons b others =>
          simp only [equalEntries, Bool.and_eq_true, beq_iff_eq, hhead, ih hrest,
            List.forall_mem_cons, List.map_cons, unsignedFields, List.cons.injEq, Prod.mk.injEq]
          tauto

theorem equal_iff {u v : Value} :
    u.equal v = true ↔ u.NaNFree ∧ v.NaNFree ∧ u.unsignedZeros = v.unsignedZeros := by
  induction u using induction_children generalizing v with
  | step u ih =>
      rw [nanFree_iff (v := u), nanFree_iff (v := v)]
      cases u with
      | float x =>
          cases v with
          | float y => simp [equal, unsignedZeros, children, items, fields, Binary64.equal_iff]
          | _ => simp [equal, unsignedZeros]
      | list items =>
          cases v with
          | list others =>
              simp only [children_list] at ih
              simp [equal, unsignedZeros, unsignedItems_eq_map, equalItems_iff ih]
          | _ => simp [equal, unsignedZeros]
      | map entries =>
          cases v with
          | map others =>
              simp only [children_map] at ih
              simp [equal, unsignedZeros, equalEntries_iff ih]
          | _ => simp [equal, unsignedZeros]
      | node n =>
          cases v with
          | node m =>
              simp only [children_node] at ih
              simp only [equal, Bool.and_eq_true, beq_iff_eq, equalEntries_iff ih, children_node,
                unsignedZeros, Value.node.injEq, NodeOf.mk.injEq, PropertyMap.mk.injEq, reduceCtorEq]
              tauto
          | _ => simp [equal, unsignedZeros]
      | relationship r =>
          cases v with
          | relationship s =>
              simp only [children_relationship] at ih
              simp only [equal, Bool.and_eq_true, beq_iff_eq, equalEntries_iff ih,
                children_relationship, unsignedZeros, Value.relationship.injEq,
                RelationshipOf.mk.injEq, PropertyMap.mk.injEq, reduceCtorEq]
              tauto
          | _ => simp [equal, unsignedZeros]
      | _ => cases v <;> simp [equal, unsignedZeros, children, items, fields]

/-- At some place, the same in both, stand zeros of opposite sign. -/
def OppositeZeros (u v : Value) : Prop :=
  ∃ path x y, ⟨path, .float x⟩ ∈ u.leaves ∧ ⟨path, .float y⟩ ∈ v.leaves ∧
    x.isZero = true ∧ y.isZero = true ∧ x.negative ≠ y.negative

theorem OppositeZeros.of_contents {u v a b : Value} {place : Place} (h : a.OppositeZeros b)
    (hu : (place, a) ∈ u.contents) (hv : (place, b) ∈ v.contents) : u.OppositeZeros v := by
  have hunder {w c : Value} (hw : (place, c) ∈ w.contents) {l : PlacedLeaf} (hl : l ∈ c.leaves) :
      l.under place ∈ w.leaves := by
    rw [leaves_eq]
    exact List.mem_append_right _ (List.mem_flatMap.mpr ⟨_, hw, List.mem_map_of_mem hl⟩)
  obtain ⟨path, x, y, hx, hy, hzeros⟩ := h
  exact ⟨place :: path, x, y, hunder hu hx, hunder hv hy, hzeros⟩

/-- The two differ before either ends, so whatever follows them. -/
def Diverge (xs ys : List Char) : Prop := ∀ r s, xs ++ r ≠ ys ++ s

theorem Diverge.append_right {xs ys : List Char} (h : Diverge xs ys) (us vs : List Char) :
    Diverge (xs ++ us) (ys ++ vs) := by
  intro r s heq
  rw [List.append_assoc, List.append_assoc] at heq
  exact h _ _ heq

theorem diverge_append_left_iff (start : List Char) {xs ys : List Char} :
    Diverge (start ++ xs) (start ++ ys) ↔ Diverge xs ys := by
  simp [Diverge]

theorem Diverge.ne {xs ys : List Char} (h : Diverge xs ys) : xs ≠ ys := by
  rintro rfl
  exact h [] [] rfl

theorem diverge_floatLiteral {x y : Binary64} (hx : x.isZero = true) (hy : y.isZero = true)
    (hsign : x.negative ≠ y.negative) : Diverge (floatLiteral x) (floatLiteral y) := by
  have hliteral {z : Binary64} (hz : z.isZero = true) :
      floatLiteral z = if z.negative then "-0.0".toList else "0.0".toList := by
    rw [← Binary64.eq_ofMagnitude_zero hz]
    cases z.negative <;> decide
  intro r s
  rw [hliteral hx, hliteral hy]
  cases hnegative : x.negative <;> cases hnegative' : y.negative
  · exact absurd (hnegative.trans hnegative'.symm) hsign
  · simp
  · simp
  · exact absurd (hnegative.trans hnegative'.symm) hsign

def contentText : Place × Value → List Char
  | (.index _, v) => v.literal.toList
  | (.name s, v) => fieldText (s, v)

theorem diverge_contentText (place : Place) {a b : Value}
    (h : Diverge a.literal.toList b.literal.toList) :
    Diverge (contentText (place, a)) (contentText (place, b)) := by
  cases place with
  | index i => exact h
  | name s =>
      have hsplit (w : Value) :
          contentText (.name s, w) = (s.toList ++ [':', ' ']) ++ w.literal.toList := by
        simp [contentText, fieldText]
      rw [hsplit, hsplit, diverge_append_left_iff]
      exact h

/-- Either the same value, or values that differ in the sign of a zero and in their literals. -/
def SameOrOpposite (u v : Value) : Prop :=
  u = v ∨ u.OppositeZeros v ∧ Diverge u.literal.toList v.literal.toList

theorem contents_same_or_opposite {cs ds : List (Place × Value)} (closer : Char)
    (hsame : cs.map (fun c => (c.1, c.2.unsignedZeros)) = ds.map fun d => (d.1, d.2.unsignedZeros))
    (h : ∀ c ∈ cs, ∀ w : Value, c.2.unsignedZeros = w.unsignedZeros → c.2.SameOrOpposite w) :
    cs = ds ∨
      (∃ place a b, (place, a) ∈ cs ∧ (place, b) ∈ ds ∧ a.OppositeZeros b) ∧
        Diverge (tailText contentText closer cs []) (tailText contentText closer ds []) := by
  induction cs generalizing ds with
  | nil => exact .inl (List.map_eq_nil_iff.mp hsame.symm).symm
  | cons c cs ih =>
      cases ds with
      | nil => cases hsame
      | cons d ds =>
          obtain ⟨place, a⟩ := c
          obtain ⟨other, b⟩ := d
          rw [List.map_cons, List.map_cons, List.cons.injEq, Prod.mk.injEq] at hsame
          obtain ⟨⟨rfl, hhead⟩, hrest⟩ := hsame
          obtain ⟨hfirst, hothers⟩ := List.forall_mem_cons.mp h
          have htail (c : Place × Value) (cs : List (Place × Value)) :
              tailText contentText closer (c :: cs) [] =
                (separator ++ contentText c) ++ tailText contentText closer cs [] := by
            simp [tailText]
          rw [htail, htail]
          -- up to the first two contents that differ the texts are the same
          rcases hfirst b hhead with rfl | ⟨hopposite, hdiverge⟩
          · rcases ih hrest hothers with rfl | ⟨⟨at', x, y, hx, hy, hxy⟩, hdiverge⟩
            · exact .inl rfl
            · refine .inr ⟨⟨at', x, y, ?_, ?_, hxy⟩, ?_⟩
              · exact List.mem_cons_of_mem _ hx
              · exact List.mem_cons_of_mem _ hy
              · rwa [diverge_append_left_iff]
          · refine .inr ⟨⟨place, a, b, List.mem_cons_self, List.mem_cons_self, hopposite⟩, ?_⟩
            apply Diverge.append_right
            rw [diverge_append_left_iff]
            exact diverge_contentText place hdiverge

theorem toList_literal_eq {v : Value} {brackets : Char × Char}
    (h : v.form.brackets? = some brackets) :
    v.literal.toList =
      brackets.1 :: (separator.intercalate (v.contents.map contentText) ++ [brackets.2]) := by
  have hbraced {w : Value} (hw : w.form = .map) (hitems : w.items = []) :
      w.literal.toList =
        '\x7b' :: (separator.intercalate (w.contents.map contentText) ++ ['\x7d']) := by
    rw [(braced_of_form hw).1]
    simp [bracedText, contents, hitems, contentText, Function.comp_def]
  cases v with
  | list items =>
      have htexts : (Value.list items).contents.map contentText =
          (items.zipIdx.map Prod.fst).map fun item => item.literal.toList := by
        rw [List.map_map]
        simp [contents, Value.items, fields, contentText, Function.comp_def]
      cases h
      rw [toList_literal_list, bracketedText, htexts, List.zipIdx_map_fst]
  | map entries =>
      cases h
      exact hbraced rfl rfl
  | node n =>
      cases h
      exact hbraced rfl rfl
  | relationship r =>
      cases h
      exact hbraced rfl rfl
  | _ => cases h

theorem entries_eq_of_places_eq {m m' : Properties}
    (h : m.entries.map (fun f => (Place.name f.1, f.2)) =
      m'.entries.map fun f => (Place.name f.1, f.2)) : m = m' := by
  have hinjective : Function.Injective fun f : String × Value => (Place.name f.1, f.2) := by
    intro f g hfg
    simpa [Prod.ext_iff] using hfg
  exact congrArg PropertyMap.mk (List.map_injective_iff.mpr hinjective h)

/-- Values in brackets are told apart by what stands in them and by what has no zeros. -/
theorem eq_of_contents_eq {u v : Value} (hsame : u.unsignedZeros = v.unsignedZeros)
    (hbrackets : u.form.brackets?.isSome = true) (hcontents : u.contents = v.contents) : u = v := by
  cases u with
  | list items =>
      cases v with
      | list others =>
          have hitems := congrArg (List.map Prod.snd) hcontents
          rw [map_snd_contents, map_snd_contents, children_list, children_list] at hitems
          rw [hitems]
      | _ => cases hsame
  | map entries =>
      cases v with
      | map others => rw [entries_eq_of_places_eq hcontents]
      | _ => cases hsame
  | node n =>
      cases v with
      | node m =>
          cases n
          cases m
          cases entries_eq_of_places_eq hcontents
          simp only [unsignedZeros, Value.node.injEq, NodeOf.mk.injEq] at hsame
          rw [hsame.1, hsame.2.1]
      | _ => cases hsame
  | relationship r =>
      cases v with
      | relationship s =>
          cases r
          cases s
          cases entries_eq_of_places_eq hcontents
          simp only [unsignedZeros, Value.relationship.injEq, RelationshipOf.mk.injEq] at hsame
          rw [hsame.1, hsame.2.1, hsame.2.2.1, hsame.2.2.2.1]
      | _ => cases hsame
  | _ => cases hbrackets

theorem sameOrOpposite_of_brackets {u v : Value} {brackets : Char × Char}
    (hbrackets : u.form.brackets? = some brackets) (hsame : u.unsignedZeros = v.unsignedZeros)
    (ih : ∀ child ∈ u.children, ∀ w : Value,
      child.unsignedZeros = w.unsignedZeros → child.SameOrOpposite w) : u.SameOrOpposite v := by
  have hform : v.form = u.form := by
    rw [← form_unsignedZeros, ← hsame, form_unsignedZeros]
  have hcontents := congrArg contents hsame
  rw [contents_unsignedZeros, contents_unsignedZeros] at hcontents
  have hchildren : ∀ c ∈ u.contents, ∀ w : Value,
      c.2.unsignedZeros = w.unsignedZeros → c.2.SameOrOpposite w := by
    intro c hc
    exact ih c.2 (map_snd_contents u ▸ List.mem_map_of_mem hc)
  rcases contents_same_or_opposite brackets.2 hcontents hchildren with heq |
    ⟨⟨place, a, b, ha, hb, hopposite⟩, hdiverge⟩
  · exact .inl (eq_of_contents_eq hsame (by simp [hbrackets]) heq)
  · have htail {w c : Value} (hc : (place, c) ∈ w.contents) :
        tailText contentText brackets.2 w.contents [] =
          separator ++ (separator.intercalate (w.contents.map contentText) ++ [brackets.2]) := by
      cases hw : w.contents with
      | nil => simp [hw] at hc
      | cons d ds =>
          rw [intercalate_cons_append]
          simp [tailText]
    rw [htail ha, htail hb, diverge_append_left_iff] at hdiverge
    refine .inr ⟨hopposite.of_contents ha hb, ?_⟩
    rw [toList_literal_eq hbrackets, toList_literal_eq (hform ▸ hbrackets)]
    exact (diverge_append_left_iff [brackets.1]).mpr hdiverge

/-- Values that differ in signs of zeros only are the same, or their literals differ. -/
theorem sameOrOpposite_of_unsignedZeros_eq {u v : Value}
    (h : u.unsignedZeros = v.unsignedZeros) : u.SameOrOpposite v := by
  induction u using induction_children generalizing v with
  | step u ih =>
      -- of the scalars, only the two zeros differ and have the same normal form
      cases hbrackets : u.form.brackets? with
      | some brackets =>
          exact sameOrOpposite_of_brackets hbrackets h fun child hchild w hw => ih child hchild hw
      | none =>
          cases u with
          | float x =>
              cases v with
              | float y =>
                  simp only [unsignedZeros, Value.float.injEq, Binary64.unsignedZero_eq_iff] at h
                  by_cases heq : x = y
                  · exact .inl (congrArg _ heq)
                  · obtain ⟨hx, hy⟩ := h.resolve_left heq
                    have hsign : x.negative ≠ y.negative := by
                      intro hsign
                      apply heq
                      rw [← Binary64.eq_ofMagnitude_zero hx, hsign, Binary64.eq_ofMagnitude_zero hy]
                    refine .inr ⟨⟨[], x, y, by simp [leaves], by simp [leaves], hx, hy, hsign⟩, ?_⟩
                    rw [literal, literal, String.toList_ofList, String.toList_ofList]
                    exact diverge_floatLiteral hx hy hsign
              | _ => cases h
          | list items => cases hbrackets
          | map entries => cases hbrackets
          | node n => cases hbrackets
          | relationship r => cases hbrackets
          | _ => cases v <;> first | exact .inl h | cases h

/-- Equality is symmetric and transitive, and reflexive exactly on values that hold no NaN at any
depth; values of different kinds are never equal. Two equal values have one literal unless at some
place they hold zeros of opposite sign, and exactly if they are the same value. -/
theorem equality_laws (u v w : Value) :
    ((u == v) = true → (v == u) = true) ∧
      ((u == v) = true → (v == w) = true → (u == w) = true) ∧
      ((v == v) = true ↔ v.NaNFree) ∧
      (u.kind ≠ v.kind → (u == v) = false) ∧
      ((u == v) = true →
        (u.literal = v.literal ∨ u.OppositeZeros v) ∧ (u.literal = v.literal ↔ u = v)) := by
  change (u.equal v = true → v.equal u = true) ∧ _
  simp only [show ∀ a b : Value, (a == b) = a.equal b from fun _ _ => rfl, ← Bool.not_eq_true,
    equal_iff]
  refine ⟨?symmetric, ?transitive, ?reflexive, ?kinds, ?literals⟩
  case symmetric =>
    rintro ⟨hu, hv, hsame⟩
    exact ⟨hv, hu, hsame.symm⟩
  case transitive =>
    rintro ⟨hu, -, hsame⟩ ⟨-, hw, hsame'⟩
    exact ⟨hu, hw, hsame.trans hsame'⟩
  case reflexive => simp
  case kinds =>
    rintro hkind ⟨-, -, hsame⟩
    apply hkind
    rw [← kind_unsignedZeros, hsame, kind_unsignedZeros]
  case literals =>
    rintro ⟨-, -, hsame⟩
    rcases sameOrOpposite_of_unsignedZeros_eq hsame with rfl | ⟨hopposite, hdiverge⟩
    · exact ⟨.inl rfl, iff_of_true rfl rfl⟩
    · refine ⟨.inr hopposite, ?_⟩
      apply iff_of_false
      · exact fun h => hdiverge.ne (congrArg String.toList h)
      · rintro rfl
        exact hdiverge.ne rfl

def nested (x : Binary64) : Value := .list [.null, .node ⟨none, ∅, ⟨[("x", .float x)]⟩⟩]

theorem nested_zeros_equal :
    (nested ⟨0⟩ == nested ⟨0x8000000000000000⟩) = true ∧
      (nested ⟨0x8000000000000000⟩ == nested ⟨0⟩) = true ∧ (nested ⟨0⟩ == nested ⟨0⟩) = true ∧
      (Value.int 0 == Value.float ⟨0⟩) = false ∧
      (nested ⟨0⟩).OppositeZeros (nested ⟨0x8000000000000000⟩) := by
  have hequal : (nested ⟨0⟩ == nested ⟨0x8000000000000000⟩) = true := by decide
  have hother : nested ⟨0⟩ ≠ nested ⟨0x8000000000000000⟩ := by simp [nested]
  obtain ⟨hsymmetric, htransitive, -, -, hliterals⟩ :=
    equality_laws (nested ⟨0⟩) (nested ⟨0x8000000000000000⟩) (nested ⟨0⟩)
  have hback := hsymmetric hequal
  obtain ⟨hopposite, hsame⟩ := hliterals hequal
  exact ⟨hequal, hback, htransitive hequal hback,
    (equality_laws (.int 0) (.float ⟨0⟩) .null).2.2.2.1 (by decide),
    hopposite.resolve_left fun h => hother (hsame.mp h)⟩

end Value

end Cypher
