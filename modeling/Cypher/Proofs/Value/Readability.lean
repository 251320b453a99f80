import Cypher.Proofs.Value.Parts
import Cypher.Proofs.Value.Scalars

/-!
# Literals are read in one way only

A literal that is followed by a comma or a closing bracket, or by nothing, is read in one way only,
as long as all names are identifiers. How it starts tells its form, a text tells where it ends, what
is neither quoted nor in brackets reaches up to the delimiter, and lists and maps are read item by
item.
-/

namespace Cypher

open Text (StopsAt stopsAt_cons stopsAt_nil)

def isDelimiter (c : Char) : Bool := c == ',' || c == ']' || c == '\x7d'

/-- Nothing, or a text that starts with a delimiter. -/
def Delimited (cs : List Char) : Prop := StopsAt (fun c => !isDelimiter c) cs

theorem isDelimiter_eq_false {p : Char → Bool} {c : Char} (h : p c = true) (hcomma : p ',' = false)
    (hbracket : p ']' = false) (hbrace : p '\x7d' = false) : isDelimiter c = false := by
  have hnot : c ≠ ',' ∧ c ≠ ']' ∧ c ≠ '\x7d' := by
    refine ⟨?_, ?_, ?_⟩
    · rintro rfl
      exact absurd h (by simp [hcomma])
    · rintro rfl
      exact absurd h (by simp [hbracket])
    · rintro rfl
      exact absurd h (by simp [hbrace])
  simp [isDelimiter, hnot]

/-- Letters, digits and underscores of ASCII, at least one. -/
def isIdentifier (name : String) : Bool :=
  !name.toList.isEmpty && name.toList.all fun c => c.isAlphanum || c == '_'

/-- The forms of literals that differ in how they start. -/
inductive Form where
  | null
  | flag
  | number
  | date
  | time
  | dateTime
  | duration
  | text
  | list
  | map
  | raw
deriving DecidableEq

/-- The form of a literal that starts with a word; numbers start with none. -/
def Form.ofWord (word : List Char) : Form :=
  if word = [] then .number
  else if word = "null".toList then .null
  else if word = "date".toList then .date
  else if word = "localTime".toList then .time
  else if word = "localDateTime".toList then .dateTime
  else if word = "duration".toList then .duration
  else .flag

/-- The form that the first characters of a literal tell. -/
def Form.ofChars : List Char → Form
  | '\'' :: _ => .text
  | '[' :: _ => .list
  | '\x7b' :: _ => .map
  | cs => .ofWord (cs.takeWhile Char.isAlpha)

theorem Form.ofChars_word (word : List Char) {cs : List Char}
    (hword : word.all Char.isAlpha = true) (hne : word ≠ []) (hcs : StopsAt Char.isAlpha cs) :
    ofChars (word ++ cs) = ofWord word := by
  rw [List.all_eq_true] at hword
  have hletters := hcs.takeWhile_append hword
  cases word with
  | nil => exact absurd rfl hne
  | cons c word =>
      have hc := hword c List.mem_cons_self
      rw [List.cons_append] at hletters ⊢
      rw [ofChars.eq_def]
      split
      · exact absurd hc (by simp_all)
      · exact absurd hc (by simp_all)
      · exact absurd hc (by simp_all)
      · rw [hletters]

theorem Form.ofChars_number {c : Char} {cs : List Char} (hc : c = '-' ∨ c.isDigit = true) :
    ofChars (c :: cs) = .number := by
  have hletter : c.isAlpha = false := by
    rcases hc with rfl | hdigit
    · decide
    · exact isAlpha_of_isDigit hdigit
  rw [ofChars.eq_def]
  split
  · exact absurd hc (by simp_all)
  · exact absurd hc (by simp_all)
  · exact absurd hc (by simp_all)
  · rw [List.takeWhile_cons_of_neg (by simp [hletter])]
    rfl

theorem Delimited.stopsAt_isAlpha {cs : List Char} (h : Delimited cs) :
    StopsAt Char.isAlpha cs := by
  refine h.of_imp fun c hc => ?_
  rw [isDelimiter_eq_false hc (by decide) (by decide) (by decide), Bool.not_false]

namespace Value

def form : Value → Form
  | .null => .null
  | .bool _ => .flag
  | .int _ | .float _ => .number
  | .string _ => .text
  | .list _ => .list
  | .map _ | .node _ | .relationship _ => .map
  | .expression _ => .raw
  | .date _ => .date
  | .localTime _ => .time
  | .localDateTime _ => .dateTime
  | .duration _ => .duration

theorem ofChars_constructorCall {name : String} (hname : name.toList.all Char.isAlpha = true)
    (hne : name.toList ≠ []) (text cs : List Char) :
    Form.ofChars ((constructorCall name text).toList ++ cs) = Form.ofWord name.toList := by
  rw [toList_constructorCall, List.append_assoc, List.cons_append]
  exact Form.ofChars_word name.toList hname hne (stopsAt_cons (by decide))

/-- How a literal starts tells its form, whatever delimiter follows. -/
theorem ofChars_literal {v : Value} (hv : v.ExpressionFree) {cs : List Char} (hcs : Delimited cs) :
    Form.ofChars (v.literal.toList ++ cs) = v.form := by
  cases v with
  | null => exact Form.ofChars_word "null".toList (by decide) (by decide) hcs.stopsAt_isAlpha
  | bool flag =>
      cases flag with
      | true => exact Form.ofChars_word "true".toList (by decide) (by decide) hcs.stopsAt_isAlpha
      | false => exact Form.ofChars_word "false".toList (by decide) (by decide) hcs.stopsAt_isAlpha
  | int number =>
      obtain ⟨c, rest, hcons, hc⟩ := head_signed number.toInt
      rw [literal, String.toList_ofList, hcons]
      exact Form.ofChars_number hc
  | float number =>
      obtain ⟨c, rest, hcons, hc⟩ := head_floatLiteral number
      rw [literal, String.toList_ofList, hcons]
      exact Form.ofChars_number hc
  | string text =>
      rw [toList_literal_string]
      rfl
  | list items =>
      rw [toList_literal_list]
      rfl
  | map entries =>
      rw [toList_literal_map]
      rfl
  | expression text => exact absurd rfl (hv.ne text)
  | date d => exact ofChars_constructorCall (by decide) (by decide) _ _
  | localTime t => exact ofChars_constructorCall (by decide) (by decide) _ _
  | localDateTime t => exact ofChars_constructorCall (by decide) (by decide) _ _
  | duration d => exact ofChars_constructorCall (by decide) (by decide) _ _
  | node n =>
      rw [toList_literal_node]
      rfl
  | relationship r =>
      rw [toList_literal_relationship]
      rfl

/-- Values without raw expressions whose names are identifiers. -/
structure Readable (v : Value) : Prop where
  expressionFree : v.ExpressionFree
  identifiers : ∀ name ∈ v.names, isIdentifier name = true

theorem Readable.child {v child : Value} (h : v.Readable) (hchild : child ∈ v.children) :
    child.Readable where
  expressionFree := h.expressionFree.child hchild
  identifiers name hname := h.identifiers name (mem_names.mpr (.inr ⟨child, hchild, hname⟩))

theorem not_isDelimiter_of_isPlain {c : Char} (h : Text.isPlain c = true) :
    (!isDelimiter c) = true := by
  rw [isDelimiter_eq_false h (by decide) (by decide) (by decide), Bool.not_false]

theorem not_isDelimiter_constructorCall {name : String} {text : List Char}
    (hname : Text.Plain name.toList) (htext : Text.Plain text) :
    ∀ c ∈ (constructorCall name text).toList, (!isDelimiter c) = true := by
  intro c hc
  rw [toList_constructorCall] at hc
  simp only [List.mem_append, List.mem_cons, List.not_mem_nil, or_false] at hc
  rcases hc with hc | rfl | rfl | hc | rfl | rfl
  · exact not_isDelimiter_of_isPlain (hname c hc)
  · decide
  · decide
  · exact not_isDelimiter_of_isPlain (htext c hc)
  · decide
  · decide

/-- Values whose literals are neither quoted nor in brackets. -/
def isAtom (v : Value) : Bool :=
  match v.form with
  | .text | .list | .map | .raw => false
  | _ => true

theorem not_isDelimiter_literal {v : Value} (h : v.isAtom) :
    ∀ c ∈ v.literal.toList, (!isDelimiter c) = true := by
  cases v with
  | null => exact List.all_eq_true.mp (by decide)
  | bool flag => cases flag <;> exact List.all_eq_true.mp (by decide)
  | int number =>
      rw [literal, String.toList_ofList]
      exact fun c hc => not_isDelimiter_of_isPlain (Text.plain_signed _ c hc)
  | float number =>
      rw [literal, String.toList_ofList]
      exact fun c hc => not_isDelimiter_of_isPlain (plain_floatLiteral _ c hc)
  | date d => exact not_isDelimiter_constructorCall (by decide) d.plain_text
  | localTime t => exact not_isDelimiter_constructorCall (by decide) t.plain_literalText
  | localDateTime t => exact not_isDelimiter_constructorCall (by decide) t.plain_literalText
  | duration d => exact not_isDelimiter_constructorCall (by decide) d.plain_literalText
  | _ => exact absurd h (by simp [isAtom, form])

theorem denoted_eq_of_atoms {v w : Value} (hv : v.isAtom) (hform : v.form = w.form)
    (h : v.literal.toList = w.literal.toList) : v.denoted = w.denoted := by
  cases v with
  | null =>
      cases w with
      | null => rfl
      | _ => cases hform
  | bool flag =>
      cases w with
      | bool other => cases flag <;> cases other <;> first | rfl | exact absurd h (by decide)
      | _ => cases hform
  | int number =>
      cases w with
      | int other =>
          rw [literal, literal, String.toList_ofList, String.toList_ofList] at h
          have hread := congrArg Json.readNumeral h
          rw [readNumeral_signed, readNumeral_signed, Option.some.injEq, Prod.mk.injEq] at hread
          rw [Int64.toInt_inj.mp (Decimal.Numeral.ofInt_injective hread.1)]
      | float other =>
          rw [literal, literal, String.toList_ofList, String.toList_ofList] at h
          exact absurd h (signed_ne_floatLiteral _ _)
      | _ => cases hform
  | float number =>
      cases w with
      | int other =>
          rw [literal, literal, String.toList_ofList, String.toList_ofList] at h
          exact absurd h.symm (signed_ne_floatLiteral _ _)
      | float other =>
          rw [literal, literal, String.toList_ofList, String.toList_ofList] at h
          rw [denoted, denoted, canonical_eq_of_floatLiteral h]
      | _ => cases hform
  | date d =>
      cases w with
      | date other =>
          have hread := congrArg Temporal.readDate (constructorCall_inj h)
          rw [Temporal.readDate_text, Temporal.readDate_text, Option.some.injEq] at hread
          rw [hread]
      | _ => cases hform
  | localTime t =>
      cases w with
      | localTime other =>
          have hread := congrArg Temporal.readTime (constructorCall_inj h)
          rw [Temporal.readTime_literalText, Temporal.readTime_literalText,
            Option.some.injEq] at hread
          rw [denoted, denoted, hread]
      | _ => cases hform
  | localDateTime t =>
      cases w with
      | localDateTime other =>
          have hread := congrArg Temporal.readDateTime (constructorCall_inj h)
          rw [Temporal.readDateTime_literalText, Temporal.readDateTime_literalText,
            Option.some.injEq] at hread
          rw [denoted, denoted, hread]
      | _ => cases hform
  | duration d =>
      cases w with
      | duration other =>
          rw [denoted, denoted, Duration.wholeMicros_eq_of_literalText (constructorCall_inj h)]
      | _ => cases hform
  | _ => exact absurd hv (by simp [isAtom, form])

section Sequences

variable {α β : Type} {f : α → List Char} {g : α → β} {closer : Char} {xs ys : List α}

/-- Where the texts of `x` and `y` start two texts that are alike, they mean the same and what
follows them is alike. -/
def ReadAlike (f : α → List Char) (g : α → β) (x y : α) : Prop :=
  ∀ r s : List Char, Delimited r → Delimited s → f x ++ r = f y ++ s → g x = g y ∧ r = s

/-- The items after the first, each behind a separator, up to the closing bracket. -/
def tailText (f : α → List Char) (closer : Char) (xs : List α) (r : List Char) : List Char :=
  xs.flatMap (fun x => separator ++ f x) ++ closer :: r

theorem delimited_tailText (hcloser : isDelimiter closer = true) (xs : List α) (r : List Char) :
    Delimited (tailText f closer xs r) := by
  cases xs with
  | nil => exact stopsAt_cons (by simp [hcloser])
  | cons x xs => exact stopsAt_cons (by decide)

theorem tailText_inj (hcloser : isDelimiter closer = true) (hcomma : closer ≠ ',')
    (h : ∀ x ∈ xs, ∀ y ∈ ys, ReadAlike f g x y) {r s : List Char}
    (heq : tailText f closer xs r = tailText f closer ys s) : xs.map g = ys.map g ∧ r = s := by
  induction xs generalizing ys with
  | nil =>
      cases ys with
      | nil => exact ⟨rfl, (List.cons.inj heq).2⟩
      | cons y ys => exact absurd (List.cons.inj heq).1 hcomma
  | cons x xs ih =>
      cases ys with
      | nil => exact absurd (List.cons.inj heq).1.symm hcomma
      | cons y ys =>
          have hfirst : f x ++ tailText f closer xs r = f y ++ tailText f closer ys s := by
            simpa [tailText, separator] using heq
          obtain ⟨hmeaning, hrest⟩ := h x List.mem_cons_self y List.mem_cons_self _ _
            (delimited_tailText hcloser xs r) (delimited_tailText hcloser ys s) hfirst
          have hothers : ∀ a ∈ xs, ∀ b ∈ ys, ReadAlike f g a b := by
            intro a ha b hb
            exact h a (List.mem_cons_of_mem x ha) b (List.mem_cons_of_mem y hb)
          obtain ⟨hmeanings, hrest⟩ := ih hothers hrest
          rw [List.map_cons, List.map_cons, hmeaning, hmeanings]
          exact ⟨rfl, hrest⟩

theorem intercalate_cons_append (x : α) (xs : List α) (r : List Char) :
    separator.intercalate ((x :: xs).map f) ++ closer :: r = f x ++ tailText f closer xs r := by
  induction xs generalizing x with
  | nil => simp [tailText]
  | cons y ys ih =>
      rw [List.map_cons, List.intercalate_cons_of_ne_nil (by simp), List.append_assoc, ih]
      simp [tailText, separator]

/-- Items between brackets mean the same if the texts are alike. -/
theorem intercalate_inj (hcloser : isDelimiter closer = true) (hcomma : closer ≠ ',')
    (h : ∀ x ∈ xs, ∀ y ∈ ys, ReadAlike f g x y)
    (hhead : ∀ z, z ∈ xs ∨ z ∈ ys → ∃ c cs, f z = c :: cs ∧ isDelimiter c = false)
    {r s : List Char}
    (heq : separator.intercalate (xs.map f) ++ closer :: r =
      separator.intercalate (ys.map f) ++ closer :: s) : xs.map g = ys.map g ∧ r = s := by
  have hclosed : ∀ (z : α) (us vs : List Char), z ∈ xs ∨ z ∈ ys → f z ++ us ≠ closer :: vs := by
    intro z us vs hz hfalse
    obtain ⟨c, cs, hcons, hc⟩ := hhead z hz
    rw [hcons, List.cons_append] at hfalse
    rw [(List.cons.inj hfalse).1, hcloser] at hc
    exact absurd hc (by simp)
  cases xs with
  | nil =>
      cases ys with
      | nil => exact ⟨rfl, (List.cons.inj heq).2⟩
      | cons y ys =>
          rw [intercalate_cons_append] at heq
          exact absurd heq.symm (hclosed y _ _ (.inr List.mem_cons_self))
  | cons x xs =>
      cases ys with
      | nil =>
          rw [intercalate_cons_append] at heq
          exact absurd heq (hclosed x _ _ (.inl List.mem_cons_self))
      | cons y ys =>
          rw [intercalate_cons_append, intercalate_cons_append] at heq
          obtain ⟨hmeaning, hrest⟩ := h x List.mem_cons_self y List.mem_cons_self _ _
            (delimited_tailText hcloser xs r) (delimited_tailText hcloser ys s) heq
          have hothers : ∀ a ∈ xs, ∀ b ∈ ys, ReadAlike f g a b := by
            intro a ha b hb
            exact h a (List.mem_cons_of_mem x ha) b (List.mem_cons_of_mem y hb)
          obtain ⟨hmeanings, hrest⟩ := tailText_inj hcloser hcomma hothers hrest
          rw [List.map_cons, List.map_cons, hmeaning, hmeanings]
          exact ⟨rfl, hrest⟩

end Sequences

theorem isAtom_or_form {v : Value} (hv : v.ExpressionFree) :
    v.isAtom = true ∨ v.form = .text ∨ v.form = .list ∨ v.form = .map := by
  cases v with
  | expression text => exact absurd rfl (hv.ne text)
  | _ => simp [isAtom, form]

theorem exists_string_of_form {v : Value} (h : v.form = .text) : ∃ text, v = .string text := by
  cases v with
  | string text => exact ⟨text, rfl⟩
  | _ => cases h

theorem exists_list_of_form {v : Value} (h : v.form = .list) : ∃ items, v = .list items := by
  cases v with
  | list items => exact ⟨items, rfl⟩
  | _ => cases h

/-- Maps and entities are written, and denote, by their named values. -/
theorem braced_of_form {v : Value} (h : v.form = .map) :
    v.literal.toList = bracedText v.fields ∧ v.denoted = .map ⟨v.fields.map denotedField⟩ := by
  cases v with
  | map entries => exact ⟨toList_literal_map _, by rw [denoted, denotedFields_eq_map, fields]⟩
  | node n => exact ⟨toList_literal_node _, by rw [denoted, denotedFields_eq_map, fields]⟩
  | relationship r =>
      exact ⟨toList_literal_relationship _, by rw [denoted, denotedFields_eq_map, fields]⟩
  | _ => cases h

theorem exists_head_literal {v : Value} (hv : v.ExpressionFree) :
    ∃ c cs, v.literal.toList = c :: cs ∧ isDelimiter c = false := by
  rcases isAtom_or_form hv with hatom | htext | hlist | hmap
  · have hchars := not_isDelimiter_literal hatom
    cases hcons : v.literal.toList with
    | cons c cs =>
        rw [hcons] at hchars
        exact ⟨c, cs, rfl, by simpa using hchars c List.mem_cons_self⟩
    | nil =>
        -- only numbers start with no word, and they start with a digit or a sign
        have hform : Form.ofChars (v.literal.toList ++ []) = v.form :=
          ofChars_literal hv stopsAt_nil
        rw [hcons] at hform
        cases v with
        | int number =>
            obtain ⟨c, cs, hhead, -⟩ := head_signed number.toInt
            rw [literal, String.toList_ofList, hhead] at hcons
            exact absurd hcons (by simp)
        | float number =>
            obtain ⟨c, cs, hhead, -⟩ := head_floatLiteral number
            rw [literal, String.toList_ofList, hhead] at hcons
            exact absurd hcons (by simp)
        | _ => cases hform
  · obtain ⟨text, rfl⟩ := exists_string_of_form htext
    exact ⟨_, _, toList_literal_string text, by decide⟩
  · obtain ⟨items, rfl⟩ := exists_list_of_form hlist
    exact ⟨_, _, toList_literal_list items, by decide⟩
  · exact ⟨_, _, (braced_of_form hmap).1, by decide⟩

theorem readAlike_fieldText {x y : String × Value} (hx : isIdentifier x.1 = true)
    (hy : isIdentifier y.1 = true)
    (h : ReadAlike (fun u : Value => u.literal.toList) denoted x.2 y.2) :
    ReadAlike fieldText denotedField x y := by
  intro r s hr hs heq
  have hname : ∀ name : String, isIdentifier name = true →
      ∀ c ∈ name.toList, (c != ':') = true := by
    intro name hname c hc
    simp only [isIdentifier, Bool.and_eq_true, List.all_eq_true] at hname
    have hletter := hname.2 c hc
    rw [bne_iff_ne]
    rintro rfl
    exact absurd hletter (by decide)
  simp only [fieldText, List.append_assoc, List.cons_append] at heq
  have hcolon : ∀ cs, StopsAt (· != ':') (':' :: cs) := fun cs => stopsAt_cons (by decide)
  obtain ⟨hnames, hrest⟩ := (hcolon _).append_inj (hcolon _) (hname x.1 hx) (hname y.1 hy) heq
  obtain ⟨hvalue, hrest⟩ := h r s hr hs (List.cons.inj (List.cons.inj hrest).2).2
  rw [denotedField, denotedField, String.toList_inj.mp hnames, hvalue]
  exact ⟨rfl, hrest⟩

theorem exists_head_fieldText {x : String × Value} (hx : isIdentifier x.1 = true) :
    ∃ c cs, fieldText x = c :: cs ∧ isDelimiter c = false := by
  simp only [isIdentifier, Bool.and_eq_true, List.all_eq_true] at hx
  cases hname : x.1.toList with
  | nil => exact absurd hx.1 (by simp [hname])
  | cons c cs =>
      refine ⟨c, cs ++ ':' :: ' ' :: x.2.literal.toList, by simp [fieldText, hname], ?_⟩
      have hletter := hx.2 c (by simp [hname])
      exact isDelimiter_eq_false (p := fun c => c.isAlphanum || c == '_') hletter (by decide)
        (by decide) (by decide)

theorem Readable.field {v : Value} (h : v.Readable) {x : String × Value} (hx : x ∈ v.fields) :
    isIdentifier x.1 = true ∧ x.2 ∈ v.children :=
  ⟨h.identifiers x.1 (mem_names.mpr (.inl (List.mem_map_of_mem hx))),
    List.mem_append_right _ (List.mem_map_of_mem hx)⟩

theorem readAlike_list {items others : List Value}
    (hfree : ∀ z, z ∈ items ∨ z ∈ others → z.ExpressionFree)
    (h : ∀ x ∈ items, ∀ y ∈ others, ReadAlike (fun u : Value => u.literal.toList) denoted x y) :
    ReadAlike (fun u : Value => u.literal.toList) denoted (.list items) (.list others) := by
  intro r s hr hs heq
  have hhead : ∀ z, z ∈ items ∨ z ∈ others →
      ∃ c cs, z.literal.toList = c :: cs ∧ isDelimiter c = false := by
    intro z hz
    exact exists_head_literal (hfree z hz)
  simp only [toList_literal_list, bracketedText, List.cons_append, List.append_assoc] at heq
  obtain ⟨hmeaning, hrest⟩ := intercalate_inj (by decide) (by decide) h hhead
    (List.cons.inj heq).2
  rw [denoted, denoted, denotedItems_eq_map, denotedItems_eq_map, hmeaning]
  exact ⟨rfl, hrest⟩

theorem readAlike_braced {v w : Value} (hv : v.form = .map) (hw : w.form = .map)
    (hnames : ∀ z, z ∈ v.fields ∨ z ∈ w.fields → isIdentifier z.1 = true)
    (h : ∀ x ∈ v.fields, ∀ y ∈ w.fields, ReadAlike fieldText denotedField x y) :
    ReadAlike (fun u : Value => u.literal.toList) denoted v w := by
  intro r s hr hs heq
  have hhead : ∀ z, z ∈ v.fields ∨ z ∈ w.fields →
      ∃ c cs, fieldText z = c :: cs ∧ isDelimiter c = false := by
    intro z hz
    exact exists_head_fieldText (hnames z hz)
  obtain ⟨hliteral, hdenoted⟩ := braced_of_form hv
  obtain ⟨hliteral', hdenoted'⟩ := braced_of_form hw
  simp only [hliteral, hliteral', bracedText, List.cons_append, List.append_assoc] at heq
  obtain ⟨hmeaning, hrest⟩ := intercalate_inj (by decide) (by decide) h hhead
    (List.cons.inj heq).2
  rw [hdenoted, hdenoted', hmeaning]
  exact ⟨rfl, hrest⟩

/-- Wherever the literals of two values start texts that are alike, the values denote the same and
what follows is alike. -/
theorem readAlike_literal {v : Value} (hv : v.Readable) :
    ∀ w : Value, w.Readable → ReadAlike (fun u : Value => u.literal.toList) denoted v w := by
  induction v using induction_children with
  | step v ih =>
      intro w hw r s hr hs heq
      have hform : v.form = w.form := by
        rw [← ofChars_literal hv.expressionFree hr, heq, ofChars_literal hw.expressionFree hs]
      rcases isAtom_or_form hv.expressionFree with hatom | htext | hlist | hmap
      · have hatom' : w.isAtom := by simpa [isAtom, hform] using hatom
        obtain ⟨hliteral, hrest⟩ := hr.append_inj hs (not_isDelimiter_literal hatom)
          (not_isDelimiter_literal hatom') heq
        exact ⟨denoted_eq_of_atoms hatom hform hliteral, hrest⟩
      · obtain ⟨text, rfl⟩ := exists_string_of_form htext
        obtain ⟨other, rfl⟩ := exists_string_of_form (hform ▸ htext)
        simp only [toList_literal_string] at heq
        obtain ⟨hchars, hrest⟩ := Text.quote_append_inj heq
        rw [String.toList_inj.mp hchars]
        exact ⟨rfl, hrest⟩
      · obtain ⟨items, rfl⟩ := exists_list_of_form hlist
        obtain ⟨others, rfl⟩ := exists_list_of_form (hform ▸ hlist)
        have hitems : ∀ item ∈ items, item.Readable := by
          intro item hitem
          apply hv.child
          rwa [children_list]
        have hothers : ∀ item ∈ others, item.Readable := by
          intro item hitem
          apply hw.child
          rwa [children_list]
        apply readAlike_list _ _ r s hr hs heq
        · intro z hz
          rcases hz with hz | hz
          · exact (hitems z hz).expressionFree
          · exact (hothers z hz).expressionFree
        · intro x hx y hy
          exact ih x (by rwa [children_list]) (hitems x hx) y (hothers y hy)
      · apply readAlike_braced hmap (hform ▸ hmap) _ _ r s hr hs heq
        · intro z hz
          rcases hz with hz | hz
          · exact (hv.field hz).1
          · exact (hw.field hz).1
        · intro x hx y hy
          obtain ⟨hxName, hxChild⟩ := hv.field hx
          obtain ⟨hyName, hyChild⟩ := hw.field hy
          apply readAlike_fieldText hxName hyName
          exact ih x.2 hxChild (hv.child hxChild) y.2 (hw.child hyChild)

end Value

end Cypher
