import Cypher.Proofs.Json.Tokens

/-!
# Reading documents back

A document whose strings and names are texts, and whose numerals have digits behind the point, is
read back from its compact text. The reader needs no more depth than twice the length of the text.
-/

namespace Cypher.Json

open Text (StopsAt stopsAt_cons stopsAt_nil)

/-- Documents that have a text of their own. -/
inductive Written : Json → Prop
  | null : Written .null
  | bool (flag : Bool) : Written (.bool flag)
  | number {n : Decimal.Numeral} (h : ∀ c ∈ n.fraction, c.isDigit = true) : Written (.number n)
  | string (s : String) : Written (.string (some s))
  | array {items : List Json} (h : ∀ item ∈ items, Written item) : Written (.array items)
  | object {members : List (String × Json)} (h : ∀ member ∈ members, Written member.2) :
      Written (.ofMembers members)

def memberText (member : String × Json) : List Char :=
  stringText (some member.1) ++ ':' :: compact member.2

theorem compactItems_eq_map (items : List Json) : compactItems items = items.map compact := by
  induction items with
  | nil => rfl
  | cons item rest ih => rw [compactItems, ih, List.map_cons]

theorem compact_array (items : List Json) :
    compact (.array items) = '[' :: ([','].intercalate (items.map compact) ++ [']']) := by
  rw [compact, compactItems_eq_map]

theorem compactMembers_eq_map (members : List (String × Json)) :
    compactMembers (members.map fun (name, value) => (some name, value)) =
      members.map memberText := by
  induction members with
  | nil => rfl
  | cons member rest ih =>
      rw [List.map_cons, compactMembers, ih, List.map_cons]
      rfl

theorem compact_ofMembers (members : List (String × Json)) :
    compact (.ofMembers members) =
      '\x7b' :: ([','].intercalate (members.map memberText) ++ ['\x7d']) := by
  rw [ofMembers, compact, compactMembers_eq_map]

theorem skipSpace_cons {c : Char} (h : isSpace c = false) (cs : List Char) :
    skipSpace (c :: cs) = c :: cs := by
  rw [skipSpace, List.dropWhile_cons_of_neg (by simp [h])]

theorem readValue_null (depth : Nat) (cs : List Char) :
    readValue (depth + 1) ("null".toList ++ cs) = some (.null, cs) := by
  rw [readValue]
  rfl

theorem readValue_bool (depth : Nat) (flag : Bool) (cs : List Char) :
    readValue (depth + 1) (compact (.bool flag) ++ cs) = some (.bool flag, cs) := by
  cases flag with
  | true =>
      rw [readValue]
      rfl
  | false =>
      rw [readValue]
      rfl

theorem readValue_quote (depth : Nat) (cs : List Char) :
    readValue (depth + 1) ('"' :: cs) =
      (readString cs).map fun (s, after) => (.string s, after) := by
  rw [readValue]
  rfl

theorem readValue_bracket (depth : Nat) (cs : List Char) :
    readValue (depth + 1) ('[' :: cs) =
      match skipSpace cs with
      | ']' :: after => some (.array [], after)
      | _ => (readItems depth cs).map fun (items, after) => (.array items, after) := by
  rw [readValue]
  rfl

theorem readValue_brace (depth : Nat) (cs : List Char) :
    readValue (depth + 1) ('\x7b' :: cs) =
      match skipSpace cs with
      | '\x7d' :: after => some (.object [], after)
      | _ => (readMembers depth cs).map fun (members, after) => (.object members, after) := by
  rw [readValue]
  rfl

theorem stringText_append (s : String) (cs : List Char) :
    stringText (some s) ++ cs = '"' :: (s.toList.flatMap escapeChar ++ '"' :: cs) := by
  have htext : stringText (some s) = '"' :: (s.toList.flatMap escapeChar ++ ['"']) := rfl
  rw [htext, List.cons_append, List.append_assoc]
  rfl

theorem readValue_string (depth : Nat) (s : String) (cs : List Char) :
    readValue (depth + 1) (stringText (some s) ++ cs) = some (.string (some s), cs) := by
  rw [stringText_append, readValue_quote, readString_flatMap, Option.map_some]

theorem ne_of_head {c : Char} (hc : c = '-' ∨ c.isDigit = true) {d : Char} (hminus : d ≠ '-')
    (hdigit : d.isDigit = false) : c ≠ d := by
  rintro rfl
  rcases hc with hc | hc
  · exact hminus hc
  · rw [hc] at hdigit
    exact absurd hdigit (by simp)

theorem isSpace_of_head {c : Char} (hc : c = '-' ∨ c.isDigit = true) : isSpace c = false := by
  simp only [isSpace, Bool.or_eq_false_iff, beq_eq_false_iff_ne]
  refine ⟨⟨⟨?_, ?_⟩, ?_⟩, ?_⟩ <;> exact ne_of_head hc (by decide) (by decide)

theorem readValue_of_head {c : Char} (hc : c = '-' ∨ c.isDigit = true) (depth : Nat)
    (cs : List Char) :
    readValue (depth + 1) (c :: cs) =
      (readNumeral (c :: cs)).map fun (n, after) => (.number n, after) := by
  rw [readValue, skipSpace_cons (isSpace_of_head hc)]
  split
  · rename_i heq
    exact absurd (List.cons.inj heq).1 (ne_of_head hc (by decide) (by decide))
  · rename_i heq
    exact absurd (List.cons.inj heq).1 (ne_of_head hc (by decide) (by decide))
  · rename_i heq
    exact absurd (List.cons.inj heq).1 (ne_of_head hc (by decide) (by decide))
  · rename_i heq
    exact absurd (List.cons.inj heq).1 (ne_of_head hc (by decide) (by decide))
  · rename_i heq
    exact absurd (List.cons.inj heq).1 (ne_of_head hc (by decide) (by decide))
  · rename_i heq
    exact absurd (List.cons.inj heq).1 (ne_of_head hc (by decide) (by decide))
  · rfl

/-- The document is read back from its text, whatever follows, with enough depth. -/
def ReadsBack (d : Json) : Prop :=
  ∀ (depth : Nat) (cs : List Char), 2 * (compact d).length ≤ depth → StopsAt isNumeralChar cs →
    readValue depth (compact d ++ cs) = some (d, cs)

theorem readsBack_number {n : Decimal.Numeral} (h : ∀ c ∈ n.fraction, c.isDigit = true) :
    ReadsBack (.number n) := by
  intro depth cs hdepth hcs
  have hread := readNumeral_text true h hcs
  obtain ⟨c, rest, hcons, hc⟩ := head_text true n
  have hpositive : 0 < depth := by
    simp only [compact, hcons, List.length_cons] at hdepth
    omega
  obtain ⟨depth, rfl⟩ := Nat.exists_eq_add_of_lt hpositive
  simp only [Nat.zero_add, compact]
  rw [hcons] at hread ⊢
  rw [List.cons_append, readValue_of_head hc, ← List.cons_append, hread, Option.map_some]

theorem exists_head_compact {d : Json} (h : Written d) :
    ∃ c cs, compact d = c :: cs ∧ isSpace c = false ∧ c ≠ ']' := by
  cases h with
  | null => exact ⟨'n', _, rfl, by decide, by decide⟩
  | bool flag =>
      cases flag with
      | true => exact ⟨'t', _, rfl, by decide, by decide⟩
      | false => exact ⟨'f', _, rfl, by decide, by decide⟩
  | @number n h =>
      obtain ⟨c, cs, hcons, hc⟩ := head_text true n
      exact ⟨c, cs, hcons, isSpace_of_head hc, ne_of_head hc (by decide) (by decide)⟩
  | string s => exact ⟨'"', _, rfl, by decide, by decide⟩
  | array h => exact ⟨'[', _, rfl, by decide, by decide⟩
  | object h => exact ⟨'\x7b', _, rfl, by decide, by decide⟩

theorem readItems_joined {items : List Json} (hne : items ≠ [])
    (h : ∀ item ∈ items, ReadsBack item) (depth : Nat) (cs : List Char)
    (hdepth : 2 * ([','].intercalate (items.map compact)).length + 1 ≤ depth) :
    readItems depth ([','].intercalate (items.map compact) ++ ']' :: cs) = some (items, cs) := by
  have hbracket : isSpace ']' = false := by decide
  have hcomma : isSpace ',' = false := by decide
  induction items generalizing depth with
  | nil => exact absurd rfl hne
  | cons item rest ih =>
      obtain ⟨depth, rfl⟩ := Nat.exists_eq_add_of_lt (Nat.lt_of_lt_of_le (Nat.succ_pos _) hdepth)
      simp only [Nat.zero_add] at hdepth ⊢
      have hitem := h item List.mem_cons_self
      cases rest with
      | nil =>
          simp only [List.map_cons, List.map_nil, List.intercalate_singleton] at hdepth ⊢
          rw [readItems, hitem depth _ (by omega) (stopsAt_cons (by decide))]
          simp only [skipSpace_cons hbracket]
      | cons next rest =>
          have hrest := ih (by simp)
            (fun other hother => h other (List.mem_cons_of_mem item hother)) depth
          simp only [List.map_cons, List.intercalate_cons_cons, List.append_assoc,
            List.cons_append, List.nil_append, List.length_append,
            List.length_cons] at hdepth hrest ⊢
          rw [readItems, hitem depth _ (by omega) (stopsAt_cons (by decide))]
          simp only [skipSpace_cons hcomma]
          rw [hrest (by omega), Option.map_some]

theorem readMember_memberText {member : String × Json} (h : ReadsBack member.2) (depth : Nat)
    {cs : List Char} (hdepth : 2 * (compact member.2).length ≤ depth)
    (hcs : StopsAt isNumeralChar cs) :
    readMember (depth + 1) (memberText member ++ cs) = some ((some member.1, member.2), cs) := by
  have hquote : isSpace '"' = false := by decide
  have hcolon : isSpace ':' = false := by decide
  rw [memberText, List.append_assoc, stringText_append, readMember]
  simp only [skipSpace_cons hquote, readString_flatMap, List.cons_append, skipSpace_cons hcolon,
    h depth cs hdepth hcs, Option.map_some]

theorem readMembers_joined {members : List (String × Json)} (hne : members ≠ [])
    (h : ∀ member ∈ members, ReadsBack member.2) (depth : Nat) (cs : List Char)
    (hdepth : 2 * ([','].intercalate (members.map memberText)).length + 1 ≤ depth) :
    readMembers depth ([','].intercalate (members.map memberText) ++ '\x7d' :: cs) =
      some (members.map fun (name, value) => (some name, value), cs) := by
  have hbrace : isSpace '\x7d' = false := by decide
  have hcomma : isSpace ',' = false := by decide
  have hlength : ∀ member : String × Json,
      (compact member.2).length + 1 ≤ (memberText member).length := by
    intro member
    simp only [memberText, List.length_append, List.length_cons]
    omega
  induction members generalizing depth with
  | nil => exact absurd rfl hne
  | cons member rest ih =>
      obtain ⟨depth, rfl⟩ := Nat.exists_eq_add_of_lt (Nat.lt_of_lt_of_le (Nat.succ_pos _) hdepth)
      simp only [Nat.zero_add] at hdepth ⊢
      have hmember := readMember_memberText (h member List.mem_cons_self)
      have hlong := hlength member
      cases rest with
      | nil =>
          simp only [List.map_cons, List.map_nil, List.intercalate_singleton] at hdepth ⊢
          obtain ⟨depth, rfl⟩ := Nat.exists_eq_add_of_lt (show 0 < depth by omega)
          simp only [Nat.zero_add] at hdepth ⊢
          rw [readMembers, hmember depth (by omega) (stopsAt_cons (by decide))]
          simp only [skipSpace_cons hbrace]
      | cons next rest =>
          have hrest := ih (by simp)
            (fun other hother => h other (List.mem_cons_of_mem member hother)) depth
          simp only [List.map_cons, List.intercalate_cons_cons, List.append_assoc,
            List.cons_append, List.nil_append, List.length_append,
            List.length_cons] at hdepth hrest ⊢
          obtain ⟨depth, rfl⟩ := Nat.exists_eq_add_of_lt (show 0 < depth by omega)
          simp only [Nat.zero_add] at hdepth hrest ⊢
          rw [readMembers, hmember depth (by omega) (stopsAt_cons (by decide))]
          simp only [skipSpace_cons hcomma]
          rw [hrest (by omega), Option.map_some]

theorem exists_intercalate_cons (sep : List Char) (c : Char) (cs : List Char)
    (texts : List (List Char)) : ∃ more, sep.intercalate ((c :: cs) :: texts) = c :: more := by
  cases texts with
  | nil => exact ⟨cs, List.intercalate_singleton⟩
  | cons next rest => exact ⟨_, List.intercalate_cons_cons⟩

theorem readsBack_array {items : List Json} (hwritten : ∀ item ∈ items, Written item)
    (h : ∀ item ∈ items, ReadsBack item) : ReadsBack (.array items) := by
  intro depth cs hdepth _
  rw [compact_array] at hdepth ⊢
  simp only [List.length_cons, List.length_append, List.length_nil] at hdepth
  obtain ⟨depth, rfl⟩ := Nat.exists_eq_add_of_lt (show 0 < depth by omega)
  simp only [Nat.zero_add, List.cons_append, List.append_assoc, List.nil_append] at hdepth ⊢
  rw [readValue_bracket]
  cases items with
  | nil =>
      have hbracket : isSpace ']' = false := by decide
      simp only [List.map_nil, List.intercalate_nil, List.nil_append, skipSpace_cons hbracket]
  | cons item rest =>
      have hread := readItems_joined (by simp) h depth cs (by omega)
      obtain ⟨c, chars, hcons, hspace, hclose⟩ :=
        exists_head_compact (hwritten item List.mem_cons_self)
      obtain ⟨more, hmore⟩ := exists_intercalate_cons [','] c chars (rest.map compact)
      rw [List.map_cons, hcons, hmore, List.cons_append] at hread ⊢
      rw [skipSpace_cons hspace]
      split
      · rename_i heq
        exact absurd (List.cons.inj heq).1 hclose
      · rw [hread, Option.map_some]

theorem readsBack_ofMembers {members : List (String × Json)}
    (h : ∀ member ∈ members, ReadsBack member.2) : ReadsBack (.ofMembers members) := by
  intro depth cs hdepth _
  rw [compact_ofMembers] at hdepth ⊢
  simp only [List.length_cons, List.length_append, List.length_nil] at hdepth
  obtain ⟨depth, rfl⟩ := Nat.exists_eq_add_of_lt (show 0 < depth by omega)
  simp only [Nat.zero_add, List.cons_append, List.append_assoc, List.nil_append] at hdepth ⊢
  rw [readValue_brace]
  cases members with
  | nil =>
      have hbrace : isSpace '\x7d' = false := by decide
      simp only [List.map_nil, List.intercalate_nil, List.nil_append, skipSpace_cons hbrace,
        ofMembers]
  | cons member rest =>
      have hread := readMembers_joined (by simp) h depth cs (by omega)
      have hquote : isSpace '"' = false := by decide
      obtain ⟨more, hmore⟩ := exists_intercalate_cons [','] '"'
        (member.1.toList.flatMap escapeChar ++ '"' :: ':' :: compact member.2) (rest.map memberText)
      rw [List.map_cons, memberText, stringText_append, hmore, List.cons_append] at hread ⊢
      rw [skipSpace_cons hquote]
      simp only [hread, Option.map_some, ofMembers]
      rfl

theorem readsBack_of_written {d : Json} (h : Written d) : ReadsBack d := by
  have hpositive : ∀ {d : Json} {depth : Nat}, Written d → 2 * (compact d).length ≤ depth →
      ∃ less, depth = less + 1 := by
    intro d depth hwritten hdepth
    obtain ⟨c, cs, hcons, -⟩ := exists_head_compact hwritten
    rw [hcons, List.length_cons] at hdepth
    exact ⟨depth - 1, by omega⟩
  induction h with
  | null =>
      intro depth cs hdepth _
      obtain ⟨depth, rfl⟩ := hpositive .null hdepth
      exact readValue_null depth cs
  | bool flag =>
      intro depth cs hdepth _
      obtain ⟨depth, rfl⟩ := hpositive (.bool flag) hdepth
      exact readValue_bool depth flag cs
  | number h => exact readsBack_number h
  | string s =>
      intro depth cs hdepth _
      obtain ⟨depth, rfl⟩ := hpositive (.string s) hdepth
      exact readValue_string depth s cs
  | array h ih => exact readsBack_array h ih
  | object h ih => exact readsBack_ofMembers ih

theorem parse?_text {d : Json} (h : Written d) : parse? d.text = some d := by
  have hread := readsBack_of_written h (2 * (compact d).length + 2) [] (by omega) stopsAt_nil
  rw [List.append_nil] at hread
  simp [parse?, text, hread]

end Cypher.Json
