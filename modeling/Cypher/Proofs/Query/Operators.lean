import Mathlib
import Cypher.Proofs.Query.Chaining
import Cypher.Proofs.Text.Spacing
import Cypher.Proofs.Text.Trim

/-!
# Operators and their spellings

An operator is looked for by its words, so what is known of operators rests on what splitting a text
into words does.
-/

namespace Cypher.Text

/-! ## Words of a text

A text is made up of its words and of the blanks between them and at its ends. The words that are
found by splitting make up the text, and no others do. Written again with one space between them
they are the words of what was written, and the case of the letters does not matter to any of this. -/

variable {as bs cs : List Char} {ws : List (List Char)}

/-- Words in order, with blanks between every two of them. -/
inductive Separated : List (List Char) → List Char → Prop
  | none : Separated [] []
  | one {w : List Char} (hw : IsWord w) : Separated [w] w
  | more {w gap v rest : List Char} {ws : List (List Char)} (hw : IsWord w) (hgap : gap ≠ [])
      (hblank : ∀ c ∈ gap, isBlank c = true) (h : Separated (v :: ws) rest) :
      Separated (w :: v :: ws) (w ++ gap ++ rest)

/-- A text is made up of some words, of blanks between every two of them, and perhaps of blanks at
its ends. -/
def MadeOf (ws : List (List Char)) (cs : List Char) : Prop :=
  ∃ lead body trail, cs = lead ++ body ++ trail ∧ (∀ c ∈ lead, isBlank c = true) ∧
    (∀ c ∈ trail, isBlank c = true) ∧ Separated ws body

/-- Two texts are made up of the same words, but for the case of ASCII letters. -/
def SameWords (as bs : List Char) : Prop :=
  ∃ ws vs, MadeOf ws as ∧ MadeOf vs bs ∧ ws.map lowered = vs.map lowered

theorem Separated.isWord (h : Separated ws cs) : ∀ w ∈ ws, IsWord w := by
  induction h with
  | none => exact List.forall_mem_nil _
  | one hw => simpa using hw
  | more hw _ _ _ ih => exact List.forall_mem_cons.mpr ⟨hw, ih⟩

theorem splitAtBlanks_cons_of_blank {c : Char} (h : isBlank c = true) (cs : List Char) :
    splitAtBlanks (c :: cs) = [] :: splitAtBlanks cs := by
  simp [splitAtBlanks, h]

theorem splitAtBlanks_cons_of_not_blank {c : Char} (h : isBlank c = false) {piece : List Char}
    {pieces : List (List Char)} (hcs : splitAtBlanks cs = piece :: pieces) :
    splitAtBlanks (c :: cs) = (c :: piece) :: pieces := by
  rw [splitAtBlanks] at hcs
  rw [splitAtBlanks, List.foldr_cons, hcs, if_neg (by simp [h])]

theorem exists_splitAtBlanks_eq_cons (cs : List Char) :
    ∃ piece pieces, splitAtBlanks cs = piece :: pieces := by
  induction cs with
  | nil => exact ⟨[], [], rfl⟩
  | cons c cs ih =>
      by_cases hc : isBlank c = true
      · exact ⟨[], _, splitAtBlanks_cons_of_blank hc cs⟩
      · obtain ⟨piece, pieces, hpieces⟩ := ih
        exact ⟨_, _, splitAtBlanks_cons_of_not_blank (by simpa using hc) hpieces⟩

theorem splitAtBlanks_append_cons {c : Char} (h : isBlank c = true) (as bs : List Char) :
    splitAtBlanks (as ++ c :: bs) = splitAtBlanks as ++ splitAtBlanks bs := by
  induction as with
  | nil => exact splitAtBlanks_cons_of_blank h bs
  | cons a as ih =>
      by_cases ha : isBlank a = true
      · rw [List.cons_append, splitAtBlanks_cons_of_blank ha, ih, splitAtBlanks_cons_of_blank ha,
          List.cons_append]
      · have ha : isBlank a = false := by simpa using ha
        obtain ⟨piece, pieces, hpieces⟩ := exists_splitAtBlanks_eq_cons as
        rw [hpieces] at ih
        rw [List.cons_append, splitAtBlanks_cons_of_not_blank ha ih,
          splitAtBlanks_cons_of_not_blank ha hpieces]
        rfl

theorem splitAtBlanks_of_no_blank (h : ∀ c ∈ cs, isBlank c = false) : splitAtBlanks cs = [cs] := by
  induction cs with
  | nil => rfl
  | cons c cs ih =>
      obtain ⟨hc, hcs⟩ := List.forall_mem_cons.mp h
      exact splitAtBlanks_cons_of_not_blank hc (ih hcs)

theorem words_append_cons {c : Char} (h : isBlank c = true) (as bs : List Char) :
    words (as ++ c :: bs) = words as ++ words bs := by
  rw [words, splitAtBlanks_append_cons h, List.filter_append, words, words]

theorem words_of_isWord (h : IsWord cs) : words cs = [cs] := by
  rw [words, splitAtBlanks_of_no_blank h.2]
  simp [h.1]

theorem words_blank_append (h : ∀ c ∈ as, isBlank c = true) (bs : List Char) :
    words (as ++ bs) = words bs := by
  induction as with
  | nil => rfl
  | cons a as ih =>
      obtain ⟨ha, has⟩ := List.forall_mem_cons.mp h
      rw [List.cons_append, ← ih has]
      exact words_append_cons ha [] (as ++ bs)

theorem words_append_blank (h : ∀ c ∈ bs, isBlank c = true) (as : List Char) :
    words (as ++ bs) = words as := by
  cases bs with
  | nil => rw [List.append_nil]
  | cons b bs =>
      obtain ⟨hb, hbs⟩ := List.forall_mem_cons.mp h
      have hrest := words_blank_append hbs []
      rw [List.append_nil] at hrest
      rw [words_append_cons hb, hrest]
      exact List.append_nil _

theorem words_of_separated (h : Separated ws cs) : words cs = ws := by
  induction h with
  | none => rfl
  | one hw => exact words_of_isWord hw
  | @more w gap v rest ws hw hgap hblank _ ih =>
      obtain ⟨c, gap, rfl⟩ := List.exists_cons_of_ne_nil hgap
      obtain ⟨hc, hrest⟩ := List.forall_mem_cons.mp hblank
      rw [List.append_assoc, List.cons_append, words_append_cons hc, words_of_isWord hw,
        words_blank_append hrest, ih, List.singleton_append]

theorem words_of_madeOf (h : MadeOf ws cs) : words cs = ws := by
  obtain ⟨lead, body, trail, rfl, hlead, htrail, hbody⟩ := h
  rw [words_append_blank htrail, words_blank_append hlead, words_of_separated hbody]

theorem isWord_cons {c : Char} (hc : isBlank c = false) (hcs : ∀ d ∈ cs, isBlank d = false) :
    IsWord (c :: cs) :=
  ⟨List.cons_ne_nil c cs, List.forall_mem_cons.mpr ⟨hc, hcs⟩⟩

theorem Separated.exists_cons {c : Char} (hc : isBlank c = false) (h : Separated ws cs) :
    ∃ vs, Separated vs (c :: cs) := by
  cases h with
  | none => exact ⟨_, .one (isWord_cons hc (List.forall_mem_nil _))⟩
  | one hw => exact ⟨_, .one (isWord_cons hc hw.2)⟩
  | more hw hgap hblank hrest => exact ⟨_, .more (isWord_cons hc hw.2) hgap hblank hrest⟩

theorem exists_madeOf (cs : List Char) : ∃ ws, MadeOf ws cs := by
  induction cs with
  | nil => exact ⟨[], [], [], [], rfl, List.forall_mem_nil _, List.forall_mem_nil _, .none⟩
  | cons c cs ih =>
      obtain ⟨ws, lead, body, trail, rfl, hlead, htrail, hbody⟩ := ih
      by_cases hc : isBlank c = true
      · exact ⟨ws, c :: lead, body, trail, rfl, List.forall_mem_cons.mpr ⟨hc, hlead⟩, htrail, hbody⟩
      · -- the character goes on with the first word, unless blanks stand before that word
        have hc : isBlank c = false := by simpa using hc
        have hword : IsWord [c] := isWord_cons hc (List.forall_mem_nil _)
        by_cases hgap : lead = []
        · obtain ⟨vs, hvs⟩ := hbody.exists_cons hc
          exact ⟨vs, [], c :: body, trail, by rw [hgap]; rfl, List.forall_mem_nil _, htrail, hvs⟩
        · cases ws with
          | nil =>
              cases hbody
              have hblank : ∀ d ∈ lead ++ trail, isBlank d = true :=
                List.forall_mem_append.mpr ⟨hlead, htrail⟩
              exact ⟨[[c]], [], [c], lead ++ trail, by simp, List.forall_mem_nil _, hblank,
                .one hword⟩
          | cons v ws =>
              exact ⟨[c] :: v :: ws, [], [c] ++ lead ++ body, trail, by simp,
                List.forall_mem_nil _, htrail, .more hword hgap hlead hbody⟩

theorem madeOf_iff : MadeOf ws cs ↔ words cs = ws := by
  constructor
  · exact words_of_madeOf
  · intro h
    obtain ⟨vs, hvs⟩ := exists_madeOf cs
    rw [← h, words_of_madeOf hvs]
    exact hvs

theorem isWord_of_mem_words : ∀ w ∈ words cs, IsWord w := by
  obtain ⟨lead, body, trail, -, -, -, hbody⟩ := madeOf_iff.mpr (rfl : words cs = words cs)
  exact hbody.isWord

theorem separated_intercalate (h : ∀ w ∈ ws, IsWord w) :
    Separated ws ([' '].intercalate ws) := by
  induction ws with
  | nil => exact .none
  | cons w ws ih =>
      obtain ⟨hw, hws⟩ := List.forall_mem_cons.mp h
      cases ws with
      | nil =>
          rw [List.intercalate_singleton]
          exact .one hw
      | cons v ws =>
          rw [List.intercalate_cons_cons]
          exact .more hw (by simp) (by simp) (ih hws)

theorem words_intercalate (h : ∀ w ∈ ws, IsWord w) : words ([' '].intercalate ws) = ws :=
  words_of_separated (separated_intercalate h)

theorem isBlank_toUpper (c : Char) : isBlank c.toUpper = isBlank c := by
  by_cases hlower : c.isLower = true
  · have hbounds : 97 ≤ c.toNat ∧ c.toNat ≤ 122 := by
      simpa [Char.isLower, UInt32.le_iff_toNat_le] using hlower
    have hupper : c.toUpper.toNat = c.toNat - 32 := by
      rw [Char.toUpper_eq_of_isLower hlower, Char.toNat_ofNat, if_pos (.inl (by omega))]
    rw [isBlank_of_graphic (by omega) (by omega), isBlank_of_graphic (by omega) (by omega)]
  · rw [Char.toUpper_eq_of_not_isLower hlower]

theorem isWord_uppered (h : IsWord cs) : IsWord (uppered cs) := by
  constructor
  · simpa [uppered] using h.1
  · intro c hc
    obtain ⟨d, hd, rfl⟩ := List.mem_map.mp hc
    rw [isBlank_toUpper, h.2 d hd]

theorem uppered_intercalate (ws : List (List Char)) :
    uppered ([' '].intercalate ws) = [' '].intercalate (ws.map uppered) := by
  induction ws with
  | nil => rfl
  | cons w ws ih =>
      cases ws with
      | nil => simp
      | cons v ws =>
          rw [List.intercalate_cons_cons, List.map_cons, List.map_cons, List.intercalate_cons_cons,
            ← List.map_cons, ← ih]
          simp [uppered]

theorem map_uppered_eq_iff {ws vs : List (List Char)} :
    ws.map uppered = vs.map uppered ↔ ws.map lowered = vs.map lowered := by
  have hup : ∀ ws : List (List Char), (ws.map lowered).map uppered = ws.map uppered := by
    simp [uppered, lowered]
  have hdown : ∀ ws : List (List Char), (ws.map uppered).map lowered = ws.map lowered := by
    simp [uppered, lowered]
  constructor
  · intro h
    rw [← hdown ws, h, hdown]
  · intro h
    rw [← hup ws, h, hup]

theorem sameWords_iff : SameWords as bs ↔ (words as).map lowered = (words bs).map lowered := by
  simp only [SameWords, madeOf_iff]
  constructor
  · rintro ⟨ws, vs, rfl, rfl, h⟩
    exact h
  · intro h
    exact ⟨_, _, rfl, rfl, h⟩

end Cypher.Text

/-! ## Spelling an operator

Which texts a condition takes for an operator. The normal spelling of a text keeps its words, in
upper case and with one space between them. So two texts have the same normal spelling exactly if
they have the same words but for the case of the letters, and an operator is found exactly in the
texts that are made up of its words. -/

namespace Cypher

open Text (IsWord MadeOf SameWords lowered uppered)

namespace Operator

/-- A text is made up of the words of the operator, in any case of their letters. -/
def SpelledBy (op : Operator) (text : String) : Prop :=
  ∃ ws, MadeOf ws text.toList ∧ ws.map lowered = op.words.map fun word => lowered word.toList

theorem isWord_of_mem_words (op : Operator) : ∀ word ∈ op.words, IsWord word.toList := by
  cases op <;> simp [words, IsWord] <;> decide

theorem map_symbol_all : all.map symbol =
    ["=", "<>", "!=", "<", ">", "<=", ">=", "=~", ":", "IN", "STARTS WITH", "ENDS WITH", "CONTAINS",
      "IS", "IS NOT"] := by
  decide +kernel

theorem nodup_symbols : (all.map symbol).Nodup := by
  rw [map_symbol_all]
  decide +kernel

theorem symbol_injective : Function.Injective symbol := by
  intro op other h
  exact List.inj_on_of_nodup_map nodup_symbols op.mem_all other.mem_all h

theorem words_symbol (op : Operator) :
    Text.words op.symbol.toList = op.words.map String.toList := by
  have hsymbol : op.symbol.toList = [' '].intercalate (op.words.map String.toList) := by
    simp [symbol]
  rw [hsymbol]
  apply Text.words_intercalate
  simpa using op.isWord_of_mem_words

theorem normalSpelling_symbol (op : Operator) : normalSpelling op.symbol = op.symbol := by
  cases op <;> decide +kernel

theorem toList_normalSpelling (text : String) :
    (normalSpelling text).toList = [' '].intercalate ((Text.words text.toList).map uppered) := by
  rw [normalSpelling, String.toList_ofList, Text.uppered_intercalate]

theorem words_normalSpelling (text : String) :
    Text.words (normalSpelling text).toList = (Text.words text.toList).map uppered := by
  rw [toList_normalSpelling]
  apply Text.words_intercalate
  intro w hw
  obtain ⟨v, hv, rfl⟩ := List.mem_map.mp hw
  exact Text.isWord_uppered (Text.isWord_of_mem_words v hv)

/-- Two texts have one normal spelling if and only if they have the same words, but for case. -/
theorem normalSpelling_eq_iff {text other : String} :
    normalSpelling text = normalSpelling other ↔ SameWords text.toList other.toList := by
  rw [Text.sameWords_iff, ← Text.map_uppered_eq_iff]
  constructor
  · intro h
    rw [← words_normalSpelling, h, words_normalSpelling]
  · intro h
    apply String.toList_inj.mp
    rw [toList_normalSpelling, h, toList_normalSpelling]

theorem normalSpelling_normalSpelling (text : String) :
    normalSpelling (normalSpelling text) = normalSpelling text := by
  rw [normalSpelling_eq_iff, Text.sameWords_iff, words_normalSpelling]
  simp [lowered, uppered]

theorem spelledBy_iff {op : Operator} {text : String} :
    op.SpelledBy text ↔ SameWords text.toList op.symbol.toList := by
  rw [Text.sameWords_iff, words_symbol, List.map_map, SpelledBy]
  simp [Text.madeOf_iff, Function.comp_def]

theorem normalSpelling_eq_symbol_iff {op : Operator} {text : String} :
    normalSpelling text = op.symbol ↔ op.SpelledBy text := by
  rw [spelledBy_iff, ← normalSpelling_eq_iff, normalSpelling_symbol]

theorem symbol_of_ofText? {op : Operator} {text : String} (h : ofText? text = some op) :
    op.symbol = normalSpelling text := by
  rw [ofText?] at h
  simpa using List.find?_some h

theorem ofText?_eq_some_iff {op : Operator} {text : String} :
    ofText? text = some op ↔ op.SpelledBy text := by
  rw [← normalSpelling_eq_symbol_iff]
  constructor
  · intro h
    exact (symbol_of_ofText? h).symm
  · intro h
    cases hfound : ofText? text with
    | none => exact absurd h.symm (ofText?_eq_none_iff.mp hfound op)
    | some other => rw [symbol_injective ((symbol_of_ofText? hfound).trans h)]

theorem ofText?_eq_none_iff_not_spelledBy {text : String} :
    ofText? text = none ↔ ∀ op : Operator, ¬op.SpelledBy text := by
  simp only [← ofText?_eq_some_iff]
  exact Option.eq_none_iff_forall_ne_some

theorem condition_eq (op : Operator) (item value : String) :
    op.condition item value =
      if op.symbol = ":" then item ++ ":" ++ value
      else " ".intercalate [item, op.symbol, value] := by
  have hlabel : op.symbol = ":" ↔ op = .hasLabel :=
    ⟨fun h => symbol_injective h, fun h => h ▸ by decide⟩
  have hjoined :
      " ".intercalate [item, op.symbol, value] = item ++ " " ++ op.symbol ++ " " ++ value := by
    apply String.toList_inj.mp
    simp
  simp only [condition, hlabel, hjoined]

end Operator

namespace Query

theorem apply_condition_of_spelledBy {op : Operator} {text : String} (h : op.SpelledBy text)
    (q : Query) (connective : Connective) (item : String) (value : Value) :
    q.apply (.condition connective item text value) =
      .ok (q.push (.condition connective (op.condition item value.literal))) := by
  simp only [apply, addCondition, Operator.ofText?_eq_some_iff.mpr h]

theorem apply_condition_of_not_spelledBy {text : String} (h : ∀ op : Operator, ¬op.SpelledBy text)
    (q : Query) (connective : Connective) (item : String) (value : Value) :
    q.apply (.condition connective item text value) = .error (.unknownOperator text) := by
  simp only [apply, addCondition, Operator.ofText?_eq_none_iff_not_spelledBy.mpr h]

/-- There are fifteen operators. A condition is accepted exactly if its text spells one of them: the
words of the operator in order, in any case, with any blanks between them and at the ends. Its
clause joins the item, the operator itself and the literal of the value by single spaces, and a
label test by nothing. Otherwise the error holds the text as it was given and the query stays as it
is. A text that spells an operator has the operator for its normal spelling; normal spellings stay
as they are, and texts have the same one exactly if they have the same words, so such texts are
accepted alike. -/
theorem condition_accepted_if_operator_spelled :
    (∀ op : Operator, op ∈ Operator.all) ∧
      Operator.all.map Operator.symbol =
        ["=", "<>", "!=", "<", ">", "<=", ">=", "=~", ":", "IN", "STARTS WITH", "ENDS WITH",
          "CONTAINS", "IS", "IS NOT"] ∧
      (∀ (q : Query) (connective : Connective) (item text : String) (value : Value),
        let step := Step.condition connective item text value
        ((∃ next, q.apply step = .ok next) ↔ ∃ op : Operator, op.SpelledBy text) ∧
        (∀ op : Operator, op.SpelledBy text → q.apply step = .ok (q.push (.condition connective
          (if op.symbol = ":" then item ++ ":" ++ value.literal
            else " ".intercalate [item, op.symbol, value.literal])))) ∧
        ((∀ op : Operator, ¬op.SpelledBy text) →
          q.apply step = .error (.unknownOperator text) ∧ q.applyOrKeep step = q)) ∧
      (∀ (op : Operator) text, Operator.normalSpelling text = op.symbol ↔ op.SpelledBy text) ∧
      (∀ text, Operator.normalSpelling (Operator.normalSpelling text) =
        Operator.normalSpelling text) ∧
      ∀ text other, (Operator.normalSpelling text = Operator.normalSpelling other ↔
          SameWords text.toList other.toList) ∧
        (SameWords text.toList other.toList →
          ∀ (q next : Query) (connective : Connective) (item : String) (value : Value),
            q.apply (.condition connective item text value) = .ok next ↔
              q.apply (.condition connective item other value) = .ok next) := by
  refine ⟨Operator.mem_all, Operator.map_symbol_all, ?_,
    fun op text => Operator.normalSpelling_eq_symbol_iff,
    Operator.normalSpelling_normalSpelling, fun text other => ⟨Operator.normalSpelling_eq_iff, ?_⟩⟩
  · intro q connective item text value step
    have haccepted : ∀ op : Operator, op.SpelledBy text →
        q.apply step = .ok (q.push (.condition connective (op.condition item value.literal))) :=
      fun op hop => apply_condition_of_spelledBy hop q connective item value
    have hrejected : (∀ op : Operator, ¬op.SpelledBy text) →
        q.apply step = .error (.unknownOperator text) :=
      fun hnone => apply_condition_of_not_spelledBy hnone q connective item value
    refine ⟨?_, ?_, fun hnone => ⟨hrejected hnone, applyOrKeep_of_error (hrejected hnone)⟩⟩
    · constructor
      · intro hnext
        by_contra hnone
        obtain ⟨next, hnext⟩ := hnext
        rw [hrejected (not_exists.mp hnone)] at hnext
        cases hnext
      · intro hspelled
        obtain ⟨op, hop⟩ := hspelled
        exact ⟨_, haccepted op hop⟩
    · intro op hop
      rw [haccepted op hop, Operator.condition_eq]
  · intro hsame q next connective item value
    have hfound : Operator.ofText? text = Operator.ofText? other := by
      rw [Operator.ofText?, Operator.normalSpelling_eq_iff.mpr hsame, Operator.ofText?]
    simp only [apply, addCondition, hfound]
    cases Operator.ofText? other <;> simp

/-- Two words in mixed case, with an ideographic space in front and a tab and a line break between,
are one operator; two symbols apart from each other are none. -/
theorem two_words_in_mixed_case_accepted :
    let text := "\u3000is\t\nNot"
    Operator.notIdentical.SpelledBy text ∧
      empty.apply (.condition .and "n.age" text .null) =
        .ok (empty.push (.condition .and "n.age IS NOT null")) ∧
      Operator.normalSpelling text = "IS NOT" ∧
      empty.apply (.condition .or "n.age" "< >" .null) = .error (.unknownOperator "< >") := by
  intro text
  obtain ⟨-, -, hsteps, hnormal, -⟩ := condition_accepted_if_operator_spelled
  have hspelled : Operator.notIdentical.SpelledBy text := by
    have his : IsWord "is".toList := by simp [IsWord, Text.isBlank]
    have hnot : IsWord "Not".toList := by simp [IsWord, Text.isBlank]
    have hbody : Text.Separated ["is".toList, "Not".toList]
        ("is".toList ++ ['\t', '\n'] ++ "Not".toList) :=
      .more his (by simp) (by simp [Text.isBlank]) (.one hnot)
    have hmade : MadeOf ["is".toList, "Not".toList] text.toList :=
      ⟨['\u3000'], _, [], by simp [text], by simp [Text.isBlank], by simp, hbody⟩
    exact ⟨_, hmade, by decide⟩
  have hnone : ∀ op : Operator, ¬op.SpelledBy "< >" := by
    intro op
    rw [← hnormal op]
    cases op <;> decide +kernel
  obtain ⟨-, haccepted, -⟩ := hsteps empty .and "n.age" text .null
  obtain ⟨-, -, hrejected⟩ := hsteps empty .or "n.age" "< >" .null
  refine ⟨hspelled, ?_, (hnormal _ text).mpr hspelled, (hrejected hnone).1⟩
  rw [haccepted _ hspelled]
  decide +kernel

end Query

end Cypher
