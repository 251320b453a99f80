import Cypher.Proofs.Text.Quoted
import Cypher.Proofs.Value.Parts
import Cypher.Proofs.Value.Scalars

/-!
# Brackets in query texts

A scan of a query text that skips quoted literals and keeps the brackets that are still open. A
balanced text leaves the scan as it found it, wherever the text stands (`run_of_isBalanced`), so
balanced texts can be put one after the other and into brackets.
-/

namespace Cypher.Text

/-- What a character of a query text belongs to: the query itself, a literal, or an escape in a
literal. -/
inductive ScanMode where
  | code | literal | escape
deriving DecidableEq, Repr

/-- A scan of a query text. -/
structure Scan where
  mode : ScanMode
  /-- The closing brackets that are due, the innermost first. -/
  due : List Char
deriving DecidableEq, Repr

def closing? (c : Char) : Option Char :=
  if c = '(' then some ')'
  else if c = '[' then some ']'
  else if c = '\x7b' then some '\x7d'
  else none

def isClosing (c : Char) : Bool := c == ')' || c == ']' || c == '\x7d'

namespace Scan

def begin : Scan := ⟨.code, []⟩

/-- The scan after one character outside of literals; a closing bracket must be the one that is
due. -/
def inCode (due : List Char) (c : Char) : Option Scan :=
  if c = '\'' then some ⟨.literal, due⟩
  else
    match closing? c with
    | some close => some ⟨.code, close :: due⟩
    | none =>
      if isClosing c then
        match due with
        | [] => none
        | first :: rest => if first = c then some ⟨.code, rest⟩ else none
      else some ⟨.code, due⟩

def step (s : Scan) (c : Char) : Option Scan :=
  match s.mode with
  | .code => inCode s.due c
  | .literal =>
    some ⟨if c = '\\' then .escape else if c = '\'' then .code else .literal, s.due⟩
  | .escape => some ⟨.literal, s.due⟩

def run (s : Scan) : List Char → Option Scan
  | [] => some s
  | c :: cs => (s.step c).bind fun next => next.run cs

end Scan

/-- Every literal in the text is closed, and its brackets are properly nested. -/
def IsBalanced (cs : List Char) : Prop := Scan.begin.run cs = some Scan.begin

instance (cs : List Char) : Decidable (IsBalanced cs) :=
  inferInstanceAs (Decidable (_ = _))

/-- A balanced text in which the first character opens a bracket that the last one closes: after each
character between them some bracket is still open. -/
structure Enclosed (cs : List Char) : Prop where
  isBalanced : IsBalanced cs
  two_le_length : 2 ≤ cs.length
  open_inside : ∀ before after, cs = before ++ after → before ≠ [] → after ≠ [] →
    ∃ s, Scan.begin.run before = some s ∧ s.due ≠ []

namespace Scan

theorem run_append (s : Scan) (as bs : List Char) :
    s.run (as ++ bs) = (s.run as).bind fun t => t.run bs := by
  induction as generalizing s with
  | nil => rfl
  | cons a as ih =>
      rw [List.cons_append, run, run]
      cases s.step a with
      | none => rfl
      | some t => exact ih t

theorem run_append_of_eq {s t : Scan} {as : List Char} (h : s.run as = some t) (bs : List Char) :
    s.run (as ++ bs) = t.run bs := by
  rw [run_append, h]
  rfl

theorem exists_run_of_append {s t : Scan} {as bs : List Char} (h : s.run (as ++ bs) = some t) :
    ∃ u, s.run as = some u ∧ u.run bs = some t := by
  rw [run_append] at h
  exact Option.bind_eq_some_iff.mp h

/-- A step keeps the brackets that are due, adds one or takes the first one off; the others do not
matter to it. -/
theorem step_cases {mode : ScanMode} {due : List Char} {c : Char} {t : Scan}
    (h : step ⟨mode, due⟩ c = some t) :
    (t.due = due ∧ ∀ other, step ⟨mode, other⟩ c = some ⟨t.mode, other⟩) ∨
      (∃ close, t.due = close :: due ∧
        ∀ other, step ⟨mode, other⟩ c = some ⟨t.mode, close :: other⟩) ∨
      (due = c :: t.due ∧ ∀ other, step ⟨mode, c :: other⟩ c = some ⟨t.mode, other⟩) := by
  cases mode with
  | code =>
      simp only [step, inCode] at h ⊢
      by_cases hquote : c = '\''
      · simp only [hquote, if_true, Option.some.injEq] at h ⊢
        subst h
        exact .inl ⟨rfl, fun _ => rfl⟩
      · simp only [hquote, if_false] at h ⊢
        cases hclose : closing? c with
        | some close =>
            simp only [hclose, Option.some.injEq] at h ⊢
            subst h
            exact .inr (.inl ⟨close, rfl, fun _ => rfl⟩)
        | none =>
            simp only [hclose] at h ⊢
            cases hclosing : isClosing c with
            | false =>
                simp only [hclosing, Bool.false_eq_true, if_false, Option.some.injEq] at h ⊢
                subst h
                exact .inl ⟨rfl, fun _ => rfl⟩
            | true =>
                simp only [hclosing, if_true] at h ⊢
                cases due with
                | nil => cases h
                | cons first rest =>
                    by_cases hfirst : first = c
                    · simp only [hfirst, if_true, Option.some.injEq] at h ⊢
                      subst h
                      exact .inr (.inr ⟨rfl, fun _ => rfl⟩)
                    · simp [hfirst] at h
  | literal =>
      simp only [step, Option.some.injEq] at h ⊢
      subst h
      exact .inl ⟨rfl, fun _ => rfl⟩
  | escape =>
      simp only [step, Option.some.injEq] at h ⊢
      subst h
      exact .inl ⟨rfl, fun _ => rfl⟩

/-- Brackets that were open before do not matter as long as they stay open. -/
theorem step_frame {s t : Scan} {c : Char} (h : s.step c = some t) (below : List Char) :
    step ⟨s.mode, s.due ++ below⟩ c = some ⟨t.mode, t.due ++ below⟩ := by
  rcases step_cases h with ⟨hdue, hstep⟩ | ⟨close, hdue, hstep⟩ | ⟨hdue, hstep⟩
  · rw [hstep, hdue]
  · rw [hstep, hdue, List.cons_append]
  · rw [hdue, List.cons_append, hstep]

theorem run_frame {s t : Scan} {cs : List Char} (h : s.run cs = some t) (below : List Char) :
    run ⟨s.mode, s.due ++ below⟩ cs = some ⟨t.mode, t.due ++ below⟩ := by
  induction cs generalizing s with
  | nil =>
      rw [run, Option.some.injEq] at h
      rw [h, run]
  | cons c cs ih =>
      obtain ⟨u, hstep, hrun⟩ := Option.bind_eq_some_iff.mp h
      rw [run, step_frame hstep below]
      exact ih hrun

/-- As long as some bracket stays open, the outermost one is not touched. -/
theorem step_unframe {mode : ScanMode} {due : List Char} {last c : Char} {t : Scan}
    (h : step ⟨mode, due ++ [last]⟩ c = some t) (hopen : t.due ≠ []) :
    ∃ rest, t.due = rest ++ [last] ∧ step ⟨mode, due⟩ c = some ⟨t.mode, rest⟩ := by
  rcases step_cases h with ⟨hdue, hstep⟩ | ⟨close, hdue, hstep⟩ | ⟨hdue, hstep⟩
  · exact ⟨due, hdue, hstep due⟩
  · exact ⟨close :: due, hdue, hstep due⟩
  · cases due with
    | nil => exact absurd (List.cons.inj hdue).2.symm hopen
    | cons first rest =>
        obtain ⟨rfl, hrest⟩ := List.cons.inj hdue
        exact ⟨rest, hrest.symm, hstep rest⟩

theorem run_unframe {mode : ScanMode} {due : List Char} {last : Char} {cs : List Char} {t : Scan}
    (h : run ⟨mode, due ++ [last]⟩ cs = some t)
    (hopen : ∀ before after s, cs = before ++ after →
      run ⟨mode, due ++ [last]⟩ before = some s → s.due ≠ []) :
    ∃ rest, t.due = rest ++ [last] ∧ run ⟨mode, due⟩ cs = some ⟨t.mode, rest⟩ := by
  induction cs generalizing mode due with
  | nil =>
      rw [run, Option.some.injEq] at h
      subst h
      exact ⟨due, rfl, rfl⟩
  | cons c cs ih =>
      obtain ⟨u, hstep, hrun⟩ := Option.bind_eq_some_iff.mp h
      have hu : u.due ≠ [] := by
        apply hopen [c] cs u rfl
        rw [run, hstep]
        rfl
      obtain ⟨rest, hdue, hinner⟩ := step_unframe hstep hu
      obtain ⟨umode, udue⟩ := u
      dsimp only at hdue hinner
      subst hdue
      rw [run, hinner]
      apply ih hrun
      intro before after s hsplit hs
      apply hopen (c :: before) after s (by rw [hsplit, List.cons_append])
      rw [run, hstep]
      exact hs

end Scan

theorem run_of_isBalanced {cs : List Char} (h : IsBalanced cs) (due : List Char) :
    Scan.run ⟨.code, due⟩ cs = some ⟨.code, due⟩ :=
  Scan.run_frame h due

theorem isBalanced_nil : IsBalanced [] := rfl

theorem isBalanced_append {as bs : List Char} (has : IsBalanced as) (hbs : IsBalanced bs) :
    IsBalanced (as ++ bs) := by
  rw [IsBalanced, Scan.run_append_of_eq has]
  exact hbs

theorem isBalanced_intercalate {sep : List Char} {xss : List (List Char)} (hsep : IsBalanced sep)
    (h : ∀ xs ∈ xss, IsBalanced xs) : IsBalanced (sep.intercalate xss) := by
  induction xss with
  | nil => exact isBalanced_nil
  | cons xs rest ih =>
      have hrest := ih fun ys hys => h ys (List.mem_cons_of_mem xs hys)
      cases rest with
      | nil =>
          rw [List.intercalate_singleton]
          exact h xs List.mem_cons_self
      | cons ys rest =>
          rw [List.intercalate_cons_cons]
          exact isBalanced_append (isBalanced_append (h xs List.mem_cons_self) hsep) hrest

theorem step_of_isPlain {c : Char} (h : isPlain c = true) (due : List Char) :
    Scan.step ⟨.code, due⟩ c = some ⟨.code, due⟩ := by
  have hne {d : Char} (hd : isPlain d = false) : c ≠ d := by
    rintro rfl
    rw [h] at hd
    cases hd
  have hclose : closing? c = none := by
    simp [closing?, hne (d := '(') (by decide), hne (d := '[') (by decide),
      hne (d := '\x7b') (by decide)]
  have hclosing : isClosing c = false := by
    simp [isClosing, hne (d := ')') (by decide), hne (d := ']') (by decide),
      hne (d := '\x7d') (by decide)]
  simp [Scan.step, Scan.inCode, hne (d := '\'') (by decide), hclose, hclosing]

theorem isBalanced_of_plain {cs : List Char} (h : Plain cs) : IsBalanced cs := by
  induction cs with
  | nil => exact isBalanced_nil
  | cons c cs ih =>
      rw [IsBalanced, Scan.run, Scan.begin, step_of_isPlain (h c List.mem_cons_self)]
      exact ih fun d hd => h d (List.mem_cons_of_mem c hd)

theorem run_flatMap_escapeQuoted (s : List Char) (due : List Char) :
    Scan.run ⟨.literal, due⟩ (s.flatMap escapeQuoted) = some ⟨.literal, due⟩ := by
  induction s with
  | nil => rfl
  | cons c s ih =>
      rw [List.flatMap_cons]
      by_cases h : c = '\\' ∨ c = '\''
      · rw [escapeQuoted_of_special h]
        exact ih
      · rw [escapeQuoted_of_plain h]
        obtain ⟨hslash, hquote⟩ := not_or.mp h
        have hstep : Scan.step ⟨.literal, due⟩ c = some ⟨.literal, due⟩ := by
          simp [Scan.step, hslash, hquote]
        rw [List.singleton_append, Scan.run, hstep]
        exact ih

theorem isBalanced_quote (s : List Char) : IsBalanced (quote s) := by
  have hopen : Scan.begin.run ['\''] = some ⟨.literal, []⟩ := rfl
  have hsplit : quote s = ['\''] ++ (s.flatMap escapeQuoted ++ ['\'']) := rfl
  rw [IsBalanced, hsplit, Scan.run_append_of_eq hopen,
    Scan.run_append_of_eq (run_flatMap_escapeQuoted s [])]
  rfl

theorem quote_of_plain {cs : List Char} (h : Plain cs) : quote cs = '\'' :: (cs ++ ['\'']) := by
  have hbody : cs.flatMap escapeQuoted = cs := by
    induction cs with
    | nil => rfl
    | cons c cs ih =>
        have hc : ¬(c = '\\' ∨ c = '\'') := by
          rintro (rfl | rfl) <;> exact absurd (h _ List.mem_cons_self) (by decide)
        rw [List.flatMap_cons, escapeQuoted_of_plain hc,
          ih fun d hd => h d (List.mem_cons_of_mem c hd), List.singleton_append]
  rw [quote, hbody]

theorem step_of_closing? {o c : Char} (h : closing? o = some c) (due : List Char) :
    Scan.step ⟨.code, due⟩ o = some ⟨.code, c :: due⟩ := by
  have hquote : o ≠ '\'' := by
    rintro rfl
    simp [closing?] at h
  simp [Scan.step, Scan.inCode, hquote, h]

theorem step_of_due {o c : Char} (h : closing? o = some c) (due : List Char) :
    Scan.step ⟨.code, c :: due⟩ c = some ⟨.code, due⟩ := by
  have hc : c = ')' ∨ c = ']' ∨ c = '\x7d' := by
    simp only [closing?] at h
    split at h
    · exact .inl (Option.some.inj h).symm
    · split at h
      · exact .inr (.inl (Option.some.inj h).symm)
      · split at h
        · exact .inr (.inr (Option.some.inj h).symm)
        · cases h
  rcases hc with rfl | rfl | rfl <;> simp [Scan.step, Scan.inCode, closing?, isClosing]

theorem enclosed_of_isBalanced {o c : Char} {body : List Char} (h : closing? o = some c)
    (hbody : IsBalanced body) : Enclosed (o :: (body ++ [c])) := by
  have hopen (cs : List Char) : Scan.begin.run (o :: cs) = Scan.run ⟨.code, [c]⟩ cs := by
    rw [Scan.run, Scan.begin, step_of_closing? h]
    rfl
  refine ⟨?_, by simp, ?_⟩
  · rw [IsBalanced, hopen, Scan.run_append_of_eq (run_of_isBalanced hbody [c]), Scan.run,
      step_of_due h]
    rfl
  · intro before after hsplit hbefore hafter
    -- the part before the split is the opening bracket and a piece of the body
    obtain ⟨first, before, rfl⟩ := List.exists_cons_of_ne_nil hbefore
    rw [List.cons_append, List.cons.injEq] at hsplit
    obtain ⟨rfl, hsplit⟩ := hsplit
    obtain ⟨init, last, rfl⟩ := List.eq_nil_or_concat after |>.resolve_left hafter
    have hbodysplit : body = before ++ init := by
      rw [List.concat_eq_append, ← List.append_assoc] at hsplit
      exact (List.append_inj' hsplit rfl).1
    rw [hbodysplit] at hbody
    obtain ⟨s, hs, -⟩ := Scan.exists_run_of_append hbody
    refine ⟨⟨s.mode, s.due ++ [c]⟩, ?_, by simp⟩
    rw [hopen]
    exact Scan.run_frame hs [c]

end Cypher.Text

/-! ## Brackets in literals

Texts in a value are escaped, so they cannot end a literal or a bracket early; numbers and temporal
values are plain. The names of maps and properties stand as they are: a value without raw
expressions has a well-bracketed literal as long as its names are balanced by themselves, and no
weaker demand on the names would do. -/

namespace Cypher.Value

open Text (IsBalanced Enclosed Scan isBalanced_append isBalanced_intercalate isBalanced_of_plain
  isBalanced_quote enclosed_of_isBalanced)

/-- Lists, maps and entities: the values whose literals are in brackets. -/
def isCompound : Value → Bool
  | .list _ | .map _ | .node _ | .relationship _ => true
  | _ => false

theorem isBalanced_constructorCall {name : String} {text : List Char}
    (hname : Text.Plain name.toList) (htext : Text.Plain text) :
    IsBalanced (constructorCall name text).toList := by
  have hcall : (constructorCall name text).toList =
      name.toList ++ '(' :: (Text.quote text ++ [')']) := by
    simp [constructorCall, Text.quote_of_plain htext]
  rw [hcall]
  exact isBalanced_append (isBalanced_of_plain hname)
    (enclosed_of_isBalanced rfl (isBalanced_quote text)).isBalanced

theorem enclosed_bracketedText {items : List Value}
    (h : ∀ item ∈ items, IsBalanced item.literal.toList) : Enclosed (bracketedText items) := by
  apply enclosed_of_isBalanced rfl
  apply isBalanced_intercalate (by decide)
  intro text htext
  obtain ⟨item, hitem, rfl⟩ := List.mem_map.mp htext
  exact h item hitem

theorem enclosed_bracedText {fields : List (String × Value)}
    (hnames : ∀ name ∈ fields.map Prod.fst, IsBalanced name.toList)
    (hvalues : ∀ value ∈ fields.map Prod.snd, IsBalanced value.literal.toList) :
    Enclosed (bracedText fields) := by
  apply enclosed_of_isBalanced rfl
  apply isBalanced_intercalate (by decide)
  intro text htext
  obtain ⟨field, hfield, rfl⟩ := List.mem_map.mp htext
  have hseparated : IsBalanced (':' :: ' ' :: field.2.literal.toList) :=
    hvalues field.2 (List.mem_map_of_mem hfield)
  exact isBalanced_append (hnames field.1 (List.mem_map_of_mem hfield)) hseparated

theorem isBalanced_literal {v : Value} (hv : v.ExpressionFree)
    (hnames : ∀ name ∈ v.names, IsBalanced name.toList) :
    IsBalanced v.literal.toList ∧ (v.isCompound → Enclosed v.literal.toList) := by
  induction v using induction_children with
  | step v ih =>
      have hchild : ∀ child ∈ v.children, IsBalanced child.literal.toList := by
        intro child hmem
        refine (ih child hmem (hv.child hmem) fun name hname => ?_).1
        exact hnames name (mem_names.mpr (.inr ⟨child, hmem, hname⟩))
      have hfields : ∀ name ∈ v.fields.map Prod.fst, IsBalanced name.toList := by
        intro name hname
        exact hnames name (mem_names.mpr (.inl hname))
      cases v with
      | null => exact ⟨by decide, by simp [isCompound]⟩
      | bool flag => exact ⟨by cases flag <;> decide, by simp [isCompound]⟩
      | int number =>
          refine ⟨?_, by simp [isCompound]⟩
          rw [literal, String.toList_ofList]
          exact isBalanced_of_plain (Text.plain_signed _)
      | float number =>
          refine ⟨?_, by simp [isCompound]⟩
          rw [literal, String.toList_ofList]
          exact isBalanced_of_plain (plain_floatLiteral _)
      | string text =>
          refine ⟨?_, by simp [isCompound]⟩
          rw [toList_literal_string]
          exact isBalanced_quote _
      | expression text => exact absurd rfl (hv.ne text)
      | date d =>
          exact ⟨isBalanced_constructorCall (by decide) d.plain_text, by simp [isCompound]⟩
      | localTime t =>
          exact ⟨isBalanced_constructorCall (by decide) t.plain_literalText, by simp [isCompound]⟩
      | localDateTime t =>
          exact ⟨isBalanced_constructorCall (by decide) t.plain_literalText, by simp [isCompound]⟩
      | duration d =>
          exact ⟨isBalanced_constructorCall (by decide) d.plain_literalText, by simp [isCompound]⟩
      | list items =>
          rw [toList_literal_list]
          have henclosed := enclosed_bracketedText fun item hitem =>
            hchild item (by rwa [children_list])
          exact ⟨henclosed.isBalanced, fun _ => henclosed⟩
      | map entries =>
          rw [toList_literal_map]
          have henclosed := enclosed_bracedText hfields hchild
          exact ⟨henclosed.isBalanced, fun _ => henclosed⟩
      | node n =>
          rw [toList_literal_node]
          have henclosed := enclosed_bracedText hfields hchild
          exact ⟨henclosed.isBalanced, fun _ => henclosed⟩
      | relationship r =>
          rw [toList_literal_relationship]
          have henclosed := enclosed_bracedText hfields hchild
          exact ⟨henclosed.isBalanced, fun _ => henclosed⟩

/-- The map with one name, and nothing of interest under it. -/
def singleName (name : String) : Value := .map ⟨[(name, .null)]⟩

theorem toList_literal_singleName (name : String) :
    (singleName name).literal.toList = '\x7b' :: (name.toList ++ ": null\x7d".toList) := by
  rw [singleName, toList_literal_map]
  simp [bracedText, fieldText, literal]

theorem expressionFree_singleName (name : String) : (singleName name).ExpressionFree := by
  intro text
  simp [singleName, parts, partsOfFields]

theorem names_singleName (name : String) : (singleName name).names = [name] := by
  simp [singleName, names, parts, partsOfFields, fields]

theorem isBalanced_of_enclosed_singleName {name : String}
    (h : Enclosed (singleName name).literal.toList) : IsBalanced name.toList := by
  rw [toList_literal_singleName] at h
  have hwhole := h.isBalanced
  have hopen : Scan.begin.step '\x7b' = some ⟨.code, [] ++ ['\x7d']⟩ := rfl
  rw [IsBalanced, Scan.run, hopen, Option.bind_some] at hwhole
  obtain ⟨s, hname, hrest⟩ := Scan.exists_run_of_append hwhole
  obtain ⟨rest, hdue, hinner⟩ := Scan.run_unframe hname (by
    intro before after t hsplit ht
    obtain ⟨u, hu, hdue⟩ := h.open_inside ('\x7b' :: before) (after ++ ": null\x7d".toList)
      (by simp [hsplit]) (by simp) (by simp)
    rw [Scan.run, hopen, Option.bind_some, ht, Option.some.injEq] at hu
    rwa [hu])
  obtain ⟨mode, due⟩ := s
  dsimp only at hdue hinner
  subst hdue
  cases mode with
  | literal => simp [Scan.run, Scan.step, Scan.begin] at hrest
  | escape => simp [Scan.run, Scan.step, Scan.begin] at hrest
  | code =>
      cases rest with
      | nil => exact hinner
      | cons first rest =>
          -- the closing brace would leave the brace of the map open
          simp [Scan.run, Scan.step, Scan.inCode, Scan.begin, Text.closing?,
            Text.isClosing] at hrest

/-- Values without raw expressions have well-bracketed literals, whatever texts they hold, if and
only if the names that they may use are balanced by themselves. -/
theorem literals_well_bracketed_iff (allowed : String → Prop) :
    (∀ v : Value, v.ExpressionFree → (∀ name ∈ v.names, allowed name) →
      IsBalanced v.literal.toList ∧ (v.isCompound → Enclosed v.literal.toList)) ↔
    ∀ name, allowed name → IsBalanced name.toList := by
  constructor
  · intro h name hname
    apply isBalanced_of_enclosed_singleName
    refine (h (singleName name) (expressionFree_singleName name) ?_).2 rfl
    intro other hother
    rw [names_singleName, List.mem_singleton] at hother
    rwa [hother]
  · intro h v hv hnames
    exact isBalanced_literal hv fun name hname => h name (hnames name hname)

/-- A closing brace as the name of a property ends the map early. -/
theorem brace_name_not_balanced :
    let v : Value := .map ⟨[("\x7d", .int 1)]⟩
    v.ExpressionFree ∧ v.literal = "\x7b\x7d: 1\x7d" ∧ ¬IsBalanced v.literal.toList := by
  refine ⟨fun text => ?_, by decide +kernel, by decide +kernel⟩
  simp [parts, partsOfFields]

end Cypher.Value
