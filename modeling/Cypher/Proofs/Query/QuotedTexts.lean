import Cypher.Proofs.Query.Runs
import Cypher.Proofs.Value.Parts

/-!
# Quoted texts in queries

Texts enter a query as quoted literals: in the properties of nodes and edges, as values of
conditions, and as paths of data files. The text of the query is collapsed as a whole, literals
included. So a text arrives as it was given if and only if no two blanks meet in it; otherwise the
server reads the collapsed text.
-/

namespace Cypher

def Properties.texts (properties : Properties) : List String :=
  properties.entries.flatMap fun field => field.2.texts

/-- The texts that a step places into the query as quoted literals. -/
def Step.texts : Step → List String
  | .node pattern => Properties.texts pattern.properties
  | .edgeTo pattern => Properties.texts pattern.properties
  | .edgeFrom pattern => Properties.texts pattern.properties
  | .condition _ _ _ value => value.texts
  | .loadCsv path _ _ => [path]
  | _ => []

open Text (quote collapse SingleBlanks)

theorem Properties.isInfix_patternText {properties : Properties} {text : String}
    (h : text ∈ Properties.texts properties) :
    quote text.toList <:+: (Properties.patternText properties).toList := by
  obtain ⟨field, hfield, htext⟩ := List.mem_flatMap.mp h
  have hfilled : properties.entries.isEmpty = false := by
    cases hentries : properties.entries with
    | nil =>
        rw [hentries] at hfield
        exact absurd hfield List.not_mem_nil
    | cons head rest => rfl
  have hchild : field.2 ∈ (Value.map properties).children := by
    rw [Value.children_map]
    exact List.mem_map_of_mem hfield
  rw [patternText, if_neg (by simp [hfilled])]
  exact (Value.isInfix_literal_of_mem_texts htext).trans
    (Value.isInfix_literal_of_mem_children hchild)

theorem Step.isInfix_clause {step : Step} {c : Clause} {text : String}
    (hc : step.clause? = some c) (h : text ∈ step.texts) :
    quote text.toList <:+: c.render.toList := by
  cases step with
  | node pattern =>
      obtain rfl := Option.some.inj hc
      exact (Properties.isInfix_patternText h).trans (Clause.isInfix_render_node _ _ _)
  | edgeTo pattern =>
      obtain rfl := Option.some.inj hc
      exact (Properties.isInfix_patternText h).trans (Clause.isInfix_render_edge _ _ _ _)
  | edgeFrom pattern =>
      obtain rfl := Option.some.inj hc
      exact (Properties.isInfix_patternText h).trans (Clause.isInfix_render_edge _ _ _ _)
  | condition connective item operator value =>
      obtain ⟨op, -, rfl⟩ := Option.map_eq_some_iff.mp hc
      have hcondition := (Value.isInfix_literal_of_mem_texts h).trans
        (op.isInfix_condition item value.literal)
      exact hcondition.trans (Clause.isInfix_render_condition _ _)
  | loadCsv path header row =>
      obtain rfl := Option.some.inj hc
      rw [List.mem_singleton.mp h]
      exact Clause.isInfix_render_loadCsv path header row
  | _ => exact absurd h List.not_mem_nil

namespace Query

theorem isInfix_joined_of_placed {q : Query} {steps : List Step} {text : String}
    (h : text ∈ (q.accepted steps).flatMap Step.texts) :
    quote text.toList <:+: (q.applySteps steps).joined := by
  obtain ⟨step, hstep, htext⟩ := List.mem_flatMap.mp h
  obtain ⟨c, hmem, hc⟩ := mem_clauses_applySteps hstep
  exact (Step.isInfix_clause hc htext).trans (isInfix_joined_of_mem hmem)

/-- In the query that any run of steps builds, a text placed by an accepted step stands as the
literal of its collapsed form, and it stands there as it was given exactly if no two blanks meet in
it. -/
theorem placed_text_verbatim_iff (opening : Option Opening) (steps : List Step) {text : String}
    (h : text ∈ ((start opening).accepted steps).flatMap Step.texts) :
    quote (collapse text.toList) <:+: ((start opening).applySteps steps).text.toList ∧
      (quote text.toList <:+: ((start opening).applySteps steps).text.toList ↔
        SingleBlanks text.toList) := by
  have hjoined := isInfix_joined_of_placed h
  rw [toList_text]
  exact ⟨Text.quote_collapse_isInfix hjoined, Text.quote_isInfix_collapse_iff hjoined⟩

/-- A quote, a backslash, a tab and a line break, each blank alone, arrive as they are. -/
theorem placed_text_verbatim_single_blanks :
    let steps : List Step := [.node ⟨none, [], ⟨[("k", .list [.string "a\tb'\\\nc"])]⟩⟩]
    quote "a\tb'\\\nc".toList <:+:
      ((start (some (.matchPattern false))).applySteps steps).text.toList := by
  intro steps
  have hplaced : "a\tb'\\\nc" ∈
      ((start (some (.matchPattern false))).accepted steps).flatMap Step.texts := by
    decide +kernel
  exact (placed_text_verbatim_iff _ steps hplaced).2.mpr (by decide +kernel)

/-- Two spaces in a property value arrive as one. -/
theorem placed_text_not_verbatim :
    let steps : List Step :=
      [.opening (.matchPattern false), .node ⟨none, [], ⟨[("name", .string "a  b")]⟩⟩,
        .returnItems []]
    "a  b" ∈ ((start none).accepted steps).flatMap Step.texts ∧
      ((start none).applySteps steps).text = " MATCH ( \x7bname: 'a b'\x7d) RETURN * " ∧
      ¬quote "a  b".toList <:+: ((start none).applySteps steps).text.toList := by
  decide +kernel

end Query

end Cypher

/-! ## Reading quoted texts back out of fragments

A quoted literal tells by itself where it ends. A reader that stands at its beginning gets the text
back and stops behind the literal, whatever a fragment or a query goes on with: at a literal alone, at
the path of a clause that loads a file, and at any text inside a value. -/

namespace Cypher

open Text (quote readQuoted readQuoted_quote)

/-- Reads the path behind the first words of a clause that loads a file, and what follows the path. -/
def Clause.readPath? (cs : List Char) : Option (List Char × List Char) :=
  (cs.dropPrefix? " LOAD CSV FROM ".toList).bind readQuoted

theorem Clause.readPath?_append (path after : List Char) :
    readPath? (" LOAD CSV FROM ".toList ++ (quote path ++ after)) = some (path, after) := by
  have hdrop : (" LOAD CSV FROM ".toList ++ (quote path ++ after)).dropPrefix?
      " LOAD CSV FROM ".toList = some (quote path ++ after) := by
    rw [List.dropPrefix?_eq_some_iff]
    exact ⟨_, rfl, beq_self_eq_true _⟩
  rw [readPath?, hdrop, Option.bind_some, readQuoted_quote]

/-- What a clause that loads a file has behind the path. -/
def Clause.loadCsvTail (header : Bool) (row : String) : List Char :=
  ' ' :: (if header then "WITH" else "NO").toList ++ " HEADER AS ".toList ++ row.toList ++ [' ']

theorem Clause.toList_render_loadCsv (path : String) (header : Bool) (row : String) :
    (loadCsv path header row).render.toList =
      " LOAD CSV FROM ".toList ++ (quote path.toList ++ loadCsvTail header row) := by
  rw [render_loadCsv]
  simp [loadCsvTail]

/-- The literal of a text inside a value is read at the same place whatever follows the value. -/
theorem Value.exists_readQuoted_drop {v : Value} {s : String} (h : s ∈ v.texts) :
    ∃ n, ∀ after, readQuoted ((v.literal.toList ++ after).drop n) =
      some (s.toList, v.literal.toList.drop (n + (quote s.toList).length) ++ after) := by
  obtain ⟨before, behind, hliteral⟩ := isInfix_literal_of_mem_texts h
  refine ⟨before.length, fun after => ?_⟩
  have hplace : (v.literal.toList ++ after).drop before.length =
      quote s.toList ++ (behind ++ after) := by
    rw [← hliteral, List.append_assoc, List.append_assoc]
    exact List.drop_left
  have hbehind : v.literal.toList.drop (before.length + (quote s.toList).length) = behind := by
    rw [← hliteral, ← List.length_append]
    exact List.drop_left
  rw [hplace, hbehind, readQuoted_quote]

/-- Quoted literals delimit themselves: read from where it starts, a literal gives its text and leaves
exactly what follows it, and no shorter text is a literal. So the path of a clause that loads a file,
a text value, and every text inside a value are recovered, whatever follows. -/
theorem quoted_text_recovered (s : String) :
    (∀ after, readQuoted ((Text.quoted s).toList ++ after) = some (s.toList, after)) ∧
      (∀ before, before <+: (Text.quoted s).toList → before ≠ (Text.quoted s).toList →
        readQuoted before = none) ∧
      (∀ header row after,
        Clause.readPath? ((Clause.loadCsv s header row).render.toList ++ after) =
          some (s.toList, Clause.loadCsvTail header row ++ after)) ∧
      (∀ after, readQuoted ((Value.string s).literal.toList ++ after) = some (s.toList, after)) ∧
      ∀ v : Value, s ∈ v.texts →
        ∃ n, ∀ after, readQuoted ((v.literal.toList ++ after).drop n) =
          some (s.toList, v.literal.toList.drop (n + (Text.quoted s).toList.length) ++ after) := by
  rw [Text.toList_quoted]
  refine ⟨readQuoted_quote s.toList, ?_, ?_, ?_, ?_⟩
  · intro before hbefore hshort
    exact Text.readQuoted_of_isPrefix hbefore hshort
  · intro header row after
    rw [Clause.toList_render_loadCsv, List.append_assoc, List.append_assoc]
    exact Clause.readPath?_append s.toList (Clause.loadCsvTail header row ++ after)
  · intro after
    rw [Value.toList_literal_string]
    exact readQuoted_quote s.toList after
  · intro v
    exact Value.exists_readQuoted_drop

/-- A text that ends in a quote and a backslash is recovered from inside a list, and as a path in
front of another quote. -/
theorem escaped_text_recovered :
    "it's '\\" ∈ (Value.list [.int 1, .string "it's '\\"]).texts ∧
      (∃ n behind, ∀ after,
        readQuoted (((Value.list [.int 1, .string "it's '\\"]).literal.toList ++ after).drop n) =
          some ("it's '\\".toList, behind ++ after)) ∧
      Clause.readPath? ((Clause.loadCsv "it's '\\" false "r").render.toList ++ "'x'".toList) =
        some ("it's '\\".toList, " NO HEADER AS r 'x'".toList) := by
  have hmem : "it's '\\" ∈ (Value.list [.int 1, .string "it's '\\"]).texts := by decide
  obtain ⟨-, -, hpath, -, hvalue⟩ := quoted_text_recovered "it's '\\"
  obtain ⟨n, hplace⟩ := hvalue _ hmem
  exact ⟨hmem, ⟨n, _, hplace⟩, hpath false "r" "'x'".toList⟩

end Cypher
