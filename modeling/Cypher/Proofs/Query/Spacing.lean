import Cypher.Proofs.Query.Runs
import Cypher.Proofs.Text.Seams

/-!
# How the text of a query grows

The text of a query is the collapsed text of its clauses, and collapsing may be done as the clauses
come: the text so far and one more clause, collapsed together, are the text of the longer query.
-/

namespace Cypher.Query

open Text (FallsInto SingleBlanks collapse collapsed squeeze withoutBlanks)

theorem text_eq_collapsed (q : Query) :
    q.text = collapsed (String.join (q.clauses.map Clause.render)) := by
  apply String.toList_inj.mp
  rw [toList_text, Text.toList_collapsed, joined, String.toList_join, List.flatMap_map]

theorem text_of_clauses {q next : Query} {c : Clause} (h : next.clauses = q.clauses ++ [c]) :
    next.text = collapsed (q.text ++ c.render) := by
  have hjoined : next.joined = q.joined ++ c.render.toList := by simp [joined, h]
  apply String.toList_inj.mp
  rw [Text.toList_collapsed, String.toList_append, toList_text, toList_text, hjoined,
    Text.collapse_collapse_append]

theorem text_of_apply {q next : Query} {step : Step} (h : q.apply step = .ok next) :
    ∃ c, step.clause? = some c ∧ next.text = collapsed (q.text ++ c.render) := by
  obtain ⟨c, hc, rfl⟩ := apply_eq_ok h
  exact ⟨c, hc, text_of_clauses rfl⟩

/-- Collapsing gives one space for each of the longest runs of two or more blanks and keeps all other
characters, blanks that stand alone among them, so no two blanks meet afterwards, nothing but blanks
is gone, and collapsing again changes nothing. Two texts may be collapsed before they are joined and
collapsed as a whole; so the text of a query and the text of one more clause, whatever clause that
is, tell the text of the longer query. -/
theorem collapsing_exact_and_compositional :
    (∀ cs, (∃ pieces, FallsInto cs pieces) ∧
      (∀ pieces, FallsInto cs pieces → collapse cs = pieces.flatMap squeeze) ∧
      SingleBlanks (collapse cs) ∧ withoutBlanks (collapse cs) = withoutBlanks cs ∧
      collapse (collapse cs) = collapse cs) ∧
    (∀ as bs, collapse (as ++ bs) = collapse (collapse as ++ collapse bs)) ∧
    (∀ q : Query, q.text = collapsed (String.join (q.clauses.map Clause.render))) ∧
    (∀ (q next : Query) (c : Clause), next.clauses = q.clauses ++ [c] →
      next.text = collapsed (q.text ++ c.render)) ∧
    ∀ (q next : Query) (step : Step), q.apply step = .ok next →
      ∃ c, step.clause? = some c ∧ next.text = collapsed (q.text ++ c.render) := by
  refine ⟨fun cs => ⟨Text.exists_fallsInto cs, ?_, ?_, ?_, ?_⟩, ?_, text_eq_collapsed, ?_, ?_⟩
  · intro pieces hpieces
    exact Text.collapse_of_fallsInto hpieces
  · exact Text.singleBlanks_collapse cs
  · exact Text.withoutBlanks_collapse cs
  · exact Text.collapse_collapse cs
  · intro as bs
    rw [Text.collapse_append_collapse, Text.collapse_collapse_append]
  · intro q next c hclauses
    exact text_of_clauses hclauses
  · intro q next step happly
    exact text_of_apply happly

/-- A line break alone stays, three blanks of different kinds become a space, and a blank at the end
of a text meets the one that the next clause starts with. -/
theorem blanks_meet_between_clauses :
    let cs := "a\n(b \t\u3000c".toList
    let q := empty.addCustom "MATCH (n)\n"
    let next := { q.push (.returnItems []) with fetches := true }
    collapse cs = "a\n(b c".toList ∧ q.apply (.returnItems []) = .ok next ∧
      next.text = collapsed ("MATCH (n)\n" ++ " RETURN * ") ∧ next.text = "MATCH (n) RETURN * " := by
  intro cs q next
  obtain ⟨hcollapse, -, -, hpush, hstep⟩ := collapsing_exact_and_compositional
  have hpieces : FallsInto cs [['a'], ['\n'], ['('], ['b'], [' ', '\t', '\u3000'], ['c']] := by
    refine ⟨rfl, by decide, ?_, ?_⟩
    · simp
      decide +kernel
    · simp [Text.Apart]
      decide +kernel
  have hcollapsed : collapse cs = "a\n(b c".toList := by
    obtain ⟨-, hpiecewise, -⟩ := hcollapse cs
    exact hpiecewise _ hpieces
  have htext : q.text = "MATCH (n)\n" := by decide +kernel
  have hlonger : next.text = collapsed (q.text ++ " RETURN * ") := hpush q next (.returnItems []) rfl
  obtain ⟨c, hc, hagain⟩ := hstep q next (.returnItems []) rfl
  obtain rfl : Clause.returnItems [] = c := Option.some.inj hc
  refine ⟨hcollapsed, rfl, ?_, ?_⟩
  · rw [hlonger, htext]
  · rw [hagain, htext]
    decide +kernel

end Cypher.Query

/-! ## Keywords and paths in the text of a query

A clause with keywords begins and ends with a space, so its keywords keep one space on either side
in the text of a query, whatever stands next to the clause. A node or an edge begins and ends with
characters that are not blank, so a path of them stands in one piece. -/

namespace Cypher

open Text (IsTight IsWord SetOff collapse trimEnd trimStart)

/-- What the text of a clause may begin and end with. -/
def ClauseKind.frames : ClauseKind → List (String × String)
  | node => [("(", ")")]
  | edge => [("-", "->"), ("<-", "-"), ("-", "-")]
  | custom => [("", "")]
  | _ => [(" ", " ")]

/-- The text begins and ends as a clause of some kind does. -/
def ClauseKind.Frames (kind : ClauseKind) (cs : List Char) : Prop :=
  ∃ frame ∈ kind.frames, ∃ body, cs = frame.1.toList ++ (body ++ frame.2.toList)

theorem Connective.isTight_keyword (connective : Connective) :
    IsTight connective.keyword.toList := by
  cases connective <;> decide

/-- A keyword of a clause, and what it is followed by before the next one. A keyword may be of
several words. -/
structure Phrase where
  keyword : String
  object : Option String
  isTight : IsTight keyword.toList := by decide

namespace Phrase

def objectText (p : Phrase) : String := p.object.elim "" fun text => " " ++ text

def text (p : Phrase) : String := " " ++ p.keyword ++ p.objectText

def chars (ps : List Phrase) : List Char := ps.flatMap fun p => p.text.toList

@[simp] theorem objectText_none {keyword : String} (h : IsTight keyword.toList) :
    objectText ⟨keyword, none, h⟩ = "" := rfl

@[simp] theorem objectText_some {keyword : String} (text : String) (h : IsTight keyword.toList) :
    objectText ⟨keyword, some text, h⟩ = " " ++ text := rfl

@[simp] theorem chars_nil : chars [] = [] := rfl

@[simp] theorem chars_cons (p : Phrase) (ps : List Phrase) :
    chars (p :: ps) = ' ' :: (p.keyword.toList ++ (p.objectText.toList ++ chars ps)) := by
  simp [chars, text]

@[simp] theorem chars_append (ps others : List Phrase) :
    chars (ps ++ others) = chars ps ++ chars others := List.flatMap_append

theorem exists_chars_append_space (ps : List Phrase) (cs : List Char) :
    ∃ rest, chars ps ++ ' ' :: cs = ' ' :: rest := by
  cases ps with
  | nil => exact ⟨cs, rfl⟩
  | cons p ps => exact ⟨_, by rw [chars_cons, List.cons_append]⟩

/-- Behind a keyword comes a space, whether it has an object, is followed by another keyword or
stands last. -/
theorem exists_space_behind (p : Phrase) (later : List Phrase) (cs : List Char) :
    ∃ rest, p.objectText.toList ++ (chars later ++ ' ' :: cs) = ' ' :: rest := by
  obtain ⟨keyword, object, htight⟩ := p
  cases object with
  | none => simpa using exists_chars_append_space later cs
  | some text => exact ⟨text.toList ++ (chars later ++ ' ' :: cs), by simp⟩

end Phrase

namespace Clause

def IsPattern (c : Clause) : Prop := c.kind = .node ∨ c.kind = .edge

/-- The keywords of a clause in order; patterns and custom texts have none. -/
def phrases : Clause → List Phrase
  | loadCsv path header row =>
    [{ keyword := "LOAD CSV FROM", object := some (Text.quoted path) },
      if header then { keyword := "WITH HEADER AS", object := some row }
      else { keyword := "NO HEADER AS", object := some row }]
  | matchPattern optional =>
    [if optional then { keyword := "OPTIONAL MATCH", object := none }
      else { keyword := "MATCH", object := none }]
  | merge => [{ keyword := "MERGE", object := none }]
  | create => [{ keyword := "CREATE", object := none }]
  | call procedure arguments =>
    [{ keyword := "CALL", object := some (procedure ++ "(" ++ arguments.getD "" ++ ")") }]
  | condition connective text => [⟨connective.keyword, some text, connective.isTight_keyword⟩]
  | unwind list binding =>
    [{ keyword := "UNWIND", object := some list }, { keyword := "AS", object := some binding }]
  | withItems items => [{ keyword := "WITH", object := some (projectionList items) }]
  | union duplicates =>
    [if duplicates then { keyword := "UNION ALL", object := none }
      else { keyword := "UNION", object := none }]
  | delete expressions detach =>
    [if detach then { keyword := "DETACH DELETE", object := some (", ".intercalate expressions) }
      else { keyword := "DELETE", object := some (", ".intercalate expressions) }]
  | remove items => [{ keyword := "REMOVE", object := some (", ".intercalate items) }]
  | yieldItems items => [{ keyword := "YIELD", object := some (projectionList items) }]
  | returnItems items => [{ keyword := "RETURN", object := some (projectionList items) }]
  | orderBy expression => [{ keyword := "ORDER BY", object := some expression }]
  | limit expression => [{ keyword := "LIMIT", object := some expression }]
  | skip expression => [{ keyword := "SKIP", object := some expression }]
  | node .. => []
  | edge .. => []
  | custom _ => []

/-- What stands in front of the phrases of a clause: the place of a `DETACH` that is left out. -/
def indent : Clause → String
  | delete _ false => " "
  | _ => ""

def chars (cs : List Clause) : List Char := cs.flatMap fun c => c.render.toList

@[simp] theorem chars_cons (c : Clause) (cs : List Clause) :
    chars (c :: cs) = c.render.toList ++ chars cs := List.flatMap_cons

@[simp] theorem chars_append (cs others : List Clause) :
    chars (cs ++ others) = chars cs ++ chars others := List.flatMap_append

theorem phrases_eq_nil_iff {c : Clause} : c.phrases = [] ↔ c.kind ∈ [.node, .edge, .custom] := by
  cases c with
  | condition connective text => cases connective <;> simp [phrases, kind, Connective.kind]
  | _ => simp [phrases, kind]

theorem frames_kind_of_phrases {c : Clause} (h : c.phrases ≠ []) :
    c.kind.frames = [(" ", " ")] := by
  cases c with
  | condition connective text => cases connective <;> rfl
  | node => exact absurd rfl h
  | edge => exact absurd rfl h
  | custom => exact absurd rfl h
  | _ => rfl

theorem render_of_phrases {c : Clause} (h : c.phrases ≠ []) :
    c.render.toList = c.indent.toList ++ (Phrase.chars c.phrases ++ [' ']) := by
  unfold render
  cases c with
  | matchPattern optional => cases optional <;> simp [indent, phrases]
  | union duplicates => cases duplicates <;> simp [indent, phrases]
  | delete expressions detach => cases detach <;> simp [indent, phrases]
  | loadCsv path header row => cases header <;> simp [indent, phrases]
  | node => exact absurd rfl h
  | edge => exact absurd rfl h
  | custom => exact absurd rfl h
  | _ => simp [indent, phrases]

theorem indent_eq (c : Clause) : c.indent = "" ∨ c.indent = " " := by
  unfold indent
  split <;> simp

theorem frames_of_phrases {c : Clause} (h : c.phrases ≠ []) : c.kind.Frames c.render.toList := by
  obtain ⟨p, ps, hphrases⟩ := List.exists_cons_of_ne_nil h
  have hrender := render_of_phrases h
  refine ⟨(" ", " "), by simp [frames_kind_of_phrases h], ?_⟩
  rw [hrender, hphrases, Phrase.chars_cons]
  -- the first space is the first keyword's own, unless a `DETACH` was left out in front of it
  rcases c.indent_eq with hindent | hindent
  · exact ⟨p.keyword.toList ++ (p.objectText.toList ++ Phrase.chars ps), by simp [hindent]⟩
  · exact ⟨' ' :: (p.keyword.toList ++ (p.objectText.toList ++ Phrase.chars ps)), by simp [hindent]⟩

theorem frames_node (binding : Option String) (labels properties : String) :
    ClauseKind.node.Frames (node binding labels properties).render.toList := by
  refine ⟨("(", ")"), List.mem_singleton_self _, ?_⟩
  rw [render_node]
  by_cases hempty : properties.isEmpty
  · exact ⟨(binding.getD "").toList ++ labels.toList, by simp [hempty]⟩
  · refine ⟨(binding.getD "").toList ++ (labels.toList ++ ' ' :: properties.toList), ?_⟩
    simp [hempty]

theorem frames_arrow (direction : Direction) (body : String) :
    ClauseKind.edge.Frames (arrow direction body).toList := by
  cases direction with
  | outgoing => exact ⟨("-", "->"), by decide, '[' :: (body.toList ++ [']']), by simp [arrow]⟩
  | incoming => exact ⟨("<-", "-"), by decide, '[' :: (body.toList ++ [']']), by simp [arrow]⟩
  | undirected => exact ⟨("-", "-"), by decide, '[' :: (body.toList ++ [']']), by simp [arrow]⟩

theorem frames_render (c : Clause) : c.kind.Frames c.render.toList := by
  by_cases hphrases : c.phrases = []
  · cases c with
    | node binding labels properties => exact frames_node binding labels properties
    | edge binding types properties direction => exact frames_arrow direction _
    | custom text =>
        exact ⟨("", ""), List.mem_singleton_self _, text.toList, by simp [render_custom]⟩
    | _ => simp [phrases] at hphrases
  · exact frames_of_phrases hphrases

end Clause

theorem ClauseKind.isWord_of_mem_frames {kind : ClauseKind} (hkind : kind = .node ∨ kind = .edge)
    {frame : String × String} (h : frame ∈ kind.frames) :
    IsWord frame.1.toList ∧ IsWord frame.2.toList := by
  rcases hkind with rfl | rfl
  · obtain rfl := List.mem_singleton.mp h
    decide
  · simp only [frames, List.mem_cons, List.not_mem_nil, or_false] at h
    rcases h with rfl | rfl | rfl <;> decide

namespace Clause

theorem IsPattern.frames_collapse {c : Clause} (h : c.IsPattern) :
    c.kind.Frames (collapse c.render.toList) := by
  obtain ⟨frame, hframe, body, hrender⟩ := c.frames_render
  obtain ⟨hfront, hback⟩ := ClauseKind.isWord_of_mem_frames h hframe
  exact ⟨frame, hframe, collapse body, by rw [hrender, Text.collapse_framed hfront hback]⟩

theorem IsPattern.collapse_append {c : Clause} (h : c.IsPattern) (as bs : List Char) :
    collapse (as ++ (c.render.toList ++ bs)) =
      collapse as ++ (collapse c.render.toList ++ collapse bs) := by
  obtain ⟨frame, hframe, body, hrender⟩ := c.frames_render
  obtain ⟨hfront, hback⟩ := ClauseKind.isWord_of_mem_frames h hframe
  rw [hrender]
  exact Text.collapse_append_trimmed as (by simp [hfront.1])
    (Text.isTrimmed_framed hfront hback body) bs

theorem collapse_patterns_append {path : List Clause} (h : ∀ c ∈ path, c.IsPattern)
    (bs : List Char) : collapse (chars path ++ bs) =
      (path.flatMap fun c => collapse c.render.toList) ++ collapse bs := by
  induction path with
  | nil => rfl
  | cons c rest ih =>
      obtain ⟨hc, hrest⟩ := List.forall_mem_cons.mp h
      have hfirst := hc.collapse_append [] (chars rest ++ bs)
      rw [ih hrest] at hfirst
      rw [chars_cons, List.flatMap_cons, List.append_assoc, List.append_assoc]
      exact hfirst

end Clause

namespace Query

open Clause (chars)

theorem joined_eq_chars (q : Query) : q.joined = chars q.clauses := rfl

theorem setOff_keyword {q : Query} {before after : List Clause} {c : Clause}
    {earlier later : List Phrase} {p : Phrase} (hclauses : q.clauses = before ++ c :: after)
    (hphrases : c.phrases = earlier ++ p :: later) :
    SetOff q.text.toList
      (collapse (trimEnd (chars before ++ (c.indent.toList ++ Phrase.chars earlier))))
      p.keyword.toList
      (collapse (trimStart
        (p.objectText.toList ++ (Phrase.chars later ++ ' ' :: chars after)))) := by
  have hne : c.phrases ≠ [] := by simp [hphrases]
  have hrender := Clause.render_of_phrases hne
  obtain ⟨rest, hrest⟩ := p.exists_space_behind later (chars after)
  -- the space in front of the keyword is its own; the one behind it may be that of what follows
  have hjoined : q.joined = (chars before ++ (c.indent.toList ++ Phrase.chars earlier)) ++
      ' ' :: (p.keyword.toList ++ ' ' :: rest) := by
    rw [← hrest, joined_eq_chars, hclauses, Clause.chars_append, Clause.chars_cons, hrender,
      hphrases]
    simp
  rw [toList_text, hjoined, hrest]
  exact p.isTight.setOff _ rest

theorem text_of_path {q : Query} {before path after : List Clause}
    (hclauses : q.clauses = before ++ (path ++ after)) (hne : path ≠ [])
    (hpath : ∀ c ∈ path, c.IsPattern) :
    q.text.toList = collapse (chars before) ++
      ((path.flatMap fun c => collapse c.render.toList) ++ collapse (chars after)) := by
  obtain ⟨c, rest, rfl⟩ := List.exists_cons_of_ne_nil hne
  obtain ⟨hc, hrest⟩ := List.forall_mem_cons.mp hpath
  have hjoined : q.joined = chars before ++ (c.render.toList ++ (chars rest ++ chars after)) := by
    simp [joined_eq_chars, hclauses]
  rw [toList_text, hjoined, hc.collapse_append, Clause.collapse_patterns_append hrest,
    List.flatMap_cons, List.append_assoc]

/-- A clause begins and ends as its kind asks: with a space if it has keywords, with parentheses or
arrows if it is a pattern. In the text of a query, after whatever steps, each keyword of each clause
is therefore set off by one space, and no further blank, from all that comes before it and from all
that comes behind it. The patterns of a path stand directly behind each other, and begin and end
there as they do by themselves. -/
theorem clauses_never_fuse :
    (∀ c : Clause, c.kind.Frames c.render.toList) ∧
    (∀ c : Clause, c.kind ∉ [.node, .edge, .custom] → c.phrases ≠ [] ∧
      c.render.toList = c.indent.toList ++ (Phrase.chars c.phrases ++ [' '])) ∧
    (∀ (q : Query) (before after : List Clause) (c : Clause) (earlier later : List Phrase)
      (p : Phrase), q.clauses = before ++ c :: after → c.phrases = earlier ++ p :: later →
      SetOff q.text.toList
        (collapse (trimEnd (chars before ++ (c.indent.toList ++ Phrase.chars earlier))))
        p.keyword.toList
        (collapse (trimStart
          (p.objectText.toList ++ (Phrase.chars later ++ ' ' :: chars after))))) ∧
    ∀ (q : Query) (before path after : List Clause), q.clauses = before ++ (path ++ after) →
      path ≠ [] → (∀ c ∈ path, c.IsPattern) →
      q.text.toList = collapse (chars before) ++
          ((path.flatMap fun c => collapse c.render.toList) ++ collapse (chars after)) ∧
        ∀ c ∈ path, c.kind.Frames (collapse c.render.toList) := by
  refine ⟨Clause.frames_render, ?_, ?_, ?_⟩
  · intro c hkind
    have hphrases : c.phrases ≠ [] := fun hnil => hkind (Clause.phrases_eq_nil_iff.mp hnil)
    exact ⟨hphrases, Clause.render_of_phrases hphrases⟩
  · intro q before after c earlier later p hclauses hphrases
    exact setOff_keyword hclauses hphrases
  · intro q before path after hclauses hne hpath
    exact ⟨text_of_path hclauses hne hpath, fun c hc => (hpath c hc).frames_collapse⟩

/-- A deletion, which has two spaces in front, stands between custom text that ends with a wide
space and a path, and what it deletes begins with a tab. -/
theorem deletion_set_off_before_path :
    let before : List Clause :=
      [.custom "MATCH (n)\u2003", .delete ["\tn"] false, .matchPattern false]
    let path : List Clause :=
      [.node (some "a") "" "", .edge none "" "" .outgoing, .node (some "b") "" ""]
    let q := (start none).applySteps [.custom "MATCH (n)\u2003", .delete ["\tn"] false,
      .opening (.matchPattern false), .node (NodePattern.empty.bind "a"), .edgeTo .empty,
      .node (NodePattern.empty.bind "b"), .opening (.unwind " xs" "x\n")]
    (Clause.delete ["\tn"] false).render.toList = ' ' ::
        (Phrase.chars [{ keyword := "DELETE", object := some "\tn" }] ++ [' ']) ∧
      q.text = "MATCH (n) DELETE n MATCH (a)-[]->(b) UNWIND xs AS x " ∧
      SetOff q.text.toList "MATCH (n)".toList "DELETE".toList
        "n MATCH (a)-[]->(b) UNWIND xs AS x ".toList ∧
      SetOff q.text.toList "MATCH (n) DELETE n MATCH (a)-[]->(b) UNWIND xs".toList "AS".toList
        "x ".toList ∧
      q.text.toList = collapse (chars before) ++
        ((path.flatMap fun c => collapse c.render.toList) ++ " UNWIND xs AS x ".toList) := by
  intro before path q
  obtain ⟨-, hrender, hkeyword, hpath⟩ := clauses_never_fuse
  let last : Clause := .unwind " xs" "x\n"
  have hclauses : q.clauses = before ++ (path ++ [last]) := by decide +kernel
  have hpatterns : ∀ c ∈ path, c.IsPattern := by simp [path, Clause.IsPattern, Clause.kind]
  refine ⟨(hrender (.delete ["\tn"] false) (by decide)).2, by decide +kernel, ?_, ?_, ?_⟩
  · have hdelete := hkeyword q [.custom "MATCH (n)\u2003"] (.matchPattern false :: (path ++ [last]))
      (.delete ["\tn"] false) [] [] { keyword := "DELETE", object := some "\tn" } hclauses rfl
    convert hdelete using 1 <;> decide +kernel
  · have has := hkeyword q (before ++ path) [] last
      [{ keyword := "UNWIND", object := some " xs" }] [] { keyword := "AS", object := some "x\n" }
      hclauses rfl
    convert has using 1 <;> decide +kernel
  · have hlast : collapse (chars [last]) = " UNWIND xs AS x ".toList := by decide +kernel
    rw [← hlast]
    exact (hpath q before path [last] hclauses (by simp [path]) hpatterns).1

end Query

end Cypher
