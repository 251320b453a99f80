import Cypher.Proofs.Text.Spacing
import Cypher.Text.Basic

/-!
# Quoted literals in longer texts

A quoted literal tells where it ends, so it can be read back from any text that starts with it. Its
quotes are not blank, so collapsing a text that contains the literal of `s` leaves the literal of the
collapsed `s` in its place.
-/

namespace Cypher.Text

theorem escapeQuoted_of_special {c : Char} (h : c = '\\' ∨ c = '\'') :
    escapeQuoted c = ['\\', c] := by
  simp [escapeQuoted, h]

theorem escapeQuoted_of_plain {c : Char} (h : ¬(c = '\\' ∨ c = '\'')) : escapeQuoted c = [c] := by
  simp [escapeQuoted, h]

theorem readQuotedBody_plain {c : Char} (h : ¬(c = '\\' ∨ c = '\'')) (cs : List Char) :
    readQuotedBody (c :: cs) = (readQuotedBody cs).map fun (text, after) => (c :: text, after) := by
  obtain ⟨hslash, hquote⟩ := not_or.mp h
  rw [readQuotedBody.eq_def]
  split <;> simp_all

theorem readQuotedBody_escaped (c : Char) (cs : List Char) :
    readQuotedBody ('\\' :: c :: cs) =
      (readQuotedBody cs).map fun (text, after) => (c :: text, after) := by
  rw [readQuotedBody]

theorem readQuoted_quote (s rest : List Char) :
    readQuoted (quote s ++ rest) = some (s, rest) := by
  have hbody : readQuotedBody (s.flatMap escapeQuoted ++ '\'' :: rest) = some (s, rest) := by
    induction s with
    | nil => rfl
    | cons c s ih =>
        by_cases h : c = '\\' ∨ c = '\''
        · simp [escapeQuoted_of_special h, readQuotedBody_escaped, ih]
        · simp [escapeQuoted_of_plain h, readQuotedBody_plain h, ih]
  simpa [quote, readQuoted] using hbody

theorem readQuotedBody_append {cs text after : List Char}
    (h : readQuotedBody cs = some (text, after)) (rest : List Char) :
    readQuotedBody (cs ++ rest) = some (text, after ++ rest) := by
  induction cs using readQuotedBody.induct generalizing text with
  | case1 => exact absurd h (by simp [readQuotedBody])
  | case2 cs =>
      obtain ⟨rfl, rfl⟩ := Prod.mk.inj (Option.some.inj h)
      rfl
  | case3 c cs ih =>
      rw [readQuotedBody_escaped, Option.map_eq_some_iff] at h
      obtain ⟨⟨text', after'⟩, hcs, heq⟩ := h
      obtain ⟨rfl, rfl⟩ := Prod.mk.inj heq
      rw [List.cons_append, List.cons_append, readQuotedBody_escaped, ih hcs]
      rfl
  | case4 c cs hquote hpair ih =>
      by_cases hslash : c = '\\'
      · -- a backslash that nothing follows ends no literal
        have hnil : cs = [] := by
          by_contra hcons
          obtain ⟨d, ds, hcs⟩ := List.exists_cons_of_ne_nil hcons
          exact hpair d ds hslash hcs
        have hnone : readQuotedBody ['\\'] = none := rfl
        rw [hslash, hnil, hnone] at h
        exact absurd h (by simp)
      · have hplain : ¬(c = '\\' ∨ c = '\'') := not_or.mpr ⟨hslash, hquote⟩
        rw [readQuotedBody_plain hplain, Option.map_eq_some_iff] at h
        obtain ⟨⟨text', after'⟩, hcs, heq⟩ := h
        obtain ⟨rfl, rfl⟩ := Prod.mk.inj heq
        rw [List.cons_append, readQuotedBody_plain hplain, ih hcs]
        rfl

theorem readQuoted_append {cs text after : List Char} (h : readQuoted cs = some (text, after))
    (rest : List Char) : readQuoted (cs ++ rest) = some (text, after ++ rest) := by
  cases cs with
  | nil => exact absurd h (by simp [readQuoted])
  | cons c cs =>
      by_cases hquote : c = '\''
      · subst hquote
        exact readQuotedBody_append h rest
      · simp [readQuoted, hquote] at h

theorem readQuoted_of_isPrefix {s before : List Char} (h : before <+: quote s)
    (hshort : before ≠ quote s) : readQuoted before = none := by
  obtain ⟨rest, hrest⟩ := h
  cases hread : readQuoted before with
  | none => rfl
  | some found =>
      have hwhole := readQuoted_append hread rest
      have hquote := readQuoted_quote s []
      rw [hrest] at hwhole
      rw [List.append_nil, hwhole, Option.some.injEq, Prod.mk.injEq] at hquote
      have hnil := (List.append_eq_nil_iff.mp hquote.2).2
      rw [hnil, List.append_nil] at hrest
      exact absurd hrest hshort

theorem quote_append_inj {s t as bs : List Char} (h : quote s ++ as = quote t ++ bs) :
    s = t ∧ as = bs := by
  have hread : some (s, as) = some (t, bs) := by
    rw [← readQuoted_quote s as, h, readQuoted_quote t bs]
  simpa using hread

theorem quote_injective : Function.Injective quote := by
  intro s t h
  have happend : quote s ++ [] = quote t ++ [] := by rw [h]
  exact (quote_append_inj happend).1

theorem isBlank_of_special {c : Char} (h : c = '\\' ∨ c = '\'') : isBlank c = false := by
  rcases h with rfl | rfl <;> decide

/-- Escaping and collapsing can be exchanged, because what is escaped is not blank. -/
theorem settle_flatMap_escapeQuoted {c : Char} (hc : isBlank c = true) (cs : List Char) :
    settle c (cs.flatMap escapeQuoted) = (settle c cs).flatMap escapeQuoted := by
  have plain_of_blank {d : Char} (hd : isBlank d = true) : escapeQuoted d = [d] := by
    apply escapeQuoted_of_plain
    intro h
    rw [isBlank_of_special h] at hd
    exact Bool.noConfusion hd
  cases cs with
  | nil => simp [settle, plain_of_blank hc]
  | cons d rest =>
      by_cases hd : isBlank d = true
      · rw [settle_of_both_blank hc hd]
        simp [plain_of_blank hd, plain_of_blank isBlank_space, settle_of_both_blank hc hd]
      · have hd : isBlank d = false := by simpa using hd
        rw [settle_cons_of_not_blank c hd]
        by_cases h : d = '\\' ∨ d = '\''
        · have hslash : isBlank '\\' = false := by decide
          simp [escapeQuoted_of_special h, plain_of_blank hc, settle_cons_of_not_blank c hslash]
        · simp [escapeQuoted_of_plain h, plain_of_blank hc, settle_cons_of_not_blank c hd]

theorem collapse_flatMap_escapeQuoted (cs : List Char) :
    collapse (cs.flatMap escapeQuoted) = (collapse cs).flatMap escapeQuoted := by
  induction cs with
  | nil => rfl
  | cons c cs ih =>
      rw [List.flatMap_cons, collapse_cons]
      by_cases hspecial : c = '\\' ∨ c = '\''
      · have hc := isBlank_of_special hspecial
        have hslash : isBlank '\\' = false := by decide
        simp [escapeQuoted_of_special hspecial, settle_of_not_blank, hc, hslash, ih]
      · rw [escapeQuoted_of_plain hspecial, List.singleton_append, collapse_cons, ih]
        by_cases hc : isBlank c = true
        · exact settle_flatMap_escapeQuoted hc (collapse cs)
        · have hc : isBlank c = false := by simpa using hc
          simp [settle_of_not_blank hc, escapeQuoted_of_plain hspecial]

theorem collapse_append_quote (as s bs : List Char) :
    collapse (as ++ quote s ++ bs) = collapse as ++ quote (collapse s) ++ collapse bs := by
  have hquote : isBlank '\'' = false := by decide
  have hsplit : as ++ quote s ++ bs = as ++ '\'' :: (s.flatMap escapeQuoted ++ '\'' :: bs) := by
    simp [quote]
  rw [hsplit, collapse_append_cons _ hquote, collapse_append_cons _ hquote,
    collapse_flatMap_escapeQuoted]
  simp [quote]

theorem collapse_quote (s : List Char) : collapse (quote s) = quote (collapse s) := by
  simpa using collapse_append_quote [] s []

theorem singleBlanks_quote_iff {s : List Char} : SingleBlanks (quote s) ↔ SingleBlanks s := by
  rw [← collapse_eq_self_iff, ← collapse_eq_self_iff, collapse_quote]
  exact quote_injective.eq_iff

/-- The literal of the collapsed text is what remains of a literal in a collapsed text. -/
theorem quote_collapse_isInfix {s cs : List Char} (h : quote s <:+: cs) :
    quote (collapse s) <:+: collapse cs := by
  obtain ⟨as, bs, rfl⟩ := h
  rw [collapse_append_quote]
  exact List.infix_append _ _ _

theorem quote_isInfix_collapse_iff {s cs : List Char} (h : quote s <:+: cs) :
    quote s <:+: collapse cs ↔ SingleBlanks s := by
  constructor
  · intro hkept
    exact singleBlanks_quote_iff.mp ((singleBlanks_collapse cs).of_isInfix hkept)
  · intro hs
    have hpiece := quote_collapse_isInfix h
    rwa [collapse_of_singleBlanks hs] at hpiece

end Cypher.Text
