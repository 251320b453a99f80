import Mathlib
import Cypher.Text.Basic

/-!
# Texts without blank runs

Collapsing leaves exactly the texts alone in which no two blanks meet, and it only ever produces such
texts. A character that is not blank splits the work: what stands before it and what stands behind it
are collapsed apart.
-/

namespace Cypher.Text

/-- No two neighbouring characters are both blank. -/
def SingleBlanks (cs : List Char) : Prop :=
  cs.IsChain fun c d => ¬(isBlank c = true ∧ isBlank d = true)

instance (cs : List Char) : Decidable (SingleBlanks cs) :=
  inferInstanceAs (Decidable (cs.IsChain _))

theorem settle_of_not_blank {c : Char} (h : isBlank c = false) (cs : List Char) :
    settle c cs = c :: cs := by
  cases cs with
  | nil => rfl
  | cons d rest => simp [settle, h]

theorem settle_cons_of_not_blank (c : Char) {d : Char} (h : isBlank d = false) (cs : List Char) :
    settle c (d :: cs) = c :: d :: cs := by
  simp [settle, h]

theorem settle_of_both_blank {c d : Char} (hc : isBlank c = true) (hd : isBlank d = true)
    (cs : List Char) : settle c (d :: cs) = ' ' :: cs := by
  simp [settle, hc, hd]

/-- Settling a character in front looks at the first character only. -/
theorem settle_append {c : Char} {ds : List Char} (h : ds ≠ []) (es : List Char) :
    settle c (ds ++ es) = settle c ds ++ es := by
  cases ds with
  | nil => exact absurd rfl h
  | cons d rest =>
      simp only [List.cons_append, settle]
      split <;> rfl

theorem collapse_append_cons (as : List Char) {c : Char} (h : isBlank c = false)
    (bs : List Char) : collapse (as ++ c :: bs) = collapse as ++ c :: collapse bs := by
  induction as with
  | nil => simp [settle_of_not_blank h]
  | cons a as ih =>
      rw [List.cons_append, collapse_cons, ih, collapse_cons]
      by_cases hnil : collapse as = []
      · rw [hnil, List.nil_append, settle_cons_of_not_blank a h]
        rfl
      · rw [settle_append hnil]

theorem singleBlanks_settle (c : Char) {cs : List Char} (h : SingleBlanks cs) :
    SingleBlanks (settle c cs) := by
  cases cs with
  | nil => exact List.isChain_singleton c
  | cons d rest =>
      by_cases hboth : isBlank c = true ∧ isBlank d = true
      · -- the space takes the place of `d`, which was blank like it
        rw [settle_of_both_blank hboth.1 hboth.2]
        obtain ⟨hhead, hrest⟩ := List.isChain_cons.mp h
        refine List.isChain_cons.mpr ⟨fun e he => ?_, hrest⟩
        intro hblank
        exact hhead e he ⟨hboth.2, hblank.2⟩
      · have hkept : settle c (d :: rest) = c :: d :: rest := by simpa [settle] using hboth
        rw [hkept]
        exact List.isChain_cons_cons.mpr ⟨hboth, h⟩

theorem singleBlanks_collapse (cs : List Char) : SingleBlanks (collapse cs) := by
  induction cs with
  | nil => exact List.isChain_nil
  | cons c cs ih => exact singleBlanks_settle c ih

theorem SingleBlanks.of_isInfix {as cs : List Char} (h : SingleBlanks cs) (hpiece : as <:+: cs) :
    SingleBlanks as := by
  obtain ⟨before, after, rfl⟩ := hpiece
  exact (List.IsChain.left_of_append h).right_of_append

theorem collapse_of_singleBlanks {cs : List Char} (h : SingleBlanks cs) : collapse cs = cs := by
  induction cs with
  | nil => rfl
  | cons c cs ih =>
      obtain ⟨hhead, hrest⟩ := List.isChain_cons.mp h
      rw [collapse_cons, ih hrest]
      cases cs with
      | nil => rfl
      | cons d rest =>
          have hboth := hhead d rfl
          simpa [settle] using hboth

theorem collapse_eq_self_iff {cs : List Char} : collapse cs = cs ↔ SingleBlanks cs := by
  constructor
  · intro h
    rw [← h]
    exact singleBlanks_collapse cs
  · exact collapse_of_singleBlanks

/-! ## Words between spaces

A word stands between two spaces in a collapsed text exactly if it stands between two gaps in the
text as it was given. A gap is one space or two blanks of any kind: both leave a space, whatever is
next to them, while a blank of another kind that stands alone stays what it is. -/

/-- The text has characters, and none of them is blank. -/
def IsWord (cs : List Char) : Prop := cs ≠ [] ∧ ∀ c ∈ cs, isBlank c = false

-- As it stands the second half would be decided by a search through all characters there are.
instance (cs : List Char) : Decidable (IsWord cs) :=
  decidable_of_iff (cs ≠ [] ∧ cs.all fun c => !isBlank c) (by simp [IsWord])

/-- What leaves a space behind: a space, or two blanks. -/
inductive IsGap : List Char → Prop
  | space : IsGap [' ']
  | pair {c d : Char} (hc : isBlank c = true) (hd : isBlank d = true) : IsGap [c, d]

theorem collapse_append (as bs : List Char) :
    collapse (as ++ bs) = as.foldr settle (collapse bs) := List.foldr_append

theorem collapse_eq_nil_iff {cs : List Char} : collapse cs = [] ↔ cs = [] := by
  cases cs with
  | nil => simp
  | cons c cs =>
      rw [collapse_cons]
      cases collapse cs with
      | nil => simp [settle]
      | cons d rest =>
          simp only [settle]
          split <;> simp

theorem exists_settle_space (cs : List Char) : ∃ rest, settle ' ' cs = ' ' :: rest := by
  cases cs with
  | nil => exact ⟨[], rfl⟩
  | cons d rest =>
      simp only [settle]
      split
      · exact ⟨rest, rfl⟩
      · exact ⟨d :: rest, rfl⟩

/-- Two blanks act on what follows like one space. -/
theorem settle_settle_of_blank {c d : Char} (hc : isBlank c = true) (hd : isBlank d = true)
    (cs : List Char) : settle c (settle d cs) = settle ' ' cs := by
  cases cs with
  | nil => simp [settle, hc, hd]
  | cons e rest =>
      by_cases he : isBlank e = true
      · rw [settle_of_both_blank hd he, settle_of_both_blank hc isBlank_space,
          settle_of_both_blank isBlank_space he]
      · have he : isBlank e = false := by simpa using he
        rw [settle_cons_of_not_blank d he, settle_of_both_blank hc hd,
          settle_cons_of_not_blank ' ' he]

theorem IsGap.collapse_append {ws : List Char} (h : IsGap ws) (as bs : List Char) :
    collapse (as ++ (ws ++ bs)) = collapse (as ++ ' ' :: bs) := by
  have hfront : collapse (ws ++ bs) = collapse (' ' :: bs) := by
    cases h with
    | space => rfl
    | pair hc hd => exact settle_settle_of_blank hc hd (collapse bs)
  rw [Text.collapse_append, hfront, ← Text.collapse_append]

theorem exists_collapse_append_space (cs : List Char) :
    ∃ front, collapse (cs ++ [' ']) = front ++ [' '] := by
  induction cs with
  | nil => exact ⟨[], rfl⟩
  | cons c cs ih =>
      obtain ⟨front, hfront⟩ := ih
      rw [List.cons_append, collapse_cons, hfront]
      cases front with
      | nil =>
          by_cases hc : isBlank c = true
          · exact ⟨[], settle_of_both_blank hc isBlank_space []⟩
          · exact ⟨[c], settle_of_not_blank (by simpa using hc) [' ']⟩
      | cons d front => exact ⟨settle c (d :: front), settle_append (by simp) [' ']⟩

theorem collapse_append_word (as : List Char) {word : List Char} (h : IsWord word)
    (bs : List Char) : collapse (as ++ (word ++ bs)) = collapse as ++ (word ++ collapse bs) := by
  have hfront (cs : List Char) (hcs : ∀ c ∈ cs, isBlank c = false) :
      collapse (cs ++ bs) = cs ++ collapse bs := by
    induction cs with
    | nil => rfl
    | cons c cs ih =>
        rw [List.cons_append, collapse_cons, ih fun d hd => hcs d (by simp [hd]),
          settle_of_not_blank (hcs c (by simp)), List.cons_append]
  match word, h with
  | c :: rest, ⟨_, hword⟩ =>
      rw [List.cons_append, collapse_append_cons as (hword c (by simp)),
        hfront rest fun d hd => hword d (by simp [hd]), List.cons_append]

/-- A character of a settled text that is not blank is the settled one, or it was there before. -/
theorem settle_eq_append_cons {c d : Char} (hd : isBlank d = false) {cs as bs : List Char}
    (h : settle c cs = as ++ d :: bs) :
    (as = [] ∧ c = d ∧ cs = bs) ∨ ∃ front, cs = front ++ d :: bs ∧ settle c front = as := by
  cases cs with
  | nil =>
      cases as with
      | nil => simpa [settle] using h
      | cons a as => simp [settle] at h
  | cons e rest =>
      by_cases hboth : isBlank c = true ∧ isBlank e = true
      · rw [settle_of_both_blank hboth.1 hboth.2] at h
        cases as with
        | nil =>
            obtain ⟨rfl, -⟩ := List.cons.inj h
            exact absurd hd (by decide)
        | cons a as =>
            obtain ⟨rfl, rfl⟩ := List.cons.inj h
            exact .inr ⟨e :: as, rfl, settle_of_both_blank hboth.1 hboth.2 as⟩
      · have hkept : settle c (e :: rest) = c :: e :: rest := by simpa [settle] using hboth
        rw [hkept] at h
        cases as with
        | nil => exact .inl ⟨rfl, List.cons.inj h⟩
        | cons a as =>
            obtain ⟨rfl, hrest⟩ := List.cons.inj h
            refine .inr ⟨as, hrest, ?_⟩
            cases as with
            | nil => rfl
            | cons f as =>
                obtain ⟨rfl, -⟩ := List.cons.inj hrest
                simpa [settle] using hboth

theorem exists_of_collapse_eq_append_cons {cs as bs : List Char} {c : Char}
    (hc : isBlank c = false) (h : collapse cs = as ++ c :: bs) :
    ∃ front back, cs = front ++ c :: back ∧ collapse front = as ∧ collapse back = bs := by
  induction cs generalizing as with
  | nil => simp at h
  | cons d cs ih =>
      rcases settle_eq_append_cons hc h with ⟨rfl, rfl, rfl⟩ | ⟨front, hfront, rfl⟩
      · exact ⟨[], cs, rfl, rfl, rfl⟩
      · obtain ⟨as, back, rfl, rfl, rfl⟩ := ih hfront
        exact ⟨d :: as, back, rfl, rfl, rfl⟩

theorem exists_of_collapse_eq_append_word {cs as word bs : List Char} (hword : IsWord word)
    (h : collapse cs = as ++ (word ++ bs)) :
    ∃ front back, cs = front ++ (word ++ back) ∧ collapse front = as ∧ collapse back = bs := by
  obtain ⟨hne, hword⟩ := hword
  induction word generalizing cs as with
  | nil => exact absurd rfl hne
  | cons c rest ih =>
      rw [List.cons_append] at h
      obtain ⟨front, back, rfl, rfl, hback⟩ :=
        exists_of_collapse_eq_append_cons (hword c (by simp)) h
      by_cases hrest : rest = []
      · subst hrest
        exact ⟨front, back, rfl, rfl, hback⟩
      · -- the rest of the word stands at the front of what follows its first character
        have hrestback : collapse back = [] ++ (rest ++ bs) := hback
        obtain ⟨nothing, back, rfl, hnothing, rfl⟩ :=
          ih hrestback hrest fun d hd => hword d (by simp [hd])
        obtain rfl := collapse_eq_nil_iff.mp hnothing
        exact ⟨front, back, rfl, rfl, rfl⟩

theorem exists_gap_append_of_collapse {cs rest : List Char} (h : collapse cs = ' ' :: rest) :
    ∃ ws back, IsGap ws ∧ cs = ws ++ back := by
  match cs with
  | [] => exact absurd h (by simp)
  | [c] =>
      obtain ⟨rfl, -⟩ := List.cons.inj h
      exact ⟨[' '], [], .space, rfl⟩
  | c :: d :: cs =>
      by_cases hboth : isBlank c = true ∧ isBlank d = true
      · exact ⟨[c, d], cs, .pair hboth.1 hboth.2, rfl⟩
      · have hkept : ∃ tail, collapse (c :: d :: cs) = c :: tail := by
          by_cases hc : isBlank c = true
          · have hd : isBlank d = false := by simpa [hc] using hboth
            exact ⟨_, by rw [collapse_cons, collapse_cons, settle_of_not_blank hd,
              settle_cons_of_not_blank c hd]⟩
          · exact ⟨_, by rw [collapse_cons, settle_of_not_blank (by simpa using hc)]⟩
        obtain ⟨tail, htail⟩ := hkept
        obtain ⟨rfl, -⟩ := List.cons.inj (htail.symm.trans h)
        exact ⟨[' '], d :: cs, .space, rfl⟩

theorem exists_append_gap_of_collapse {cs front : List Char} (h : collapse cs = front ++ [' ']) :
    ∃ as ws, IsGap ws ∧ cs = as ++ ws := by
  rcases List.eq_nil_or_concat cs with rfl | ⟨cs, d, rfl⟩
  · exact absurd h (by simp)
  rw [List.concat_eq_append] at h ⊢
  -- a last character that is kept is the space itself, and a gap alone
  have space_of_kept (hkept : ∃ init, collapse (cs ++ [d]) = init ++ [d]) :
      ∃ as ws, IsGap ws ∧ cs ++ [d] = as ++ ws := by
    obtain ⟨init, hinit⟩ := hkept
    obtain rfl : d = ' ' := List.singleton_inj.mp (List.append_inj' (hinit.symm.trans h) rfl).2
    exact ⟨cs, [' '], .space, rfl⟩
  rcases List.eq_nil_or_concat cs with rfl | ⟨cs, c, rfl⟩
  · exact space_of_kept ⟨[], rfl⟩
  rw [List.concat_eq_append] at space_of_kept ⊢
  by_cases hd : isBlank d = true
  · by_cases hc : isBlank c = true
    · exact ⟨cs, [c, d], .pair hc hd, by simp⟩
    · have hsplit := collapse_append_cons cs (by simpa using hc) [d]
      exact space_of_kept ⟨collapse cs ++ [c], by simpa [settle] using hsplit⟩
  · exact space_of_kept ⟨_, collapse_append_cons (cs ++ [c]) (by simpa using hd) []⟩

/-- A word stands between two spaces of a collapsed text if and only if it stands between two gaps
of the given text. -/
theorem spaced_isInfix_collapse_iff {word cs : List Char} (hword : IsWord word) :
    ' ' :: (word ++ [' ']) <:+: collapse cs ↔
      ∃ before after, IsGap before ∧ IsGap after ∧ before ++ (word ++ after) <:+: cs := by
  constructor
  · intro hspaced
    obtain ⟨as, bs, h⟩ := hspaced
    have hsplit : collapse cs = (as ++ [' ']) ++ (word ++ ' ' :: bs) := by simp [← h]
    obtain ⟨front, back, rfl, hfront, hback⟩ := exists_of_collapse_eq_append_word hword hsplit
    obtain ⟨front, before, hbefore, rfl⟩ := exists_append_gap_of_collapse hfront
    obtain ⟨after, back, hafter, rfl⟩ := exists_gap_append_of_collapse hback
    exact ⟨before, after, hbefore, hafter, front, back, by simp⟩
  · intro hgapped
    obtain ⟨before, after, hbefore, hafter, as, bs, rfl⟩ := hgapped
    -- both gaps may be single spaces, and then the word keeps the two ends apart
    have hgaps : collapse (as ++ (before ++ (word ++ after)) ++ bs) =
        collapse (as ++ [' '] ++ (word ++ ' ' :: bs)) := by
      calc collapse (as ++ (before ++ (word ++ after)) ++ bs)
        _ = collapse (as ++ (before ++ (word ++ (after ++ bs)))) := by simp
        _ = collapse ((as ++ ' ' :: word) ++ (after ++ bs)) := by
          rw [hbefore.collapse_append]
          simp
        _ = collapse (as ++ [' '] ++ (word ++ ' ' :: bs)) := by
          rw [hafter.collapse_append]
          simp
    obtain ⟨front, hfront⟩ := exists_collapse_append_space as
    obtain ⟨back, hback⟩ := exists_settle_space (collapse bs)
    refine ⟨front, back, ?_⟩
    rw [hgaps, collapse_append_word _ hword, hfront, collapse_cons, hback]
    simp

theorem spaced_isInfix_collapse {word cs : List Char} (hword : IsWord word)
    (h : ' ' :: (word ++ [' ']) <:+: cs) : ' ' :: (word ++ [' ']) <:+: collapse cs :=
  (spaced_isInfix_collapse_iff hword).mpr ⟨[' '], [' '], .space, .space, h⟩

/-- The blanks directly in front of a word and directly behind it are spaces. -/
def SpacesBeside (word cs : List Char) : Prop :=
  ∀ c, isBlank c = true → c :: word <:+: cs ∨ word ++ [c] <:+: cs → c = ' '

theorem spaced_isInfix_of_collapse {word cs : List Char} (hword : IsWord word)
    (hspaces : SpacesBeside word cs) (h : ' ' :: (word ++ [' ']) <:+: collapse cs) :
    ' ' :: (word ++ [' ']) <:+: cs := by
  obtain ⟨before, after, hbefore, hafter, hinfix⟩ := (spaced_isInfix_collapse_iff hword).mp h
  obtain ⟨front, c, hc, rfl⟩ : ∃ front c, isBlank c = true ∧ before = front ++ [c] := by
    cases hbefore with
    | space => exact ⟨[], ' ', isBlank_space, rfl⟩
    | @pair c d hc hd => exact ⟨[c], d, hd, rfl⟩
  obtain ⟨d, back, hd, rfl⟩ : ∃ d back, isBlank d = true ∧ after = d :: back := by
    cases hafter with
    | space => exact ⟨' ', [], isBlank_space, rfl⟩
    | @pair c d hc hd => exact ⟨c, [d], hc, rfl⟩
  have hspaced : c :: (word ++ [d]) <:+: cs :=
    List.IsInfix.trans ⟨front, back, by simp⟩ hinfix
  obtain rfl := hspaces c hc (.inl (List.IsInfix.trans ⟨[], [d], by simp⟩ hspaced))
  obtain rfl := hspaces d hd (.inr (List.IsInfix.trans ⟨[' '], [], by simp⟩ hspaced))
  exact hspaced

end Cypher.Text
