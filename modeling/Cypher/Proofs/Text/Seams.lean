import Mathlib
import Cypher.Proofs.Text.Spacing
import Cypher.Proofs.Text.Trim

/-!
# Blank runs

A text falls into its longest runs of blanks and its other characters one by one. Collapsing rewrites
each of these pieces by itself: a run of two or more blanks becomes one space, and every other piece
stays as it is. What was collapsed before is therefore collapsed in the same way again when more text
is put next to it.
-/

namespace Cypher.Text

/-- No run of blanks goes on from one text into the next. -/
def Apart (as bs : List Char) : Prop :=
  ∀ c ∈ as.getLast?, ∀ d ∈ bs.head?, ¬(isBlank c = true ∧ isBlank d = true)

/-- The pieces are the longest runs of blanks in a text, and its other characters one by one. -/
structure FallsInto (cs : List Char) (pieces : List (List Char)) : Prop where
  joined : pieces.flatten = cs
  filled : [] ∉ pieces
  blank : ∀ piece ∈ pieces, 2 ≤ piece.length → ∀ c ∈ piece, isBlank c = true
  longest : pieces.IsChain Apart

def squeeze (piece : List Char) : List Char := if 2 ≤ piece.length then [' '] else piece

def withoutBlanks (cs : List Char) : List Char := cs.filter fun c => !isBlank c

/-- A text whose blank runs are collapsed. -/
def collapsed (s : String) : String := String.ofList (collapse s.toList)

theorem toList_collapsed (s : String) : (collapsed s).toList = collapse s.toList := by
  rw [collapsed, String.toList_ofList]

theorem isBlank_of_isChain {piece : List Char}
    (h : piece.IsChain fun c d => (isBlank c && isBlank d) = true) (hlength : 2 ≤ piece.length) :
    ∀ c ∈ piece, isBlank c = true := by
  induction piece with
  | nil => exact absurd hlength (by simp)
  | cons c rest ih =>
      cases rest with
      | nil => exact absurd hlength (by simp)
      | cons d rest =>
          obtain ⟨hboth, hrest⟩ := List.isChain_cons_cons.mp h
          obtain ⟨hc, hd⟩ := Bool.and_eq_true_iff.mp hboth
          refine List.forall_mem_cons.mpr ⟨hc, ?_⟩
          cases rest with
          | nil => simpa using hd
          | cons e rest => exact ih hrest (by simp)

theorem exists_fallsInto (cs : List Char) : ∃ pieces, FallsInto cs pieces := by
  refine ⟨cs.splitBy fun c d => isBlank c && isBlank d, ?_, ?_, ?_, ?_⟩
  · exact List.flatten_splitBy _ cs
  · exact List.nil_notMem_splitBy _ cs
  · intro piece hpiece
    exact isBlank_of_isChain (List.isChain_of_mem_splitBy hpiece)
  · apply (List.isChain_getLast_head_splitBy _ cs).imp
    intro as bs hseam c hc d hd hboth
    obtain ⟨has, hbs, hapart⟩ := hseam
    rw [List.getLast_of_mem_getLast? hc, List.head_of_mem_head? hd, hboth.1, hboth.2] at hapart
    exact absurd hapart (by simp)

theorem collapse_append_of_apart {as bs : List Char} (h : Apart as bs) :
    collapse (as ++ bs) = collapse as ++ collapse bs := by
  induction as with
  | nil => rfl
  | cons a as ih =>
      by_cases hnil : as = []
      · subst hnil
        cases bs with
        | nil => rfl
        | cons b bs =>
            have hseam := h a rfl b rfl
            by_cases ha : isBlank a = true
            · have hb : isBlank b = false := by simpa [ha] using hseam
              rw [List.singleton_append, collapse_cons, collapse_cons, settle_of_not_blank hb,
                settle_cons_of_not_blank a hb]
              rfl
            · exact settle_of_not_blank (by simpa using ha) _
      · have hlast : (a :: as).getLast? = as.getLast? := by
          obtain ⟨b, rest, rfl⟩ := List.exists_cons_of_ne_nil hnil
          exact List.getLast?_cons_cons
        rw [Apart, hlast] at h
        rw [List.cons_append, collapse_cons, ih h, collapse_cons]
        exact settle_append (fun hempty => hnil (collapse_eq_nil_iff.mp hempty)) _

theorem settle_space_collapse {cs : List Char} (h : ∀ c ∈ cs, isBlank c = true) :
    settle ' ' (collapse cs) = [' '] := by
  induction cs with
  | nil => rfl
  | cons c cs ih =>
      rw [collapse_cons, settle_settle_of_blank isBlank_space (h c List.mem_cons_self)]
      exact ih fun d hd => h d (List.mem_cons_of_mem c hd)

theorem collapse_piece {piece : List Char}
    (h : 2 ≤ piece.length → ∀ c ∈ piece, isBlank c = true) : collapse piece = squeeze piece := by
  match piece with
  | [] => rfl
  | [c] => rfl
  | c :: d :: rest =>
      have hblank := h (by simp)
      rw [collapse_cons, collapse_cons, squeeze, if_pos (by simp),
        settle_settle_of_blank (hblank c (by simp)) (hblank d (by simp))]
      exact settle_space_collapse fun e he => hblank e (by simp [he])

theorem collapse_of_fallsInto {cs : List Char} {pieces : List (List Char)}
    (h : FallsInto cs pieces) : collapse cs = pieces.flatMap squeeze := by
  obtain ⟨rfl, hfilled, hblank, hlongest⟩ := h
  induction pieces with
  | nil => rfl
  | cons piece rest ih =>
      have hseam : Apart piece rest.flatten := by
        cases rest with
        | nil => exact fun c _ d hd => absurd hd (by simp)
        | cons next rest =>
            have hnext : next ≠ [] := by
              rintro rfl
              exact hfilled (by simp)
            intro c hc d hd
            apply (List.isChain_cons_cons.mp hlongest).1 c hc d
            rwa [List.flatten_cons, List.head?_append_of_ne_nil _ hnext] at hd
      have hrest := ih (fun hmem => hfilled (List.mem_cons_of_mem piece hmem))
        (fun other hother => hblank other (List.mem_cons_of_mem piece hother))
        hlongest.of_cons
      rw [List.flatten_cons, collapse_append_of_apart hseam, hrest,
        collapse_piece (hblank piece List.mem_cons_self), List.flatMap_cons]

theorem withoutBlanks_settle (c : Char) (cs : List Char) :
    withoutBlanks (settle c cs) = withoutBlanks (c :: cs) := by
  cases cs with
  | nil => rfl
  | cons d rest =>
      by_cases hboth : isBlank c = true ∧ isBlank d = true
      · rw [settle_of_both_blank hboth.1 hboth.2]
        simp [withoutBlanks, hboth]
      · have hkept : settle c (d :: rest) = c :: d :: rest := by simpa [settle] using hboth
        rw [hkept]

theorem withoutBlanks_collapse (cs : List Char) :
    withoutBlanks (collapse cs) = withoutBlanks cs := by
  induction cs with
  | nil => rfl
  | cons c cs ih =>
      rw [collapse_cons, withoutBlanks_settle]
      simp only [withoutBlanks, List.filter_cons] at ih ⊢
      rw [ih]

@[simp] theorem collapse_collapse (cs : List Char) : collapse (collapse cs) = collapse cs :=
  collapse_of_singleBlanks (singleBlanks_collapse cs)

theorem collapse_settle_append (c : Char) (ds bs : List Char) :
    collapse (settle c ds ++ bs) = settle c (collapse (ds ++ bs)) := by
  cases ds with
  | nil => rfl
  | cons d rest =>
      by_cases hboth : isBlank c = true ∧ isBlank d = true
      · rw [settle_of_both_blank hboth.1 hboth.2, List.cons_append, List.cons_append, collapse_cons,
          collapse_cons, settle_settle_of_blank hboth.1 hboth.2]
      · have hkept : settle c (d :: rest) = c :: d :: rest := by simpa [settle] using hboth
        rw [hkept]
        rfl

theorem collapse_collapse_append (as bs : List Char) :
    collapse (collapse as ++ bs) = collapse (as ++ bs) := by
  induction as with
  | nil => rfl
  | cons a as ih => rw [collapse_cons, collapse_settle_append, ih, List.cons_append, collapse_cons]

theorem collapse_append_collapse (as bs : List Char) :
    collapse (as ++ collapse bs) = collapse (as ++ bs) := by
  rw [collapse_append, collapse_collapse, ← collapse_append]

/-! ## Where texts meet

What becomes of a place where texts are joined, once the whole is collapsed. A space takes up all
blanks next to it, so what stands between two spaces is set off by exactly one of them on either
side. A text without a blank at its ends takes up nothing, and stands directly at its neighbours. -/

variable {as bs cs : List Char}

/-- A text that is not empty, has no blank at its ends and no two blanks next to each other. -/
structure IsTight (cs : List Char) : Prop where
  filled : cs ≠ []
  trimmed : IsTrimmed cs
  single : SingleBlanks cs

instance (cs : List Char) : Decidable (IsTight cs) :=
  decidable_of_iff (cs ≠ [] ∧ trim cs = cs ∧ SingleBlanks cs)
    ⟨fun h => ⟨h.1, isTrimmed_iff.mpr h.2.1, h.2.2⟩,
      fun h => ⟨h.filled, isTrimmed_iff.mp h.trimmed, h.single⟩⟩

/-- A piece of a text stands behind one part of it and in front of another. Between it and either of
them is one space, and no further blank. -/
structure SetOff (cs front piece back : List Char) : Prop where
  split : cs = front ++ ' ' :: (piece ++ ' ' :: back)
  tight : IsTight piece
  before : StopsAt isBlank front.reverse
  after : StopsAt isBlank back

theorem apart_of_stopsAt (as : List Char) (h : StopsAt isBlank bs) : Apart as bs := by
  intro c _ d hd hboth
  exact absurd hboth.2 (by simp [h d hd])

theorem apart_of_stopsAt_reverse (h : StopsAt isBlank as.reverse) (bs : List Char) :
    Apart as bs := by
  intro c hc d _ hboth
  rw [← List.head?_reverse] at hc
  exact absurd hboth.1 (by simp [h c hc])

theorem stopsAt_collapse (h : StopsAt isBlank cs) : StopsAt isBlank (collapse cs) := by
  cases cs with
  | nil => exact stopsAt_nil
  | cons c cs =>
      have hc := h c rfl
      rw [collapse_cons, settle_of_not_blank hc]
      exact stopsAt_cons hc

theorem stopsAt_reverse_collapse (h : StopsAt isBlank cs.reverse) :
    StopsAt isBlank (collapse cs).reverse := by
  rcases List.eq_nil_or_concat cs with rfl | ⟨front, c, rfl⟩
  · exact stopsAt_nil
  · rw [List.concat_eq_append] at h ⊢
    have hc : isBlank c = false := h c (by simp)
    rw [collapse_append_cons front hc, List.reverse_append]
    exact stopsAt_cons hc

theorem collapse_blanks_append_space (h : ∀ c ∈ cs, isBlank c = true) (bs : List Char) :
    collapse (cs ++ ' ' :: bs) = collapse (' ' :: bs) := by
  induction cs with
  | nil => rfl
  | cons c cs ih =>
      obtain ⟨hc, hcs⟩ := List.forall_mem_cons.mp h
      rw [List.cons_append, collapse_cons, ih hcs, collapse_cons,
        settle_settle_of_blank hc isBlank_space]

theorem collapse_space_cons_blanks (h : ∀ c ∈ cs, isBlank c = true) (bs : List Char) :
    collapse (' ' :: (cs ++ bs)) = collapse (' ' :: bs) := by
  induction cs with
  | nil => rfl
  | cons c cs ih =>
      obtain ⟨hc, hcs⟩ := List.forall_mem_cons.mp h
      rw [List.cons_append, collapse_cons, collapse_cons, settle_settle_of_blank isBlank_space hc]
      exact ih hcs

/-- A space takes up the blanks on both sides of it and keeps what is left there apart. -/
theorem collapse_append_space_cons (as bs : List Char) :
    collapse (as ++ ' ' :: bs) = collapse (trimEnd as) ++ ' ' :: collapse (trimStart bs) := by
  have hend : trimEnd as ++ as.rtakeWhile isBlank = as := List.rdropWhile_append_rtakeWhile
  have hstart : bs.takeWhile isBlank ++ trimStart bs = bs := List.takeWhile_append_dropWhile
  -- what is trimmed off stands next to the space on either side, where more blanks change nothing
  calc collapse (as ++ ' ' :: bs)
    _ = collapse (trimEnd as ++ (as.rtakeWhile isBlank ++ ' ' :: bs)) := by
      rw [← List.append_assoc, hend]
    _ = collapse (trimEnd as) ++ collapse (as.rtakeWhile isBlank ++ ' ' :: bs) :=
      collapse_append_of_apart (apart_of_stopsAt_reverse (stopsAt_reverse_trimEnd as) _)
    _ = collapse (trimEnd as) ++ collapse (' ' :: (bs.takeWhile isBlank ++ trimStart bs)) := by
      rw [collapse_blanks_append_space fun c hc => List.mem_rtakeWhile_imp hc, hstart]
    _ = collapse (trimEnd as) ++ collapse ([' '] ++ trimStart bs) := by
      rw [collapse_space_cons_blanks fun c hc => List.mem_takeWhile_imp hc, List.singleton_append]
    _ = collapse (trimEnd as) ++ ' ' :: collapse (trimStart bs) := by
      rw [collapse_append_of_apart (apart_of_stopsAt [' '] (stopsAt_trimStart bs))]
      rfl

theorem IsTight.setOff (h : IsTight cs) (as bs : List Char) :
    SetOff (collapse (as ++ ' ' :: (cs ++ ' ' :: bs))) (collapse (trimEnd as)) cs
      (collapse (trimStart bs)) where
  split := by
    have hstart : StopsAt isBlank (cs ++ ' ' :: bs) := h.trimmed.1.append h.filled _
    rw [collapse_append_space_cons as, trimStart_of_stopsAt hstart, collapse_append_space_cons cs,
      trimEnd_of_stopsAt h.trimmed.2, collapse_of_singleBlanks h.single]
  tight := h
  before := stopsAt_reverse_collapse (stopsAt_reverse_trimEnd as)
  after := stopsAt_collapse (stopsAt_trimStart bs)

theorem collapse_append_trimmed (as : List Char) (hfilled : cs ≠ []) (h : IsTrimmed cs)
    (bs : List Char) :
    collapse (as ++ (cs ++ bs)) = collapse as ++ (collapse cs ++ collapse bs) := by
  have hstart : StopsAt isBlank (cs ++ bs) := h.1.append hfilled bs
  rw [collapse_append_of_apart (apart_of_stopsAt as hstart),
    collapse_append_of_apart (apart_of_stopsAt_reverse h.2 bs)]

section Framed

variable {front back : List Char}

theorem isTrimmed_framed (hfront : IsWord front) (hback : IsWord back) (body : List Char) :
    IsTrimmed (front ++ (body ++ back)) := by
  constructor
  · exact (isTrimmed_of_no_blank hfront.2).1.append hfront.1 _
  · rw [List.reverse_append, List.reverse_append, List.append_assoc]
    exact (isTrimmed_of_no_blank hback.2).2.append (by simpa using hback.1) _

theorem collapse_framed (hfront : IsWord front) (hback : IsWord back) (body : List Char) :
    collapse (front ++ (body ++ back)) = front ++ (collapse body ++ back) := by
  have hhead := collapse_append_word [] hfront (body ++ back)
  have htail := collapse_append_word body hback []
  rw [List.append_nil, collapse_nil, List.append_nil] at htail
  rw [← htail]
  exact hhead

end Framed

end Cypher.Text
