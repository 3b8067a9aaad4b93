import Delog.Proofs.Text.Segment
import Delog.Removal.Gap

/-!
# Proofs/Text/Skeleton — a text without its white space, but with its line breaks

The skeleton of a text lists the characters that are not blank, with one newline between two of them
if the text breaks the line there, and one at each end.  Texts with one skeleton differ in white
space only, and no two characters are on one line in the one and on two lines in the other.

* `getElem?_breaks` — where a text breaks its lines
* `skeleton_append_congr`, `layout_cancel` — the skeleton of a text is made of those of its parts
* `nonblank_eq_of_skeleton_eq`, `breaks_eq_of_skeleton_eq` — what the skeleton tells of the text
-/

namespace Delog.Text

open Removal

/-- A newline in front of a text, unless the text starts with one. -/
def breakBefore : Text → Text
  | '\n' :: s => '\n' :: s
  | s => '\n' :: s

/-- The text without blanks, but for one newline where a run of blanks has any; the end of the text
counts as the end of a line. -/
def layout : Text → Text
  | [] => ['\n']
  | c :: s =>
    if isBlank c then
      if c = '\n' then breakBefore (layout s) else layout s
    else c :: layout s

/-- **The skeleton of a text**: its layout, the start of the text counting as the start of a
line. -/
def skeleton (s : Text) : Text := breakBefore (layout s)

/-- **The white space between two neighbours** of the characters that are not blank, for each two in
order. -/
def spacings (s : Text) : List Text := (s.splitOnP fun c => !isBlank c).tail.dropLast

/-- Whether a line break stands between two neighbours of the characters that are not blank, for
each two in order. -/
def breaks (s : Text) : List Bool := s.spacings.map (·.contains '\n')

/-! ## The white space between two characters -/

private theorem length_splitOnP (s : Text) :
    (s.splitOnP fun c => !isBlank c).length = (nonblank s).length + 1 := by
  induction s with
  | nil => rfl
  | cons c s ih =>
    rw [List.splitOnP_cons_eq_if_modifyHead]
    by_cases hc : isBlank c = true
    · simpa [nonblank, hc] using ih
    · simpa [nonblank, hc] using ih

/-- **The breaks are listed in the order of the characters that are not blank**: each tells of the
blanks after the character with its number. -/
theorem getElem?_breaks {c d : Char} (hc : isBlank c = false) (hd : isBlank d = false) {w : Text}
    (hw : ∀ e ∈ w, isBlank e = true) (a b : Text) :
    (breaks (a ++ c :: (w ++ d :: b)))[(nonblank a).length]? = some (w.contains '\n') := by
  obtain ⟨r, rs, hr⟩ := List.exists_cons_of_ne_nil (List.splitOnP_ne_nil (fun c => !isBlank c) a)
  have hlength := length_splitOnP a
  have hword : w.splitOnP (fun c => !isBlank c) = [w] :=
    List.splitOnP_eq_singleton fun e he => by simp [hw e he]
  rw [hr, List.length_cons, Nat.add_right_cancel_iff] at hlength
  rw [breaks, spacings, List.splitOnP_append_cons a _ (by simp [hc]),
    List.splitOnP_append_cons w b (by simp [hd]), hword, hr, List.cons_append, List.tail_cons,
    List.singleton_append, List.dropLast_append_of_ne_nil (List.cons_ne_nil _ _),
    List.dropLast_cons_of_ne_nil (List.splitOnP_ne_nil _ b), List.map_append, List.map_cons,
    ← hlength]
  simp

/-! ## Newlines in front -/

theorem breakBefore_of_ne {c : Char} (hc : c ≠ '\n') (s : Text) :
    breakBefore (c :: s) = '\n' :: c :: s := by
  rw [breakBefore]
  rintro _ ⟨rfl, -⟩
  exact hc rfl

@[simp] theorem breakBefore_newline (s : Text) : breakBefore ('\n' :: s) = '\n' :: s := rfl

theorem exists_breakBefore_eq (s : Text) : ∃ t, breakBefore s = '\n' :: t := by
  rw [breakBefore.eq_def]
  split <;> exact ⟨_, rfl⟩

/-- One newline is enough. -/
@[simp] theorem breakBefore_breakBefore (s : Text) :
    breakBefore (breakBefore s) = breakBefore s := by
  obtain ⟨t, ht⟩ := exists_breakBefore_eq s
  rw [ht, breakBefore_newline]

/-! ## The layout of a text and of its parts -/

@[simp] theorem layout_newline (s : Text) : layout ('\n' :: s) = breakBefore (layout s) := rfl

theorem layout_cons_of_isBlank_eq_false {c : Char} (h : isBlank c = false) (s : Text) :
    layout (c :: s) = c :: layout s := by
  rw [layout, h, if_neg Bool.false_ne_true]

theorem layout_cons_of_isBlank {c : Char} (h : isBlank c = true) (hc : c ≠ '\n') (s : Text) :
    layout (c :: s) = layout s := by
  rw [layout, if_pos h, if_neg hc]

/-- **Texts of one layout are interchangeable** at the end of another text. -/
theorem layout_append_congr {s t : Text} (h : layout s = layout t) (a : Text) :
    layout (a ++ s) = layout (a ++ t) := by
  induction a with
  | nil => exact h
  | cons c a ih => simp only [List.cons_append, layout, ih]

theorem skeleton_append_congr {s t : Text} (h : layout s = layout t) (a : Text) :
    skeleton (a ++ s) = skeleton (a ++ t) :=
  congrArg breakBefore (layout_append_congr h a)

/-- Horizontal blanks do not show in the layout. -/
theorem layout_horizontal_append {w : Text} (h : ∀ c ∈ w, isHorizontal c = true) (s : Text) :
    layout (w ++ s) = layout s := by
  induction w with
  | nil => rfl
  | cons c w ih =>
    have hc := h c List.mem_cons_self
    have hne : c ≠ '\n' := by
      rintro rfl
      simp at hc
    rw [List.cons_append, layout_cons_of_isBlank (isBlank_of_isHorizontal hc) hne]
    exact ih fun d hd => h d (List.mem_cons_of_mem _ hd)

/-- Blanks at the start show in the layout as one newline at most. -/
theorem skeleton_blank_append {w : Text} (h : ∀ c ∈ w, isBlank c = true) (s : Text) :
    skeleton (w ++ s) = skeleton s := by
  induction w with
  | nil => rfl
  | cons c w ih =>
    have hw := ih fun d hd => h d (List.mem_cons_of_mem _ hd)
    have hc := h c List.mem_cons_self
    by_cases hne : c = '\n'
    · subst hne
      rw [skeleton, List.cons_append, layout_newline, breakBefore_breakBefore]
      exact hw
    · rw [skeleton, List.cons_append, layout_cons_of_isBlank hc hne]
      exact hw

/-- Blanks at the end do not show in the layout. -/
theorem layout_append_blank {w : Text} (h : ∀ c ∈ w, isBlank c = true) (s : Text) :
    layout (s ++ w) = layout s := by
  have hw : layout w = layout [] := by
    induction w with
    | nil => rfl
    | cons c w ih =>
      have hw := ih fun d hd => h d (List.mem_cons_of_mem _ hd)
      by_cases hne : c = '\n'
      · subst hne
        rw [layout_newline, hw]
        rfl
      · rw [layout_cons_of_isBlank (h c List.mem_cons_self) hne, hw]
  simpa using layout_append_congr hw s

/-- **A character that is not blank parts the layout**: what comes of the text before it does not
depend on what follows. -/
theorem exists_layout_append {c : Char} (hc : isBlank c = false) (a : Text) :
    ∃ l, ∀ s, layout (a ++ c :: s) = l ++ c :: layout s := by
  induction a with
  | nil => exact ⟨[], fun s => layout_cons_of_isBlank_eq_false hc s⟩
  | cons d a ih =>
    obtain ⟨l, hl⟩ := ih
    by_cases hd : isBlank d = true
    · by_cases hne : d = '\n'
      · subst hne
        cases l with
        | nil =>
          refine ⟨['\n'], fun s => ?_⟩
          rw [List.cons_append, layout_newline, hl, List.nil_append,
            breakBefore_of_ne (ne_newline_of_isBlank_eq_false hc)]
          rfl
        | cons e l =>
          by_cases he : e = '\n'
          · subst he
            exact ⟨'\n' :: l, fun s => by rw [List.cons_append, layout_newline, hl]; rfl⟩
          · refine ⟨'\n' :: e :: l, fun s => ?_⟩
            rw [List.cons_append, layout_newline, hl, List.cons_append, breakBefore_of_ne he]
            rfl
      · exact ⟨l, fun s => by rw [List.cons_append, layout_cons_of_isBlank hd hne, hl]⟩
    · rw [Bool.not_eq_true] at hd
      exact ⟨d :: l, fun s => by rw [List.cons_append, layout_cons_of_isBlank_eq_false hd, hl]; rfl⟩

/-- **Behind a text that ends solid, the skeleton tells the layout**, as it is the layout of the
whole text behind a newline. -/
theorem layout_cancel {a s t : Text} (ha : isSolid a = true) (p : Text)
    (h : skeleton (p ++ a ++ s) = skeleton (p ++ a ++ t)) : layout s = layout t := by
  obtain ⟨x, c, rfl, hc⟩ := exists_append_of_isSolid ha
  obtain ⟨l, hl⟩ := exists_layout_append hc ('\n' :: (p ++ x))
  have hs : ∀ r, skeleton (p ++ (x ++ [c]) ++ r) = l ++ c :: layout r := by
    intro r
    rw [← hl]
    simp [skeleton]
  rw [hs, hs] at h
  simpa using h

/-! ## What the skeleton tells -/

theorem nonblank_breakBefore (s : Text) : nonblank (breakBefore s) = nonblank s := by
  rw [breakBefore.eq_def]
  split <;> simp [nonblank, show isBlank '\n' = true by decide]

theorem nonblank_layout (s : Text) : nonblank (layout s) = nonblank s := by
  induction s with
  | nil => decide
  | cons c s ih =>
    simp only [layout]
    by_cases hc : isBlank c = true
    · have hcons : nonblank (c :: s) = nonblank s := by simp [nonblank, hc]
      rw [if_pos hc, hcons, ← ih]
      split
      · exact nonblank_breakBefore _
      · rfl
    · rw [if_neg hc]
      simpa [nonblank, hc] using ih

/-- **Texts of one skeleton have the same characters**, blanks apart. -/
theorem nonblank_eq_of_skeleton_eq {s t : Text} (h : skeleton s = skeleton t) :
    nonblank s = nonblank t := by
  have hskeleton : ∀ u, nonblank (skeleton u) = nonblank u := fun u => by
    rw [skeleton, nonblank_breakBefore, nonblank_layout]
  rw [← hskeleton s, h, hskeleton]

/-- Whether each run of blanks breaks the line, those at the ends included. -/
private def runBreaks (s : Text) : List Bool :=
  (s.splitOnP fun c => !isBlank c).map (·.contains '\n')

private theorem breaks_eq (s : Text) : breaks s = (runBreaks s).tail.dropLast := by
  rw [breaks, spacings, runBreaks, ← List.map_tail, List.map_dropLast]

private theorem runBreaks_ne_nil (s : Text) : runBreaks s ≠ [] := by
  simp [runBreaks, List.splitOnP_ne_nil]

private theorem runBreaks_cons (c : Char) (s : Text) :
    runBreaks (c :: s) =
      if isBlank c then (runBreaks s).modifyHead ('\n' == c || ·) else false :: runBreaks s := by
  obtain ⟨r, rs, hr⟩ := List.exists_cons_of_ne_nil (List.splitOnP_ne_nil (fun c => !isBlank c) s)
  rw [runBreaks, runBreaks, List.splitOnP_cons_eq_if_modifyHead, hr]
  by_cases hc : isBlank c = true
  · simp [hc, beq_eq_decide]
  · simp [hc]

private theorem runBreaks_breakBefore (s : Text) :
    runBreaks (breakBefore s) = (runBreaks s).modifyHead fun _ => true := by
  have hblank : isBlank '\n' = true := by decide
  obtain ⟨r, rs, hr⟩ := List.exists_cons_of_ne_nil (runBreaks_ne_nil s)
  rw [breakBefore.eq_def]
  split
  · rename_i s
    obtain ⟨r, rs, hr⟩ := List.exists_cons_of_ne_nil (runBreaks_ne_nil s)
    rw [runBreaks_cons, if_pos hblank, hr]
    rfl
  · rw [runBreaks_cons, if_pos hblank, hr]
    rfl

private theorem dropLast_modifyHead {α : Type} (f : α → α) :
    ∀ l : List α, (l.modifyHead f).dropLast = l.dropLast.modifyHead f
  | [] => rfl
  | [_] => rfl
  | _ :: _ :: _ => rfl

private theorem dropLast_runBreaks_layout (s : Text) :
    (runBreaks (layout s)).dropLast = (runBreaks s).dropLast := by
  induction s with
  | nil => decide
  | cons c s ih =>
    obtain ⟨r, rs, hr⟩ := List.exists_cons_of_ne_nil (runBreaks_ne_nil s)
    by_cases hc : isBlank c = true
    · rw [runBreaks_cons, if_pos hc, dropLast_modifyHead, ← ih, ← dropLast_modifyHead]
      by_cases hne : c = '\n'
      · subst hne
        rw [layout_newline, runBreaks_breakBefore]
        simp
      · rw [layout_cons_of_isBlank hc hne]
        have : (fun b => '\n' == c || b) = id := by
          funext b
          simp [Ne.symm hne]
        rw [this, List.modifyHead_id]
        rfl
    · rw [Bool.not_eq_true] at hc
      obtain ⟨q, qs, hq⟩ := List.exists_cons_of_ne_nil (runBreaks_ne_nil (layout s))
      rw [layout_cons_of_isBlank_eq_false hc, runBreaks_cons, runBreaks_cons, hc,
        if_neg Bool.false_ne_true, if_neg Bool.false_ne_true, hr, hq, List.dropLast_cons_cons,
        List.dropLast_cons_cons, ← hr, ← hq, ih]

private theorem breaks_skeleton (s : Text) : breaks (skeleton s) = breaks s := by
  have h := congrArg List.tail (dropLast_runBreaks_layout s)
  rw [List.tail_dropLast, List.tail_dropLast] at h
  obtain ⟨r, rs, hr⟩ := List.exists_cons_of_ne_nil (runBreaks_ne_nil (layout s))
  rw [breaks_eq, breaks_eq, skeleton, runBreaks_breakBefore, ← h, hr]
  rfl

/-- **Texts of one skeleton break their lines at the same places.** -/
theorem breaks_eq_of_skeleton_eq {s t : Text} (h : skeleton s = skeleton t) :
    breaks s = breaks t := by
  rw [← breaks_skeleton, h, breaks_skeleton]

end Delog.Text
