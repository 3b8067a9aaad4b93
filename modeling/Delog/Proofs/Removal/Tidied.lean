import Delog.Proofs.Removal.Gap
import Delog.Proofs.Removal.Settled
import Delog.Proofs.Text.Content

/-!
# Proofs/Removal/Tidied — the lines of an edited text

Removing solid ranges from a paired text leaves a paired text, and in such a text each pass of
tidying can be told line by line: blank lines are emptied, runs of line breaks get shorter, and
trimming takes blank lines at both ends.  The contents of all other lines stay.

* `exists_runAll_of_step` — what one removal keeps, a run of removals keeps
* `exists_runAll_paired` — the text the removals leave is paired
* `contentsWith_settle` — the lines that are left when both passes are done
* `isSettled_settle` — then there is nothing more to tidy
* `exists_codeLines_trim` — trimming takes blanks off the first and the last line at most
-/

namespace Delog.Removal

open Text

/-! ## Paired texts stay paired -/

/-- Closing a gap around a solid segment leaves a paired text. -/
theorem isPaired_closeGap {before body after : Text} (hbody : isSolid body = true)
    (h : isPaired (before ++ (body ++ after)) = true) :
    isPaired ((closeGap before after).1 ++ (closeGap before after).2) = true := by
  have hbefore := isPaired_of_startsSolid (startsSolid_append hbody) h
  have hafter : isPaired (closeGap before after).2 = true :=
    isPaired_of_suffix ((closeGap_parts before after).2.trans
      ((List.suffix_append body after).trans (List.suffix_append before _))) h
  refine isPaired_append ?_ hafter
  simp only [closeGap]
  split
  · split <;> exact isPaired_dropEndWhile hbefore
  · exact hbefore

/-- A `;` in the place of a solid segment leaves a paired text. -/
theorem isPaired_placeholder {before body after : Text} (hbody : isSolid body = true)
    (h : isPaired (before ++ (body ++ after)) = true) :
    isPaired (before ++ ';' :: after) = true := by
  have hafter : isPaired after = true :=
    isPaired_of_suffix ((List.suffix_append body after).trans (List.suffix_append before _)) h
  refine isPaired_append (isPaired_of_startsSolid (startsSolid_append hbody) h) ?_
  rwa [isPaired_cons (by decide)]

/-- **What the removal of a solid segment keeps, a run of removals keeps**, whichever of the two
takes its place, and it leaves whole what stands before all of them. -/
theorem exists_runAll_of_step {P : Text → Prop}
    (placeholder : ∀ before body after, isSolid body = true → P (before ++ (body ++ after)) →
      P (before ++ ';' :: after))
    (deletion : ∀ before body after, isSolid body = true → P (before ++ (body ++ after)) →
      P ((closeGap before after).1 ++ (closeGap before after).2))
    {p s : Text} {rs : List Removal} (hp : endsFlush p = true) (hfits : Fits (size p) s rs)
    (h : P (p ++ s)) : ∃ q, runAll (p ++ s) rs.reverse = .ok (p ++ q) ∧ P (p ++ q) := by
  induction rs generalizing p s with
  | nil => exact ⟨s, rfl, h⟩
  | cons r rs ih =>
    obtain ⟨gap, body, rest, rfl, hstart, hstop, hbody, hrest⟩ := hfits
    have hsize : size (p ++ gap ++ body) = r.stop := by rw [hstop, size_append, size_append]
    have htext : p ++ (gap ++ (body ++ rest)) = p ++ gap ++ body ++ rest := by
      simp only [List.append_assoc]
    rw [htext] at h ⊢
    obtain ⟨x, hx, hkept⟩ :=
      ih (endsFlush_of_endsSolid (endsSolid_append hbody)) (hsize.symm ▸ hrest) h
    rw [List.append_assoc (p ++ gap) body x] at hx hkept
    rw [runAll_reverse_cons, hx, Except.bind,
      run_eq (by rw [hstart, size_append]) (by rw [hstop, size_append])]
    cases r.placeholder with
    | true =>
      refine ⟨gap ++ ';' :: x, by simp, ?_⟩
      simpa using placeholder (p ++ gap) body x hbody hkept
    | false =>
      obtain ⟨g, hg⟩ := isPrefix_closeGap_of_endsFlush hp gap x
      have hclosed := deletion (p ++ gap) body x hbody hkept
      rw [← hg, List.append_assoc] at hclosed
      exact ⟨g ++ (closeGap (p ++ gap) x).2, by simp [← hg], hclosed⟩

/-- **Removing solid ranges from a paired text leaves a paired text.** -/
theorem exists_runAll_paired {p s : Text} {rs : List Removal} (hp : endsFlush p = true)
    (hfits : Fits (size p) s rs) (hpaired : isPaired (p ++ s) = true) :
    ∃ q, runAll (p ++ s) rs.reverse = .ok (p ++ q) ∧ isPaired (p ++ q) = true :=
  exists_runAll_of_step (P := fun t => isPaired t = true)
    (fun _ _ _ => isPaired_placeholder) (fun _ _ _ => isPaired_closeGap) hp hfits hpaired

/-! ## Emptying blank lines -/

theorem emptyBlankLines_inline_append {k : Text} (hk : isInline k = true) (e : LineEnding)
    (s : Text) : emptyBlankLines (k ++ (e.text ++ s)) =
      (if k.all isHorizontal then [] else k) ++ (e.text ++ emptyBlankLines s) := by
  rw [emptyBlankLines, lines_inline_append hk, List.map_cons, emptied, unlines, List.flatMap_cons,
    ← unlines, ← emptyBlankLines]
  split <;> simp [Line.text]

theorem emptyBlankLines_inline {k : Text} (hk : isInline k = true) :
    emptyBlankLines k = if k.all isHorizontal then [] else k := by
  by_cases hnil : k = []
  · subst hnil
    rfl
  · rw [emptyBlankLines, lines_inline hk hnil, List.map_singleton, emptied]
    split <;> simp [unlines, Line.text]

/-- What is left of the content of a line when blank lines are emptied. -/
theorem isInline_emptied {k : Text} (hk : isInline k = true) :
    isInline (if k.all isHorizontal then [] else k) = true := by
  split
  · rfl
  · exact hk

theorem isPaired_emptyBlankLines {s : Text} (hs : isPaired s = true) :
    isPaired (emptyBlankLines s) = true := by
  refine line_induction (P := fun s => isPaired (emptyBlankLines s) = true) (fun k hk => ?_)
    (fun k e s hk _ ih => ?_) hs
  · rw [emptyBlankLines_inline hk, ← List.append_nil (ite _ _ _),
      isPaired_inline_append (isInline_emptied hk)]
    rfl
  · rw [emptyBlankLines_inline_append hk, isPaired_inline_append (isInline_emptied hk),
      isPaired_ending_append, ih]

section Kind

variable {f : Text → Bool} (hf : f [] = false)
include hf

/-- Emptying the blank lines is taking them out, where empty lines do not count. -/
theorem contentsWith_emptyBlankLines {s : Text} (hs : isPaired s = true) :
    contentsWith f (emptyBlankLines s) =
      contentsWith (fun k => f k && !k.all isHorizontal) s := by
  have hline : ∀ k : Text, [if k.all isHorizontal then [] else k].filter f =
      [k].filter fun k => f k && !k.all isHorizontal := by
    intro k
    split
    · rename_i hk
      simp [hf, hk]
    · rename_i hk
      simp only [List.filter_singleton, Bool.eq_false_iff.mpr hk, Bool.not_false, Bool.and_true]
  refine line_induction (P := fun s => contentsWith f (emptyBlankLines s) =
    contentsWith (fun k => f k && !k.all isHorizontal) s) (fun k hk => ?_)
    (fun k e s hk _ ih => ?_) hs
  · rw [emptyBlankLines_inline hk, contentsWith_inline hf (isInline_emptied hk),
      contentsWith_inline (by simp [hf]) hk, hline]
  · rw [emptyBlankLines_inline_append hk, contentsWith_inline_append f (isInline_emptied hk),
      contentsWith_inline_append _ hk, ih, hline]

/-! ## Collapsing runs of line breaks -/

/-- A run of line breaks in place of another one, if none is empty but for the other. -/
theorem contentsWith_settleRun_append (ending : LineEnding) (run : List LineEnding) {k : Text}
    (hk : isInline k = true) (s : Text) :
    contentsWith f (k ++ (settleRun ending run ++ s)) =
      contentsWith f (k ++ (run.flatMap LineEnding.text ++ s)) := by
  obtain ⟨left, hleft, -, hnil⟩ := exists_settleRun_eq ending run
  by_cases hrun : run = []
  · rw [hleft, hnil.mpr hrun, hrun]
  · rw [hleft, contentsWith_inline_run_append hf hk (mt hnil.mp hrun),
      contentsWith_inline_run_append hf hk hrun]

/-- **Collapsing runs of line breaks keeps what stands on the lines**, where empty lines do not
count. -/
theorem contentsWith_collapseFrom (ending : LineEnding) {s : Text} (hs : isPaired s = true)
    (run : List LineEnding) {k : Text} (hk : isInline k = true) :
    contentsWith f (k ++ collapseFrom ending run s) =
      contentsWith f (k ++ (run.flatMap LineEnding.text ++ s)) := by
  induction s using break_induction generalizing run k with
  | nil => simpa [collapseFrom] using contentsWith_settleRun_append hf ending run hk []
  | ending e s ih =>
    rw [isPaired_ending_append] at hs
    rw [collapseFrom_ending_append, ih hs _ hk, List.flatMap_append, List.flatMap_singleton,
      List.append_assoc]
  | char c s hc ih =>
    obtain ⟨hn, hr⟩ := ne_of_isPaired hs hc
    rw [isPaired_cons hr] at hs
    have hinline : isInline [c] = true := by simp [isInline, hn, hr]
    rw [collapseFrom_cons ending run hc, contentsWith_settleRun_append hf ending run hk]
    by_cases hrun : run = []
    · have h := ih hs [] (k := k ++ [c]) (by rw [isInline_append, hk, hinline]; rfl)
      simpa [hrun] using h
    · have h := ih hs [] hinline
      rw [contentsWith_inline_run_append hf hk hrun, contentsWith_inline_run_append hf hk hrun]
      exact congrArg _ h

theorem contentsWith_collapseBreaks (ending : LineEnding) {s : Text} (hs : isPaired s = true) :
    contentsWith f (collapseBreaks ending s) = contentsWith f s :=
  contentsWith_collapseFrom hf ending hs [] (k := []) rfl

/-- **The lines that are left when both passes are done** are those that were not blank. -/
theorem contentsWith_settle (ending : LineEnding) {s : Text} (hs : isPaired s = true) :
    contentsWith f (settle ending s) = contentsWith (fun k => f k && !k.all isHorizontal) s := by
  rw [settle, contentsWith_collapseBreaks hf ending (isPaired_emptyBlankLines hs),
    contentsWith_emptyBlankLines hf hs]

end Kind

theorem isPaired_run (run : List LineEnding) (s : Text) :
    isPaired (run.flatMap LineEnding.text ++ s) = isPaired s := by
  induction run with
  | nil => rfl
  | cons e run ih => rw [List.flatMap_cons, List.append_assoc, isPaired_ending_append, ih]

theorem isPaired_collapseFrom (ending : LineEnding) (run : List LineEnding) {s : Text}
    (hs : isPaired s = true) : isPaired (collapseFrom ending run s) = true := by
  induction s using break_induction generalizing run with
  | nil =>
    obtain ⟨left, hleft, -⟩ := exists_settleRun_eq ending run
    rw [collapseFrom, hleft, ← List.append_nil (List.flatMap _ _), isPaired_run]
    rfl
  | ending e s ih =>
    rw [isPaired_ending_append] at hs
    rw [collapseFrom_ending_append]
    exact ih _ hs
  | char c s hc ih =>
    obtain ⟨-, hr⟩ := ne_of_isPaired hs hc
    rw [isPaired_cons hr] at hs
    obtain ⟨left, hleft, -⟩ := exists_settleRun_eq ending run
    rw [collapseFrom_cons ending run hc, hleft, isPaired_run, isPaired_cons hr]
    exact ih [] hs

theorem isPaired_settle (ending : LineEnding) {s : Text} (hs : isPaired s = true) :
    isPaired (settle ending s) = true :=
  isPaired_collapseFrom ending [] (isPaired_emptyBlankLines hs)

/-- **A paired text is settled when both passes are done.** -/
theorem isSettled_settle (ending : LineEnding) {s : Text} (hs : isPaired s = true) :
    IsSettled (settle ending s) where
  eq_nil_of_blank := by
    intro l hl hblank
    by_contra hne
    have hkind : l.content ∈ contentsWith (fun k => !k.isEmpty && k.all isHorizontal)
        (settle ending s) :=
      List.mem_filter.mpr ⟨List.mem_map_of_mem hl, by simpa [hne] using hblank⟩
    rw [contentsWith_settle rfl ending hs, contentsWith, List.mem_filter] at hkind
    have h := hkind.2
    simp [Bool.and_assoc] at h
  not_three_breaks := not_three_breaks_collapseBreaks ending (isPaired_emptyBlankLines hs)

/-! ## The ends of the text -/

/-- Trimming takes blanks at both ends. -/
theorem exists_eq_append_trim (t : Text) :
    ∃ x y, t = x ++ (trim t ++ y) ∧ (∀ c ∈ x, isBlank c = true) ∧ ∀ c ∈ y, isBlank c = true :=
  ⟨t.takeWhile isBlank, takeEndWhile isBlank (trimStart t),
    by rw [trim, trimEnd, dropEndWhile_append_takeEndWhile, trimStart,
      List.takeWhile_append_dropWhile],
    List.all_eq_true.mp List.all_takeWhile, List.all_eq_true.mp (all_takeEndWhile _ _)⟩

theorem endsSolid_trim (t : Text) : endsSolid (trim t) = true := by
  rw [endsSolid, Option.all_eq_true]
  intro c hc
  rw [trim, trimEnd, dropEndWhile, List.getLast?_reverse] at hc
  have h := List.head?_dropWhile_not isBlank (trimStart t).reverse
  rw [hc] at h
  simpa using h

theorem startsSolid_trim (t : Text) : startsSolid (trim t) = true := by
  rw [startsSolid, Option.all_eq_true]
  intro c hc
  have hhead : (trimStart t).head? = some c := by
    obtain ⟨y, hy⟩ : trim t <+: trimStart t :=
      ⟨takeEndWhile isBlank (trimStart t), dropEndWhile_append_takeEndWhile _ _⟩
    rw [← hy, List.head?_append, hc, Option.some_or]
  have h := List.head?_dropWhile_not isBlank t
  rw [← trimStart, hhead] at h
  simpa using h

theorem isSolid_trim {t : Text} (h : trim t ≠ []) : isSolid (trim t) = true := by
  rw [isSolid, startsSolid_trim, endsSolid_trim]
  simpa using h

theorem eq_nil_or_of_finalBreak (s : Text) :
    finalBreak s = [] ∨ ∃ e : LineEnding, finalBreak s = e.text := by
  rw [finalBreak]
  split
  · exact .inl rfl
  · cases LineEnding.final s with
    | none => exact .inl rfl
    | some e => exact .inr ⟨e, rfl⟩

/-- **Trimming takes blanks off the first line that is not blank and off the last one**, and all
lines around them. -/
theorem exists_codeLines_trim {t : Text} (ht : isPaired t = true) :
    ∃ lead trail, (∀ c ∈ lead, isHorizontal c = true) ∧ (∀ c ∈ trail, isHorizontal c = true) ∧
      ∀ b, atLineEnd b = true → (∀ c ∈ b, isBlank c = true) →
        codeLines (lead ++ (trim t ++ (trail ++ b))) = codeLines t := by
  by_cases hnil : trim t = []
  · refine ⟨[], [], by simp, by simp, fun b _ hb => ?_⟩
    rw [hnil, codeLines_eq_nil (trim_eq_nil.mp hnil)]
    exact codeLines_eq_nil hb
  · obtain ⟨x, y, hparts, hx, hy⟩ := exists_eq_append_trim t
    have hsolid := isSolid_trim hnil
    obtain ⟨above, lead, rfl, habove, hlead⟩ := exists_atLineStart_append
      (isPaired_of_startsSolid (startsSolid_append hsolid) (hparts ▸ ht))
    obtain ⟨trail, below, rfl, htrail, hbelow⟩ := exists_append_atLineEnd
      (isPaired_of_suffix ((List.suffix_append (trim t) y).trans ⟨_, hparts.symm⟩) ht)
    have hlast : (trim t ++ trail).getLast? ≠ some '\r' := by
      rcases List.eq_nil_or_concat' trail with rfl | ⟨k, c, rfl⟩
      · intro h
        have hend := endsSolid_trim t
        rw [List.append_nil] at h
        rw [endsSolid, h] at hend
        cases hend
      · simpa [← List.append_assoc] using (ne_of_isInline htrail (by simp)).2
    have hcore : isPaired (lead ++ (trim t ++ trail)) = true := by
      rw [isPaired_inline_append hlead]
      refine isPaired_of_getLast? (t := below) hlast (isPaired_of_suffix ⟨above ++ lead, ?_⟩ ht)
      rw [List.append_assoc (trim t), ← hparts]
    refine ⟨lead, trail, ?_, ?_, fun b hend hb => ?_⟩
    · exact fun c hc => isHorizontal_of_isInline hlead hc (hx c (List.mem_append_right _ hc))
    · exact fun c hc => isHorizontal_of_isInline htrail hc (hy c (List.mem_append_left _ hc))
    · have hkeep : ∀ b, atLineEnd b = true → (∀ c ∈ b, isBlank c = true) →
          codeLines (lead ++ (trim t ++ (trail ++ b))) = codeLines (lead ++ (trim t ++ trail)) := by
        intro b hend hb
        have h := contentsWith_append_of_atLineEnd (f := fun k => !k.all isBlank) rfl hcore hend
        simp only [List.append_assoc] at h
        rw [codeLines, h, ← codeLines, ← codeLines, codeLines_eq_nil hb, List.append_nil]
      have habove : codeLines t = codeLines (lead ++ (trim t ++ (trail ++ below))) := by
        conv_lhs => rw [hparts, List.append_assoc]
        rw [codeLines, contentsWith_append_of_atLineStart _ habove, ← codeLines, ← codeLines,
          codeLines_eq_nil fun c hc => hx c (List.mem_append_left _ hc), List.nil_append]
      rw [habove, hkeep b hend hb, hkeep below hbelow fun c hc => hy c (List.mem_append_right _ hc)]

end Delog.Removal
