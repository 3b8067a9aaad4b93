import Delog.Proofs.Removal.Excise

/-!
# Proofs/Removal/Upkeep — tidying a text keeps its skeleton

Each pass of tidying takes or writes white space only, and where it takes line breaks it leaves one.

* `skeleton_tidy` — a tidied text has the skeleton it had
* `exists_edit` — an edited text has the skeleton of the text without the ranges
-/

namespace Delog.Removal

open Text

theorem layout_ending_append (e : LineEnding) (s : Text) :
    layout (e.text ++ s) = breakBefore (layout s) := by
  cases e with
  | lf => rfl
  | crlf =>
    rw [LineEnding.text, List.cons_append, layout_cons_of_isBlank (by decide) (by decide)]
    rfl

/-! ## The passes of tidying -/

private theorem layout_emptied_append (l : Line) (s : Text) :
    layout ((emptied l).text ++ s) = layout (l.text ++ s) := by
  rw [emptied]
  split
  · rename_i h
    rw [Line.text, Line.text, List.nil_append, List.append_assoc]
    exact (layout_horizontal_append (List.all_eq_true.mp h) _).symm
  · rfl

/-- **Emptying the blank lines keeps the layout.** -/
theorem layout_emptyBlankLines (s : Text) : layout (emptyBlankLines s) = layout s := by
  have hlines : ∀ ls : List Line, layout (unlines (ls.map emptied)) = layout (unlines ls) := by
    intro ls
    induction ls with
    | nil => rfl
    | cons l ls ih =>
      have hcons : ∀ (l : Line) ls, unlines (l :: ls) = l.text ++ unlines ls := fun _ _ => rfl
      rw [List.map_cons, hcons, hcons, layout_emptied_append]
      exact layout_append_congr ih _
  rw [emptyBlankLines, hlines, unlines_lines]

private theorem layout_run_append {run : List LineEnding} (h : run ≠ []) (s : Text) :
    layout (run.flatMap LineEnding.text ++ s) = breakBefore (layout s) := by
  induction run with
  | nil => exact absurd rfl h
  | cons e run ih =>
    rw [List.flatMap_cons, List.append_assoc, layout_ending_append]
    cases run with
    | nil => rfl
    | cons e' run => rw [ih (List.cons_ne_nil _ _), breakBefore_breakBefore]

private theorem layout_settleRun_append (ending : LineEnding) (run : List LineEnding) (s : Text) :
    layout (settleRun ending run ++ s) = layout (run.flatMap LineEnding.text ++ s) := by
  rw [settleRun]
  split
  · rename_i h
    have hne : run ≠ [] := by
      rintro rfl
      simp at h
    rw [List.append_assoc, layout_ending_append, layout_ending_append, layout_run_append hne,
      breakBefore_breakBefore]
  · rfl

@[simp] theorem collapseFrom_ending_append (ending : LineEnding) (run : List LineEnding)
    (e : LineEnding) (s : Text) :
    collapseFrom ending run (e.text ++ s) = collapseFrom ending (run ++ [e]) s := by
  cases e with
  | lf => rw [LineEnding.text, List.singleton_append, collapseFrom]
  | crlf => rw [LineEnding.text, List.cons_append, List.singleton_append, collapseFrom]

/-- A character that starts no line break ends the run before it. -/
theorem collapseFrom_cons (ending : LineEnding) (run : List LineEnding) {c : Char} {s : Text}
    (hc : afterBreak? (c :: s) = none) :
    collapseFrom ending run (c :: s) = settleRun ending run ++ c :: collapseFrom ending [] s := by
  obtain ⟨hn, hr⟩ := ne_of_afterBreak?_cons hc
  rw [collapseFrom]
  exacts [hn, hr]

private theorem layout_collapseFrom (ending : LineEnding) (run : List LineEnding) (s : Text) :
    layout (collapseFrom ending run s) = layout (run.flatMap LineEnding.text ++ s) := by
  induction s using break_induction generalizing run with
  | nil => simpa [collapseFrom] using layout_settleRun_append ending run []
  | ending e s ih =>
    rw [collapseFrom_ending_append, ih, List.flatMap_append, List.flatMap_singleton,
      List.append_assoc]
  | char c s hc ih =>
    rw [collapseFrom_cons ending run hc, layout_settleRun_append]
    exact layout_append_congr (layout_append_congr (ih []) [c]) _

/-- **Collapsing runs of line breaks keeps the layout.** -/
theorem layout_collapseBreaks (ending : LineEnding) (s : Text) :
    layout (collapseBreaks ending s) = layout s :=
  layout_collapseFrom ending [] s

/-- **Trimming keeps the skeleton.** -/
theorem skeleton_trim (s : Text) : skeleton (trim s) = skeleton s := by
  have hend : ∀ t, layout (trimEnd t) = layout t := by
    intro t
    have h := layout_append_blank (List.all_eq_true.mp (all_takeEndWhile isBlank t))
      (dropEndWhile isBlank t)
    rw [dropEndWhile_append_takeEndWhile] at h
    exact h.symm
  have hstart := skeleton_blank_append
    (fun c hc => List.all_eq_true.mp (List.all_takeWhile (p := isBlank) (l := s)) c hc)
    (trimStart s)
  rw [trimStart, List.takeWhile_append_dropWhile] at hstart
  rw [trim, skeleton, hend]
  exact hstart.symm

theorem isBlank_of_mem_finalBreak {s : Text} {c : Char} (hc : c ∈ finalBreak s) :
    isBlank c = true := by
  rw [finalBreak] at hc
  split at hc
  · cases hc
  · cases hfinal : LineEnding.final s with
    | none => simp [hfinal] at hc
    | some e => exact isBlank_of_mem_ending (e := e) (by simpa [hfinal] using hc)

/-- **A tidied text has the skeleton it had.** -/
theorem skeleton_tidy (given edited : Text) : skeleton (tidy given edited) = skeleton edited := by
  rw [tidy, skeleton, layout_append_blank (fun c hc => isBlank_of_mem_finalBreak hc)]
  calc skeleton (trim (collapseBreaks (LineEnding.detect given) (emptyBlankLines edited)))
      = skeleton (collapseBreaks (LineEnding.detect given) (emptyBlankLines edited)) :=
        skeleton_trim _
    _ = skeleton (emptyBlankLines edited) := congrArg breakBefore (layout_collapseBreaks _ _)
    _ = skeleton edited := congrArg breakBefore (layout_emptyBlankLines _)

/-! ## Editing -/

section Ascending

variable {s : Text} {rs : List Removal} (hsolid : ∀ r ∈ rs, r.SolidIn s)
  (hpair : rs.Pairwise fun a b => a.stop ≤ b.start) (hne : rs ≠ [])
include hsolid hpair hne

/-- **Editing by solid ranges in ascending order** removes them from the last to the first, and
tidies. -/
theorem edit_eq : edit s rs = (runAll s rs.reverse).map (tidy s) := by
  have huntouched : ¬ leavesUntouched rs = true := by simpa [leavesUntouched] using hne
  have hfault := fault_sortDescending_eq_none hsolid hpair
  rw [sortDescending_eq_reverse hsolid hpair] at hfault
  rw [edit, if_neg huntouched]
  simp only [sortDescending_eq_reverse hsolid hpair, hfault]

/-- **Solid ranges in ascending order are removed**, and the text comes to the skeleton it has
without them. -/
theorem exists_edit :
    ∃ q, runAll s rs.reverse = .ok q ∧ edit s rs = .ok (tidy s q) ∧
      skeleton q = skeleton (without 0 s rs) := by
  obtain ⟨q, hq, hskel⟩ := exists_runAll (p := []) (z := []) rfl rfl (fits_of_pairwise hsolid hpair)
  simp only [List.nil_append, List.append_nil, size_nil] at hq hskel
  exact ⟨q, hq, by rw [edit_eq hsolid hpair hne, hq]; rfl, hskel⟩

end Ascending

end Delog.Removal
