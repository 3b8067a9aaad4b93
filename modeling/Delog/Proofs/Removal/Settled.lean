import Delog.Proofs.Removal.Settle
import Delog.Proofs.Text.Paired

/-!
# Proofs/Removal/Settled — which segments tidying leaves as they are

A segment goes through tidying unchanged when its blank lines are empty and no two of them are in a
row.  Any other segment is changed: emptying a line takes characters that the second pass does not
put back, and collapsing a run takes line breaks.

* `IsSettled` — the texts in which there is nothing to tidy
* `settle_eq_self_iff` — tidying leaves just these as they are
-/

namespace Delog.Removal

open Text

/-- **A text that tidying leaves as it is**, ends apart: its blank lines are empty, and no line
break is followed by two more. -/
structure IsSettled (s : Text) : Prop where
  eq_nil_of_blank : ∀ l ∈ lines s, l.content.all isHorizontal = true → l.content = []
  not_three_breaks : ∀ t, '\n' :: t <:+ s → (afterBreak? t).bind afterBreak? = none

/-! ## Counting what is on the lines -/

/-- The characters of a text that are no part of a line break. -/
private def inline (s : Text) : Text := s.filter fun c => c != '\n' && c != '\r'

private theorem inline_append (s t : Text) : inline (s ++ t) = inline s ++ inline t :=
  List.filter_append ..

private theorem inline_ending (e : LineEnding) : inline e.text = [] := by
  cases e <;> decide

private theorem inline_run (run : List LineEnding) : inline (run.flatMap LineEnding.text) = [] := by
  induction run with
  | nil => rfl
  | cons e run ih => rw [List.flatMap_cons, inline_append, inline_ending, ih, List.nil_append]

private theorem inline_settleRun (ending : LineEnding) (run : List LineEnding) :
    inline (settleRun ending run) = [] := by
  rw [settleRun]
  split
  · rw [inline_append, inline_ending, List.nil_append]
  · exact inline_run run

private theorem inline_collapseFrom (ending : LineEnding) (run : List LineEnding) (s : Text) :
    inline (collapseFrom ending run s) = inline s := by
  induction s using break_induction generalizing run with
  | nil => exact inline_settleRun ending run
  | ending e s ih =>
    rw [collapseFrom_ending_append, ih, inline_append, inline_ending, List.nil_append]
  | char c s hc ih =>
    have hcons : ∀ t, inline (c :: t) = inline [c] ++ inline t := fun t => inline_append [c] t
    rw [collapseFrom_cons ending run hc, inline_append, inline_settleRun, List.nil_append, hcons,
      ih, ← hcons]

private theorem emptied_eq_self_iff {l : Line} :
    emptied l = l ↔ (l.content.all isHorizontal = true → l.content = []) := by
  rw [emptied]
  split
  · rename_i h
    obtain ⟨content, ending⟩ := l
    simp only [Line.mk.injEq, and_true]
    exact ⟨fun hnil _ => hnil.symm, fun hnil => (hnil h).symm⟩
  · rename_i h
    exact ⟨fun _ hall => absurd hall h, fun _ => rfl⟩

private theorem length_inline_emptied_lt {l : Line} (h : emptied l ≠ l) :
    (inline (emptied l).text).length < (inline l.text).length := by
  rw [ne_eq, emptied_eq_self_iff, Classical.not_imp] at h
  obtain ⟨hall, hne⟩ := h
  have hcontent : inline l.content = l.content := by
    refine List.filter_eq_self.mpr fun c hc => ?_
    have hc := List.all_eq_true.mp hall c hc
    simp only [isHorizontal, Bool.and_eq_true] at hc
    rw [hc.1.2, hc.2, Bool.and_self]
  have hpos := List.length_pos_iff.mpr hne
  rw [emptied, if_pos hall, Line.text, Line.text, inline_append, inline_append, hcontent,
    List.length_append, List.length_append]
  simp only [inline, List.filter_nil, List.length_nil]
  omega

/-- Emptying lines takes characters, if it changes any line. -/
private theorem length_inline_emptied (ls : List Line) :
    (inline (unlines (ls.map emptied))).length ≤ (inline (unlines ls)).length ∧
      ((inline (unlines (ls.map emptied))).length = (inline (unlines ls)).length →
        ∀ l ∈ ls, emptied l = l) := by
  induction ls with
  | nil => exact ⟨Nat.le_refl _, fun _ _ hl => absurd hl List.not_mem_nil⟩
  | cons l ls ih =>
    have hcons : ∀ (l : Line) ls,
        inline (unlines (l :: ls)) = inline l.text ++ inline (unlines ls) := fun l ls =>
      inline_append l.text (unlines ls)
    rw [List.map_cons, hcons, hcons, List.length_append, List.length_append]
    by_cases hl : emptied l = l
    · rw [hl]
      refine ⟨by omega, fun h m hm => ?_⟩
      rcases List.mem_cons.mp hm with rfl | hm
      · exact hl
      · exact ih.2 (by omega) m hm
    · have := length_inline_emptied_lt hl
      exact ⟨by omega, fun h => absurd h (by omega)⟩

/-! ## Counting line breaks -/

/-- No line break is followed by two more. -/
private def FewBreaks (s : Text) : Prop :=
  ∀ t, '\n' :: t <:+ s → (afterBreak? t).bind afterBreak? = none

private theorem fewBreaks_cons {c : Char} (hc : c ≠ '\n') (s : Text) :
    FewBreaks (c :: s) ↔ FewBreaks s := by
  simp only [FewBreaks, List.suffix_cons_iff, List.cons.injEq, hc.symm, false_and, false_or]

private theorem fewBreaks_newline (s : Text) :
    FewBreaks ('\n' :: s) ↔ (afterBreak? s).bind afterBreak? = none ∧ FewBreaks s := by
  simp only [FewBreaks, List.suffix_cons_iff, List.cons.injEq, true_and, or_imp, forall_and,
    forall_eq]

private theorem fewBreaks_ending_append (e : LineEnding) (s : Text) :
    FewBreaks (e.text ++ s) ↔ (afterBreak? s).bind afterBreak? = none ∧ FewBreaks s := by
  cases e with
  | lf => exact fewBreaks_newline s
  | crlf => exact (fewBreaks_cons (by decide) _).trans (fewBreaks_newline s)

/-- A run of line breaks may be two long. -/
private theorem fewBreaks_run_append {s : Text} (hs : afterBreak? s = none)
    (run : List LineEnding) :
    FewBreaks (run.flatMap LineEnding.text ++ s) ↔ run.length < 3 ∧ FewBreaks s := by
  induction run with
  | nil => simp
  | cons e run ih =>
    rw [List.flatMap_cons, List.append_assoc, fewBreaks_ending_append, ih]
    match run with
    | [] => simp [hs]
    | [e₁] => simp [hs]
    | e₁ :: e₂ :: run => simp

private theorem count_ending (e : LineEnding) : e.text.count '\n' = 1 := by
  cases e <;> decide

private theorem count_run (run : List LineEnding) :
    (run.flatMap LineEnding.text).count '\n' = run.length := by
  induction run with
  | nil => rfl
  | cons e run ih =>
    rw [List.flatMap_cons, List.count_append, ih, count_ending, List.length_cons, Nat.add_comm]

private theorem count_settleRun_le (ending : LineEnding) (run : List LineEnding) :
    (settleRun ending run).count '\n' ≤ run.length ∧
      ((settleRun ending run).count '\n' = run.length → run.length < 3) := by
  rw [settleRun]
  split
  · rw [List.count_append, count_ending]
    omega
  · rw [count_run]
    omega

private theorem count_collapseFrom_le (ending : LineEnding) (run : List LineEnding) (s : Text) :
    (collapseFrom ending run s).count '\n' ≤ run.length + s.count '\n' := by
  induction s using break_induction generalizing run with
  | nil => simpa [collapseFrom] using (count_settleRun_le ending run).1
  | ending e s ih =>
    have h := ih (run ++ [e])
    rw [List.length_append, List.length_singleton] at h
    rw [collapseFrom_ending_append, List.count_append, count_ending]
    omega
  | char c s hc ih =>
    have hrun := (count_settleRun_le ending run).1
    have hrest := ih []
    rw [List.length_nil] at hrest
    rw [collapseFrom_cons ending run hc, List.count_append, List.count_cons, List.count_cons]
    omega

private theorem settleRun_eq_iff (ending : LineEnding) (run : List LineEnding) :
    settleRun ending run = run.flatMap LineEnding.text ↔ run.length < 3 := by
  constructor
  · intro h
    refine (count_settleRun_le ending run).2 ?_
    rw [h, count_run]
  · intro h
    rw [settleRun, if_neg (by omega)]

/-- Collapsing keeps a text just when no line break is followed by two more. -/
private theorem collapseFrom_eq_iff (ending : LineEnding) (run : List LineEnding) (s : Text) :
    collapseFrom ending run s = run.flatMap LineEnding.text ++ s ↔
      FewBreaks (run.flatMap LineEnding.text ++ s) := by
  induction s using break_induction generalizing run with
  | nil =>
    have hnil : FewBreaks [] := fun t ht => by simp at ht
    rw [fewBreaks_run_append rfl, List.append_nil, collapseFrom, settleRun_eq_iff]
    exact (and_iff_left hnil).symm
  | ending e s ih =>
    have h := ih (run ++ [e])
    rw [List.flatMap_append, List.flatMap_singleton, List.append_assoc] at h
    rwa [collapseFrom_ending_append]
  | char c s hc ih =>
    have hne : c ≠ '\n' := by
      rintro rfl
      cases hc
    have ih : collapseFrom ending [] s = s ↔ FewBreaks s := ih []
    rw [collapseFrom_cons ending run hc, fewBreaks_run_append hc, fewBreaks_cons hne, ← ih]
    constructor
    · intro h
      have hcount := congrArg (List.count '\n') h
      simp only [List.count_append, List.count_cons, count_run] at hcount
      obtain ⟨hle, hlt⟩ := count_settleRun_le ending run
      have hrest := count_collapseFrom_le ending [] s
      rw [List.length_nil] at hrest
      have hrun : run.length < 3 := hlt (by omega)
      rw [(settleRun_eq_iff ending run).mpr hrun] at h
      exact ⟨hrun, (List.cons.inj (List.append_cancel_left h)).2⟩
    · rintro ⟨hrun, hrest⟩
      rw [(settleRun_eq_iff ending run).mpr hrun, hrest]

/-- A run of line breaks becomes one of two at most, which is empty only if the run was. -/
theorem exists_settleRun_eq (ending : LineEnding) (run : List LineEnding) :
    ∃ left : List LineEnding, settleRun ending run = left.flatMap LineEnding.text ∧
      left.length < 3 ∧ (left = [] ↔ run = []) := by
  rw [settleRun]
  split
  · rename_i h
    refine ⟨[ending, ending], by simp, Nat.lt_succ_self 2, ?_⟩
    simp only [List.cons_ne_nil, false_iff]
    rintro rfl
    cases h
  · exact ⟨run, rfl, by omega, Iff.rfl⟩

/-- **Collapsing leaves no three line breaks in a row** in a paired text. -/
theorem not_three_breaks_collapseBreaks (ending : LineEnding) {s : Text} (hs : isPaired s = true) :
    ∀ t, '\n' :: t <:+ collapseBreaks ending s → (afterBreak? t).bind afterBreak? = none := by
  suffices h : ∀ run, FewBreaks (collapseFrom ending run s) from h []
  have hnil : FewBreaks [] := fun t ht => by simp at ht
  intro run
  obtain ⟨left, hleft, hlength, -⟩ := exists_settleRun_eq ending run
  induction s using break_induction generalizing run left with
  | nil =>
    rw [collapseFrom, hleft, ← List.append_nil (List.flatMap _ _), fewBreaks_run_append rfl]
    exact ⟨hlength, hnil⟩
  | ending e s ih =>
    rw [isPaired_ending_append] at hs
    obtain ⟨left, hleft, hlength, -⟩ := exists_settleRun_eq ending (run ++ [e])
    rw [collapseFrom_ending_append]
    exact ih hs _ _ hleft hlength
  | char c s hc ih =>
    obtain ⟨hn, hr⟩ := ne_of_isPaired hs hc
    rw [isPaired_cons hr] at hs
    rw [collapseFrom_cons ending run hc, hleft,
      fewBreaks_run_append (afterBreak?_cons_of_ne hn hr _), fewBreaks_cons hn]
    exact ⟨hlength, ih hs [] [] rfl (Nat.zero_lt_succ 2)⟩

/-- **Tidying leaves just the settled texts as they are**, ends apart. -/
theorem settle_eq_self_iff (ending : LineEnding) {s : Text} :
    settle ending s = s ↔ IsSettled s := by
  have hcollapse : collapseBreaks ending s = s ↔ FewBreaks s := collapseFrom_eq_iff ending [] s
  have hempty : (∀ l ∈ lines s, emptied l = l) → emptyBlankLines s = s := by
    intro h
    rw [emptyBlankLines, List.map_congr_left h, List.map_id', unlines_lines]
  constructor
  · intro h
    have hinline : inline (emptyBlankLines s) = inline s := by
      rw [← inline_collapseFrom ending [] (emptyBlankLines s)]
      exact congrArg inline h
    have hlines : ∀ l ∈ lines s, emptied l = l := by
      refine (length_inline_emptied (lines s)).2 ?_
      rw [unlines_lines]
      exact congrArg List.length hinline
    rw [settle, hempty hlines] at h
    exact ⟨fun l hl => emptied_eq_self_iff.mp (hlines l hl), hcollapse.mp h⟩
  · rintro ⟨hblank, hbreaks⟩
    rw [settle, hempty fun l hl => emptied_eq_self_iff.mpr (hblank l hl)]
    exact hcollapse.mpr hbreaks

end Delog.Removal
