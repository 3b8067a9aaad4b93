import Delog.Proofs.Removal.Upkeep

/-!
# Proofs/Removal/Settle — what tidying makes of a solid segment

Tidying goes over the whole text and knows nothing of the code in it.  It works on the stretches
between solid characters, so that a segment with solid ends comes out the same wherever it stands.

* `IsLocal`, `IsLocal.exists_append_append` — a pass over a text that works between solid characters
* `isLocal_settle` — emptying blank lines and collapsing runs of line breaks are such passes
* `exists_tidy_append` — what tidying makes of a segment and of what is around it
-/

namespace Delog.Removal

open Text

/-- Emptying the blank lines of a text and collapsing its runs of line breaks. -/
def settle (ending : LineEnding) (s : Text) : Text := collapseBreaks ending (emptyBlankLines s)

/-! ## Local passes -/

/-- **A local pass over a text** keeps its solid characters, and what it makes of the text on one
side of such a character does not depend on the other side. -/
structure IsLocal (f : Text → Text) : Prop where
  exists_append : ∀ {c : Char}, isBlank c = false → ∀ p, ∃ p', ∀ t,
    f (p ++ c :: t) = p' ++ f (c :: t)
  exists_cons : ∀ {c : Char}, isBlank c = false → ∀ t, ∃ t', f (c :: t) = c :: t'
  singleton : ∀ {c : Char}, isBlank c = false → f [c] = [c]
  nonblank_eq : ∀ s, nonblank (f s) = nonblank s

namespace IsLocal

variable {f g : Text → Text}

theorem comp (hg : IsLocal g) (hf : IsLocal f) : IsLocal (g ∘ f) where
  exists_append := by
    intro c hc p
    obtain ⟨q, hq⟩ := hf.exists_append hc p
    obtain ⟨r, hr⟩ := hg.exists_append hc q
    refine ⟨r, fun t => ?_⟩
    obtain ⟨u, hu⟩ := hf.exists_cons hc t
    rw [Function.comp_apply, hq, hu, hr, Function.comp_apply, hu]
  exists_cons := by
    intro c hc t
    obtain ⟨u, hu⟩ := hf.exists_cons hc t
    obtain ⟨v, hv⟩ := hg.exists_cons hc u
    exact ⟨v, by rw [Function.comp_apply, hu, hv]⟩
  singleton := by
    intro c hc
    rw [Function.comp_apply, hf.singleton hc, hg.singleton hc]
  nonblank_eq := fun s => (hg.nonblank_eq (f s)).trans (hf.nonblank_eq s)

/-- **A local pass makes the same of a solid segment wherever it stands.** -/
theorem exists_append_append (hf : IsLocal f) {a : Text} (ha : isSolid a = true) (p z : Text) :
    ∃ p' z', f (p ++ (a ++ z)) = p' ++ (f a ++ z') ∧ isSolid (f a) = true ∧
      nonblank p' = nonblank p ∧ nonblank z' = nonblank z := by
  obtain ⟨c, t, hfirst, hc⟩ := exists_cons_of_isSolid ha
  obtain ⟨u, d, hlast, hd⟩ := exists_append_of_isSolid ha
  obtain ⟨p', hp'⟩ := hf.exists_append hc p
  obtain ⟨u', hu'⟩ := hf.exists_append hd u
  obtain ⟨z', hz'⟩ := hf.exists_cons hd z
  obtain ⟨t', ht'⟩ := hf.exists_cons hc t
  have hsegment : f a = u' ++ [d] := by
    rw [hlast, hu', hf.singleton hd]
  have htext : f (p ++ (a ++ z)) = p' ++ (f a ++ z') := by
    have hright : f (a ++ z) = f a ++ z' := by
      rw [hsegment, hlast, List.append_assoc, List.singleton_append, hu', hz', List.append_assoc,
        List.singleton_append]
    rw [← hright, hfirst, List.cons_append, hp']
  have hbefore : nonblank p' = nonblank p := by
    have h := hf.nonblank_eq (p ++ [c])
    rw [hp', hf.singleton hc, nonblank_append, nonblank_append] at h
    exact List.append_cancel_right h
  refine ⟨p', z', htext, ?_, hbefore, ?_⟩
  · have hstart : startsSolid (f a) = true := by
      rw [hfirst, ht']
      exact startsSolid_cons hc t'
    have hend : endsSolid (f a) = true := by
      rw [hsegment]
      simp [endsSolid, hd]
    rw [isSolid, hstart, hend, hsegment]
    simp
  · have h := hf.nonblank_eq (p ++ (a ++ z))
    rw [htext, nonblank_append, nonblank_append, nonblank_append, nonblank_append, hbefore,
      hf.nonblank_eq] at h
    exact List.append_cancel_left (List.append_cancel_left h)

end IsLocal

/-! ## Both passes of tidying are local -/

/-- The line that a solid character stands on starts with what is before the character, whatever
comes after. -/
private theorem exists_lines_append {c : Char} (hc : isBlank c = false) (p : Text) :
    ∃ ls k, ∀ t d e rest, lines (c :: t) = ⟨d, e⟩ :: rest →
      lines (p ++ c :: t) = ls ++ ⟨k ++ d, e⟩ :: rest := by
  induction p using break_induction with
  | nil => exact ⟨[], [], fun t d e rest h => h⟩
  | ending b p ih =>
    obtain ⟨ls, k, hls⟩ := ih
    refine ⟨⟨[], some b⟩ :: ls, k, fun t d e rest h => ?_⟩
    rw [List.append_assoc, lines_ending_append, hls t d e rest h]
    rfl
  | char a p ha ih =>
    obtain ⟨ls, k, hls⟩ := ih
    have hcons : ∀ t, afterBreak? (a :: (p ++ c :: t)) = none := fun t =>
      afterBreak?_cons_append ha (startsSolid_cons hc t)
    cases ls with
    | nil =>
      refine ⟨[], a :: k, fun t d e rest h => ?_⟩
      rw [List.cons_append, lines_cons (hcons t), hls t d e rest h]
      rfl
    | cons l ls =>
      refine ⟨⟨a :: l.content, l.ending⟩ :: ls, k, fun t d e rest h => ?_⟩
      rw [List.cons_append, lines_cons (hcons t), hls t d e rest h]
      rfl

private theorem exists_lines_cons {c : Char} (hc : isBlank c = false) (t : Text) :
    ∃ d e rest, lines (c :: t) = ⟨c :: d, e⟩ :: rest := by
  rw [lines_cons (afterBreak?_cons_eq_none hc t)]
  cases lines t with
  | nil => exact ⟨[], none, [], rfl⟩
  | cons l ls => exact ⟨l.content, l.ending, ls, rfl⟩

private theorem emptied_of_mem {c : Char} (hc : isBlank c = false) {l : Line} (h : c ∈ l.content) :
    emptied l = l := by
  rw [emptied, if_neg]
  intro hall
  have := isBlank_of_isHorizontal (List.all_eq_true.mp hall c h)
  rw [hc] at this
  cases this

/-- **Emptying blank lines is local.** -/
theorem isLocal_emptyBlankLines : IsLocal emptyBlankLines where
  exists_append := by
    intro c hc p
    obtain ⟨ls, k, hls⟩ := exists_lines_append hc p
    refine ⟨unlines (ls.map emptied) ++ k, fun t => ?_⟩
    obtain ⟨d, e, rest, ht⟩ := exists_lines_cons hc t
    rw [emptyBlankLines, emptyBlankLines, hls t _ e rest ht, ht, List.map_append, List.map_cons,
      List.map_cons, emptied_of_mem hc (by simp), emptied_of_mem hc (by simp)]
    simp [unlines, Line.text]
  exists_cons := by
    intro c hc t
    obtain ⟨d, e, rest, ht⟩ := exists_lines_cons hc t
    rw [emptyBlankLines, ht, List.map_cons, emptied_of_mem hc (by simp)]
    exact ⟨_, rfl⟩
  singleton := by
    intro c hc
    rw [emptyBlankLines, lines_cons (afterBreak?_cons_eq_none hc [])]
    simp only [lines, List.map_cons, List.map_nil]
    rw [emptied_of_mem hc (by simp)]
    rfl
  nonblank_eq := by
    intro s
    rw [← nonblank_layout, layout_emptyBlankLines, nonblank_layout]

private theorem exists_collapseFrom_append (ending : LineEnding) {c : Char} (hc : isBlank c = false)
    (run : List LineEnding) (p : Text) :
    ∃ p', ∀ t, collapseFrom ending run (p ++ c :: t) = p' ++ c :: collapseFrom ending [] t := by
  induction p using break_induction generalizing run with
  | nil =>
    exact ⟨settleRun ending run, fun t =>
      collapseFrom_cons ending run (afterBreak?_cons_eq_none hc t)⟩
  | ending b p ih =>
    obtain ⟨p', hp'⟩ := ih (run ++ [b])
    exact ⟨p', fun t => by rw [List.append_assoc, collapseFrom_ending_append, hp']⟩
  | char a p ha ih =>
    obtain ⟨p', hp'⟩ := ih []
    refine ⟨settleRun ending run ++ a :: p', fun t => ?_⟩
    have hcons := afterBreak?_cons_append ha (startsSolid_cons hc t)
    rw [List.cons_append, collapseFrom_cons ending run hcons, hp', List.append_assoc,
      List.cons_append]

theorem collapseBreaks_cons (ending : LineEnding) {c : Char} (hc : isBlank c = false) (t : Text) :
    collapseBreaks ending (c :: t) = c :: collapseBreaks ending t :=
  collapseFrom_cons ending [] (afterBreak?_cons_eq_none hc t)

/-- **Collapsing runs of line breaks is local.** -/
theorem isLocal_collapseBreaks (ending : LineEnding) : IsLocal (collapseBreaks ending) where
  exists_append := by
    intro c hc p
    obtain ⟨p', hp'⟩ := exists_collapseFrom_append ending hc [] p
    exact ⟨p', fun t => by rw [collapseBreaks_cons ending hc, collapseBreaks, hp']; rfl⟩
  exists_cons := by
    intro c hc t
    exact ⟨_, collapseBreaks_cons ending hc t⟩
  singleton := by
    intro c hc
    rw [collapseBreaks_cons ending hc]
    rfl
  nonblank_eq := by
    intro s
    rw [← nonblank_layout, layout_collapseBreaks, nonblank_layout]

theorem isLocal_settle (ending : LineEnding) : IsLocal (settle ending) :=
  (isLocal_collapseBreaks ending).comp isLocal_emptyBlankLines

/-! ## Tidying around a solid segment -/

private theorem nonblank_trimStart (s : Text) : nonblank (trimStart s) = nonblank s := by
  have h := congrArg nonblank (List.takeWhile_append_dropWhile (p := isBlank) (l := s))
  rwa [nonblank_append, nonblank_eq_nil List.all_takeWhile, List.nil_append] at h

private theorem nonblank_trimEnd (s : Text) : nonblank (trimEnd s) = nonblank s := by
  have h := congrArg nonblank (dropEndWhile_append_takeEndWhile isBlank s)
  rwa [nonblank_append, nonblank_eq_nil (all_takeEndWhile isBlank s), List.append_nil] at h

/-- Trimming takes nothing from a solid segment, and nothing behind it from the text before it. -/
theorem trim_append_append {a : Text} (ha : isSolid a = true) (p z : Text) :
    trim (p ++ (a ++ z)) = trimStart p ++ (a ++ trimEnd z) := by
  rw [trim, trimStart, dropWhile_append_of_startsSolid (fun _ h => h) (startsSolid_append ha),
    ← List.append_assoc, trimEnd,
    dropEndWhile_append_of_endsSolid (fun _ h => h) (endsSolid_append ha), List.append_assoc]
  rfl

/-- **Tidying settles a solid segment where it stands**, and keeps the characters around it. -/
theorem exists_tidy_append (given : Text) {a : Text} (ha : isSolid a = true) (p z : Text) :
    ∃ p' z', tidy given (p ++ (a ++ z)) = p' ++ (settle (LineEnding.detect given) a ++ z') ∧
      nonblank p' = nonblank p ∧ nonblank z' = nonblank z := by
  obtain ⟨q, y, hsettle, hsolid, hq, hy⟩ :=
    (isLocal_settle (LineEnding.detect given)).exists_append_append ha p z
  refine ⟨trimStart q, trimEnd y ++ finalBreak given, ?_, ?_, ?_⟩
  · rw [settle] at hsettle
    rw [tidy, hsettle, trim_append_append hsolid]
    simp only [List.append_assoc]
  · rw [nonblank_trimStart, hq]
  · have hbreak : nonblank (finalBreak given) = [] :=
      nonblank_eq_nil (List.all_eq_true.mpr fun c hc => isBlank_of_mem_finalBreak hc)
    rw [nonblank_append, nonblank_trimEnd, hbreak, List.append_nil, hy]

end Delog.Removal
