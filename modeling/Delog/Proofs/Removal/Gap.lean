import Delog.Proofs.Text.Paired
import Delog.Removal.Gap

/-!
# Proofs/Removal/Gap — what closing a gap takes

A gap is closed by taking blanks from the end of the text before it and from the start of the text
after it.  What is taken depends on little of either: before the gap on the last line, after it on
what stands up to the first line break or the first character that is not blank.

* `closeGap_parts`, `isPrefix_closeGap` — what stays are an initial and a final segment
* `exists_closeGap_of_isSolid` — behind a solid segment
* `exists_closeGap_of_isStop`, `closeGap_of_startsSolid` — in front of what stops the blanks
* `closeGap_of_line` — on a line of its own
-/

namespace Delog.Removal

open Text

/-! ## Horizontal blanks at the end of a text -/

/-- **Whether no horizontal blank ends a text.** -/
def endsFlush (s : Text) : Bool := s.getLast?.all fun c => !isHorizontal c

theorem isHorizontal_eq_false {c : Char} (hc : isBlank c = false) : isHorizontal c = false := by
  simp [isHorizontal, hc]

theorem endsFlush_of_endsSolid {s : Text} (hs : endsSolid s = true) : endsFlush s = true := by
  rw [endsFlush, Option.all_eq_true]
  intro c hc
  rw [endsSolid, Option.all_eq_true] at hs
  simpa using isHorizontal_eq_false (by simpa using hs c hc)

theorem endsFlush_of_atLineStart {s : Text} (hs : atLineStart s = true) : endsFlush s = true := by
  rw [endsFlush, Option.all_eq_true]
  intro c hc
  rw [atLineStart, Option.all_eq_true] at hs
  rw [beq_iff_eq.mp (hs c hc), isHorizontal_newline, Bool.not_false]

theorem endsFlush_append_of_isStop {u : Text} (hu : IsStop u) (p : Text) :
    endsFlush (p ++ u) = true := by
  rcases hu with ⟨e, rfl⟩ | ⟨c, rfl, hc⟩
  · cases e <;> simp [endsFlush, LineEnding.text]
  · simp [endsFlush, isHorizontal_eq_false hc]

/-- **Horizontal blanks at the end go only up to a flush end.** -/
theorem dropEndWhile_append_of_endsFlush {a : Text} (ha : endsFlush a = true) (s : Text) :
    dropEndWhile isHorizontal (a ++ s) = a ++ dropEndWhile isHorizontal s := by
  have hrev : a.reverse.dropWhile isHorizontal = a.reverse := by
    rcases List.eq_nil_or_concat' a with rfl | ⟨b, c, rfl⟩
    · rfl
    · simp only [endsFlush, List.getLast?_append, List.getLast?_singleton, Option.some_or,
        Option.all_some, Bool.not_eq_true'] at ha
      simp [ha]
  rw [dropEndWhile, List.reverse_append, List.dropWhile_append, hrev, dropEndWhile]
  split
  · rename_i h
    rw [List.isEmpty_iff.mp h, List.reverse_nil, List.append_nil, List.reverse_reverse]
  · rw [List.reverse_append, List.reverse_reverse]

theorem dropEndWhile_of_endsFlush {s : Text} (hs : endsFlush s = true) :
    dropEndWhile isHorizontal s = s := by
  simpa using dropEndWhile_append_of_endsFlush hs []

theorem dropEndWhile_append_horizontal {w : Text} (hw : ∀ c ∈ w, isHorizontal c = true)
    (s : Text) : dropEndWhile isHorizontal (s ++ w) = dropEndWhile isHorizontal s := by
  rw [dropEndWhile, List.reverse_append, List.dropWhile_append_of_pos (by simpa using hw),
    dropEndWhile]

theorem dropEndWhile_isPrefix (p : Char → Bool) (s : Text) : dropEndWhile p s <+: s :=
  ⟨takeEndWhile p s, dropEndWhile_append_takeEndWhile p s⟩

/-! ## What stays of the text before and after -/

theorem afterBreak?_isSuffix (s : Text) : (afterBreak? s).getD s <:+ s := by
  cases h : afterBreak? s with
  | none => exact List.suffix_rfl
  | some t =>
    obtain ⟨e, he⟩ := exists_ending_of_afterBreak? h
    exact ⟨e.text, he.symm⟩

/-- **A gap is closed by taking the end of the text before it and the start of the text after
it.** -/
theorem closeGap_parts (before after : Text) :
    (closeGap before after).1 <+: before ∧ (closeGap before after).2 <:+ after := by
  have hdrop := List.dropWhile_suffix isHorizontal (l := after)
  simp only [closeGap]
  split
  · split
    · exact ⟨dropEndWhile_isPrefix _ before, (afterBreak?_isSuffix _).trans hdrop⟩
    · exact ⟨dropEndWhile_isPrefix _ before, hdrop⟩
  · exact ⟨List.prefix_rfl, hdrop⟩

/-- What stands before the blanks that a gap may take is not touched. -/
theorem isPrefix_closeGap {p before after : Text} (hp : p <+: before)
    (hblank : atLineEnd (after.dropWhile isHorizontal) = true →
      p <+: dropEndWhile isHorizontal before) : p <+: (closeGap before after).1 := by
  simp only [closeGap]
  split
  · rename_i hend
    split <;> exact hblank hend
  · exact hp

/-- A flush end stops what a gap takes before it. -/
theorem isPrefix_closeGap_of_endsFlush {p : Text} (hp : endsFlush p = true) (gap after : Text) :
    p <+: (closeGap (p ++ gap) after).1 :=
  isPrefix_closeGap (List.prefix_append p gap) fun _ =>
    dropEndWhile_append_of_endsFlush hp gap ▸ List.prefix_append p _

/-! ## Blanks next to a gap -/

/-- Horizontal blanks at the start of the text after a gap go in any case. -/
theorem closeGap_horizontal_append {w : Text} (hw : ∀ c ∈ w, isHorizontal c = true)
    (before after : Text) : closeGap before (w ++ after) = closeGap before after := by
  simp only [closeGap, List.dropWhile_append_of_pos hw]

theorem closeGap_dropWhile (before after : Text) :
    closeGap before (after.dropWhile isHorizontal) = closeGap before after := by
  have h := closeGap_horizontal_append (w := after.takeWhile isHorizontal)
    (fun c hc => List.all_eq_true.mp List.all_takeWhile c hc) before (after.dropWhile isHorizontal)
  rw [List.takeWhile_append_dropWhile] at h
  exact h.symm

/-- A line does not start behind a solid segment. -/
theorem atLineStart_of_isSolid {u : Text} (hu : isSolid u = true) (p : Text) :
    atLineStart (p ++ u) = false := by
  obtain ⟨t, c, rfl, hc⟩ := exists_append_of_isSolid hu
  simp [atLineStart, ← List.append_assoc, ne_newline_of_isBlank_eq_false hc]

/-- **Behind a solid segment a gap is closed up to that segment at most**, and takes no line
break. -/
theorem exists_closeGap_of_isSolid {u w : Text} (hu : isSolid u = true)
    (hw : ∀ c ∈ w, isHorizontal c = true) (p after : Text) :
    ∃ w', (∀ c ∈ w', isHorizontal c = true) ∧
      closeGap (p ++ (u ++ w)) after = (p ++ (u ++ w'), after.dropWhile isHorizontal) := by
  have hkept : dropEndWhile isHorizontal (p ++ (u ++ w)) = p ++ u := by
    rw [← List.append_assoc, dropEndWhile_append_horizontal hw,
      dropEndWhile_of_endsFlush (endsFlush_of_endsSolid (endsSolid_append hu))]
  simp only [closeGap, hkept, atLineStart_of_isSolid hu p, Bool.false_eq_true, if_false]
  split
  · exact ⟨[], by simp, by simp⟩
  · exact ⟨w, hw, rfl⟩

/-! ## In front of what stops the blanks -/

/-- **In front of a line break or a character that is not blank**, what a gap takes does not depend
on what follows it. -/
theorem exists_closeGap_of_isStop {w u : Text} (hw : ∀ c ∈ w, isHorizontal c = true)
    (hu : IsStop u) (before : Text) :
    ∃ g h k, w ++ u = h ++ k ∧ ∀ t, closeGap before (w ++ (u ++ t)) = (g, k ++ t) := by
  simp only [closeGap_horizontal_append hw]
  rcases hu with ⟨e, rfl⟩ | ⟨c, rfl, hc⟩
  · have hdrop : ∀ t, (e.text ++ t).dropWhile isHorizontal = e.text ++ t := fun t => by
      cases e <;> simp [LineEnding.text]
    have hbreak : ∀ t, afterBreak? (e.text ++ t) = some t := fun t => by
      cases e <;> rfl
    simp only [closeGap, hdrop, hbreak, atLineEnd, Option.isSome_some, Bool.or_true, if_true,
      Option.getD_some]
    split
    · exact ⟨_, w ++ e.text, [], by simp, fun t => rfl⟩
    · exact ⟨_, w, e.text, rfl, fun t => rfl⟩
  · refine ⟨before, w, [c], rfl, fun t => ?_⟩
    simp [closeGap, isHorizontal_eq_false hc, atLineEnd, afterBreak?_cons_eq_none hc]

/-- **The line goes as a whole** when nothing but horizontal blanks is left on it. -/
theorem closeGap_of_line {u w w' v : Text} (hu : atLineStart u = true)
    (hw : ∀ c ∈ w, isHorizontal c = true) (hw' : ∀ c ∈ w', isHorizontal c = true)
    {e : Option LineEnding} (he : e = none → v = []) :
    closeGap (u ++ w) (w' ++ ((e.map LineEnding.text).getD [] ++ v)) = (u, v) := by
  have hkept : dropEndWhile isHorizontal (u ++ w) = u := by
    rw [dropEndWhile_append_horizontal hw,
      dropEndWhile_of_endsFlush (endsFlush_of_atLineStart hu)]
  rw [closeGap_horizontal_append hw']
  cases e with
  | none => simp [closeGap, hkept, hu, he rfl, atLineEnd, afterBreak?]
  | some e => cases e <;> simp [closeGap, hkept, hu, atLineEnd, LineEnding.text, afterBreak?]

/-- In front of a solid text a gap takes horizontal blanks only. -/
theorem closeGap_of_startsSolid {w z : Text} (hw : ∀ c ∈ w, isHorizontal c = true)
    (hz : startsSolid z = true) (hne : z ≠ []) (before : Text) :
    closeGap before (w ++ z) = (before, z) := by
  obtain ⟨c, t, rfl, hc⟩ := (eq_nil_or_of_startsSolid hz).resolve_left hne
  rw [closeGap_horizontal_append hw]
  simp [closeGap, isHorizontal_eq_false hc, atLineEnd, afterBreak?_cons_eq_none hc]

end Delog.Removal
