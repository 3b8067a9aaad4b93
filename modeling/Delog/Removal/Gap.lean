import Delog.Text.Line

/-!
# Removal/Gap — closing the gap a deleted statement leaves

Deleting a statement leaves the text before it and the text after it.  The blanks between the
statement and its neighbours go with it, and a line it had to itself goes as a whole, line break
included.

* `nonblank_closeGap` — only blanks are lost
-/

namespace Delog.Removal

open Text

/-- Whether the end of the text is the beginning of a line. -/
def atLineStart (s : Text) : Bool := s.getLast?.all (· == '\n')

/-- Whether the beginning of the text is the end of a line: a line break, or nothing at all. -/
def atLineEnd (s : Text) : Bool := s.isEmpty || (afterBreak? s).isSome

/-- **What stays of the text before and after a deleted statement.**  The blanks after it go.  If
they reach the end of the line, so do the blanks before it; and if nothing else stood on the line,
its line break goes too. -/
def closeGap (before after : Text) : Text × Text :=
  let rest := after.dropWhile isHorizontal
  if atLineEnd rest then
    let kept := dropEndWhile isHorizontal before
    if atLineStart kept then (kept, (afterBreak? rest).getD rest) else (kept, rest)
  else (before, rest)

/-! ## What is lost -/

/-- The characters of a text that are not blank, in order. -/
def nonblank (s : Text) : Text := s.filter fun c => !isBlank c

@[simp] theorem nonblank_append (s t : Text) : nonblank (s ++ t) = nonblank s ++ nonblank t :=
  List.filter_append ..

theorem nonblank_eq_nil {s : Text} (h : s.all isBlank = true) : nonblank s = [] := by
  rw [nonblank, List.filter_eq_nil_iff]
  intro c hc
  simp [List.all_eq_true.mp h c hc]

theorem nonblank_dropHorizontal (s : Text) : nonblank (s.dropWhile isHorizontal) = nonblank s := by
  have h := congrArg nonblank (List.takeWhile_append_dropWhile (p := isHorizontal) (l := s))
  rw [nonblank_append, nonblank_eq_nil, List.nil_append] at h
  · exact h
  · rw [List.all_eq_true]
    exact fun c hc => isBlank_of_isHorizontal (List.all_eq_true.mp List.all_takeWhile c hc)

theorem nonblank_dropEndHorizontal (s : Text) :
    nonblank (dropEndWhile isHorizontal s) = nonblank s := by
  have h := congrArg nonblank (dropEndWhile_append_takeEndWhile isHorizontal s)
  rw [nonblank_append, nonblank_eq_nil (s := takeEndWhile isHorizontal s), List.append_nil] at h
  · exact h
  · rw [List.all_eq_true]
    exact fun c hc => isBlank_of_isHorizontal (List.all_eq_true.mp (all_takeEndWhile _ s) c hc)

theorem nonblank_afterBreak (s : Text) : nonblank ((afterBreak? s).getD s) = nonblank s := by
  rw [afterBreak?.eq_def]
  split <;> simp [nonblank, show isBlank '\n' = true by decide, show isBlank '\r' = true by decide]

/-- **Only blanks are lost when a gap is closed.** -/
theorem nonblank_closeGap (before after : Text) :
    nonblank (closeGap before after).1 = nonblank before ∧
      nonblank (closeGap before after).2 = nonblank after := by
  simp only [closeGap]
  split
  · split
    · exact ⟨nonblank_dropEndHorizontal before, by
        rw [nonblank_afterBreak, nonblank_dropHorizontal]⟩
    · exact ⟨nonblank_dropEndHorizontal before, nonblank_dropHorizontal after⟩
  · exact ⟨rfl, nonblank_dropHorizontal after⟩

end Delog.Removal
