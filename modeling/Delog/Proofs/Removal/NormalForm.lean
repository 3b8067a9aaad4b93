import Delog.Proofs.Removal.Accept
import Delog.Proofs.Removal.Tidied

/-!
# Proofs/Removal/NormalForm — the form in which an edited text is written

An edited text has no blanks at its ends but for the line break the text had before, no three line
breaks in a row, and no blanks on its blank lines.  Each pass of tidying keeps what the passes
before it have achieved: once both passes over the lines are done the text is settled, and it stays
so when its ends are trimmed and a line break is put behind it.

* `IsSettled.length_lt_three` — a settled text has no three line breaks in a row
* `isSettled_trim`, `isSettled_append_ending` — a settled text may be trimmed, and finished with a
  line break
* `edit_normal_form` — the form of every edited text
-/

namespace Delog

open Text

namespace Removal

/-! ## Runs of line breaks in a settled text -/

/-- **A settled text has no three line breaks in a row**, of whichever kind they are. -/
theorem IsSettled.length_lt_three {s : Text} (hs : IsSettled s) {run : List LineEnding}
    (hrun : run.flatMap LineEnding.text <:+: s) : run.length < 3 := by
  by_contra hlength
  match run, hlength with
  | e₁ :: e₂ :: e₃ :: run, _ =>
    obtain ⟨a, b, rfl⟩ := hrun
    obtain ⟨k, hk⟩ := exists_ending_eq_append_newline e₁
    have h := hs.not_three_breaks (e₂.text ++ (e₃.text ++ (run.flatMap LineEnding.text ++ b)))
      ⟨a ++ k, by simp [hk]⟩
    rw [afterBreak?_ending_append, Option.bind_some, afterBreak?_ending_append] at h
    cases h
  | [], h => exact h (Nat.zero_lt_succ 2)
  | [_], h => exact h (by simp)
  | [_, _], h => exact h (by simp)

/-! ## The ends of a settled text -/

/-- A settled text without the blanks at its ends is settled. -/
theorem isSettled_trim {t : Text} (ht : IsSettled t) : IsSettled (trim t) := by
  by_cases hnil : trim t = []
  · rw [hnil]
    exact (settle_eq_self_iff .lf).mp (by decide)
  · have hsolid := isSolid_trim hnil
    obtain ⟨x, y, hparts, hx, hy⟩ := exists_eq_append_trim t
    obtain ⟨p, z, hsettle, hsettled, hp, hz⟩ :=
      (isLocal_settle .lf).exists_append_append hsolid x y
    rw [← hparts, (settle_eq_self_iff .lf).mpr ht] at hsettle
    have hblank : ∀ {u v : Text}, (∀ c ∈ u, isBlank c = true) → nonblank v = nonblank u →
        ∀ c ∈ v, isBlank c = true := by
      intro u v hu hv c hc
      rw [nonblank_eq_nil (List.all_eq_true.mpr hu), nonblank, List.filter_eq_nil_iff] at hv
      simpa using hv c hc
    refine (settle_eq_self_iff .lf).mp ?_
    conv_rhs => rw [hsettle]
    rw [trim_append_append hsettled, trimStart, dropWhile_eq_nil.mpr (hblank hx hp), trimEnd,
      dropEndWhile_eq_nil.mpr (hblank hy hz), List.nil_append, List.append_nil]

theorem settle_ending (ending e : LineEnding) : settle ending e.text = e.text := by
  cases e <;> rfl

/-- **A text with a solid end stays settled with a line break behind it.** -/
theorem isSettled_append_ending {s : Text} (hs : IsSettled s) (hend : endsSolid s = true)
    (e : LineEnding) : IsSettled (s ++ e.text) := by
  refine (settle_eq_self_iff .lf).mp ?_
  rcases List.eq_nil_or_concat' s with rfl | ⟨k, c, rfl⟩
  · exact settle_ending .lf e
  · have hc : isBlank c = false := by simpa [endsSolid] using hend
    have hinline : isInline [c] = true := by
      have hr : c ≠ '\r' := by
        rintro rfl
        cases hc
      simp [isInline, hr, ne_newline_of_isBlank_eq_false hc]
    obtain ⟨p, hp⟩ := (isLocal_settle .lf).exists_append hc k
    obtain rfl : p = k := by
      have h := hp []
      rw [(settle_eq_self_iff .lf).mpr hs, (isLocal_settle .lf).singleton hc] at h
      exact (List.append_cancel_right h).symm
    have hempty : emptyBlankLines (c :: e.text) = c :: e.text := by
      have h := emptyBlankLines_inline_append hinline e []
      simpa [isHorizontal_eq_false hc, emptyBlankLines, lines, unlines] using h
    rw [List.append_assoc, List.singleton_append, hp, settle, hempty, collapseBreaks_cons .lf hc]
    cases e <;> rfl

/-! ## The line break behind the text -/

/-- **The line break of a text**: the one it ends with, unless it is blank. -/
theorem finalBreak_eq (s : Text) :
    finalBreak s =
      if s.all isBlank then []
      else if LineEnding.crlf.text <:+ s then LineEnding.crlf.text
      else if LineEnding.lf.text <:+ s then LineEnding.lf.text
      else [] := by
  have hblank : (trim s).isEmpty = s.all isBlank := by
    rw [Bool.eq_iff_iff, List.isEmpty_iff, List.all_eq_true]
    exact trim_eq_nil
  rw [finalBreak, hblank]
  congr 1
  simp only [LineEnding.final, ← List.reverse_prefix]
  generalize s.reverse = t
  rcases t with _ | ⟨c, _ | ⟨d, t⟩⟩
  · decide
  · by_cases hn : c = '\n' <;> simp [LineEnding.text, hn, eq_comm]
  · by_cases hn : c = '\n' <;> by_cases hr : d = '\r' <;> simp [LineEnding.text, hn, hr, eq_comm]

/-- **What is left by tidying a paired text is settled.** -/
theorem isSettled_tidy (given : Text) {edited : Text} (h : isPaired edited = true) :
    IsSettled (tidy given edited) := by
  have hcore := isSettled_trim (isSettled_settle (LineEnding.detect given) h)
  rw [tidy, ← settle]
  rcases eq_nil_or_of_finalBreak given with hnil | ⟨e, he⟩
  · rwa [hnil, List.append_nil]
  · rw [he]
    exact isSettled_append_ending hcore (endsSolid_trim _) e

/-! ## The form of an edited text -/

/-- **The form of every edited text.**  If the ranges that are removed from a paired text are solid,
what comes of it has no blank at either end, apart from the line break of the text itself; it has no
three line breaks in a row, and on its lines of horizontal blanks there are none. -/
theorem edit_normal_form {s : Text} {rs : List Removal} (hpaired : isPaired s = true)
    (hne : rs ≠ []) (haccepted : fault s (sortDescending rs) = none)
    (hsolid : ∀ r ∈ rs, isSolid (s.slice r.span) = true) :
    ∃ text core, edit s rs = .ok text ∧
      text = core ++
        (if s.all isBlank then []
        else if LineEnding.crlf.text <:+ s then LineEnding.crlf.text
        else if LineEnding.lf.text <:+ s then LineEnding.lf.text
        else []) ∧
      startsSolid core = true ∧ endsSolid core = true ∧
      (∀ run : List LineEnding, run.flatMap LineEnding.text <:+: text → run.length < 3) ∧
      ∀ l ∈ lines text, l.content.all isHorizontal = true → l.content = [] := by
  obtain ⟨q, hq, hqpaired⟩ := exists_runAll_paired (p := []) rfl
    (fits_of_accepted haccepted hsolid) hpaired
  rw [reverse_sortAscending] at hq
  have hsettled := isSettled_tidy s hqpaired
  refine ⟨tidy s q, trim (settle (LineEnding.detect s) q), ?_, ?_, startsSolid_trim _,
    endsSolid_trim _, fun run => hsettled.length_lt_three, hsettled.eq_nil_of_blank⟩
  · rw [edit_of_accepted haccepted hne]
    exact congrArg (Except.map (tidy s)) hq
  · rw [tidy, finalBreak_eq, settle]

end Removal

namespace Sample

open Removal

/-- A source whose two statements stand on lines of their own, among blank lines that end in either
way. -/
def gappedSource : Text := "\n x\r\n\t\n a();\n  \nb();\r\n\r\ny \r\n".toList

/-- The ranges of its two statements. -/
def gappedRanges : List Removal := [⟨16, 20, false⟩, ⟨8, 12, false⟩]

theorem sample_edit_normal_form :
    isPaired gappedSource = true ∧ fault gappedSource (sortDescending gappedRanges) = none ∧
      (∀ r ∈ gappedRanges, isSolid (gappedSource.slice r.span) = true) ∧
      edit gappedSource gappedRanges = .ok "x\n\ny\r\n".toList ∧
      ∃ core, "x\n\ny\r\n".toList = core ++ LineEnding.crlf.text ∧ startsSolid core = true ∧
        endsSolid core = true := by
  have hsort : sortDescending gappedRanges = gappedRanges :=
    sortDescending_of_pairwise (by decide)
  have hpaired : isPaired gappedSource = true := by decide
  have haccepted : fault gappedSource (sortDescending gappedRanges) = none := by
    rw [hsort]
    decide
  have hsolid : ∀ r ∈ gappedRanges, isSolid (gappedSource.slice r.span) = true := by decide
  have hedit : edit gappedSource gappedRanges = .ok "x\n\ny\r\n".toList := by
    rw [edit_of_accepted haccepted (List.cons_ne_nil _ _), hsort]
    decide
  obtain ⟨text, core, htext, hcore, hstart, hend, -⟩ :=
    edit_normal_form hpaired (List.cons_ne_nil _ _) haccepted hsolid
  obtain rfl : "x\n\ny\r\n".toList = text := Except.ok.inj (hedit.symm.trans htext)
  rw [if_neg (by decide), if_pos (by decide)] at hcore
  exact ⟨hpaired, haccepted, hsolid, hedit, core, hcore, hstart, hend⟩

end Sample

end Delog
