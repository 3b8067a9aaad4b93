import Delog.Proofs.Removal.Convention
import Delog.Proofs.Removal.Settle
import Mathlib.Algebra.GroupWithZero.Nat

/-!
# Proofs/Removal/Balance — how many bytes editing takes and writes

Removing a range takes its bytes and writes a `;` at most, and closing gaps, emptying lines and
trimming only take more.  The line break put back is one that was trimmed off.  So the one thing by
which an edited text may grow is the line breaks that are written for a run of three: if the text is
in the convention of `\r\n`, they are a byte longer than three bare newlines.

* `size_runAll` — what a run of removals saves
* `trim_settle`, `size_settleRun_le` — what tidying writes
* `size_edit_le` — the balance of an edited text
* `stretch_eq_zero` — texts in which no run of line breaks can grow
-/

namespace Delog.Removal

open Text

/-! ## Bytes up to the last character that is not blank -/

theorem size_le_of_sublist {s t : Text} (h : List.Sublist s t) : size s ≤ size t := by
  induction h with
  | slnil => exact Nat.le_refl _
  | cons c _ ih => exact Nat.le_trans ih (Nat.le_add_left _ _)
  | cons_cons c _ ih => exact Nat.add_le_add_left ih _

theorem size_trimEnd_le (s : Text) : size (trimEnd s) ≤ size s :=
  size_le_of_sublist (dropEndWhile_isPrefix isBlank s).sublist

/-- Blanks at the end go from the second of two texts first. -/
theorem trimEnd_append (a b : Text) :
    trimEnd (a ++ b) = if trimEnd b = [] then trimEnd a else a ++ trimEnd b := by
  simp only [trimEnd, dropEndWhile, List.reverse_append, List.dropWhile_append,
    List.reverse_eq_nil_iff, List.isEmpty_iff]
  split
  · rfl
  · rw [List.reverse_append, List.reverse_reverse]

theorem size_trimEnd_append_le (a b : Text) :
    size (trimEnd (a ++ b)) ≤ size a + size (trimEnd b) := by
  rw [trimEnd_append]
  split
  · exact Nat.le_trans (size_trimEnd_le a) (Nat.le_add_right _ _)
  · rw [size_append]

theorem size_trimEnd_le_of_suffix {s t : Text} (h : s <:+ t) :
    size (trimEnd s) ≤ size (trimEnd t) := by
  obtain ⟨a, rfl⟩ := h
  rw [trimEnd_append]
  split
  · rename_i hnil
    rw [hnil]
    exact Nat.zero_le _
  · rw [size_append]
    exact Nat.le_add_left _ _

theorem size_trim_le (s : Text) : size (trim s) ≤ size (trimEnd s) :=
  size_trimEnd_le_of_suffix (List.dropWhile_suffix isBlank)

/-! ## What removing saves -/

/-- **How many bytes a removal saves**: those of the range, apart from the `;` in its place. -/
def saved (r : Removal) : Nat := r.stop - r.start - size r.filling

/-- How many bytes removals save altogether. -/
def savedBy (rs : List Removal) : Nat := (rs.map saved).sum

theorem savedBy_cons (r : Removal) (rs : List Removal) :
    savedBy (r :: rs) = r.saved + savedBy rs := by
  rw [savedBy, List.map_cons, List.sum_cons, savedBy]

/-- Ranges of more than a byte save something. -/
theorem savedBy_pos {rs : List Removal} (hne : rs ≠ []) (hwide : ∀ r ∈ rs, r.start + 2 ≤ r.stop) :
    0 < savedBy rs := by
  cases rs with
  | nil => exact absurd rfl hne
  | cons r rs =>
    have hr := hwide r List.mem_cons_self
    have hfilling : size r.filling ≤ 1 := by
      rw [filling]
      split <;> decide
    rw [savedBy_cons, saved]
    omega

/-- Up to a solid end nothing goes with the blanks at the end. -/
theorem size_trimEnd_of_endsSolid {a : Text} (ha : endsSolid a = true) (s : Text) :
    size (trimEnd (a ++ s)) = size a + size (trimEnd s) := by
  rw [trimEnd, dropEndWhile_append_of_endsSolid (fun _ h => h) ha, size_append, trimEnd]

/-- **Closing a gap only takes**: blanks in front of it and after it. -/
theorem exists_size_closeGap_le {p : Text} (hp : endsFlush p = true) (gap after : Text) :
    ∃ q, (closeGap (p ++ gap) after).1 ++ (closeGap (p ++ gap) after).2 = p ++ q ∧
      size (trimEnd q) ≤ size gap + size (trimEnd after) := by
  obtain ⟨g, hg⟩ := isPrefix_closeGap_of_endsFlush hp gap after
  obtain ⟨hleft, hright⟩ := closeGap_parts (p ++ gap) after
  rw [← hg, List.prefix_append_right_inj] at hleft
  refine ⟨g ++ (closeGap (p ++ gap) after).2, by simp [← hg], ?_⟩
  calc size (trimEnd (g ++ (closeGap (p ++ gap) after).2))
      ≤ size g + size (trimEnd (closeGap (p ++ gap) after).2) := size_trimEnd_append_le ..
    _ ≤ size gap + size (trimEnd after) :=
        Nat.add_le_add (size_le_of_sublist hleft.sublist) (size_trimEnd_le_of_suffix hright)

/-- **A run of removals saves its bytes** of what stands up to the last character that is not
blank. -/
theorem size_runAll {p s : Text} {rs : List Removal} (hp : endsFlush p = true)
    (h : Fits (size p) s rs) : ∃ q, runAll (p ++ s) rs.reverse = .ok (p ++ q) ∧
      size (trimEnd q) + savedBy rs ≤ size (trimEnd s) := by
  induction rs generalizing p s with
  | nil => exact ⟨s, rfl, Nat.le_refl _⟩
  | cons r rs ih =>
    obtain ⟨gap, body, rest, rfl, hstart, hstop, hbody, hrest⟩ := h
    have hsize : size (p ++ gap ++ body) = r.stop := by rw [hstop, size_append, size_append]
    have hpos := size_pos (ne_nil_of_isSolid hbody)
    have hbefore := size_trimEnd_of_endsSolid (endsSolid_append (a := gap) hbody) rest
    rw [List.append_assoc, size_append] at hbefore
    obtain ⟨x, hx, hsaved⟩ :=
      ih (endsFlush_of_endsSolid (endsSolid_append hbody)) (hsize.symm ▸ hrest)
    rw [List.append_assoc (p ++ gap) body x] at hx
    have htext : p ++ (gap ++ (body ++ rest)) = p ++ gap ++ body ++ rest := by
      simp only [List.append_assoc]
    rw [hbefore, htext, runAll_reverse_cons, hx, Except.bind,
      run_eq (by rw [hstart, size_append]) (by rw [hstop, size_append]), savedBy_cons, saved,
      filling]
    cases r.placeholder with
    | true =>
      have hafter := size_trimEnd_append_le (gap ++ [';']) x
      have hone : size [';'] = 1 := by decide
      rw [size_append, hone] at hafter
      refine ⟨gap ++ [';'] ++ x, by simp, ?_⟩
      rw [if_pos rfl, hone]
      omega
    | false =>
      obtain ⟨q, hq, hafter⟩ := exists_size_closeGap_le hp gap x
      refine ⟨q, congrArg Except.ok hq, ?_⟩
      rw [if_neg Bool.false_ne_true, size_nil]
      omega

/-! ## What tidying writes -/

/-- A text in which nothing else is left is blank. -/
theorem isBlank_of_nonblank_eq_nil {s : Text} (h : nonblank s = []) : ∀ c ∈ s, isBlank c = true :=
  fun c hc => by simpa using List.filter_eq_nil_iff.mp h c hc

/-- **Both passes of tidying leave the ends to themselves**: a text may be trimmed first. -/
theorem trim_settle (ending : LineEnding) (s : Text) :
    trim (settle ending s) = settle ending (trim s) := by
  have hlocal := isLocal_settle ending
  by_cases hnil : trim s = []
  · have hblank : nonblank (settle ending s) = [] := by
      rw [hlocal.nonblank_eq, nonblank_eq_nil (List.all_eq_true.mpr (trim_eq_nil.mp hnil))]
    rw [hnil]
    exact trim_eq_nil.mpr (isBlank_of_nonblank_eq_nil hblank)
  · obtain ⟨x, y, hparts, hx, hy⟩ := exists_eq_append_trim s
    obtain ⟨x', y', hsettle, hsolid, hx', hy'⟩ :=
      hlocal.exists_append_append (isSolid_trim hnil) x y
    rw [← hparts] at hsettle
    rw [nonblank_eq_nil (List.all_eq_true.mpr hx)] at hx'
    rw [nonblank_eq_nil (List.all_eq_true.mpr hy)] at hy'
    have hleft : trimStart x' = [] := dropWhile_eq_nil.mpr (isBlank_of_nonblank_eq_nil hx')
    have hright : trimEnd y' = [] := dropEndWhile_eq_nil.mpr (isBlank_of_nonblank_eq_nil hy')
    rw [hsettle, trim_append_append hsolid, hleft, hright, List.nil_append, List.append_nil]

/-- Emptying blank lines takes characters only. -/
theorem size_emptyBlankLines_le (s : Text) : size (emptyBlankLines s) ≤ size s := by
  have hlines : ∀ ls : List Line, size (unlines (ls.map emptied)) ≤ size (unlines ls) := by
    intro ls
    induction ls with
    | nil => exact Nat.le_refl _
    | cons l ls ih =>
      have hcons : ∀ (l : Line) ls, size (unlines (l :: ls)) = size l.text + size (unlines ls) :=
        fun l ls => size_append l.text (unlines ls)
      have hline : size (emptied l).text ≤ size l.text := by
        rw [emptied]
        split
        · exact size_le_of_sublist (List.sublist_append_right _ _)
        · exact Nat.le_refl _
      rw [List.map_cons, hcons, hcons]
      omega
  rw [emptyBlankLines]
  conv_rhs => rw [← unlines_lines s]
  exact hlines (lines s)

/-- **The runs of line breaks of a text** that follows the line breaks `run`.  Between characters
next to one another the run is empty. -/
def runsFrom (run : List LineEnding) : Text → List (List LineEnding)
  | [] => [run]
  | '\n' :: s => runsFrom (run ++ [.lf]) s
  | '\r' :: '\n' :: s => runsFrom (run ++ [.crlf]) s
  | _ :: s => run :: runsFrom [] s

@[simp] theorem runsFrom_ending_append (run : List LineEnding) (e : LineEnding) (s : Text) :
    runsFrom run (e.text ++ s) = runsFrom (run ++ [e]) s := by
  cases e with
  | lf => rw [LineEnding.text, List.singleton_append, runsFrom]
  | crlf => rw [LineEnding.text, List.cons_append, List.singleton_append, runsFrom]

theorem runsFrom_cons (run : List LineEnding) {c : Char} {s : Text}
    (hc : afterBreak? (c :: s) = none) : runsFrom run (c :: s) = run :: runsFrom [] s := by
  obtain ⟨hn, hr⟩ := ne_of_afterBreak?_cons hc
  rw [runsFrom]
  exacts [hn, hr]

/-- The runs are made up of the line endings of the text. -/
theorem flatten_runsFrom (run : List LineEnding) (s : Text) :
    (runsFrom run s).flatten = run ++ endings s := by
  induction s using break_induction generalizing run with
  | nil => simp [runsFrom]
  | ending e s ih => rw [runsFrom_ending_append, ih, endings_ending_append, List.append_assoc,
      List.singleton_append]
  | char c s hc ih => rw [runsFrom_cons run hc, List.flatten_cons, ih, endings_cons hc,
      List.nil_append]

/-- **By how many bytes a run of line breaks grows** when it is collapsed.  Three bare newlines are
the only run that is shorter than two breaks of the kind `\r\n`. -/
def lengthened (ending : LineEnding) (run : List LineEnding) : Nat :=
  if ending = .crlf ∧ run = [.lf, .lf, .lf] then 1 else 0

/-- By how many bytes the runs of a text grow altogether. -/
def stretched (ending : LineEnding) (s : Text) : Nat :=
  ((runsFrom [] s).map (lengthened ending)).sum

/-- Nothing grows if breaks are written as newlines, or if there are no bare newlines. -/
theorem stretched_eq_zero {ending : LineEnding} {s : Text}
    (h : ending = .lf ∨ ∀ e ∈ endings s, e = .crlf) : stretched ending s = 0 := by
  refine List.sum_eq_zero_iff_forall_eq_nat.mpr fun n hn => ?_
  obtain ⟨run, hrun, rfl⟩ := List.mem_map.mp hn
  refine if_neg ?_
  rintro ⟨rfl, rfl⟩
  rcases h with h | h
  · cases h
  · have hmem : LineEnding.lf ∈ endings s := by
      have hflat := List.mem_flatten.mpr ⟨_, hrun, List.mem_cons_self⟩
      rwa [flatten_runsFrom, List.nil_append] at hflat
    cases h _ hmem

theorem size_run (run : List LineEnding) :
    size (run.flatMap LineEnding.text) = run.length + run.count .crlf := by
  induction run with
  | nil => rfl
  | cons e run ih =>
    rw [List.flatMap_cons, size_append, ih]
    cases e with
    | lf =>
      have hone : size LineEnding.lf.text = 1 := by decide
      rw [hone, List.length_cons, List.count_cons_of_ne (by decide)]
      omega
    | crlf =>
      have htwo : size LineEnding.crlf.text = 2 := by decide
      rw [htwo, List.length_cons, List.count_cons_self]
      omega

/-- Of three breaks one is longer than a newline, or else the run is lengthened. -/
theorem count_add_lengthened_pos {run : List LineEnding} (h : run.length = 3) :
    0 < run.count .crlf + lengthened .crlf run := by
  rcases Nat.eq_zero_or_pos (run.count .crlf) with hcount | hcount
  · have hlf : run = List.replicate 3 .lf := by
      refine List.eq_replicate_iff.mpr ⟨h, fun e he => ?_⟩
      cases e with
      | lf => rfl
      | crlf => exact absurd he (List.count_eq_zero.mp hcount)
    rw [lengthened, if_pos ⟨rfl, hlf⟩]
    exact Nat.succ_pos _
  · exact Nat.add_pos_left hcount _

/-- A collapsed run is no longer than it was, or grows by a byte if it is three bare newlines. -/
theorem size_settleRun_le (ending : LineEnding) (run : List LineEnding) :
    size (settleRun ending run) ≤ size (run.flatMap LineEnding.text) + lengthened ending run := by
  rw [settleRun]
  split
  · rename_i hlength
    rw [size_append, size_run]
    cases ending with
    | lf =>
      have hone : size LineEnding.lf.text = 1 := by decide
      omega
    | crlf =>
      have htwo : size LineEnding.crlf.text = 2 := by decide
      have hthree := @count_add_lengthened_pos run
      omega
  · exact Nat.le_add_right _ _

theorem size_collapseFrom_le (ending : LineEnding) (run : List LineEnding) (s : Text) :
    size (collapseFrom ending run s) ≤ size (run.flatMap LineEnding.text) + size s +
      ((runsFrom run s).map (lengthened ending)).sum := by
  induction s using break_induction generalizing run with
  | nil =>
    rw [collapseFrom, runsFrom, List.map_singleton, List.sum_singleton, size_nil, Nat.add_zero]
    exact size_settleRun_le ending run
  | ending e s ih =>
    have hrun := ih (run ++ [e])
    rw [List.flatMap_append, List.flatMap_singleton, size_append] at hrun
    rw [collapseFrom_ending_append, runsFrom_ending_append, size_append]
    omega
  | char c s hc ih =>
    have hrun := size_settleRun_le ending run
    have hrest := ih []
    rw [List.flatMap_nil, size_nil] at hrest
    rw [collapseFrom_cons ending run hc, runsFrom_cons run hc, List.map_cons, List.sum_cons,
      size_append, size_cons, size_cons]
    omega

/-- **Both passes of tidying** write no more bytes than the runs of line breaks grow by. -/
theorem size_settle_le (ending : LineEnding) (s : Text) :
    size (settle ending s) ≤ size s + stretched ending (emptyBlankLines s) := by
  have hcollapse := size_collapseFrom_le ending [] (emptyBlankLines s)
  have hempty := size_emptyBlankLines_le s
  rw [List.flatMap_nil, size_nil] at hcollapse
  rw [settle, collapseBreaks, stretched]
  omega

/-- **The line break put back is one that was trimmed off.** -/
theorem size_finalBreak_le (s : Text) : size (trimEnd s) + size (finalBreak s) ≤ size s := by
  rw [finalBreak]
  split
  · exact size_trimEnd_le s
  · cases hfinal : LineEnding.final s with
    | none => exact size_trimEnd_le s
    | some e =>
      obtain ⟨a, rfl, -⟩ := exists_eq_append_of_final hfinal
      have hblank : trimEnd e.text = [] :=
        dropEndWhile_eq_nil.mpr fun c hc => isBlank_of_mem_ending hc
      rw [trimEnd_append, if_pos hblank, Option.map_some, Option.getD_some, size_append]
      exact Nat.add_le_add_right (size_trimEnd_le a) _

/-- **The balance of tidying**: nothing is written but runs of line breaks that grow, and the line
break at the end. -/
theorem size_tidy_le (given edited : Text) :
    size (tidy given edited) ≤ size (trim edited) +
      stretched (LineEnding.detect given) (emptyBlankLines (trim edited)) +
        size (finalBreak given) := by
  have hcore := trim_settle (LineEnding.detect given) edited
  rw [settle] at hcore
  rw [tidy, hcore, size_append]
  exact Nat.add_le_add_right (size_settle_le _ _) _

/-! ## The balance of an edited text -/

/-- **By how many bytes tidying stretches** what is left of a text without the ranges. -/
def stretch (s : Text) (rs : List Removal) : Nat :=
  match runAll s (sortDescending rs) with
  | .error _ => 0
  | .ok q => stretched (LineEnding.detect s) (emptyBlankLines (trim q))

section Ascending

variable {s : Text} {rs : List Removal} (hsolid : ∀ r ∈ rs, r.SolidIn s)
  (hpair : rs.Pairwise fun a b => a.stop ≤ b.start)
include hsolid hpair

/-- **The balance of an edited text**: what the removals save goes off the text, and what tidying
stretches is added. -/
theorem size_edit_le (hne : rs ≠ []) {text : Text} (h : edit s rs = .ok text) :
    size text + savedBy rs ≤ size s + stretch s rs := by
  obtain ⟨q, hq, hsaved⟩ := size_runAll (p := []) rfl (fits_of_pairwise hsolid hpair)
  rw [List.nil_append, List.nil_append] at hq
  rw [edit_eq hsolid hpair hne, hq] at h
  obtain rfl : tidy s q = text := Except.ok.inj h
  have htidy := size_tidy_le s q
  have htrim := size_trim_le q
  have hbreak := size_finalBreak_le s
  rw [stretch, sortDescending_eq_reverse hsolid hpair, hq]
  simp only
  omega

/-- **No run of line breaks can grow** if the first line break of a text is a bare newline, or if
there is none, or if all of them are `\r\n`. -/
theorem stretch_eq_zero (h : LineEnding.detect s = .lf ∨ KeepsToCrlf s) : stretch s rs = 0 := by
  obtain ⟨q, hq, hkept⟩ := exists_runAll_endings (fits_of_pairwise hsolid hpair)
  rw [stretch, sortDescending_eq_reverse hsolid hpair, hq]
  refine stretched_eq_zero (h.imp_right fun hs e he => ?_)
  obtain ⟨hpaired, hcrlf⟩ := keepsToCrlf_iff.mp hs
  obtain ⟨hq, hsubset⟩ := hkept hpaired
  obtain ⟨htrim, htrims⟩ := endings_trim hq
  rw [endings_emptyBlankLines htrim] at he
  exact hcrlf e (hsubset (htrims he))

end Ascending

end Delog.Removal
