import Delog.Proofs.Removal.Accept
import Delog.Proofs.Removal.Tidied
import Delog.Proofs.Text.Ending

/-!
# Proofs/Removal/Convention — an edited text keeps the line endings of the text

Editing writes no line break of a kind that the text does not have: removing a range only takes
line breaks, a run of them is replaced by the ending that the text starts with, and the ending put
behind the result is the one the text ends with.  No line break is cut in two either, so that a
text that keeps to one ending keeps to it.

* `endings_closeGap` — closing a gap takes line breaks, and leaves the others whole
* `endings_tidy` — tidying makes up no ending
* `mem_of_mem_edit` — where the characters of an edited text are from
* `edit_keeps_convention` — a text in one convention is edited to one in that convention
-/

namespace Delog

open Text

namespace Removal

/-! ## Removing a range -/

/-- The endings of a text are those before, within and after a solid segment. -/
theorem endings_around {before body after : Text} (hbody : isSolid body = true)
    (h : isPaired (before ++ (body ++ after)) = true) :
    endings (before ++ (body ++ after)) =
      endings before ++ (endings body ++ endings after) := by
  have hbefore := isPaired_of_startsSolid (startsSolid_append hbody) h
  rw [endings_append hbefore, endings_append (isPaired_of_solid hbody h)]

/-- A `;` in the place of a solid segment leaves the line breaks around it. -/
theorem endings_placeholder {before body after : Text} (hbody : isSolid body = true)
    (h : isPaired (before ++ (body ++ after)) = true) :
    endings (before ++ ';' :: after) ⊆ endings (before ++ (body ++ after)) := by
  have hbefore := isPaired_of_startsSolid (startsSolid_append hbody) h
  rw [endings_around hbody h, endings_append hbefore, endings_cons (by rfl)]
  exact List.append_subset.mpr ⟨List.subset_append_left _ _,
    List.Subset.trans (List.subset_append_right _ _) (List.subset_append_right _ _)⟩

/-- **Closing a gap around a solid segment takes line breaks**, and leaves the others whole. -/
theorem endings_closeGap {before body after : Text} (hbody : isSolid body = true)
    (h : isPaired (before ++ (body ++ after)) = true) :
    endings ((closeGap before after).1 ++ (closeGap before after).2) ⊆
      endings (before ++ (body ++ after)) := by
  have hbefore := isPaired_of_startsSolid (startsSolid_append hbody) h
  obtain ⟨hpaired, hleft, hright⟩ : isPaired (closeGap before after).1 = true ∧
      endings (closeGap before after).1 = endings before ∧
      endings (closeGap before after).2 ⊆ endings after := by
    have hkept := isPaired_dropEndWhile hbefore
    have hdropped := endings_dropEndWhile hbefore
    have hrest := endings_dropWhile after
    simp only [closeGap]
    split
    · split
      · exact ⟨hkept, hdropped, hrest ▸ endings_afterBreak_subset _⟩
      · exact ⟨hkept, hdropped, hrest ▸ List.Subset.refl _⟩
    · exact ⟨hbefore, rfl, hrest ▸ List.Subset.refl _⟩
  rw [endings_around hbody h, endings_append hpaired, hleft]
  exact List.append_subset.mpr ⟨List.subset_append_left _ _,
    List.Subset.trans hright
      (List.Subset.trans (List.subset_append_right _ _) (List.subset_append_right _ _))⟩

/-! ## Tidying -/

/-- Emptying blank lines leaves their endings. -/
theorem endings_emptyBlankLines {s : Text} (hs : isPaired s = true) :
    endings (emptyBlankLines s) = endings s := by
  refine line_induction (P := fun s => endings (emptyBlankLines s) = endings s) (fun k hk => ?_)
    (fun k e s hk _ ih => ?_) hs
  · rw [emptyBlankLines_inline hk, endings_inline (isInline_emptied hk), endings_inline hk]
  · rw [emptyBlankLines_inline_append hk, endings_inline_append (isInline_emptied hk),
      endings_inline_append hk, endings_ending_append, endings_ending_append, ih]

theorem endings_run_append (run : List LineEnding) (s : Text) :
    endings (run.flatMap LineEnding.text ++ s) = run ++ endings s := by
  induction run with
  | nil => rfl
  | cons e run ih =>
    rw [List.flatMap_cons, List.append_assoc, endings_ending_append, ih, List.cons_append]

/-- A run of line breaks is left, or two of the given kind take its place. -/
theorem mem_endings_settleRun_append {ending e : LineEnding} {run : List LineEnding} {s : Text}
    (he : e ∈ endings (settleRun ending run ++ s)) :
    e ∈ run ++ endings s ∨ e = ending ∧ run ≠ [] := by
  rw [settleRun] at he
  split at he
  · rename_i hlength
    rw [List.append_assoc, endings_ending_append, endings_ending_append, List.mem_cons,
      List.mem_cons, ← or_assoc, or_self] at he
    rcases he with rfl | he
    · exact .inr ⟨rfl, List.ne_nil_of_length_pos (by omega)⟩
    · exact .inl (List.mem_append_right _ he)
  · rw [endings_run_append] at he
    exact .inl he

/-- **Collapsing runs of line breaks makes up no ending** but the given one, and that only if there
are line breaks. -/
theorem mem_endings_collapseFrom {ending e : LineEnding} {run : List LineEnding} {s : Text}
    (hs : isPaired s = true) (he : e ∈ endings (collapseFrom ending run s)) :
    e ∈ run ++ endings s ∨ e = ending ∧ run ++ endings s ≠ [] := by
  induction s using break_induction generalizing run with
  | nil =>
    rw [collapseFrom, ← List.append_nil (settleRun ending run)] at he
    simpa using mem_endings_settleRun_append he
  | ending e' s ih =>
    rw [isPaired_ending_append] at hs
    rw [collapseFrom_ending_append] at he
    simpa using ih hs he
  | char c s hc ih =>
    obtain ⟨hn, hr⟩ := ne_of_isPaired hs hc
    rw [isPaired_cons hr] at hs
    rw [collapseFrom_cons ending run hc] at he
    rw [endings_cons hc]
    rcases mem_endings_settleRun_append he with he | ⟨rfl, hne⟩
    · rw [endings_cons (afterBreak?_cons_of_ne hn hr _), List.mem_append] at he
      rcases he with he | he
      · exact .inl (List.mem_append_left _ he)
      · rcases ih hs he with hmem | ⟨rfl, hne⟩
        · exact .inl (List.mem_append_right _ hmem)
        · exact .inr ⟨rfl, List.append_ne_nil_of_right_ne_nil _ hne⟩
    · exact .inr ⟨rfl, List.append_ne_nil_of_left_ne_nil hne _⟩

/-- Trimming leaves a paired text, and takes line breaks. -/
theorem endings_trim {t : Text} (ht : isPaired t = true) :
    isPaired (trim t) = true ∧ endings (trim t) ⊆ endings t := by
  by_cases hnil : trim t = []
  · rw [hnil]
    exact ⟨rfl, List.nil_subset _⟩
  · obtain ⟨x, y, hparts, -, -⟩ := exists_eq_append_trim t
    have hsolid := isSolid_trim hnil
    rw [hparts] at ht
    refine ⟨isPaired_of_solid hsolid ht, ?_⟩
    have h := endings_around hsolid ht
    rw [← hparts] at h
    rw [h]
    exact List.Subset.trans (List.subset_append_left _ _) (List.subset_append_right _ _)

/-- The line break put behind a text is the one it ends with. -/
theorem endings_finalBreak {s : Text} (hs : isPaired s = true) :
    isPaired (finalBreak s) = true ∧ endings (finalBreak s) ⊆ endings s := by
  rw [finalBreak]
  split
  · exact ⟨rfl, List.nil_subset _⟩
  · cases hfinal : LineEnding.final s with
    | none => exact ⟨rfl, List.nil_subset _⟩
    | some e =>
      have hpaired : isPaired e.text = true := by simpa [isPaired] using isPaired_ending_append e []
      have hendings : endings e.text = [e] := by simpa using endings_ending_append e []
      refine ⟨hpaired, ?_⟩
      rw [Option.map_some, Option.getD_some, hendings]
      exact List.cons_subset.mpr ⟨mem_endings_of_final hs hfinal, List.nil_subset _⟩

/-- **Tidying makes up no ending**, and cuts none in two. -/
theorem endings_tidy {given edited : Text} (hgiven : isPaired given = true)
    (hedited : isPaired edited = true) (h : endings edited ⊆ endings given) :
    isPaired (tidy given edited) = true ∧ endings (tidy given edited) ⊆ endings given := by
  have hempty := isPaired_emptyBlankLines hedited
  obtain ⟨hcore, hcoreEndings⟩ :=
    endings_trim (isPaired_collapseFrom (LineEnding.detect given) [] hempty)
  obtain ⟨hfinal, hfinalEndings⟩ := endings_finalBreak hgiven
  refine ⟨isPaired_append hcore hfinal, ?_⟩
  rw [tidy, collapseBreaks, endings_append hcore]
  refine List.append_subset.mpr ⟨fun e he => ?_, hfinalEndings⟩
  have hmem := mem_endings_collapseFrom hempty (hcoreEndings he)
  rw [List.nil_append, endings_emptyBlankLines hedited] at hmem
  rcases hmem with hmem | ⟨rfl, hne⟩
  · exact h hmem
  · obtain ⟨e, he⟩ := List.exists_mem_of_ne_nil _ hne
    exact detect_mem_endings (List.ne_nil_of_mem (h he))

/-! ## The characters of an edited text -/

/-- Removing a range takes characters, and writes a `;` at most. -/
theorem mem_of_mem_run {s t : Text} {r : Removal} (h : run s r = .ok t) {c : Char} (hc : c ∈ t) :
    c ∈ s ∨ c = ';' := by
  have htake : takeBytes r.start s ⊆ s := fun c hc => by
    rw [← takeBytes_append_dropBytes r.start s]
    exact List.mem_append_left _ hc
  have hdrop : dropBytes r.stop s ⊆ s := fun c hc => by
    rw [← takeBytes_append_dropBytes r.stop s]
    exact List.mem_append_right _ hc
  rw [run] at h
  split at h
  · split at h
    · cases h
      rw [List.mem_append, List.mem_cons] at hc
      rcases hc with hc | rfl | hc
      · exact .inl (htake hc)
      · exact .inr rfl
      · exact .inl (hdrop hc)
    · cases h
      obtain ⟨hleft, hright⟩ := closeGap_parts (takeBytes r.start s) (dropBytes r.stop s)
      rw [List.mem_append] at hc
      rcases hc with hc | hc
      · exact .inl (htake (hleft.subset hc))
      · exact .inl (hdrop (hright.subset hc))
  · cases h

theorem mem_of_mem_runAll {s t : Text} {rs : List Removal} (h : runAll s rs = .ok t) {c : Char}
    (hc : c ∈ t) : c ∈ s ∨ c = ';' := by
  induction rs generalizing s with
  | nil =>
    cases h
    exact .inl hc
  | cons r rs ih =>
    rw [runAll] at h
    cases hrun : run s r with
    | error e =>
      rw [hrun] at h
      cases h
    | ok u =>
      rw [hrun] at h
      rcases ih h with hu | rfl
      · exact mem_of_mem_run hrun hu
      · exact .inr rfl

theorem mem_of_mem_emptyBlankLines {s : Text} {c : Char} (hc : c ∈ emptyBlankLines s) : c ∈ s := by
  rw [emptyBlankLines, unlines, List.mem_flatMap] at hc
  obtain ⟨l', hl', hc⟩ := hc
  obtain ⟨l, hl, rfl⟩ := List.mem_map.mp hl'
  rw [← unlines_lines s, unlines, List.mem_flatMap]
  refine ⟨l, hl, ?_⟩
  rw [emptied] at hc
  split at hc
  · exact List.mem_append_right _ hc
  · exact hc

theorem mem_of_mem_settleRun {ending : LineEnding} {run : List LineEnding} {c : Char}
    (hc : c ∈ settleRun ending run) : c ∈ run.flatMap LineEnding.text ∨ c ∈ ending.text := by
  rw [settleRun] at hc
  split at hc
  · exact .inr (by simpa using hc)
  · exact .inl hc

theorem mem_of_mem_collapseFrom {ending : LineEnding} {run : List LineEnding} {s : Text} {c : Char}
    (hc : c ∈ collapseFrom ending run s) :
    c ∈ run.flatMap LineEnding.text ++ s ∨ c ∈ ending.text := by
  induction s using break_induction generalizing run with
  | nil => simpa [collapseFrom] using mem_of_mem_settleRun hc
  | ending e s ih =>
    rw [collapseFrom_ending_append] at hc
    simpa using ih hc
  | char d s hd ih =>
    rw [collapseFrom_cons ending run hd, List.mem_append, List.mem_cons] at hc
    rcases hc with hc | rfl | hc
    · exact (mem_of_mem_settleRun hc).imp_left (List.mem_append_left _)
    · exact .inl (List.mem_append_right _ List.mem_cons_self)
    · exact (ih hc).imp_left fun h => List.mem_append_right _ (List.mem_cons_of_mem _ h)

theorem mem_of_mem_finalBreak {s : Text} {c : Char} (hc : c ∈ finalBreak s) : c ∈ s := by
  rw [finalBreak] at hc
  split at hc
  · cases hc
  · cases hfinal : LineEnding.final s with
    | none => simp [hfinal] at hc
    | some e =>
      obtain ⟨a, rfl, -⟩ := exists_eq_append_of_final hfinal
      exact List.mem_append_right _ (by simpa [hfinal] using hc)

theorem mem_of_mem_tidy {given edited : Text} {c : Char} (hc : c ∈ tidy given edited) :
    c ∈ given ∨ c ∈ edited ∨ c ∈ (LineEnding.detect given).text := by
  rw [tidy, List.mem_append] at hc
  rcases hc with hc | hc
  · obtain ⟨x, y, hparts, -, -⟩ := exists_eq_append_trim
      (collapseBreaks (LineEnding.detect given) (emptyBlankLines edited))
    have hcore : c ∈ collapseBreaks (LineEnding.detect given) (emptyBlankLines edited) := by
      rw [hparts]
      exact List.mem_append_right _ (List.mem_append_left _ hc)
    exact .inr ((mem_of_mem_collapseFrom hcore).imp_left mem_of_mem_emptyBlankLines)
  · exact .inl (mem_of_mem_finalBreak hc)

/-- **Where the characters of an edited text are from**: they are those of the text, of the empty
statements that take the place of ranges, and of line breaks in the convention of the text. -/
theorem mem_of_mem_edit {s text : Text} {rs : List Removal} (h : edit s rs = .ok text) {c : Char}
    (hc : c ∈ text) : c ∈ s ∨ c = ';' ∨ c ∈ (LineEnding.detect s).text := by
  by_cases hne : rs = []
  · subst hne
    cases h
    exact .inl hc
  · obtain ⟨q, hq, rfl⟩ := exists_runAll_of_edit hne h
    rcases mem_of_mem_tidy hc with hc | hc | hc
    · exact .inl hc
    · exact (mem_of_mem_runAll hq hc).imp_right .inl
    · exact .inr (.inr hc)

/-! ## The convention of an edited text -/

/-- **Removing solid ranges keeps all line breaks whole**, and makes up no ending. -/
theorem exists_runAll_endings {s : Text} {rs : List Removal} (hfits : Fits 0 s rs) :
    ∃ q, runAll s rs.reverse = .ok q ∧
      (isPaired s = true → isPaired q = true ∧ endings q ⊆ endings s) :=
  exists_runAll_of_step
    (P := fun t => isPaired s = true → isPaired t = true ∧ endings t ⊆ endings s)
    (fun _ _ _ hbody h hs => ⟨isPaired_placeholder hbody (h hs).1,
      List.Subset.trans (endings_placeholder hbody (h hs).1) (h hs).2⟩)
    (fun _ _ _ hbody h hs => ⟨isPaired_closeGap hbody (h hs).1,
      List.Subset.trans (endings_closeGap hbody (h hs).1) (h hs).2⟩)
    (p := []) rfl hfits fun hs => ⟨hs, List.Subset.refl _⟩

/-- **Editing by solid ranges keeps all line breaks whole**, and makes up no ending. -/
theorem exists_edit_endings {s : Text} {rs : List Removal}
    (haccepted : fault s (sortDescending rs) = none)
    (hsolid : ∀ r ∈ rs, isSolid (s.slice r.span) = true) :
    ∃ text, edit s rs = .ok text ∧
      (isPaired s = true → isPaired text = true ∧ endings text ⊆ endings s) := by
  by_cases hne : rs = []
  · subst hne
    exact ⟨s, rfl, fun hs => ⟨hs, List.Subset.refl _⟩⟩
  · obtain ⟨q, hq, hqs⟩ := exists_runAll_endings (fits_of_accepted haccepted hsolid)
    rw [reverse_sortAscending] at hq
    refine ⟨tidy s q, ?_, fun hs => endings_tidy hs (hqs hs).1 (hqs hs).2⟩
    rw [edit_of_accepted haccepted hne]
    exact congrArg (Except.map (tidy s)) hq

/-- **A text in one convention is edited to one in that convention.**  With solid ranges there is
always an edited text, and if the text keeps to `\r\n`, so does what it is edited to; if it has no
carriage return there is none in what it is edited to, whatever the ranges are. -/
theorem edit_keeps_convention (s : Text) (rs : List Removal) :
    (fault s (sortDescending rs) = none → (∀ r ∈ rs, isSolid (s.slice r.span) = true) →
      ∃ text, edit s rs = .ok text ∧ (KeepsToCrlf s → KeepsToCrlf text)) ∧
    ∀ text, edit s rs = .ok text → '\r' ∉ s → '\r' ∉ text := by
  refine ⟨fun haccepted hsolid => ?_, fun text htext hs hreturn => ?_⟩
  · obtain ⟨text, htext, hkept⟩ := exists_edit_endings haccepted hsolid
    refine ⟨text, htext, fun hs => ?_⟩
    obtain ⟨hpaired, hcrlf⟩ := keepsToCrlf_iff.mp hs
    obtain ⟨hpaired', hsubset⟩ := hkept hpaired
    exact keepsToCrlf_iff.mpr ⟨hpaired', fun e he => hcrlf e (hsubset he)⟩
  · rcases mem_of_mem_edit htext hreturn with hmem | hmem | hmem
    · exact hs hmem
    · cases hmem
    · exact hs (mem_of_mem_detect hmem)

end Removal

namespace Sample

open Removal

/-- A source that keeps to `\r\n`, with a statement on a line of its own between blank lines. -/
def returningSource : Text := "x\r\n\r\n a();\r\n\r\ny\r\n".toList

/-- The range of the statement. -/
def returningRanges : List Removal := [⟨6, 10, false⟩]

/-- Without its line the source would have three line breaks in a row; two of its own kind take
their place. -/
theorem sample_edit_keeps_convention :
    KeepsToCrlf returningSource ∧ fault returningSource (sortDescending returningRanges) = none ∧
      (∀ r ∈ returningRanges, isSolid (returningSource.slice r.span) = true) ∧
      edit returningSource returningRanges = .ok "x\r\n\r\ny\r\n".toList ∧
      KeepsToCrlf "x\r\n\r\ny\r\n".toList ∧
      '\r' ∉ "x\ny\n".toList := by
  have hkeeps : KeepsToCrlf returningSource := keepsToCrlf_iff.mpr (by decide)
  have hsorted : returningRanges.Pairwise fun a b => b.start ≤ a.start := by decide
  have haccepted : fault returningSource returningRanges = none := by decide
  have hsolid : ∀ r ∈ returningRanges, isSolid (returningSource.slice r.span) = true := by decide
  have hedit : edit returningSource returningRanges = .ok "x\r\n\r\ny\r\n".toList := by
    rw [edit_of_descending hsorted haccepted (List.cons_ne_nil _ _)]
    decide
  have hplain : edit "x\n a();\ny\n".toList [⟨3, 7, false⟩] = .ok "x\ny\n".toList := by
    rw [edit_of_descending (by decide) (by decide) (List.cons_ne_nil _ _)]
    decide
  rw [← sortDescending_of_pairwise hsorted] at haccepted
  obtain ⟨text, htext, hkept⟩ :=
    (edit_keeps_convention returningSource returningRanges).1 haccepted hsolid
  obtain rfl : "x\r\n\r\ny\r\n".toList = text := Except.ok.inj (hedit.symm.trans htext)
  exact ⟨hkeeps, haccepted, hsolid, hedit, hkept hkeeps,
    (edit_keeps_convention _ _).2 _ hplain (by decide)⟩

end Sample

end Delog
