import Delog.Proofs.Removal.Accept
import Delog.Proofs.Removal.Tidied

/-!
# Proofs/Removal/Untouched — the lines that no range meets

A line that no range meets parts the text in two.  The removals before it do not depend on what
follows it, as none of them takes a line break that does not stand at the end of a line it empties;
and those after it leave whole what stands before them.  So the line comes out as it was, between
what becomes of the text before it and what becomes of the text after it.

* `exists_fits_append` — the ranges in two parts of a text
* `exists_runAll_atLineStart` — removals in front of the start of a line
* `leavesLines_inline`, `leavesLines_line` — the last line, and a line in front of others
* `exists_runAll_untouched` — the lines that are left by a run of removals
* `exists_edit_untouched` — and by an edit
-/

namespace Delog

open Text

namespace Removal

/-- **The contents of the lines that no range meets** and that are not blank, in order; the first
line starts at `offset`. -/
def untouched (rs : List Removal) : Nat → List Line → List Text
  | _, [] => []
  | offset, l :: ls =>
    (if rs.all (fun r => r.stop ≤ offset || offset + size l.content ≤ r.start) &&
        !l.content.all isBlank then [l.content] else []) ++
      untouched rs (offset + size l.text) ls

/-! ## The ranges in the parts of a text -/

theorem Fits.bounds {offset : Nat} {s : Text} {rs : List Removal} (h : Fits offset s rs) :
    ∀ r ∈ rs, offset ≤ r.start ∧ r.start < r.stop ∧ r.stop ≤ offset + size s := by
  induction rs generalizing offset s with
  | nil => exact fun r hr => absurd hr List.not_mem_nil
  | cons r rs ih =>
    obtain ⟨gap, body, rest, rfl, hstart, hstop, hbody, hrest⟩ := h
    have hpos := size_pos (ne_nil_of_isSolid hbody)
    intro x hx
    rw [size_append, size_append]
    rcases List.mem_cons.mp hx with rfl | hx
    · omega
    · have := ih hrest x hx
      omega

/-- The ranges fit what is left when a text is cut before the first of them. -/
theorem Fits.drop {offset : Nat} {a b : Text} {rs : List Removal} (h : Fits offset (a ++ b) rs)
    (hlow : ∀ r ∈ rs, offset + size a ≤ r.start) : Fits (offset + size a) b rs := by
  cases rs with
  | nil => trivial
  | cons r rs =>
    obtain ⟨gap, body, rest, hparts, hstart, hstop, hbody, hrest⟩ := h
    have hle := hlow r List.mem_cons_self
    obtain ⟨g, rfl⟩ := isPrefix_of_size_le ⟨b, rfl⟩ ⟨body ++ rest, hparts.symm⟩
      (show size a ≤ size gap by omega)
    rw [List.append_assoc, List.append_cancel_left_eq] at hparts
    rw [size_append] at hstart hstop
    exact ⟨g, body, rest, hparts, by omega, by omega, hbody, hrest⟩

/-- The first range starts after the blanks in front of it. -/
theorem Fits.drop_blank {offset : Nat} {w s : Text} {rs : List Removal}
    (hw : ∀ c ∈ w, isBlank c = true) (h : Fits offset (w ++ s) rs) :
    Fits (offset + size w) s rs := by
  cases rs with
  | nil => trivial
  | cons r rs =>
    obtain ⟨gap, body, rest, hparts, hstart, hstop, hbody, hrest⟩ := h
    obtain ⟨c, t, rfl, hc⟩ := exists_cons_of_isSolid hbody
    obtain ⟨g, rfl⟩ : w <+: gap := by
      rcases List.append_eq_append_iff.mp hparts with ⟨m, hm, -⟩ | ⟨m, hm, hrest⟩
      · exact ⟨m, hm.symm⟩
      · cases m with
        | nil => exact ⟨[], by simpa using hm⟩
        | cons d m =>
          obtain ⟨rfl, -⟩ := List.cons.inj hrest
          rw [hw c (by simp [hm])] at hc
          cases hc
    rw [List.append_assoc, List.append_cancel_left_eq] at hparts
    rw [size_append] at hstart hstop
    exact ⟨g, c :: t, rest, hparts, by omega, by omega, hbody, hrest⟩

/-- **Ranges that do not reach over a cut** fit the two parts of the text. -/
theorem exists_fits_append {offset : Nat} {a b : Text} {rs : List Removal}
    (h : Fits offset (a ++ b) rs)
    (hcut : ∀ r ∈ rs, r.stop ≤ offset + size a ∨ offset + size a ≤ r.start) :
    ∃ left right, rs = left ++ right ∧ Fits offset a left ∧ Fits (offset + size a) b right := by
  induction rs generalizing offset a with
  | nil => exact ⟨[], [], rfl, trivial, trivial⟩
  | cons r rs ih =>
    obtain ⟨gap, body, rest, hparts, hstart, hstop, hbody, hrest⟩ := id h
    rcases hcut r List.mem_cons_self with hbefore | hafter
    · have hprefix : gap ++ body <+: a ++ b := ⟨rest, by rw [hparts, List.append_assoc]⟩
      obtain ⟨c, rfl⟩ := isPrefix_of_size_le hprefix (List.prefix_append a b)
        (by rw [size_append]; omega)
      simp only [List.append_assoc, List.append_cancel_left_eq] at hparts
      subst hparts
      have hsize : offset + size (gap ++ body ++ c) = r.stop + size c := by
        simp only [size_append]
        omega
      rw [hsize] at hcut ⊢
      obtain ⟨left, right, rfl, hleft, hright⟩ :=
        ih hrest fun x hx => hcut x (List.mem_cons_of_mem _ hx)
      exact ⟨r :: left, right, rfl,
        ⟨gap, body, c, by simp only [List.append_assoc], hstart, hstop, hbody, hleft⟩, hright⟩
    · refine ⟨[], r :: rs, rfl, trivial, h.drop fun x hx => ?_⟩
      rcases List.mem_cons.mp hx with rfl | hx
      · exact hafter
      · have := hrest.bounds x hx
        omega

/-! ## Removals in front of the start of a line -/

theorem atLineStart_of_suffix {s t : Text} (hsuffix : t <:+ s) (hs : atLineStart s = true) :
    atLineStart t = true := by
  obtain ⟨a, rfl⟩ := hsuffix
  rcases List.eq_nil_or_concat' t with rfl | ⟨k, c, rfl⟩
  · rfl
  · simpa [atLineStart, ← List.append_assoc] using hs

theorem atLineStart_append {a b : Text} (hb : atLineStart b = true) (hne : b ≠ []) :
    atLineStart (a ++ b) = true := by
  rwa [atLineStart, List.getLast?_append_of_ne_nil _ hne]

/-- A text that ends with a line break may be followed by anything. -/
theorem afterBreak?_append_of_atLineStart {s : Text} (hs : atLineStart s = true) (hne : s ≠ [])
    (t : Text) : afterBreak? (s ++ t) = (afterBreak? s).map (· ++ t) := by
  match s with
  | [c] =>
    obtain rfl : c = '\n' := by simpa [atLineStart] using hs
    rfl
  | c :: d :: s =>
    by_cases hc : c = '\n' <;> by_cases hr : c = '\r' <;> by_cases hd : d = '\n' <;>
      simp [afterBreak?, hc, hr, hd]

/-- A finished line does not go with the blanks at its start. -/
theorem dropWhile_ne_nil_of_atLineStart {s : Text} (hs : atLineStart s = true) (hne : s ≠ []) :
    s.dropWhile isHorizontal ≠ [] := by
  rw [ne_eq, dropWhile_eq_nil]
  intro h
  obtain ⟨k, c, rfl⟩ := (List.eq_nil_or_concat' s).resolve_left hne
  obtain rfl : c = '\n' := by simpa [atLineStart] using hs
  simpa using h '\n' (by simp)

section Finished

variable {after : Text} (hafter : atLineStart after = true) (hne : after ≠ [])
include hafter hne

/-- **A gap on a finished line is closed the same way** whatever follows the line. -/
theorem closeGap_append_of_atLineStart (before t : Text) :
    closeGap before (after ++ t) = ((closeGap before after).1, (closeGap before after).2 ++ t) := by
  have hrest : atLineStart (after.dropWhile isHorizontal) = true :=
    atLineStart_of_suffix (List.dropWhile_suffix _) hafter
  have hrestne := dropWhile_ne_nil_of_atLineStart hafter hne
  have hdrop : (after ++ t).dropWhile isHorizontal = after.dropWhile isHorizontal ++ t := by
    rw [List.dropWhile_append, if_neg (by simpa [List.isEmpty_iff] using hrestne)]
  have hbreak := afterBreak?_append_of_atLineStart hrest hrestne t
  have hend : atLineEnd (after.dropWhile isHorizontal ++ t) =
      atLineEnd (after.dropWhile isHorizontal) := by
    obtain ⟨c, v, hcons⟩ := List.exists_cons_of_ne_nil hrestne
    rw [atLineEnd, atLineEnd, hbreak, Option.isSome_map, hcons]
    rfl
  simp only [closeGap, hdrop, hend, hbreak]
  split
  · split
    · cases afterBreak? (after.dropWhile isHorizontal) <;> rfl
    · rfl
  · rfl

/-- The start of the line that follows stays where it is. -/
theorem atLineStart_closeGap (before : Text) :
    atLineStart ((closeGap before after).1 ++ (closeGap before after).2) = true := by
  by_cases hnil : (closeGap before after).2 = []
  · rw [hnil, List.append_nil]
    have hrestne := dropWhile_ne_nil_of_atLineStart hafter hne
    revert hnil
    simp only [closeGap]
    split
    · split
      · rename_i hkept
        exact fun _ => hkept
      · exact fun hnil => absurd hnil hrestne
    · exact fun hnil => absurd hnil hrestne
  · exact atLineStart_append (atLineStart_of_suffix (closeGap_parts before after).2 hafter) hnil

end Finished

/-- **Removals in front of the start of a line** do not depend on what follows it, and a line starts
there still.  Something is left behind each range, as no line starts where a range ends. -/
theorem exists_runAll_atLineStart {p z : Text} {rs : List Removal} (hp : endsFlush p = true)
    (hfits : Fits (size p) z rs) (hz : atLineStart (p ++ z) = true) :
    ∃ u, atLineStart (p ++ u) = true ∧
      ∀ x, runAll (p ++ (z ++ x)) rs.reverse = .ok (p ++ (u ++ x)) := by
  induction rs generalizing p z with
  | nil => exact ⟨z, hz, fun x => rfl⟩
  | cons r rs ih =>
    obtain ⟨gap, body, rest, rfl, hstart, hstop, hbody, hrest⟩ := hfits
    have hbefore : r.start = size (p ++ gap) := by rw [hstart, size_append]
    have hbehind : r.stop = size (p ++ gap) + size body := by rw [hstop, size_append]
    have hsize : size (p ++ gap ++ body) = r.stop := by rw [hbehind, size_append]
    have hsolid := endsSolid_append (a := p ++ gap) hbody
    obtain ⟨u, hu, hrun⟩ := ih (endsFlush_of_endsSolid hsolid) (hsize.symm ▸ hrest)
      (by simpa only [List.append_assoc] using hz)
    have hne : u ≠ [] := by
      rintro rfl
      rw [List.append_nil, atLineStart_of_isSolid hbody] at hu
      cases hu
    have hstartu : atLineStart u = true := atLineStart_of_suffix (List.suffix_append _ u) hu
    have hlater : ∀ x, runAll (p ++ (gap ++ (body ++ rest) ++ x)) (r :: rs).reverse =
        run (p ++ gap ++ (body ++ (u ++ x))) r := by
      intro x
      have h := hrun x
      simp only [List.append_assoc] at h
      rw [runAll_reverse_cons]
      simp only [List.append_assoc, h]
      rfl
    simp only [hlater, run_eq hbefore hbehind]
    cases r.placeholder with
    | true =>
      refine ⟨gap ++ ';' :: u, ?_, fun x => by simp⟩
      rw [List.append_cons, ← List.append_assoc, ← List.append_assoc]
      exact atLineStart_append hstartu hne
    | false =>
      obtain ⟨g, hg⟩ := isPrefix_closeGap_of_endsFlush hp gap u
      refine ⟨g ++ (closeGap (p ++ gap) u).2, ?_, fun x => ?_⟩
      · rw [← List.append_assoc, hg]
        exact atLineStart_closeGap hstartu hne _
      · rw [if_neg Bool.false_ne_true, closeGap_append_of_atLineStart hstartu hne, ← hg]
        simp only [List.append_assoc]

/-! ## The lines that are left -/

/-- **A line that no range meets comes out as it was**, between what becomes of the text before it
and what becomes of the text after it. -/
theorem exists_runAll_append {p z k t : Text} {rs : List Removal} (hp : endsFlush p = true)
    (hz : atLineStart (p ++ z) = true) (hfits : Fits (size p) (z ++ (k ++ t)) rs)
    (hline : ∀ r ∈ rs, r.stop ≤ size (p ++ z) ∨ size (p ++ z) + size k ≤ r.start)
    (hk : k ≠ []) :
    ∃ left right u, rs = left ++ right ∧ Fits (size (p ++ (z ++ k))) t right ∧
      atLineStart (p ++ u) = true ∧
        ∀ x, runAll (p ++ (z ++ x)) left.reverse = .ok (p ++ (u ++ x)) := by
  have hpos := size_pos hk
  rw [size_append] at hline
  obtain ⟨left, right, rfl, hleft, hright⟩ := exists_fits_append hfits fun r hr => by
    have := hline r hr
    omega
  obtain ⟨u, hu, hrun⟩ := exists_runAll_atLineStart hp hleft hz
  refine ⟨left, right, u, rfl, ?_, hu, hrun⟩
  rw [size_append, size_append, ← Nat.add_assoc]
  refine hright.drop fun r hr => ?_
  have hbounds := hright.bounds r hr
  have := hline r (List.mem_append_right _ hr)
  omega

theorem ranges_of_line {all rs : List Removal} {offset : Nat} {k : Text}
    (hline : (all.all (fun r => r.stop ≤ offset || offset + size k ≤ r.start) &&
      !k.all isBlank) = true) (hmem : ∀ r ∈ rs, r ∈ all) :
    (∀ r ∈ rs, r.stop ≤ offset ∨ offset + size k ≤ r.start) ∧ k ≠ [] ∧
      [k].filter (fun k => !k.all isBlank) = [k] := by
  rw [Bool.and_eq_true, List.all_eq_true] at hline
  obtain ⟨hoff, hblank⟩ := hline
  refine ⟨fun r hr => by simpa using hoff r (hmem r hr), ?_, ?_⟩
  · rintro rfl
    cases hblank
  · rw [List.filter_singleton, hblank]
    rfl

/-- **Whether the lines of `s` that no range meets are left by every run of removals**, whatever
stands before `s`: lines `p` that are done with, up to the last one that no range met, and lines `z`
that are read already and wait for the ranges on them. -/
def LeavesLines (all : List Removal) (s : Text) : Prop :=
  ∀ {p z : Text} {rs : List Removal}, atLineStart p = true → atLineStart (p ++ z) = true →
    isPaired (p ++ (z ++ s)) = true → (∀ r ∈ rs, r ∈ all) → Fits (size p) (z ++ s) rs →
    ∃ q, runAll (p ++ (z ++ s)) rs.reverse = .ok (p ++ q) ∧
      List.Sublist (untouched all (size (p ++ z)) (lines s)) (codeLines q)

/-- The last line is left, if no range meets it. -/
theorem leavesLines_inline (all : List Removal) {k : Text} (hk : isInline k = true) :
    LeavesLines all k := by
  intro p z rs hp hz hpaired hmem hfits
  have hflush := endsFlush_of_atLineStart hp
  by_cases hline : all.all (fun r => r.stop ≤ size (p ++ z) || size (p ++ z) + size k ≤ r.start) &&
      !k.all isBlank
  · obtain ⟨hoff, hne, hcode⟩ := ranges_of_line hline hmem
    obtain ⟨left, right, u, rfl, hright, hu, hrun⟩ :=
      exists_runAll_append (k := k) (t := []) hflush hz (by simpa using hfits) hoff hne
    obtain rfl : right = [] := by
      refine List.eq_nil_iff_forall_not_mem.mpr fun r hr => ?_
      have := hright.bounds r hr
      simp only [size_nil] at this
      omega
    refine ⟨u ++ k, by rw [List.append_nil, hrun k], ?_⟩
    rw [lines_inline hk hne, untouched, if_pos hline, untouched, List.append_nil, codeLines,
      contentsWith_append_of_atLineStart _ (atLineStart_of_suffix (List.suffix_append p u) hu),
      contentsWith_inline rfl hk, hcode]
    exact List.sublist_append_right _ _
  · obtain ⟨q, hq, -⟩ := exists_runAll_paired hflush hfits hpaired
    refine ⟨q, hq, ?_⟩
    by_cases hnil : k = []
    · rw [hnil, lines, untouched]
      exact List.nil_sublist _
    · rw [lines_inline hk hnil, untouched, if_neg hline, untouched]
      exact List.nil_sublist _

/-- **A line in front of lines that are left** is left too, if no range meets it. -/
theorem leavesLines_line {all : List Removal} {k s : Text} (hk : isInline k = true) (e : LineEnding)
    (ih : LeavesLines all s) : LeavesLines all (k ++ (e.text ++ s)) := by
  intro p z rs hp hz hpaired hmem hfits
  have hstart : atLineStart (p ++ (z ++ (k ++ e.text))) = true := by
    simpa only [List.append_assoc] using atLineStart_append_ending (p ++ (z ++ k)) e
  have hsize : size (p ++ z) + size (Line.text ⟨k, some e⟩) = size (p ++ (z ++ (k ++ e.text))) := by
    simp [Line.text, Nat.add_assoc]
  rw [lines_inline_append hk, untouched, hsize]
  by_cases hline : all.all (fun r => r.stop ≤ size (p ++ z) || size (p ++ z) + size k ≤ r.start) &&
      !k.all isBlank
  · obtain ⟨hoff, hne, hcode⟩ := ranges_of_line hline hmem
    obtain ⟨left, right, u, rfl, hright, hu, hrun⟩ :=
      exists_runAll_append (endsFlush_of_atLineStart hp) hz hfits hoff hne
    have hlater : Fits (size (p ++ (z ++ (k ++ e.text)))) s right := by
      have h := hright.drop_blank (w := e.text) fun c hc => isBlank_of_mem_ending hc
      rwa [← size_append, List.append_assoc, List.append_assoc] at h
    obtain ⟨q, hq, hsub⟩ := ih (z := []) hstart (by simpa using hstart)
      (by simpa using hpaired) (fun r hr => hmem r (List.mem_append_right _ hr)) hlater
    refine ⟨u ++ (k ++ (e.text ++ q)), ?_, ?_⟩
    · have hleft := hrun (k ++ (e.text ++ q))
      simp only [List.append_assoc, List.nil_append] at hq
      rw [List.reverse_append, runAll_append, hq]
      exact hleft
    · rw [if_pos hline, codeLines, contentsWith_append_of_atLineStart _
        (atLineStart_of_suffix (List.suffix_append p u) hu), contentsWith_inline_append _ hk, hcode]
      rw [List.append_nil] at hsub
      exact ((List.Sublist.refl [k]).append hsub).trans (List.sublist_append_right _ _)
  · rw [if_neg hline, List.nil_append]
    have h := ih (z := z ++ (k ++ e.text)) hp hstart (by simpa using hpaired) hmem
      (by simpa using hfits)
    simpa only [List.append_assoc] using h

/-- **The lines that no range meets** are among the lines a run of removals leaves. -/
theorem exists_runAll_untouched (all : List Removal) {s : Text} {rs : List Removal}
    (hs : isPaired s = true) (hmem : ∀ r ∈ rs, r ∈ all) (hfits : Fits 0 s rs) :
    ∃ q, runAll s rs.reverse = .ok q ∧ List.Sublist (untouched all 0 (lines s)) (codeLines q) := by
  have h : LeavesLines all s := line_induction (fun k => leavesLines_inline all)
    (fun k e s hk _ => leavesLines_line hk e) hs
  exact h (p := []) (z := []) rfl rfl hs hmem hfits

/-- Tidying keeps the lines that are not blank, blanks at the two ends apart. -/
theorem exists_codeLines_tidy (given : Text) {edited : Text} (h : isPaired edited = true) :
    ∃ core lead trail, tidy given edited = core ++ finalBreak given ∧
      (∀ c ∈ lead, isHorizontal c = true) ∧ (∀ c ∈ trail, isHorizontal c = true) ∧
      codeLines (lead ++ (core ++ (trail ++ finalBreak given))) = codeLines edited := by
  have hsettled := isPaired_settle (LineEnding.detect given) h
  obtain ⟨lead, trail, hlead, htrail, hkeep⟩ := exists_codeLines_trim hsettled
  refine ⟨_, lead, trail, rfl, hlead, htrail, ?_⟩
  have hend : atLineEnd (finalBreak given) = true := by
    rcases eq_nil_or_of_finalBreak given with hnil | ⟨e, he⟩
    · rw [hnil]
      rfl
    · rw [he]
      cases e <;> rfl
  have hkind :
      (fun k : Text => (!k.all isBlank) && !k.all isHorizontal) = fun k => !k.all isBlank := by
    funext k
    rw [Bool.eq_iff_iff]
    simp only [Bool.and_eq_true, Bool.not_eq_true', and_iff_left_iff_imp]
    intro hk
    rw [Bool.eq_false_iff] at hk ⊢
    exact fun hall => hk (List.all_eq_true.mpr fun c hc =>
      isBlank_of_isHorizontal (List.all_eq_true.mp hall c hc))
  rw [← settle, hkeep _ hend fun c hc => isBlank_of_mem_finalBreak hc, codeLines,
    contentsWith_settle rfl _ h, hkind]
  rfl

/-- **The lines that no range meets are among the lines of the edited text**, as they were and in
their order.  The first line of the text has lost the blanks in front of it, and the last line those
behind it: `lead` and `trail`.  Apart from blanks the text has nothing but what the ranges leave. -/
theorem exists_edit_untouched {s : Text} {rs : List Removal} (hpaired : isPaired s = true)
    (hne : rs ≠ []) (hsolid : ∀ r ∈ rs, r.SolidIn s) (hapart : rs.Pairwise Apart) :
    ∃ core lead trail, edit s rs = .ok (core ++ finalBreak s) ∧
      (∀ c ∈ lead, isHorizontal c = true) ∧ (∀ c ∈ trail, isHorizontal c = true) ∧
      List.Sublist (untouched rs 0 (lines s))
        (codeLines (lead ++ (core ++ (trail ++ finalBreak s)))) ∧
      nonblank core = nonblank (without 0 s (sortAscending rs)) := by
  have hfits := fits_of_apart hsolid hapart
  obtain ⟨q, hq, hsub⟩ := exists_runAll_untouched rs hpaired (fun r => mem_sortAscending.mp) hfits
  obtain ⟨q', hq', hskeleton⟩ := exists_runAll (p := []) (z := []) rfl rfl hfits
  obtain ⟨q'', hq'', hqpaired⟩ := exists_runAll_paired (p := []) rfl hfits hpaired
  simp only [List.nil_append, List.append_nil, reverse_sortAscending] at hq hq' hq''
  simp only [List.nil_append, List.append_nil] at hskeleton hqpaired
  obtain rfl : q' = q := Except.ok.inj (hq'.symm.trans hq)
  obtain rfl : q'' = q' := Except.ok.inj (hq''.symm.trans hq)
  obtain ⟨core, lead, trail, htidy, hlead, htrail, hkeep⟩ := exists_codeLines_tidy s hqpaired
  refine ⟨core, lead, trail, ?_, hlead, htrail, hkeep ▸ hsub, ?_⟩
  · rw [edit_of_accepted (fault_of_apart hsolid hapart) hne, hq, ← htidy]
    rfl
  · have hcore := nonblank_eq_of_skeleton_eq ((skeleton_tidy s q'').trans hskeleton)
    have hbreak : nonblank (finalBreak s) = [] :=
      nonblank_eq_nil (List.all_eq_true.mpr fun c hc => isBlank_of_mem_finalBreak hc)
    rwa [htidy, nonblank_append, hbreak, List.append_nil] at hcore

end Removal

namespace Sample

open Removal

/-- A source with three lines that no statement to be removed is on: the first one, the last one,
and one before a statement that is replaced. -/
def spreadSource : Text := "  x \n  a();\n\n\n\n y(); b();\nif (p)\n\tc();\n  z  \n".toList

/-- The ranges of three of its statements. -/
def spreadRanges : List Removal := [⟨34, 38, true⟩, ⟨21, 25, false⟩, ⟨7, 11, false⟩]

theorem sample_edit_untouched :
    isPaired spreadSource = true ∧ (∀ r ∈ spreadRanges, r.SolidIn spreadSource) ∧
      spreadRanges.Pairwise Apart ∧
      untouched spreadRanges 0 (lines spreadSource) =
        ["  x ".toList, "if (p)".toList, "  z  ".toList] ∧
      edit spreadSource spreadRanges = .ok "x \n\n y();\nif (p)\n\t;\n  z\n".toList ∧
      ∃ lead trail, (∀ c ∈ lead, isHorizontal c = true) ∧ (∀ c ∈ trail, isHorizontal c = true) ∧
        List.Sublist ["  x ".toList, "if (p)".toList, "  z  ".toList]
          (codeLines (lead ++ ("x \n\n y();\nif (p)\n\t;\n  z".toList ++ (trail ++ ['\n'])))) := by
  have hsort : sortDescending spreadRanges = spreadRanges :=
    sortDescending_of_pairwise (by decide)
  have hpaired : isPaired spreadSource = true := by decide
  have hsolid : ∀ r ∈ spreadRanges, r.SolidIn spreadSource := by decide
  have hapart : spreadRanges.Pairwise Apart := by decide
  have hlines : untouched spreadRanges 0 (lines spreadSource) =
      ["  x ".toList, "if (p)".toList, "  z  ".toList] := by decide
  have hbreak : finalBreak spreadSource = ['\n'] := by decide
  have hedit : edit spreadSource spreadRanges =
      .ok ("x \n\n y();\nif (p)\n\t;\n  z".toList ++ finalBreak spreadSource) := by
    rw [edit_of_accepted (fault_of_apart hsolid hapart) (List.cons_ne_nil _ _), hsort]
    decide
  obtain ⟨core, lead, trail, hcore, hlead, htrail, hsub, -⟩ :=
    exists_edit_untouched hpaired (show spreadRanges ≠ [] by decide) hsolid hapart
  obtain rfl := List.append_cancel_right (Except.ok.inj (hedit.symm.trans hcore))
  rw [hlines, hbreak] at hsub
  exact ⟨hpaired, hsolid, hapart, hlines, hedit, lead, trail, hlead, htrail, hsub⟩

end Sample

end Delog
