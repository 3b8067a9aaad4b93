import Delog.Proofs.Text.Break
import Delog.Proofs.Text.Skeleton
import Delog.Removal.Edit
import Mathlib.Data.List.Sort

/-!
# Proofs/Removal/Excise — the removals of solid ranges, carried out one after the other

A range is solid when the text it covers neither starts nor ends with a blank.  Closing the gap that
one removal leaves takes blanks only, and these lie outside all other solid ranges: a range still to
come keeps its offsets and its text, and what stands before and after a run of removals stays.

* `exists_closeGap_append`, `skeleton_closeGap` — closing a gap moves solid surroundings nowhere,
  and loses no line break between them
* `exists_runAll` — what a run of removals comes to has the skeleton of the text without the ranges
* `slice_pending` — the ranges still to come have the text they had at first
-/

namespace Delog.Removal

open Text

/-- What takes the place of a range. -/
def filling (r : Removal) : Text := if r.placeholder then [';'] else []

/-- **A text without the ranges**, listed in ascending order, and with `;` where an empty statement
is due; the text starts at `offset`. -/
def without (offset : Nat) (s : Text) : List Removal → Text
  | [] => s
  | r :: rs =>
    takeBytes (r.start - offset) s ++
      (r.filling ++ without r.stop (dropBytes (r.stop - offset) s) rs)

/-- **A range that is sound and solid**: it is in bounds, cuts no character, and covers a text
without blanks at its ends. -/
structure SolidIn (s : Text) (r : Removal) : Prop where
  start_le_stop : r.start ≤ r.stop
  isBoundary_start : isBoundary s r.start = true
  isBoundary_stop : isBoundary s r.stop = true
  isSolid_slice : isSolid (s.slice r.span) = true

/-- **The ranges fit a text** that starts at `offset`: they follow one another in it, each around a
solid segment. -/
def Fits : Nat → Text → List Removal → Prop
  | _, _, [] => True
  | offset, s, r :: rs =>
    ∃ gap body rest, s = gap ++ (body ++ rest) ∧ r.start = offset + size gap ∧
      r.stop = offset + size gap + size body ∧ isSolid body = true ∧ Fits r.stop rest rs

/-! ## Closing a gap between solid ends -/

/-- **A gap is closed between its solid surroundings**: these stay as they are. -/
theorem exists_closeGap_append {p z : Text} (hp : endsSolid p = true) (hz : startsSolid z = true)
    (gap after : Text) :
    ∃ g a, closeGap (p ++ gap) (after ++ z) = (p ++ g, a ++ z) := by
  have hkept := dropEndWhile_append_of_endsSolid (fun c => isBlank_of_isHorizontal) hp gap
  have hrest := dropWhile_append_of_startsSolid (fun c => isBlank_of_isHorizontal) hz after
  simp only [closeGap, hkept, hrest, afterBreak?_append hz]
  split
  · split
    · cases afterBreak? (after.dropWhile isHorizontal) with
      | none => exact ⟨_, _, rfl⟩
      | some a => exact ⟨_, _, rfl⟩
    · exact ⟨_, _, rfl⟩
  · exact ⟨_, _, rfl⟩

private theorem layout_dropWhile (s : Text) : layout (s.dropWhile isHorizontal) = layout s := by
  have h := layout_horizontal_append (w := s.takeWhile isHorizontal)
    (fun c hc => List.all_eq_true.mp List.all_takeWhile c hc) (s.dropWhile isHorizontal)
  rw [List.takeWhile_append_dropWhile] at h
  exact h.symm

private theorem layout_dropEndWhile_append (s t : Text) :
    layout (dropEndWhile isHorizontal s ++ t) = layout (s ++ t) := by
  conv_rhs => rw [← dropEndWhile_append_takeEndWhile isHorizontal s, List.append_assoc]
  refine layout_append_congr (Eq.symm ?_) _
  exact layout_horizontal_append
    (fun c hc => List.all_eq_true.mp (all_takeEndWhile isHorizontal s) c hc) t

theorem layout_of_afterBreak? {s t : Text} (h : afterBreak? s = some t) :
    layout s = breakBefore (layout t) := by
  rw [afterBreak?.eq_def] at h
  split at h
  · rw [← Option.some.inj h, layout_newline]
  · rw [← Option.some.inj h, layout_cons_of_isBlank (by decide) (by decide), layout_newline]
  · cases h

/-- **Closing a gap loses no line break**: where one goes, another one stands before it. -/
theorem skeleton_closeGap (before after : Text) :
    skeleton ((closeGap before after).1 ++ (closeGap before after).2)
      = skeleton (before ++ after) := by
  have hclosed : skeleton (dropEndWhile isHorizontal before ++ after.dropWhile isHorizontal)
      = skeleton (before ++ after) := by
    rw [skeleton, layout_dropEndWhile_append]
    exact skeleton_append_congr (layout_dropWhile after) before
  simp only [closeGap]
  split
  · split
    · rename_i hstart
      rw [← hclosed]
      cases hbreak : afterBreak? (after.dropWhile isHorizontal) with
      | none => rfl
      | some t =>
        rw [Option.getD_some]
        rcases List.eq_nil_or_concat' (dropEndWhile isHorizontal before) with hk | ⟨k, c, hk⟩
        · rw [hk, List.nil_append, List.nil_append, skeleton, skeleton,
            layout_of_afterBreak? hbreak, breakBefore_breakBefore]
        · obtain rfl : c = '\n' := by
            rw [hk] at hstart
            simpa [atLineStart] using hstart
          rw [hk, List.append_assoc, List.append_assoc]
          refine skeleton_append_congr ?_ k
          rw [List.singleton_append, List.singleton_append, layout_newline, layout_newline,
            layout_of_afterBreak? hbreak, breakBefore_breakBefore]
    · exact hclosed
  · exact skeleton_append_congr (layout_dropWhile after) before

/-! ## One removal and a run of them -/

theorem run_eq {r : Removal} {before body after : Text} (hstart : r.start = size before)
    (hstop : r.stop = size before + size body) :
    run (before ++ (body ++ after)) r =
      .ok (if r.placeholder then before ++ ';' :: after
        else (closeGap before after).1 ++ (closeGap before after).2) := by
  have hb : isBoundary (before ++ (body ++ after)) r.start = true := by
    rw [hstart]
    exact isBoundary_size_append before _
  have he : isBoundary (before ++ (body ++ after)) r.stop = true := by
    rw [hstop, ← size_append, ← List.append_assoc]
    exact isBoundary_size_append (before ++ body) _
  have htake : takeBytes r.start (before ++ (body ++ after)) = before := by
    rw [hstart, takeBytes_size_append]
  have hdrop : dropBytes r.stop (before ++ (body ++ after)) = after := by
    rw [hstop, ← size_append, ← List.append_assoc, dropBytes_size_append]
  rw [run, hb, he, htake, hdrop]
  cases r.placeholder <;> rfl

/-- **One removal between solid surroundings** comes to a text of the skeleton it has when the range
is cut out and nothing else. -/
theorem exists_run {r : Removal} {p z : Text} (hp : endsSolid p = true)
    (hz : startsSolid z = true) {gap body : Text} (hstart : r.start = size p + size gap)
    (hstop : r.stop = size p + size gap + size body) (after : Text) :
    ∃ q, run (p ++ gap ++ (body ++ (after ++ z))) r = .ok (p ++ (q ++ z)) ∧
      skeleton (p ++ (q ++ z)) = skeleton (p ++ (gap ++ (r.filling ++ (after ++ z)))) := by
  rw [run_eq (by rw [hstart, size_append]) (by rw [hstop, size_append]), filling]
  cases r.placeholder with
  | true => exact ⟨gap ++ ';' :: after, by simp, by simp⟩
  | false =>
    obtain ⟨g, a, hclose⟩ := exists_closeGap_append hp hz gap after
    have hskeleton := skeleton_closeGap (p ++ gap) (after ++ z)
    rw [hclose] at hskeleton ⊢
    exact ⟨g ++ a, by simp, by simpa using hskeleton⟩

theorem runAll_append (s : Text) (xs ys : List Removal) :
    runAll s (xs ++ ys) = (runAll s xs).bind (runAll · ys) := by
  induction xs generalizing s with
  | nil => rfl
  | cons x xs ih =>
    rw [List.cons_append, runAll, runAll]
    cases run s x with
    | error e => rfl
    | ok t => exact ih t

/-- The first range is removed from what is left when those after it are. -/
theorem runAll_reverse_cons (s : Text) (r : Removal) (rs : List Removal) :
    runAll s (r :: rs).reverse = (runAll s rs.reverse).bind (run · r) := by
  rw [List.reverse_cons, runAll_append]
  refine congrArg _ (funext fun t => ?_)
  rw [runAll]
  cases run t r <;> rfl

theorem without_of_fits {offset : Nat} {r : Removal} {gap body : Text}
    (hstart : r.start = offset + size gap) (hstop : r.stop = offset + size gap + size body)
    (rest : Text) (rs : List Removal) :
    without offset (gap ++ (body ++ rest)) (r :: rs)
      = gap ++ (r.filling ++ without r.stop rest rs) := by
  have hgap : r.start - offset = size gap := by omega
  have hbody : r.stop - offset = size (gap ++ body) := by
    rw [size_append]
    omega
  rw [without, hgap, hbody, takeBytes_size_append, ← List.append_assoc gap body rest,
    dropBytes_size_append]

/-- **A run of removals, from the last to the first.**  Solid surroundings stay, and between them
the text gets the skeleton of the text without the ranges.  Up to the end of the first range the
text ends solid, so that the removals behind it leave it whole. -/
theorem exists_runAll {p z s : Text} {rs : List Removal} (hp : endsSolid p = true)
    (hz : startsSolid z = true) (h : Fits (size p) s rs) :
    ∃ q, runAll (p ++ (s ++ z)) rs.reverse = .ok (p ++ (q ++ z)) ∧
      skeleton (p ++ (q ++ z)) = skeleton (p ++ (without (size p) s rs ++ z)) := by
  induction rs generalizing p s with
  | nil => exact ⟨s, rfl, rfl⟩
  | cons r rs ih =>
    obtain ⟨gap, body, rest, rfl, hstart, hstop, hbody, hrest⟩ := h
    have hsize : size (p ++ gap ++ body) = r.stop := by
      rw [hstop, size_append, size_append]
    obtain ⟨q, hq, hskel⟩ := ih (endsSolid_append hbody) (by rwa [hsize])
    have hlayout := layout_cancel hbody (p ++ gap) hskel
    obtain ⟨q', hq', hskel'⟩ := exists_run hp hz hstart hstop q
    refine ⟨q', ?_, ?_⟩
    · have htext : p ++ (gap ++ (body ++ rest) ++ z) = p ++ gap ++ body ++ (rest ++ z) := by
        simp only [List.append_assoc]
      rw [List.reverse_cons, runAll_append, htext, hq]
      simp only [Except.bind, runAll]
      rw [List.append_assoc (p ++ gap) body, hq']
    · have hcongr := skeleton_append_congr hlayout (p ++ (gap ++ r.filling))
      rw [hskel', without_of_fits hstart hstop, ← hsize]
      simpa only [List.append_assoc] using hcongr

/-! ## Ranges that fit -/

/-- A solid range parts the text in three, with a solid segment in the middle. -/
theorem SolidIn.exists_parts {s : Text} {r : Removal} (h : r.SolidIn s) :
    ∃ a b c, s = a ++ (b ++ c) ∧ r.start = size a ∧ r.stop = size a + size b ∧
      isSolid b = true := by
  obtain ⟨a, c, hs, ha, hb⟩ :=
    exists_eq_append_slice h.isBoundary_start h.isBoundary_stop h.start_le_stop
  exact ⟨a, s.slice r.span, c, hs, ha, hb, h.isSolid_slice⟩

theorem SolidIn.start_lt_stop {s : Text} {r : Removal} (h : r.SolidIn s) : r.start < r.stop := by
  obtain ⟨a, b, c, -, ha, hb, hsolid⟩ := h.exists_parts
  have := size_pos (ne_nil_of_isSolid hsolid)
  omega

/-- Solid ranges in ascending order fit the part of a text that they lie in. -/
theorem fits_of_solidIn {p s z : Text} {rs : List Removal}
    (hsolid : ∀ r ∈ rs, r.SolidIn (p ++ (s ++ z)) ∧ size p ≤ r.start ∧ r.stop ≤ size p + size s)
    (hpair : rs.Pairwise fun a b => a.stop ≤ b.start) : Fits (size p) s rs := by
  induction rs generalizing p s with
  | nil => trivial
  | cons r rs ih =>
    obtain ⟨hr, hlow, hhigh⟩ := hsolid r List.mem_cons_self
    obtain ⟨hfirst, hpair⟩ := List.pairwise_cons.mp hpair
    obtain ⟨a, b, c, htext, ha, hb, hbody⟩ := hr.exists_parts
    obtain ⟨gap, rfl⟩ := isPrefix_of_size_le (List.prefix_append p _) ⟨b ++ c, htext.symm⟩
      (by rwa [← ha])
    rw [List.append_assoc, List.append_cancel_left_eq, ← List.append_assoc gap] at htext
    rw [size_append] at ha hb
    obtain ⟨rest, rfl⟩ := isPrefix_of_size_le ⟨c, htext.symm⟩ (List.prefix_append s z)
      (by rw [size_append]; omega)
    refine ⟨gap, b, rest, by rw [List.append_assoc], ha, hb, hbody, ?_⟩
    have hp : size (p ++ gap ++ b) = r.stop := by
      rw [size_append, size_append, hb]
    rw [← hp]
    refine ih (fun x hx => ?_) hpair
    obtain ⟨hx1, -, hx3⟩ := hsolid x (List.mem_cons_of_mem _ hx)
    refine ⟨by simpa using hx1, ?_, ?_⟩
    · rw [hp]
      exact hfirst x hx
    · simp only [size_append] at hx3 ⊢
      omega

/-- Ranges in descending order overlap only if two neighbours do. -/
theorem firstOverlap_eq_none {rs : List Removal}
    (h : rs.Pairwise fun later earlier => earlier.stop ≤ later.start) : firstOverlap rs = none := by
  fun_induction firstOverlap rs with
  | case1 later earlier rs hlt =>
    have := (List.pairwise_cons.mp h).1 earlier List.mem_cons_self
    omega
  | case2 later earlier rs _ ih => exact ih (List.pairwise_cons.mp h).2
  | case3 => rfl

/-- **Ranges with different starts are put in one order only.** -/
theorem sortDescending_eq_of_pairwise {rs ts : List Removal} (hperm : rs.Perm ts)
    (h : ts.Pairwise fun a b => b.start < a.start) : sortDescending rs = ts := by
  have hsort := (perm_sortDescending rs).trans hperm
  have hne : (sortDescending rs).Pairwise fun a b => a.start ≠ b.start :=
    (hsort.pairwise_iff fun hab => Ne.symm hab).mpr (h.imp fun hab => Nat.ne_of_gt hab)
  have hsorted : (sortDescending rs).Pairwise fun a b => b.start < a.start := by
    refine (pairwise_sortDescending rs).imp₂ (fun hle hne => ?_) hne
    omega
  refine List.Perm.eq_of_pairwise (fun a b _ _ hab hba => ?_) hsorted h hsort
  omega

section Ascending

variable {s : Text} {rs : List Removal} (hsolid : ∀ r ∈ rs, r.SolidIn s)
  (hpair : rs.Pairwise fun a b => a.stop ≤ b.start)
include hsolid hpair

/-- **Solid ranges in ascending order fit** the text they lie in. -/
theorem fits_of_pairwise : Fits 0 s rs := by
  refine fits_of_solidIn (p := []) (z := []) (fun r hr => ?_) hpair
  refine ⟨by simpa using hsolid r hr, Nat.zero_le _, ?_⟩
  simpa using isBoundary_le (hsolid r hr).isBoundary_stop

/-- **Solid ranges in ascending order are sorted by being reversed**: no two start together. -/
theorem sortDescending_eq_reverse : sortDescending rs = rs.reverse := by
  refine sortDescending_eq_of_pairwise rs.reverse_perm.symm ?_
  rw [List.pairwise_reverse]
  refine hpair.imp_of_mem fun {a b} ha _ hab => ?_
  have := (hsolid a ha).start_lt_stop
  omega

/-- **Solid ranges in ascending order pass the check.** -/
theorem fault_sortDescending_eq_none : fault s (sortDescending rs) = none := by
  rw [sortDescending_eq_reverse hsolid hpair, fault]
  have hcheck : rs.reverse.findSome? (check s) = none := by
    rw [List.findSome?_eq_none_iff]
    intro r hr
    have h := hsolid r (List.mem_reverse.mp hr)
    exact check_eq_none.mpr ⟨h.start_le_stop, h.isBoundary_start, h.isBoundary_stop⟩
  rw [hcheck, Option.none_or]
  exact firstOverlap_eq_none (List.pairwise_reverse.mpr hpair)

/-- **The ranges still to come keep their offsets and their text**, however far the removals are. -/
theorem slice_pending {done pending : List Removal}
    (hsplit : sortDescending rs = done ++ pending) :
    ∃ t, runAll s done = .ok t ∧ ∀ r ∈ pending, r.stop ≤ size t ∧ isBoundary t r.start = true ∧
      isBoundary t r.stop = true ∧ slice t r.span = slice s r.span := by
  obtain rfl : rs = pending.reverse ++ done.reverse := by
    rw [sortDescending_eq_reverse hsolid hpair, List.reverse_eq_iff] at hsplit
    simpa using hsplit
  obtain ⟨hpend, hdone, hcross⟩ := List.pairwise_append.mp hpair
  obtain ⟨p, u, rfl, hp, hlast, hfirst⟩ : ∃ p u, s = p ++ u ∧ endsSolid p = true ∧
      (∀ r ∈ pending, r.stop ≤ size p) ∧ ∀ r ∈ done, size p ≤ r.start := by
    cases pending with
    | nil => exact ⟨[], s, rfl, rfl, by simp, by simp⟩
    | cons r pending =>
      have hr := hsolid r (by simp)
      obtain ⟨a, b, c, hs, -, hb, hbody⟩ := hr.exists_parts
      refine ⟨a ++ b, c, by rw [List.append_assoc]; exact hs, endsSolid_append hbody,
        fun x hx => ?_, fun x hx => ?_⟩
      · rw [size_append, ← hb]
        rcases List.mem_cons.mp hx with rfl | hx
        · exact Nat.le_refl _
        · rw [List.reverse_cons, List.pairwise_append] at hpend
          have := hpend.2.2 x (List.mem_reverse.mpr hx) r List.mem_cons_self
          have := hr.start_le_stop
          omega
      · rw [size_append, ← hb]
        exact hcross r (by simp) x (List.mem_reverse.mpr hx)
  have hfits : Fits (size p) u done.reverse := by
    refine fits_of_solidIn (z := []) (fun r hr => ?_) hdone
    have hr' := hsolid r (by simp at hr; simp [hr])
    refine ⟨by simpa using hr', hfirst r (List.mem_reverse.mp hr), ?_⟩
    simpa using isBoundary_le hr'.isBoundary_stop
  obtain ⟨q, hq, -⟩ := exists_runAll (z := []) hp rfl hfits
  rw [List.reverse_reverse, List.append_nil, List.append_nil] at hq
  refine ⟨p ++ q, hq, fun r hr => ?_⟩
  have hr' := hsolid r (by simp [hr])
  have hstop := hlast r hr
  have hle := hr'.start_le_stop
  have hbstart := isBoundary_of_append hr'.isBoundary_start (by omega)
  have hbstop := isBoundary_of_append hr'.isBoundary_stop hstop
  refine ⟨?_, isBoundary_append hbstart q, isBoundary_append hbstop q, ?_⟩
  · rw [size_append]
    omega
  · rw [span, slice_append hbstart hbstop hle, slice_append hbstart hbstop hle]

end Ascending

end Delog.Removal
