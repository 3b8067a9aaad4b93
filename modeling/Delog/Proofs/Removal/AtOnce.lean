import Delog.Proofs.Removal.Chain

/-!
# Proofs/Removal/AtOnce — a run of removals as one cut of the text as given

What a removal takes is decided on a text from which the ranges after it are gone already.  It could
as well be decided on the text as given: a gap is closed up to the first line break or the first
character that is not blank, and unless a range follows at once, this one is still there.

* `widen`, `cut` — the interval that goes with a range, decided on the text as given
* `cuts` — the intervals to cut out for a list of ranges
* `runAll_cut` — a run of removals cuts out those intervals
* `runAll_eq_without_cuts` — for any list of solid ranges that are apart
* `Vacated` — a line with nothing on it but blanks and ranges to delete
* `runAll_at_once` — the intervals, the empty statements and the lines that are cut out
-/

namespace Delog

open Text

namespace Removal

/-- **A span and the white space that goes with it** when the text it covers is deleted. -/
def widen (s : Text) (span : Span) : Span :=
  let kept := closeGap (takeBytes span.start s) (dropBytes span.stop s)
  ⟨size kept.1, size s - size kept.2⟩

/-- The range to cut out in place of a removal: the widened one, unless an empty statement takes the
place of the range. -/
def cut (s : Text) (r : Removal) : Removal :=
  if r.placeholder then r else ⟨(widen s r.span).start, (widen s r.span).stop, false⟩

/-- **The ranges to cut out** for a list of ranges, one for each of their chains. -/
def cuts (s : Text) (rs : List Removal) : List Removal :=
  (chains s (sortAscending rs)).map fun chain => cut s (joined chain)

/-! ## What a removal cuts out -/

theorem cut_of_placeholder {s : Text} {r : Removal} (hr : r.placeholder = true) : cut s r = r :=
  if_pos hr

section Parts

variable {r : Removal} {before body : Text} (hstart : r.start = size before)
  (hstop : r.stop = size before + size body)
include hstart hstop

/-- **A deleted range is widened** by what closing the gap takes. -/
theorem cut_eq (hr : r.placeholder = false) (after : Text) :
    cut (before ++ (body ++ after)) r = ⟨size (closeGap before after).1,
      r.stop + (size after - size (closeGap before after).2), false⟩ := by
  have htake : takeBytes r.start (before ++ (body ++ after)) = before := by
    rw [hstart, takeBytes_size_append]
  have hdrop : dropBytes r.stop (before ++ (body ++ after)) = after := by
    rw [hstop, ← size_append, ← List.append_assoc, dropBytes_size_append]
  have hkept : size (closeGap before after).2 ≤ size after := by
    obtain ⟨h, hh⟩ := (closeGap_parts before after).2
    have := congrArg size hh
    rw [size_append] at this
    omega
  rw [cut, hr, if_neg Bool.false_ne_true, widen, span, htake, hdrop]
  simp only [size_append, Removal.mk.injEq, true_and, and_true]
  omega

/-- What is cut out is not empty. -/
theorem start_cut_lt_stop (hbody : body ≠ []) (after : Text) :
    (cut (before ++ (body ++ after)) r).start < (cut (before ++ (body ++ after)) r).stop := by
  have hpos := size_pos hbody
  cases hr : r.placeholder with
  | true => rw [cut_of_placeholder hr]; omega
  | false =>
    obtain ⟨x, hx⟩ := (closeGap_parts before after).1
    have hsize := congrArg size hx
    rw [size_append] at hsize
    rw [cut_eq hstart hstop hr]
    simp only
    omega

end Parts

/-- **A flush end stops the cut of a range behind it.** -/
theorem le_start_cut {r : Removal} {p gap body : Text} (hp : endsFlush p = true)
    (hstart : r.start = size p + size gap) (hstop : r.stop = size p + size gap + size body)
    (after : Text) : size p ≤ (cut (p ++ (gap ++ (body ++ after))) r).start := by
  cases hr : r.placeholder with
  | true => rw [cut_of_placeholder hr]; omega
  | false =>
    have hbefore : r.start = size (p ++ gap) := by rw [hstart, size_append]
    have hbehind : r.stop = size (p ++ gap) + size body := by rw [hstop, size_append]
    obtain ⟨x, hx⟩ := isPrefix_closeGap_of_endsFlush hp gap after
    rw [← List.append_assoc, cut_eq hbefore hbehind hr, ← hx, size_append]
    exact Nat.le_add_right _ _

/-! ## Cutting a text that starts with what stays -/

theorem takeBytes_size_add_append (a : Text) (n : Nat) (s : Text) :
    takeBytes (size a + n) (a ++ s) = a ++ takeBytes n s := by
  induction a with
  | nil => rw [size_nil, Nat.zero_add, List.nil_append, List.nil_append]
  | cons c a ih =>
    rw [List.cons_append, takeBytes, size_cons, if_pos (by omega), List.cons_append, ← ih]
    congr 2
    omega

theorem dropBytes_size_add_append (a : Text) (n : Nat) (s : Text) :
    dropBytes (size a + n) (a ++ s) = dropBytes n s := by
  induction a with
  | nil => rw [size_nil, Nat.zero_add, List.nil_append]
  | cons c a ih =>
    rw [List.cons_append, dropBytes, size_cons, if_pos (by omega), ← ih]
    congr 1
    omega

/-- What stands before the first range to cut out stays. -/
theorem without_append {offset : Nat} {a : Text} {cs : List Removal}
    (hlow : ∀ c ∈ cs, offset + size a ≤ c.start ∧ c.start ≤ c.stop) (s : Text) :
    without offset (a ++ s) cs = a ++ without (offset + size a) s cs := by
  cases cs with
  | nil => rfl
  | cons c cs =>
    obtain ⟨hstart, hstop⟩ := hlow c List.mem_cons_self
    have htake : c.start - offset = size a + (c.start - (offset + size a)) := by omega
    have hdrop : c.stop - offset = size a + (c.stop - (offset + size a)) := by omega
    rw [without, without, htake, hdrop, takeBytes_size_add_append, dropBytes_size_add_append,
      List.append_assoc]

/-! ## What follows a deleted range -/

/-- Where the first cut starts after `n`, so do the others, as they follow it. -/
theorem le_start_of_pairwise {n : Nat} {c : Removal} {cs : List Removal} (hn : n ≤ c.start)
    (hle : c.start ≤ c.stop) (hpair : (c :: cs).Pairwise fun a b => a.stop ≤ b.start) :
    ∀ d ∈ c :: cs, n ≤ d.start := by
  intro d hd
  rcases List.mem_cons.mp hd with rfl | hd
  · exact hn
  · have := (List.pairwise_cons.mp hpair).1 d hd
    omega

/-- **What stands between a deleted range and the next cut**: nothing follows, or something stops
the blanks before the next cut, or the next cut makes place for an empty statement. -/
inductive Ahead (offset : Nat) : Text → List Removal → Prop where
  | last (rest : Text) : Ahead offset rest []
  | stop {w u : Text} {cs : List Removal} (hw : ∀ c ∈ w, isHorizontal c = true) (hu : IsStop u)
    (hlow : ∀ c ∈ cs, offset + size (w ++ u) ≤ c.start) (v : Text) :
    Ahead offset (w ++ (u ++ v)) cs
  | placeholder {w v : Text} {c : Removal} {cs : List Removal}
    (hw : ∀ d ∈ w, isHorizontal d = true) (hv : isSolid v = true) (hc : c.placeholder = true)
    (hstart : c.start = offset + size w) (z : Text) : Ahead offset (w ++ (v ++ z)) (c :: cs)

/-- **Closing a gap and cutting what follows may change places.** -/
theorem exists_closeGap_without {offset : Nat} {rest : Text} {cs : List Removal}
    (hahead : Ahead offset rest cs) (hle : ∀ c ∈ cs, c.start ≤ c.stop)
    (hpair : cs.Pairwise fun a b => a.stop ≤ b.start) (before : Text) :
    ∃ g h kept, rest = h ++ kept ∧ closeGap before rest = (g, kept) ∧
      closeGap before (without offset rest cs) = (g, without (offset + size h) kept cs) ∧
      ∀ c ∈ cs, offset + size h ≤ c.start := by
  cases hahead with
  | last =>
    obtain ⟨h, hh⟩ := (closeGap_parts before rest).2
    exact ⟨_, h, _, hh.symm, rfl, rfl, fun c hc => absurd hc List.not_mem_nil⟩
  | @stop w u _ hw hu hlow v =>
    obtain ⟨g, h, k, hparts, hclose⟩ := exists_closeGap_of_isStop hw hu before
    have hsize : size (w ++ u) = size h + size k := by rw [hparts, size_append]
    refine ⟨g, h, k ++ v, by rw [← List.append_assoc, hparts, List.append_assoc], hclose v, ?_,
      fun c hc => ?_⟩
    · rw [← List.append_assoc, without_append (fun c hc => ⟨hlow c hc, hle c hc⟩),
        without_append (fun c hc => ⟨by have := hlow c hc; omega, hle c hc⟩), List.append_assoc,
        hclose, hsize, Nat.add_assoc]
    · have := hlow c hc
      omega
  | @placeholder w v c cs hw hv hc hstart z =>
    have hlow : ∀ d ∈ c :: cs, offset + size w ≤ d.start :=
      le_start_of_pairwise (Nat.le_of_eq hstart.symm) (hle c List.mem_cons_self) hpair
    have hsolid : startsSolid (without (offset + size w) (v ++ z) (c :: cs)) = true ∧
        without (offset + size w) (v ++ z) (c :: cs) ≠ [] := by
      rw [without, filling, hc, if_pos rfl, hstart, Nat.sub_self]
      obtain ⟨d, v, rfl, -⟩ := exists_cons_of_isSolid hv
      have := d.utf8Size_pos
      rw [List.cons_append, takeBytes, if_neg (by omega)]
      exact ⟨startsSolid_cons (by decide) _, List.cons_ne_nil _ _⟩
    refine ⟨before, w, v ++ z, rfl, ?_, ?_, hlow⟩
    · exact closeGap_of_startsSolid hw (startsSolid_append hv)
        (List.append_ne_nil_of_left_ne_nil (ne_nil_of_isSolid hv) z) before
    · rw [without_append fun d hd => ⟨hlow d hd, hle d hd⟩]
      exact closeGap_of_startsSolid hw hsolid.1 hsolid.2 before

/-- What stops the blanks in front of a deleted range that is not linked, or the range itself. -/
theorem ahead_of_fits {p rest : Text} {r : Removal} {rs : List Removal}
    (hpaired : isPaired rest = true) (hr : r.placeholder = false) (hstop : r.stop = size p)
    (hfits : Fits (size p) rest rs)
    (hspaced : (r :: rs).IsChain fun a b => isLinked (p ++ rest) a b = false)
    (hpair : (rs.map (cut (p ++ rest))).Pairwise fun a b => a.stop ≤ b.start)
    (hle : ∀ c ∈ rs.map (cut (p ++ rest)), c.start ≤ c.stop) :
    Ahead (size p) rest (rs.map (cut (p ++ rest))) := by
  cases rs with
  | nil => exact .last rest
  | cons m rs =>
    obtain ⟨gap, body, last, rfl, hmstart, hmstop, hbody, -⟩ := hfits
    rw [List.map_cons] at hpair hle ⊢
    have hlinked := (List.isChain_cons_cons.mp hspaced).1
    have hslice : (p ++ (gap ++ (body ++ last))).slice ⟨r.stop, m.start⟩ = gap := by
      rw [hstop, hmstart, slice_append_append]
    rw [isLinked, hslice, hr] at hlinked
    have hgap : isPaired gap = true :=
      isPaired_of_startsSolid (startsSolid_append hbody) hpaired
    rcases exists_stop hgap with hw | ⟨w, u, v, rfl, hw, hu⟩
    · have hm : m.placeholder = true := by
        simpa [List.all_eq_true.mpr hw] using hlinked
      rw [cut_of_placeholder hm]
      exact .placeholder hw hbody hm hmstart last
    · have hflush : endsFlush (p ++ (w ++ u)) = true := by
        rw [← List.append_assoc]
        exact endsFlush_append_of_isStop hu (p ++ w)
      have hstart : m.start = size (p ++ (w ++ u)) + size v := by
        simp only [hmstart, size_append]
        omega
      have hend : m.stop = size (p ++ (w ++ u)) + size v + size body := by
        simp only [hmstop, size_append]
        omega
      have hcut := le_start_cut hflush hstart hend last
      simp only [List.append_assoc] at hcut hle hpair ⊢
      rw [size_append] at hcut
      exact .stop hw hu (le_start_of_pairwise hcut (hle _ List.mem_cons_self) hpair) _

/-! ## A run of removals -/

section Step

variable {p gap body rest : Text} {r : Removal} {cs : List Removal} (hp : endsFlush p = true)
  (hstart : r.start = size p + size gap) (hstop : r.stop = size p + size gap + size body)
  (hle : ∀ c ∈ cs, c.start ≤ c.stop) (hpair : cs.Pairwise fun a b => a.stop ≤ b.start)
include hp hstart hstop hle hpair

/-- A deleted range in front of the cuts that follow it. -/
theorem run_cut_of_delete (hr : r.placeholder = false) (hahead : Ahead r.stop rest cs) :
    (∀ c ∈ cs, (cut (p ++ (gap ++ (body ++ rest))) r).stop ≤ c.start) ∧
      run (p ++ (gap ++ (body ++ without r.stop rest cs))) r =
        .ok (p ++ without (size p) (gap ++ (body ++ rest))
          (cut (p ++ (gap ++ (body ++ rest))) r :: cs)) := by
  have hbefore : r.start = size (p ++ gap) := by rw [hstart, size_append]
  have hbehind : r.stop = size (p ++ gap) + size body := by rw [hstop, size_append]
  obtain ⟨g, h, kept, rfl, hclose, hclosed, hlow⟩ :=
    exists_closeGap_without hahead hle hpair (p ++ gap)
  obtain ⟨g, rfl⟩ : p <+: g := by
    have := isPrefix_closeGap_of_endsFlush hp gap (h ++ kept)
    rwa [hclose] at this
  obtain ⟨x, rfl⟩ : g <+: gap := by
    have := (closeGap_parts (p ++ gap) (h ++ kept)).1
    rw [hclose] at this
    exact (List.prefix_append_right_inj p).mp this
  have hcut : cut (p ++ (g ++ x ++ (body ++ (h ++ kept)))) r =
      ⟨size p + size g, r.stop + size h, false⟩ := by
    rw [← List.append_assoc, cut_eq hbefore hbehind hr, hclose, size_append, size_append,
      Nat.add_sub_cancel]
  have htext : g ++ x ++ (body ++ (h ++ kept)) = g ++ (x ++ (body ++ h) ++ kept) := by
    simp only [List.append_assoc]
  rw [hcut]
  refine ⟨hlow, ?_⟩
  rw [← List.append_assoc, run_eq hbefore hbehind, hr, if_neg Bool.false_ne_true, hclosed, htext,
    without_of_fits (r := ⟨size p + size g, r.stop + size h, false⟩) rfl
      (by simp only [hstop, size_append]; omega)]
  simp [filling]

/-- **One removal in front of the cuts that follow it** is one more cut. -/
theorem run_cut (hlow : ∀ c ∈ cs, r.stop ≤ c.start)
    (hahead : r.placeholder = false → Ahead r.stop rest cs) :
    (∀ c ∈ cs, (cut (p ++ (gap ++ (body ++ rest))) r).stop ≤ c.start) ∧
      run (p ++ (gap ++ (body ++ without r.stop rest cs))) r =
        .ok (p ++ without (size p) (gap ++ (body ++ rest))
          (cut (p ++ (gap ++ (body ++ rest))) r :: cs)) := by
  cases hr : r.placeholder with
  | false => exact run_cut_of_delete hp hstart hstop hle hpair hr (hahead hr)
  | true =>
    rw [cut_of_placeholder hr]
    refine ⟨hlow, ?_⟩
    rw [← List.append_assoc, run_eq (by rw [hstart, size_append]) (by rw [hstop, size_append]), hr,
      if_pos rfl, without_of_fits hstart hstop, filling, hr]
    simp

end Step

/-- **A run of removals, from the last to the first, cuts out what is decided on the text as
given**, if no two neighbours are linked. -/
theorem runAll_cut {t p s : Text} {rs : List Removal} (htext : t = p ++ s)
    (hpaired : isPaired t = true) (hp : endsFlush p = true) (hfits : Fits (size p) s rs)
    (hspaced : rs.IsChain fun a b => isLinked t a b = false) :
    runAll t rs.reverse = .ok (p ++ without (size p) s (rs.map (cut t))) ∧
      (∀ c ∈ rs.map (cut t), size p ≤ c.start ∧ c.start < c.stop) ∧
      (rs.map (cut t)).Pairwise fun a b => a.stop ≤ b.start := by
  induction rs generalizing p s with
  | nil =>
    subst htext
    exact ⟨rfl, fun c hc => absurd hc List.not_mem_nil, List.Pairwise.nil⟩
  | cons r rs ih =>
    obtain ⟨gap, body, rest, rfl, hstart, hstop, hbody, hrest⟩ := hfits
    have hsize : size (p ++ gap ++ body) = r.stop := by rw [hstop, size_append, size_append]
    have htext' : t = p ++ gap ++ body ++ rest := by rw [htext]; simp only [List.append_assoc]
    obtain ⟨hrun, hlow, hpair⟩ := ih htext' (endsFlush_of_endsSolid (endsSolid_append hbody))
      (hsize.symm ▸ hrest) hspaced.of_cons
    rw [hsize] at hrun hlow
    have hle : ∀ c ∈ rs.map (cut t), c.start ≤ c.stop := fun c hc => Nat.le_of_lt (hlow c hc).2
    have hahead (hr : r.placeholder = false) : Ahead r.stop rest (rs.map (cut t)) := by
      rw [htext'] at hpaired hspaced hpair hle ⊢
      rw [← hsize]
      exact ahead_of_fits (isPaired_of_suffix (List.suffix_append _ rest) hpaired) hr hsize.symm
        (hsize.symm ▸ hrest) hspaced hpair hle
    obtain ⟨hlater, hcut⟩ :=
      run_cut hp hstart hstop hle hpair (fun c hc => (hlow c hc).1) hahead
    rw [← htext] at hlater hcut
    refine ⟨?_, fun c hc => ?_, List.pairwise_cons.mpr ⟨hlater, hpair⟩⟩
    · rw [runAll_reverse_cons, hrun]
      simp only [List.append_assoc, List.map_cons]
      exact hcut
    · rcases List.mem_cons.mp hc with rfl | hc
      · have hreach := le_start_cut hp hstart hstop rest
        have hlt := start_cut_lt_stop (by rw [hstart, size_append]) (by rw [hstop, size_append])
          (ne_nil_of_isSolid hbody) rest
        rw [List.append_assoc, ← htext] at hlt
        rw [← htext] at hreach
        exact ⟨hreach, hlt⟩
      · have := hlow c hc
        omega

section Solid

variable {s : Text} {rs : List Removal} (hsolid : ∀ r ∈ rs, r.SolidIn s)
  (hapart : rs.Pairwise Apart)
include hsolid hapart

/-- **Solid ranges that are apart are removed at once**: the removals cut the intervals decided on
the text as given out of it. -/
theorem runAll_eq_without_cuts (hpaired : isPaired s = true) :
    runAll s (sortDescending rs) = .ok (without 0 s (cuts s rs)) ∧
      (∀ c ∈ cuts s rs, c.start < c.stop) ∧
      (cuts s rs).Pairwise fun a b => a.stop ≤ b.start := by
  have hflatten : Fits 0 s (chains s (sortAscending rs)).flatten := by
    rw [flatten_chains]
    exact fits_of_apart hsolid hapart
  have hne : [] ∉ chains s (sortAscending rs) := List.nil_notMem_splitBy _ _
  have hlinked : ∀ chain ∈ chains s (sortAscending rs),
      chain.IsChain fun a b => isLinked s a b := fun chain => List.isChain_of_mem_splitBy
  obtain ⟨hfits, hjoined⟩ := runAll_map_joined (p := []) hne hlinked hflatten
  obtain ⟨hrun, hlt, hpair⟩ := runAll_cut (p := []) rfl hpaired rfl hfits (isChain_map_joined s _)
  rw [flatten_chains, reverse_sortAscending, List.nil_append] at hjoined
  rw [List.map_map] at hrun hlt hpair
  exact ⟨hjoined.trans hrun, fun c hc => (hlt c hc).2, hpair⟩

end Solid

/-- What an empty statement replaces is cut out as it is. -/
theorem mem_cuts_of_placeholder {s : Text} {rs : List Removal} {r : Removal} (hr : r ∈ rs)
    (hplace : r.placeholder = true) : r ∈ cuts s rs := by
  rw [← mem_sortAscending, ← flatten_chains s (sortAscending rs), List.mem_flatten] at hr
  obtain ⟨chain, hchain, hr⟩ := hr
  obtain rfl := eq_singleton_of_mem_chains hchain hr hplace
  exact List.mem_map.mpr ⟨[r], hchain, cut_of_placeholder hplace⟩

/-! ## Lines of statements to delete only -/

/-- Deleted ranges with nothing but horizontal blanks around them form a chain. -/
theorem isChain_of_blank {p k z : Text} {rs : List Removal} (hne : rs ≠ [])
    (hfits : Fits (size p) k rs) (hdelete : ∀ r ∈ rs, r.placeholder = false)
    (hblank : ∀ c ∈ without (size p) k rs, isHorizontal c = true) :
    (rs.IsChain fun a b => isLinked (p ++ (k ++ z)) a b) ∧
      ∃ w body w', k = w ++ (body ++ w') ∧ (∀ c ∈ w, isHorizontal c = true) ∧
        (∀ c ∈ w', isHorizontal c = true) ∧
        joined rs = ⟨size p + size w, size p + size w + size body, false⟩ := by
  induction rs generalizing p k with
  | nil => exact absurd rfl hne
  | cons r rs ih =>
    obtain ⟨gap, body, rest, rfl, hstart, hstop, -, hrest⟩ := hfits
    have hr := hdelete r List.mem_cons_self
    rw [without_of_fits hstart hstop, filling, hr, if_neg Bool.false_ne_true, List.nil_append]
      at hblank
    have hgap : ∀ c ∈ gap, isHorizontal c = true := fun c hc =>
      hblank c (List.mem_append_left _ hc)
    have hsize : size (p ++ gap ++ body) = r.stop := by rw [hstop, size_append, size_append]
    have hlater : ∀ c ∈ without r.stop rest rs, isHorizontal c = true := fun c hc =>
      hblank c (List.mem_append_right _ hc)
    cases rs with
    | nil =>
      refine ⟨List.isChain_singleton r, gap, body, rest, rfl, hgap, hlater, ?_⟩
      rw [← hstop, ← hstart, ← hr]
      rfl
    | cons m rs =>
      obtain ⟨hchain, w, b, w', rfl, hw, hw', hjoined⟩ := ih (List.cons_ne_nil m rs)
        (hsize.symm ▸ hrest) (fun x hx => hdelete x (List.mem_cons_of_mem _ hx))
        (hsize.symm ▸ hlater)
      have htext : p ++ (gap ++ (body ++ (w ++ (b ++ w'))) ++ z) =
          p ++ gap ++ body ++ (w ++ (b ++ w') ++ z) := by
        simp only [List.append_assoc]
      have hmstart : m.start = size (p ++ gap ++ body) + size w := congrArg start hjoined
      refine ⟨List.isChain_cons_cons.mpr ⟨?_, htext ▸ hchain⟩, gap, body ++ (w ++ b), w', ?_, hgap,
        hw', ?_⟩
      · rw [htext, List.append_assoc w, isLinked, ← hsize, hmstart, slice_append_append, hr,
          hdelete m (by simp), List.all_eq_true.mpr hw]
        rfl
      · simp only [List.append_assoc]
      · rw [joined_cons_cons, hjoined, ← hr, ← hstart]
        simp only [size_append, Removal.mk.injEq, true_and, and_true]
        omega

/-- **A line with nothing on it but blanks and ranges to delete.**  The texts `u` and `v` stand
before and after the line, and `mid` are the ranges on it.  A range may break the line: the content
is that of all lines it stands on. -/
structure Vacated (s : Text) (rs : List Removal) (u : Text) (l : Line) (v : Text)
    (mid : List Removal) : Prop where
  text_eq : s = u ++ (l.text ++ v)
  atLineStart : atLineStart u = true
  eq_nil_of_unfinished : l.ending = none → v = []
  ne_nil : mid ≠ []
  deletes : ∀ r ∈ mid, r.placeholder = false
  on_line : ∀ r ∈ mid, size u ≤ r.start ∧ r.stop ≤ size u + size l.content
  elsewhere : ∃ left right, sortAscending rs = left ++ (mid ++ right) ∧
    (∀ r ∈ left, r.stop ≤ size u) ∧ ∀ r ∈ right, size u + size l.text ≤ r.start
  blank : ∀ c ∈ without (size u) l.content mid, isHorizontal c = true

namespace Vacated

variable {s : Text} {rs mid : List Removal} {u v : Text} {l : Line}
  (hline : Vacated s rs u l v mid) (hsolid : ∀ r ∈ rs, r.SolidIn s)
include hline hsolid

theorem not_isLinked_left {a b : Removal} (ha : a.SolidIn s) (hb : b ∈ mid) (hmem : b ∈ rs)
    (hstop : a.stop ≤ size u) : isLinked s a b = false := by
  have hlt := ha.start_lt_stop
  obtain ⟨x, rfl⟩ : ∃ x, u = x ++ ['\n'] := by
    rcases List.eq_nil_or_concat' u with rfl | ⟨x, c, rfl⟩
    · rw [size_nil] at hstop
      omega
    · have hstart := hline.atLineStart
      exact ⟨x, by simpa [Removal.atLineStart] using hstart⟩
  have hnewline : size ['\n'] = 1 := rfl
  have htext : s = x ++ '\n' :: (l.text ++ v) := by rw [hline.text_eq]; simp
  have hb' := hsolid b hmem
  have hstart := (hline.on_line b hb).1
  rw [size_append, hnewline] at hstop hstart
  subst htext
  exact isLinked_eq_false_of_newline ha hb' hstop hstart

theorem not_isLinked_right {a b : Removal} (ha : a ∈ mid) (hmem : a ∈ rs) (hb : b.SolidIn s)
    (hstart : size u + size l.text ≤ b.start) : isLinked s a b = false := by
  have hlt := hb.start_lt_stop
  have hbound := isBoundary_le hb.isBoundary_stop
  have ha' := hsolid a hmem
  have hstop := (hline.on_line a ha).2
  have htext := hline.text_eq
  cases hending : l.ending with
  | none =>
    rw [htext, hline.eq_nil_of_unfinished hending] at hbound
    simp only [size_append, size_nil] at hbound
    omega
  | some e =>
    obtain ⟨x, hx⟩ := exists_ending_eq_append_newline e
    have hnewline : size ['\n'] = 1 := rfl
    have hline' : l.text = l.content ++ (x ++ ['\n']) := by
      rw [Line.text, hending, ← hx]
      rfl
    rw [hline', size_append, size_append, hnewline] at hstart
    have hs : s = u ++ l.content ++ x ++ '\n' :: v := by rw [htext, hline']; simp
    subst hs
    refine isLinked_eq_false_of_newline ha' hb ?_ ?_ <;> simp only [size_append] <;> omega

/-- **The line is cut out as a whole**, line break included. -/
theorem mem_cuts (hapart : rs.Pairwise Apart) :
    ⟨size u, size u + size l.text, false⟩ ∈ cuts s rs := by
  obtain ⟨left, right, hparts, hleft, hright⟩ := hline.elsewhere
  have hmem : ∀ {r}, r ∈ left ++ (mid ++ right) → r ∈ rs := fun hr =>
    mem_sortAscending.mp (hparts ▸ hr)
  have htext : s = u ++ (l.content ++ ((l.ending.map LineEnding.text).getD [] ++ v)) := by
    rw [hline.text_eq, Line.text, List.append_assoc]
  have hpair := pairwise_sortAscending_of_apart hsolid hapart
  rw [hparts] at hpair
  have hfits : Fits (size u) l.content mid := by
    refine fits_of_solidIn (z := (l.ending.map LineEnding.text).getD [] ++ v) (fun r hr => ?_)
      (List.pairwise_append.mp (List.pairwise_append.mp hpair).2.1).1
    exact ⟨htext ▸ hsolid r (hmem (by simp [hr])), hline.on_line r hr⟩
  obtain ⟨hchain, w, body, w', hcontent, hw, hw', hjoined⟩ :=
    isChain_of_blank (z := (l.ending.map LineEnding.text).getD [] ++ v) hline.ne_nil hfits
      hline.deletes hline.blank
  rw [← htext] at hchain
  have hlongest : mid ∈ chains s (sortAscending rs) := by
    rw [hparts]
    refine mem_chains_of_isChain hline.ne_nil hchain (fun a ha b hb => ?_) fun a ha b hb => ?_
    · exact hline.not_isLinked_left hsolid (hsolid a (hmem (by simp [ha]))) hb (hmem (by simp [hb]))
        (hleft a ha)
    · exact hline.not_isLinked_right hsolid ha (hmem (by simp [ha]))
        (hsolid b (hmem (by simp [hb]))) (hright b hb)
  have hcut : cut s (joined mid) = ⟨size u, size u + size l.text, false⟩ := by
    have hclose := closeGap_of_line hline.atLineStart hw hw' hline.eq_nil_of_unfinished
    have hs : s = u ++ w ++ (body ++ (w' ++ ((l.ending.map LineEnding.text).getD [] ++ v))) := by
      rw [htext, hcontent]
      simp only [List.append_assoc]
    rw [hs, hjoined, cut_eq (by rw [size_append]) (by rw [size_append]) rfl, hclose, Line.text,
      hcontent]
    simp only [size_append, Removal.mk.injEq, true_and, and_true]
    omega
  exact List.mem_map.mpr ⟨mid, hlongest, hcut⟩

end Vacated

/-! ## The removals at once -/

/-- **A run of removals, from the last to the first, is one cut of the text as given**, for every
list of solid ranges that are apart and every text whose carriage returns are all part of a line
break.  The intervals to cut out share no byte, a range that an empty statement replaces is one of
them, and so is each line with nothing on it but blanks and ranges to delete. -/
theorem runAll_at_once {s : Text} {rs : List Removal} (hpaired : isPaired s = true)
    (hsolid : ∀ r ∈ rs, r.SolidIn s) (hapart : rs.Pairwise Apart) :
    runAll s (sortDescending rs) = .ok (without 0 s (cuts s rs)) ∧
      (∀ c ∈ cuts s rs, c.start < c.stop) ∧
      ((cuts s rs).Pairwise fun a b => a.stop ≤ b.start) ∧
      (∀ r ∈ rs, r.placeholder = true → r ∈ cuts s rs) ∧
      ∀ u l v mid, Vacated s rs u l v mid → ⟨size u, size u + size l.text, false⟩ ∈ cuts s rs := by
  obtain ⟨hrun, hlt, hpair⟩ := runAll_eq_without_cuts hsolid hapart hpaired
  exact ⟨hrun, hlt, hpair, fun r hr => mem_cuts_of_placeholder hr, fun u l v mid hline =>
    hline.mem_cuts hsolid hapart⟩

end Removal

namespace Sample

open Removal

/-- A source with a line of two statements, a statement at the end of a line, one to be replaced by
an empty statement, and one at the end of the source. -/
def busySource : Text := "  a(); b();\nx(); c();  \r\nif (y) d();\n e();".toList

/-- The ranges of its statements, `x` apart, the last one first. -/
def busyRanges : List Removal :=
  [⟨38, 42, false⟩, ⟨32, 36, true⟩, ⟨17, 21, false⟩, ⟨7, 11, false⟩, ⟨2, 6, false⟩]

theorem sample_runAll_at_once :
    isPaired busySource = true ∧ (∀ r ∈ busyRanges, r.SolidIn busySource) ∧
      busyRanges.Pairwise Apart ∧
      Vacated busySource busyRanges [] ⟨"  a(); b();".toList, some .lf⟩
        "x(); c();  \r\nif (y) d();\n e();".toList [⟨2, 6, false⟩, ⟨7, 11, false⟩] ∧
      cuts busySource busyRanges =
        [⟨0, 12, false⟩, ⟨16, 23, false⟩, ⟨32, 36, true⟩, ⟨37, 42, false⟩] ∧
      runAll busySource (sortDescending busyRanges) = .ok "x();\r\nif (y) ;\n".toList ∧
      ⟨0, 12, false⟩ ∈ cuts busySource busyRanges := by
  have hsort : sortAscending busyRanges = busyRanges.reverse := by
    rw [sortAscending, sortDescending_of_pairwise (by decide)]
  have hpaired : isPaired busySource = true := by decide
  have hsolid : ∀ r ∈ busyRanges, r.SolidIn busySource := by decide
  have hapart : busyRanges.Pairwise Apart := by decide
  have hline : Vacated busySource busyRanges [] ⟨"  a(); b();".toList, some .lf⟩
      "x(); c();  \r\nif (y) d();\n e();".toList [⟨2, 6, false⟩, ⟨7, 11, false⟩] :=
    ⟨by decide, by decide, by decide, by decide, by decide, by decide,
      ⟨[], [⟨17, 21, false⟩, ⟨32, 36, true⟩, ⟨38, 42, false⟩], hsort, by decide, by decide⟩,
      List.all_eq_true.mp (by decide)⟩
  have hcuts : cuts busySource busyRanges =
      [⟨0, 12, false⟩, ⟨16, 23, false⟩, ⟨32, 36, true⟩, ⟨37, 42, false⟩] := by
    rw [cuts, hsort]
    decide
  obtain ⟨hrun, -, -, -, hwhole⟩ := runAll_at_once hpaired hsolid hapart
  refine ⟨hpaired, hsolid, hapart, hline, hcuts, ?_, hwhole _ _ _ _ hline⟩
  rw [hrun, hcuts]
  decide

end Sample

end Delog
