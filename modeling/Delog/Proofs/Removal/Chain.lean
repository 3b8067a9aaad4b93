import Delog.Proofs.Removal.Accept
import Delog.Proofs.Removal.Gap
import Mathlib.Data.List.SplitBy

/-!
# Proofs/Removal/Chain — deleted ranges that only blanks part

Deleted ranges with nothing but horizontal blanks between them form a chain.  Deleting them one
after the other, from the last to the first, is deleting all that the chain covers at once: the
blanks between two of them go with the later one, or else with the earlier one.

* `chains`, `joined` — the longest chains of a list of ranges, and the range that a chain covers
* `runAll_linked` — two linked ranges may be deleted as one
* `runAll_joined` — so may a chain
* `runAll_map_joined` — and all chains of a list
-/

namespace Delog.Removal

open Text

/-- **Whether two ranges belong to one chain**: both are deleted, and only horizontal blanks stand
between them. -/
def isLinked (s : Text) (a b : Removal) : Bool :=
  !a.placeholder && !b.placeholder && (s.slice ⟨a.stop, b.start⟩).all isHorizontal

/-- **The longest chains** of ranges listed in ascending order.  A range that an empty statement
replaces stands by itself. -/
def chains (s : Text) (rs : List Removal) : List (List Removal) := rs.splitBy (isLinked s)

/-- The range from the start of a chain to its end. -/
def joined : List Removal → Removal
  | [] => ⟨0, 0, false⟩
  | r :: rs => { r with stop := (rs.getLastD r).stop }

theorem joined_cons_cons (a b : Removal) (rs : List Removal) :
    joined (a :: b :: rs) = { a with stop := (joined (b :: rs)).stop } := by
  rw [joined, joined, List.getLastD_cons]

/-! ## The chains of a list -/

@[simp] theorem flatten_chains (s : Text) (rs : List Removal) : (chains s rs).flatten = rs :=
  List.flatten_splitBy _ _

/-- All ranges of a longer chain are deleted. -/
theorem placeholder_of_isChain {s : Text} {a b : Removal} {rs : List Removal}
    (h : (a :: b :: rs).IsChain fun x y => isLinked s x y) :
    ∀ r ∈ a :: b :: rs, r.placeholder = false := by
  obtain ⟨hab, hrest⟩ := List.isChain_cons_cons.mp h
  simp only [isLinked, Bool.and_eq_true, Bool.not_eq_true'] at hab
  intro r hr
  rcases List.mem_cons.mp hr with rfl | hr
  · exact hab.1.1
  · cases rs with
    | nil => exact List.mem_singleton.mp hr ▸ hab.1.2
    | cons c rs => exact placeholder_of_isChain hrest r hr

/-- **A chain is linked to what follows as its last range is.** -/
theorem isLinked_joined {s : Text} {a b : List Removal}
    (hchain : a.IsChain fun x y => isLinked s x y)
    (ha : a ≠ []) (hb : b ≠ []) :
    isLinked s (joined a) (joined b) = isLinked s (a.getLast ha) (b.head hb) := by
  obtain ⟨x, a, rfl⟩ := List.exists_cons_of_ne_nil ha
  obtain ⟨y, b, rfl⟩ := List.exists_cons_of_ne_nil hb
  cases a with
  | nil => rfl
  | cons z a =>
    have hall := placeholder_of_isChain hchain
    rw [isLinked, isLinked, hall _ (List.getLast_mem ha), List.getLast_eq_getLastD]
    simp only [joined, hall x List.mem_cons_self, List.head_cons]

/-- **The chains of a list are not linked** to one another. -/
theorem isChain_map_joined (s : Text) (rs : List Removal) :
    ((chains s rs).map joined).IsChain fun a b => isLinked s a b = false := by
  rw [List.isChain_map]
  refine (List.isChain_getLast_head_splitBy (isLinked s) rs).imp_of_mem_imp
    fun a b ha _ hab => ?_
  obtain ⟨hane, hbne, hlinked⟩ := hab
  rw [isLinked_joined (List.isChain_of_mem_splitBy ha) hane hbne, hlinked]

/-- A chain that is linked to nothing around it is one of the longest. -/
theorem mem_chains_of_isChain {s : Text} {left mid right : List Removal} (hne : mid ≠ [])
    (hmid : mid.IsChain fun a b => isLinked s a b)
    (hleft : ∀ a ∈ left, ∀ b ∈ mid, isLinked s a b = false)
    (hright : ∀ a ∈ mid, ∀ b ∈ right, isLinked s a b = false) :
    mid ∈ chains s (left ++ (mid ++ right)) := by
  rw [chains, List.splitBy_append, List.splitBy_append, List.splitBy_of_isChain hne hmid]
  · simp
  · exact fun a ha b hb => hright a (List.mem_of_mem_getLast? ha) b (List.mem_of_mem_head? hb)
  · refine fun a ha b hb => hleft a (List.mem_of_mem_getLast? ha) b ?_
    rw [List.head?_append_of_ne_nil mid hne] at hb
    exact List.mem_of_mem_head? hb

/-- A range that an empty statement replaces is a chain by itself. -/
theorem eq_singleton_of_mem_chains {s : Text} {rs chain : List Removal} {r : Removal}
    (hchain : chain ∈ chains s rs) (hr : r ∈ chain) (hplace : r.placeholder = true) :
    chain = [r] := by
  have h := List.isChain_of_mem_splitBy hchain
  match chain with
  | [a] => rw [List.mem_singleton.mp hr]
  | a :: b :: rest =>
    rw [placeholder_of_isChain h r hr] at hplace
    cases hplace

/-- **A solid range that does not end after a newline** ends before it. -/
theorem SolidIn.exists_of_newline {x y : Text} {r : Removal} (hr : r.SolidIn (x ++ '\n' :: y))
    (hstop : r.stop ≤ size x + 1) : ∃ k m, x = k ++ m ∧ r.stop = size k := by
  obtain ⟨k, body, rest, hparts, -, hend, hbody⟩ := hr.exists_parts
  rw [← List.append_assoc] at hparts
  have hprefix : k ++ body <+: x ++ ['\n'] := by
    refine isPrefix_of_size_le (s := x ++ '\n' :: y) ⟨rest, hparts.symm⟩ ⟨y, by simp⟩ ?_
    rw [size_append, size_append, ← hend]
    exact hstop
  rcases List.prefix_concat_iff.mp hprefix with heq | ⟨m, rfl⟩
  · obtain ⟨t, c, rfl, hc⟩ := exists_append_of_isSolid hbody
    rw [← List.append_assoc] at heq
    obtain ⟨-, hlast⟩ := List.append_inj' heq rfl
    rw [List.singleton_inj.mp hlast] at hc
    exact absurd hc (by decide)
  · exact ⟨k ++ body, m, rfl, by rw [hend, size_append]⟩

/-- Ranges with a newline between them are not linked. -/
theorem isLinked_eq_false_of_newline {x y : Text} {a b : Removal}
    (ha : a.SolidIn (x ++ '\n' :: y)) (hb : b.SolidIn (x ++ '\n' :: y))
    (hstop : a.stop ≤ size x + 1) (hstart : size x + 1 ≤ b.start) :
    isLinked (x ++ '\n' :: y) a b = false := by
  obtain ⟨k, m, rfl, hk⟩ := ha.exists_of_newline hstop
  obtain ⟨u, v, hu, hsize⟩ := isBoundary_iff.mp hb.isBoundary_start
  obtain ⟨n, rfl⟩ : k ++ m ++ ['\n'] <+: u := by
    refine isPrefix_of_size_le (s := k ++ m ++ '\n' :: y) ⟨y, by simp⟩ ⟨v, hu.symm⟩ ?_
    rw [hsize, size_append]
    exact hstart
  obtain rfl : y = n ++ v := by simpa using hu
  have hslice : (k ++ (m ++ '\n' :: n ++ v)).slice ⟨a.stop, b.start⟩ = m ++ '\n' :: n := by
    have hend : b.start = size k + size (m ++ '\n' :: n) := by
      rw [← hsize, ← size_append]
      simp
    rw [hk, hend, slice_append_append]
  have htext : k ++ m ++ '\n' :: (n ++ v) = k ++ (m ++ '\n' :: n ++ v) := by simp
  rw [htext, isLinked, hslice]
  simp

/-! ## Two linked ranges -/

/-- **Deleting two linked ranges is deleting the range from the one to the other.** -/
theorem run_run_of_linked {a b : Removal} {before u w v after : Text} (hu : isSolid u = true)
    (hw : ∀ c ∈ w, isHorizontal c = true) (hastart : a.start = size before)
    (hastop : a.stop = size before + size u) (hbstart : b.start = a.stop + size w)
    (hbstop : b.stop = b.start + size v) (ha : a.placeholder = false)
    (hb : b.placeholder = false) :
    (run (before ++ (u ++ (w ++ (v ++ after)))) b).bind (run · a) =
      run (before ++ (u ++ (w ++ (v ++ after)))) { a with stop := b.stop } := by
  obtain ⟨w', hw', hclose⟩ := exists_closeGap_of_isSolid hu hw before after
  have hlater : run (before ++ (u ++ (w ++ (v ++ after)))) b =
      .ok (before ++ (u ++ (w' ++ after.dropWhile isHorizontal))) := by
    have hstart : b.start = size (before ++ (u ++ w)) := by
      simp only [size_append]
      omega
    have h : run (before ++ (u ++ w) ++ (v ++ after)) b = _ := run_eq hstart (hstart ▸ hbstop)
    rw [hb, hclose, if_neg Bool.false_ne_true] at h
    simpa only [List.append_assoc] using h
  have hboth : run (before ++ (u ++ (w ++ (v ++ after)))) { a with stop := b.stop } =
      .ok ((closeGap before after).1 ++ (closeGap before after).2) := by
    have hstop : b.stop = size before + size (u ++ (w ++ v)) := by
      simp only [size_append]
      omega
    have h : run (before ++ (u ++ (w ++ v) ++ after)) { a with stop := b.stop } = _ :=
      run_eq hastart hstop
    simpa only [ha, if_neg Bool.false_ne_true, List.append_assoc] using h
  rw [hlater, hboth]
  simp only [Except.bind]
  rw [run_eq hastart hastop, ha, if_neg Bool.false_ne_true, closeGap_horizontal_append hw',
    closeGap_dropWhile]

/-- **Two linked ranges may be deleted as one**, after the ranges that follow them. -/
theorem runAll_linked {p s : Text} {a b : Removal} {after : List Removal}
    (hlinked : isLinked (p ++ s) a b = true) (hfits : Fits (size p) s (a :: b :: after)) :
    Fits (size p) s ({ a with stop := b.stop } :: after) ∧
      runAll (p ++ s) (a :: b :: after).reverse =
        runAll (p ++ s) ({ a with stop := b.stop } :: after).reverse := by
  obtain ⟨gap, u, s, rfl, hastart, hastop, hu, w, v, last, rfl, hbstart, hbstop, hv, hafter⟩ :=
    hfits
  have hsize : size (p ++ gap ++ u) = a.stop := by rw [hastop, size_append, size_append]
  have hsize' : size (p ++ gap ++ u ++ w ++ v) = b.stop := by
    rw [hbstop, size_append, size_append, hsize]
  have htext : p ++ (gap ++ (u ++ (w ++ (v ++ last)))) =
      p ++ gap ++ u ++ (w ++ (v ++ last)) := by
    simp only [List.append_assoc]
  have hslice : (p ++ gap ++ u ++ (w ++ (v ++ last))).slice ⟨a.stop, b.start⟩ = w := by
    rw [hbstart, ← hsize, slice_append_append]
  rw [htext, isLinked, hslice] at hlinked
  simp only [Bool.and_eq_true, Bool.not_eq_true', List.all_eq_true] at hlinked
  obtain ⟨⟨ha, hb⟩, hw⟩ := hlinked
  refine ⟨⟨gap, u ++ (w ++ v), last, ?_, hastart, ?_, isSolid_append_append hu hv w, hafter⟩, ?_⟩
  · simp only [List.append_assoc]
  · simp only [← hsize', size_append, Nat.add_assoc]
  · obtain ⟨q, hq, -⟩ := exists_runAll (p := p ++ gap ++ u ++ w ++ v) (z := [])
      (endsSolid_append hv) rfl (hsize'.symm ▸ hafter)
    have hmerge : (run (p ++ gap ++ (u ++ (w ++ (v ++ q)))) b).bind (run · a) = _ :=
      run_run_of_linked hu hw (by rw [hastart, size_append]) (by rw [← hsize, size_append])
        hbstart (by rw [hbstop, hbstart]) ha hb
    simp only [List.append_assoc, List.append_nil] at hmerge hq ⊢
    rw [runAll_reverse_cons, runAll_reverse_cons, runAll_reverse_cons, hq]
    exact hmerge

/-! ## A chain and a list of chains -/

/-- **A chain may be deleted as one range**, after the ranges that follow it.  From its second range
on it is one range already, linked to the first as the second is. -/
theorem runAll_joined {p s : Text} {r : Removal} {chain after : List Removal}
    (hlinked : (r :: chain).IsChain fun a b => isLinked (p ++ s) a b)
    (hfits : Fits (size p) s (r :: chain ++ after)) :
    Fits (size p) s (joined (r :: chain) :: after) ∧
      runAll (p ++ s) (r :: chain ++ after).reverse =
        runAll (p ++ s) (joined (r :: chain) :: after).reverse := by
  induction chain generalizing p s r with
  | nil => exact ⟨hfits, rfl⟩
  | cons b chain ih =>
    obtain ⟨hfirst, hlinked⟩ := List.isChain_cons_cons.mp hlinked
    obtain ⟨gap, body, rest, rfl, hstart, hstop, hbody, hrest⟩ := hfits
    have hsize : size (p ++ gap ++ body) = r.stop := by rw [hstop, size_append, size_append]
    have htext : p ++ (gap ++ (body ++ rest)) = p ++ gap ++ body ++ rest := by
      simp only [List.append_assoc]
    rw [htext] at hlinked hfirst
    obtain ⟨hjoined, hrun⟩ := ih hlinked (hsize.symm ▸ hrest)
    have hpair := runAll_linked (p := p) (b := joined (b :: chain)) (htext ▸ hfirst)
      ⟨gap, body, rest, rfl, hstart, hstop, hbody, hsize ▸ hjoined⟩
    rw [joined_cons_cons, List.cons_append, runAll_reverse_cons, htext, hrun,
      ← runAll_reverse_cons, ← htext]
    exact hpair

/-- **So may all chains of a list.** -/
theorem runAll_map_joined {p s : Text} {gs : List (List Removal)} (hne : [] ∉ gs)
    (hlinked : ∀ g ∈ gs, g.IsChain fun a b => isLinked (p ++ s) a b)
    (hfits : Fits (size p) s gs.flatten) :
    Fits (size p) s (gs.map joined) ∧
      runAll (p ++ s) gs.flatten.reverse = runAll (p ++ s) (gs.map joined).reverse := by
  induction gs generalizing p s with
  | nil => exact ⟨trivial, rfl⟩
  | cons g gs ih =>
    obtain ⟨hg, hlater⟩ := not_or.mp (mt List.mem_cons.mpr hne)
    obtain ⟨r, chain, rfl⟩ := List.exists_cons_of_ne_nil (Ne.symm hg)
    obtain ⟨hjoined, hrun⟩ := runAll_joined (hlinked _ List.mem_cons_self) hfits
    obtain ⟨gap, body, rest, rfl, hstart, hstop, hbody, hrest⟩ := hjoined
    have hsize : size (p ++ gap ++ body) = (joined (r :: chain)).stop := by
      rw [hstop, size_append, size_append]
    have htext : p ++ (gap ++ (body ++ rest)) = p ++ gap ++ body ++ rest := by
      simp only [List.append_assoc]
    rw [htext] at hlinked hrun ⊢
    obtain ⟨hmap, hrest⟩ := ih hlater (fun g hg => hlinked g (List.mem_cons_of_mem _ hg))
      (hsize.symm ▸ hrest)
    refine ⟨⟨gap, body, rest, rfl, hstart, hstop, hbody, hsize ▸ hmap⟩, ?_⟩
    rw [List.flatten_cons, hrun, runAll_reverse_cons, hrest, List.map_cons, runAll_reverse_cons]

end Delog.Removal
