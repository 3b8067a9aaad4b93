import Delog.Proofs.Removal.Upkeep

/-!
# Proofs/Removal/Accept — the lists of ranges that are accepted

A list of ranges may come in any order.  It is accepted when each range is sound by itself and no
two neighbours overlap once the list is sorted; then no two ranges overlap at all.

* `fault_eq_none_iff` — which sorted lists are accepted
* `fault_sortDescending_eq_none_iff` — which lists are, if no range is empty
* `pairwise_sortAscending`, `edit_of_accepted` — an accepted list in ascending order, and what
  editing makes of it
* `exists_runAll_of_edit` — what any list of ranges comes to, if it comes to anything
* `pairwise_sortAscending_of_apart`, `fault_of_apart` — solid ranges that are apart are accepted
-/

namespace Delog.Removal

open Text

/-- The ranges, those that start earlier first. -/
def sortAscending (rs : List Removal) : List Removal := (sortDescending rs).reverse

/-- **Two ranges share no byte**, one ending before the other starts. -/
def Apart (a b : Removal) : Prop := a.stop ≤ b.start ∨ b.stop ≤ a.start

instance (a b : Removal) : Decidable (Apart a b) :=
  inferInstanceAs (Decidable (_ ∨ _))

theorem Apart.symm {a b : Removal} (h : Apart a b) : Apart b a := Or.symm h

@[simp] theorem mem_sortAscending {rs : List Removal} {r : Removal} :
    r ∈ sortAscending rs ↔ r ∈ rs := by
  rw [sortAscending, List.mem_reverse, (perm_sortDescending rs).mem_iff]

@[simp] theorem reverse_sortAscending (rs : List Removal) :
    (sortAscending rs).reverse = sortDescending rs :=
  List.reverse_reverse _

@[simp] theorem sortAscending_eq_nil {rs : List Removal} : sortAscending rs = [] ↔ rs = [] := by
  rw [sortAscending, List.reverse_eq_nil_iff, ← List.length_eq_zero_iff,
    (perm_sortDescending rs).length_eq, List.length_eq_zero_iff]

/-- A list that is in descending order is not rearranged. -/
theorem sortDescending_of_pairwise {rs : List Removal}
    (h : rs.Pairwise fun a b => b.start ≤ a.start) : sortDescending rs = rs :=
  List.mergeSort_of_pairwise (h.imp fun h => decide_eq_true h)

/-! ## Accepted lists -/

/-- **Neighbours that do not overlap keep all ranges apart**, as no range is reversed. -/
theorem pairwise_of_firstOverlap {rs : List Removal} (hle : ∀ r ∈ rs, r.start ≤ r.stop)
    (h : firstOverlap rs = none) : rs.Pairwise fun later earlier => earlier.stop ≤ later.start := by
  fun_induction firstOverlap rs with
  | case1 => cases h
  | case2 later earlier rs hlt ih =>
    have hpair := ih (fun r hr => hle r (List.mem_cons_of_mem _ hr)) h
    refine List.pairwise_cons.mpr ⟨fun r hr => ?_, hpair⟩
    rcases List.mem_cons.mp hr with rfl | hr
    · omega
    · have hnext := (List.pairwise_cons.mp hpair).1 r hr
      have := hle earlier (by simp)
      omega
  | case3 rs hrs =>
    rcases rs with _ | ⟨later, _ | ⟨earlier, rs⟩⟩
    · exact List.Pairwise.nil
    · exact List.pairwise_singleton _ later
    · exact absurd rfl (hrs later earlier rs)

/-- **A sorted list is accepted** when all its ranges are sound by themselves, and each ends before
those that come before it in the list. -/
theorem fault_eq_none_iff {s : Text} {rs : List Removal} :
    fault s rs = none ↔
      (∀ r ∈ rs, check s r = none) ∧
        rs.Pairwise fun later earlier => earlier.stop ≤ later.start := by
  rw [fault, Option.or_eq_none_iff, List.findSome?_eq_none_iff]
  refine and_congr_right fun hcheck => ⟨fun h => ?_, firstOverlap_eq_none⟩
  exact pairwise_of_firstOverlap (fun r hr => (check_eq_none.mp (hcheck r hr)).1) h

/-- **Which lists are accepted**, if no range is empty: those of ranges that are sound by themselves
and apart, in whichever order they are given. -/
theorem fault_sortDescending_eq_none_iff {s : Text} {rs : List Removal}
    (hproper : ∀ r ∈ rs, r.start ≠ r.stop) :
    fault s (sortDescending rs) = none ↔ (∀ r ∈ rs, check s r = none) ∧ rs.Pairwise Apart := by
  have hperm := perm_sortDescending rs
  rw [fault_eq_none_iff, ← hperm.pairwise_iff Apart.symm]
  constructor
  · rintro ⟨hcheck, hpair⟩
    exact ⟨fun r hr => hcheck r (hperm.mem_iff.mpr hr), hpair.imp .inr⟩
  · rintro ⟨hcheck, hapart⟩
    refine ⟨fun r hr => hcheck r (hperm.mem_iff.mp hr), ?_⟩
    refine (hapart.and (pairwise_sortDescending rs)).imp_of_mem fun {later earlier} hlater _ h => ?_
    obtain ⟨hdisj, horder⟩ := h
    have hmem := hperm.mem_iff.mp hlater
    have hle := (check_eq_none.mp (hcheck later hmem)).1
    have hne := hproper later hmem
    rcases hdisj with h | h
    · omega
    · exact h

section Accepted

variable {s : Text} {rs : List Removal} (h : fault s (sortDescending rs) = none)
include h

theorem check_of_accepted {r : Removal} (hr : r ∈ rs) : check s r = none :=
  (fault_eq_none_iff.mp h).1 r ((perm_sortDescending rs).mem_iff.mpr hr)

/-- **Accepted ranges follow one another.** -/
theorem pairwise_sortAscending : (sortAscending rs).Pairwise fun a b => a.stop ≤ b.start :=
  List.pairwise_reverse.mpr (fault_eq_none_iff.mp h).2

/-- **Accepted ranges are removed from the last to the first**, and what is left is tidied. -/
theorem edit_of_accepted (hne : rs ≠ []) :
    edit s rs = (runAll s (sortDescending rs)).map (tidy s) := by
  have huntouched : ¬ leavesUntouched rs = true := by simpa [leavesUntouched] using hne
  rw [edit, if_neg huntouched]
  simp only [h]

/-- Accepted ranges are solid when the texts they cover are. -/
theorem solidIn_of_accepted (hsolid : ∀ r ∈ rs, isSolid (s.slice r.span) = true) {r : Removal}
    (hr : r ∈ rs) : r.SolidIn s := by
  obtain ⟨hle, hstart, hstop⟩ := check_eq_none.mp (check_of_accepted h hr)
  exact ⟨hle, hstart, hstop, hsolid r hr⟩

/-- In ascending order they fit the text. -/
theorem fits_of_accepted (hsolid : ∀ r ∈ rs, isSolid (s.slice r.span) = true) :
    Fits 0 s (sortAscending rs) :=
  fits_of_pairwise (fun _ hr => solidIn_of_accepted h hsolid (mem_sortAscending.mp hr))
    (pairwise_sortAscending h)

end Accepted

/-- A list that is in descending order is removed as it is given. -/
theorem edit_of_descending {s : Text} {rs : List Removal}
    (hsort : rs.Pairwise fun a b => b.start ≤ a.start) (haccepted : fault s rs = none)
    (hne : rs ≠ []) : edit s rs = (runAll s rs).map (tidy s) := by
  have hsame := sortDescending_of_pairwise hsort
  rw [edit_of_accepted (by rwa [hsame]) hne, hsame]

/-- **What a list of ranges is edited to**, it comes to by the removals and by tidying. -/
theorem exists_runAll_of_edit {s text : Text} {rs : List Removal} (hne : rs ≠ [])
    (h : edit s rs = .ok text) : ∃ q, runAll s (sortDescending rs) = .ok q ∧ text = tidy s q := by
  have haccepted : fault s (sortDescending rs) = none := by
    rw [edit, if_neg (by simpa [leavesUntouched] using hne)] at h
    cases hfault : fault s (sortDescending rs) with
    | none => rfl
    | some e => simp [hfault] at h
  rw [edit_of_accepted haccepted hne] at h
  cases hrun : runAll s (sortDescending rs) with
  | error e =>
    rw [hrun] at h
    cases h
  | ok q =>
    rw [hrun] at h
    exact ⟨q, rfl, (Except.ok.inj h).symm⟩

/-! ## Solid ranges that are apart -/

instance (s : Text) (r : Removal) : Decidable (r.SolidIn s) :=
  decidable_of_iff (r.start ≤ r.stop ∧ isBoundary s r.start = true ∧ isBoundary s r.stop = true ∧
      isSolid (s.slice r.span) = true)
    ⟨fun ⟨hle, hstart, hstop, hsolid⟩ => ⟨hle, hstart, hstop, hsolid⟩,
      fun ⟨hle, hstart, hstop, hsolid⟩ => ⟨hle, hstart, hstop, hsolid⟩⟩

section Solid

variable {s : Text} {rs : List Removal} (hsolid : ∀ r ∈ rs, r.SolidIn s)
  (hapart : rs.Pairwise Apart)
include hsolid hapart

/-- **Solid ranges that are apart are accepted**, in whichever order they are given. -/
theorem fault_of_apart : fault s (sortDescending rs) = none := by
  refine (fault_sortDescending_eq_none_iff fun r hr => ?_).mpr ⟨fun r hr => ?_, hapart⟩
  · exact Nat.ne_of_lt (hsolid r hr).start_lt_stop
  · have h := hsolid r hr
    exact check_eq_none.mpr ⟨h.start_le_stop, h.isBoundary_start, h.isBoundary_stop⟩

theorem pairwise_sortAscending_of_apart :
    (sortAscending rs).Pairwise fun a b => a.stop ≤ b.start :=
  pairwise_sortAscending (fault_of_apart hsolid hapart)

/-- In ascending order they fit the text. -/
theorem fits_of_apart : Fits 0 s (sortAscending rs) :=
  fits_of_accepted (fault_of_apart hsolid hapart) fun r hr => (hsolid r hr).isSolid_slice

end Solid

end Delog.Removal
