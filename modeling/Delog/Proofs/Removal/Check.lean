import Delog.Proofs.Removal.Accept
import Mathlib.Data.List.Perm.Basic

/-!
# Proofs/Removal/Check — which lists of ranges the check turns down

The check looks at each range by itself, and then at neighbours in descending order of start.  Of
ranges that are not empty two share a byte only if two neighbours do, so that the check is exact.

* `fault_ne_none_iff` — which lists are turned down, told without sorting them
* `exists_of_fault_eq_overlap` — what an overlap that is reported tells
* `edit_rejects_exactly` — which lists are turned down, and which ranges an overlap names
-/

namespace Delog

open Text

namespace Removal

variable {s : Text} {rs ts : List Removal} {a b : Removal}

/-- **Two ranges share a byte.** -/
def SharesByte (a b : Removal) : Prop := ∃ n, (a.start ≤ n ∧ n < a.stop) ∧ b.start ≤ n ∧ n < b.stop

theorem sharesByte_iff :
    SharesByte a b ↔ a.start < a.stop ∧ b.start < b.stop ∧ ¬ Apart a b := by
  constructor
  · rintro ⟨n, ha, hb⟩
    refine ⟨by omega, by omega, ?_⟩
    rintro (h | h) <;> omega
  · rintro ⟨ha, hb, hapart⟩
    obtain ⟨hab, hba⟩ := not_or.mp hapart
    exact ⟨max a.start b.start, by omega, by omega⟩

/-! ## Two places of a list -/

/-- **Two ranges stand at different places of a list.** -/
def AtTwoPlaces (rs : List Removal) (a b : Removal) : Prop :=
  ∃ i j : Nat, i ≠ j ∧ rs[i]? = some a ∧ rs[j]? = some b

theorem AtTwoPlaces.mem (h : AtTwoPlaces rs a b) : a ∈ rs ∧ b ∈ rs := by
  obtain ⟨i, j, -, ha, hb⟩ := h
  exact ⟨List.mem_of_getElem? ha, List.mem_of_getElem? hb⟩

/-- Two ranges stand at different places in whatever order the list is. -/
theorem AtTwoPlaces.of_perm (h : AtTwoPlaces rs a b) (hperm : rs.Perm ts) :
    AtTwoPlaces ts a b := by
  obtain ⟨i, j, hij, ha, hb⟩ := h
  obtain ⟨hi, rfl⟩ := List.getElem?_eq_some_iff.mp ha
  obtain ⟨hj, rfl⟩ := List.getElem?_eq_some_iff.mp hb
  refine ⟨hperm.idxBij ⟨i, hi⟩, hperm.idxBij ⟨j, hj⟩, fun heq => hij ?_, ?_, ?_⟩
  · simpa using hperm.idxBij_injective (Fin.ext heq)
  · exact List.getElem?_eq_some_iff.mpr ⟨Fin.isLt _, hperm.getElem_idxBij_eq_getElem ⟨i, hi⟩⟩
  · exact List.getElem?_eq_some_iff.mpr ⟨Fin.isLt _, hperm.getElem_idxBij_eq_getElem ⟨j, hj⟩⟩

/-- **The ranges of a list are apart** when those at any two places are. -/
theorem pairwise_apart_iff :
    rs.Pairwise Apart ↔ ∀ a b, AtTwoPlaces rs a b → Apart a b := by
  rw [List.pairwise_iff_getElem]
  constructor
  · rintro h a b ⟨i, j, hij, ha, hb⟩
    obtain ⟨hi, rfl⟩ := List.getElem?_eq_some_iff.mp ha
    obtain ⟨hj, rfl⟩ := List.getElem?_eq_some_iff.mp hb
    rcases Nat.lt_or_gt_of_ne hij with hlt | hlt
    · exact h i j hi hj hlt
    · exact (h j i hj hi hlt).symm
  · intro h i j hi hj hlt
    exact h _ _ ⟨i, j, Nat.ne_of_lt hlt, List.getElem?_eq_getElem hi, List.getElem?_eq_getElem hj⟩

/-- **Ranges are apart unless two of them share a byte**, if none is empty or reversed. -/
theorem not_pairwise_apart_iff (hlt : ∀ r ∈ rs, r.start < r.stop) :
    ¬ rs.Pairwise Apart ↔ ∃ a b, AtTwoPlaces rs a b ∧ SharesByte a b := by
  rw [pairwise_apart_iff]
  constructor
  · intro h
    obtain ⟨a, b, hab, hapart⟩ : ∃ a b, AtTwoPlaces rs a b ∧ ¬ Apart a b := by
      simpa only [not_forall, exists_prop] using h
    exact ⟨a, b, hab, sharesByte_iff.mpr ⟨hlt a hab.mem.1, hlt b hab.mem.2, hapart⟩⟩
  · rintro ⟨a, b, hab, hshare⟩ hapart
    exact (sharesByte_iff.mp hshare).2.2 (hapart a b hab)

/-! ## What the check finds -/

/-- **A range passes by itself** when it is in bounds and no end of it is inside a character. -/
theorem check_eq_none_iff :
    check s a = none ↔
      ¬ (a.stop < a.start ∨ size s < a.stop) ∧ ¬ (IsInside s a.start ∨ IsInside s a.stop) := by
  rw [check_eq_none, not_or, not_or, isInside_iff, isInside_iff]
  constructor
  · rintro ⟨hle, hstart, hstop⟩
    have := isBoundary_le hstop
    exact ⟨⟨by omega, by omega⟩, by simp [hstart], by simp [hstop]⟩
  · rintro ⟨⟨hle, hsize⟩, hstart, hstop⟩
    have hboundary : ∀ n, n ≤ size s → ¬ (n ≤ size s ∧ isBoundary s n = false) →
        isBoundary s n = true := fun n hn h => by simpa [hn] using h
    exact ⟨by omega, hboundary _ (by omega) hstart, hboundary _ (by omega) hstop⟩

/-- **An overlap that is reported** is one of two neighbours, the first of them the later one. -/
theorem exists_of_firstOverlap {e : RangeError} (h : firstOverlap rs = some e) :
    ∃ (i : Nat) (later earlier : Removal), rs[i]? = some later ∧ rs[i + 1]? = some earlier ∧
      later.start < earlier.stop ∧ e = .overlap earlier.span later.span := by
  fun_induction firstOverlap rs with
  | case1 later earlier rs hlt =>
    exact ⟨0, later, earlier, rfl, rfl, hlt, (Option.some.inj h).symm⟩
  | case2 later earlier rs _ ih =>
    obtain ⟨i, later, earlier, hlater, hearlier, hlt, rfl⟩ := ih h
    exact ⟨i + 1, later, earlier, hlater, hearlier, hlt, rfl⟩
  | case3 => cases h

/-- No overlap is reported of a range by itself. -/
theorem check_ne_overlap (first second : Span) : check s a ≠ some (.overlap first second) := by
  rw [check]
  split
  · simp
  · split <;> simp

/-- An overlap is reported only when all ranges pass by themselves. -/
theorem of_fault_eq_overlap {first second : Span} (h : fault s rs = some (.overlap first second)) :
    (∀ r ∈ rs, check s r = none) ∧ firstOverlap rs = some (.overlap first second) := by
  rw [fault, Option.or_eq_some_iff] at h
  rcases h with h | ⟨hcheck, h⟩
  · obtain ⟨r, -, hr⟩ := List.exists_of_findSome?_eq_some h
    exact absurd hr (check_ne_overlap first second)
  · exact ⟨List.findSome?_eq_none_iff.mp hcheck, h⟩

/-- **What an overlap that is reported tells**, if no range is empty: all ranges pass by themselves,
and the two that it names share a byte, the first of them not starting after the second. -/
theorem exists_of_fault_eq_overlap (hproper : ∀ r ∈ rs, r.start ≠ r.stop) {first second : Span}
    (h : fault s (sortDescending rs) = some (.overlap first second)) :
    (∀ r ∈ rs, check s r = none) ∧
      ∃ a b, AtTwoPlaces rs a b ∧ a.span = first ∧ b.span = second ∧ SharesByte a b ∧
        a.start ≤ b.start := by
  have hperm := perm_sortDescending rs
  obtain ⟨hsorted, hoverlap⟩ := of_fault_eq_overlap h
  have hcheck : ∀ r ∈ rs, check s r = none := fun r hr => hsorted r (hperm.mem_iff.mpr hr)
  obtain ⟨i, later, earlier, hlater, hearlier, hlt, heq⟩ := exists_of_firstOverlap hoverlap
  have hplaces : AtTwoPlaces rs earlier later :=
    AtTwoPlaces.of_perm ⟨i + 1, i, Nat.succ_ne_self i, hearlier, hlater⟩ hperm
  have horder : earlier.start ≤ later.start := by
    obtain ⟨hi, rfl⟩ := List.getElem?_eq_some_iff.mp hlater
    obtain ⟨hj, rfl⟩ := List.getElem?_eq_some_iff.mp hearlier
    exact List.pairwise_iff_getElem.mp (pairwise_sortDescending rs) i (i + 1) hi hj
      (Nat.lt_succ_self i)
  have hlater : later.start < later.stop := Nat.lt_of_le_of_ne
    (check_eq_none.mp (hcheck later hplaces.mem.2)).1 (hproper later hplaces.mem.2)
  rw [RangeError.overlap.injEq] at heq
  exact ⟨hcheck, earlier, later, hplaces, heq.1.symm, heq.2.symm,
    ⟨later.start, ⟨horder, hlt⟩, Nat.le_refl _, hlater⟩, horder⟩

/-- **Which lists the check turns down**, if no range is empty. -/
theorem fault_ne_none_iff (hproper : ∀ r ∈ rs, r.start ≠ r.stop) :
    fault s (sortDescending rs) ≠ none ↔
      (∃ r ∈ rs, r.stop < r.start ∨ size s < r.stop) ∨
        (∃ r ∈ rs, IsInside s r.start ∨ IsInside s r.stop) ∨
        ∃ a b, AtTwoPlaces rs a b ∧ SharesByte a b := by
  rw [ne_eq, fault_sortDescending_eq_none_iff hproper]
  by_cases hcheck : ∀ r ∈ rs, check s r = none
  · have hbounds : ¬ ∃ r ∈ rs, r.stop < r.start ∨ size s < r.stop :=
      fun ⟨r, hr, h⟩ => (check_eq_none_iff.mp (hcheck r hr)).1 h
    have hinside : ¬ ∃ r ∈ rs, IsInside s r.start ∨ IsInside s r.stop :=
      fun ⟨r, hr, h⟩ => (check_eq_none_iff.mp (hcheck r hr)).2 h
    have hlt : ∀ r ∈ rs, r.start < r.stop := fun r hr =>
      Nat.lt_of_le_of_ne (check_eq_none.mp (hcheck r hr)).1 (hproper r hr)
    rw [or_iff_right hbounds, or_iff_right hinside, ← not_pairwise_apart_iff hlt]
    exact not_congr (and_iff_right hcheck)
  · refine iff_of_true (fun h => hcheck h.1) ?_
    obtain ⟨r, hr, hne⟩ : ∃ r ∈ rs, check s r ≠ none := by simpa using hcheck
    rw [ne_eq, check_eq_none_iff, not_and_or, not_not, not_not] at hne
    rcases hne with h | h
    · exact .inl ⟨r, hr, h⟩
    · exact .inr (.inl ⟨r, hr, h⟩)

/-! ## What editing comes to -/

theorem runAll_ne_rejected (s : Text) (rs : List Removal) (e : RangeError) :
    runAll s rs ≠ .error (.rejected e) := by
  induction rs generalizing s with
  | nil => simp [runAll]
  | cons r rs ih =>
    rw [runAll]
    cases hrun : run s r with
    | ok t => exact ih t
    | error e' =>
      rw [run] at hrun
      split at hrun
      · split at hrun <;> cases hrun
      · cases hrun
        simp [Except.bind]

/-- **Editing turns a list down for the fault that the check finds in it**, and for nothing
else. -/
theorem edit_eq_rejected_iff {e : RangeError} :
    edit s rs = .error (.rejected e) ↔ fault s (sortDescending rs) = some e := by
  by_cases hne : rs = []
  · subst hne
    simp [edit, leavesUntouched, sortDescending, fault, firstOverlap]
  · cases hfault : fault s (sortDescending rs) with
    | some e' => simp [edit, leavesUntouched, hne, hfault]
    | none =>
      rw [edit_of_accepted hfault hne]
      have hrun := runAll_ne_rejected s (sortDescending rs) e
      cases h : runAll s (sortDescending rs) with
      | ok t => simp [Except.map]
      | error e' =>
        rw [h] at hrun
        simpa [Except.map] using hrun

theorem exists_edit_eq_rejected_iff :
    (∃ e, edit s rs = .error (.rejected e)) ↔ fault s (sortDescending rs) ≠ none := by
  simp only [edit_eq_rejected_iff, Option.ne_none_iff_exists']

/-- **Which lists of ranges are turned down**, if no range is empty: those with a range out of
bounds, with a range that has an end inside a character, or with two ranges that share a byte,
however far apart they stand in the list.  An overlap is reported only when there is nothing wrong
with any range by itself, and it names two ranges of the list that share a byte, in the order of
their starts. -/
theorem edit_rejects_exactly (hproper : ∀ r ∈ rs, r.start ≠ r.stop) :
    ((∃ e, edit s rs = .error (.rejected e)) ↔
        (∃ r ∈ rs, r.stop < r.start ∨ size s < r.stop) ∨
          (∃ r ∈ rs, IsInside s r.start ∨ IsInside s r.stop) ∨
          ∃ a b, AtTwoPlaces rs a b ∧ SharesByte a b) ∧
      ∀ first second, edit s rs = .error (.rejected (.overlap first second)) →
        (∀ r ∈ rs, r.start ≤ r.stop ∧ r.stop ≤ size s ∧
          isBoundary s r.start = true ∧ isBoundary s r.stop = true) ∧
        ∃ a b, AtTwoPlaces rs a b ∧ a.span = first ∧ b.span = second ∧ SharesByte a b ∧
          a.start ≤ b.start := by
  refine ⟨exists_edit_eq_rejected_iff.trans (fault_ne_none_iff hproper), fun first second h => ?_⟩
  obtain ⟨hcheck, hnamed⟩ := exists_of_fault_eq_overlap hproper (edit_eq_rejected_iff.mp h)
  refine ⟨fun r hr => ?_, hnamed⟩
  obtain ⟨hle, hstart, hstop⟩ := check_eq_none.mp (hcheck r hr)
  exact ⟨hle, isBoundary_le hstop, hstart, hstop⟩

end Removal

namespace Sample

open Removal

/-- A text with a character of two bytes. -/
def accented : Text := "aé bcd".toList

/-- Ranges of which the last one covers the others. -/
def covered : List Removal := [⟨5, 6, false⟩, ⟨3, 4, true⟩, ⟨1, 6, false⟩]

/-- The list at hand is turned down for the first two neighbours that share a byte. -/
theorem sample_edit_rejects :
    (∀ r ∈ covered, r.start ≠ r.stop) ∧
      edit accented covered = .error (.rejected (.overlap ⟨1, 6⟩ ⟨3, 4⟩)) ∧
      (∃ a b, AtTwoPlaces covered a b ∧ a.span = ⟨1, 6⟩ ∧ b.span = ⟨3, 4⟩ ∧ SharesByte a b) ∧
      ∃ e, edit accented [⟨3, 5, false⟩, ⟨0, 2, false⟩] = .error (.rejected e) := by
  have hproper : ∀ r ∈ covered, r.start ≠ r.stop := by decide
  have hedit : edit accented covered = .error (.rejected (.overlap ⟨1, 6⟩ ⟨3, 4⟩)) := by
    rw [edit_eq_rejected_iff, sortDescending_of_pairwise (by decide)]
    decide
  obtain ⟨-, a, b, hab, ha, hb, hshare, -⟩ := (edit_rejects_exactly hproper).2 _ _ hedit
  have hinside : IsInside accented 2 := by decide
  exact ⟨hproper, hedit, ⟨a, b, hab, ha, hb, hshare⟩,
    (edit_rejects_exactly (by decide)).1.mpr
      (.inr (.inl ⟨⟨0, 2, false⟩, by decide, .inr hinside⟩))⟩

end Sample

end Delog
