import Delog.Proofs.Removal.Check

/-!
# Proofs/Removal/Order — a list of ranges in another order

Ranges may be given in any order.  Whether they are accepted is told without sorting them, and the
ranges of an accepted list start at different offsets, so that sorting puts them in one order only.

* `sortDescending_eq_of_perm` — there is one way to put an accepted list in descending order
* `edit_of_perm` — a list comes to the same in any order
-/

namespace Delog

open Text

namespace Removal

variable {s : Text} {rs ts : List Removal}

/-- **The ranges of an accepted list start at different offsets**, if none is empty. -/
theorem pairwise_start_of_accepted (hproper : ∀ r ∈ rs, r.start ≠ r.stop)
    (h : fault s (sortDescending rs) = none) :
    (sortDescending rs).Pairwise fun a b => b.start < a.start := by
  refine (fault_eq_none_iff.mp h).2.imp_of_mem fun {later earlier} _ hearlier hle => ?_
  have hmem := (perm_sortDescending rs).mem_iff.mp hearlier
  have := (check_eq_none.mp (check_of_accepted h hmem)).1
  have := hproper earlier hmem
  omega

/-- Whether a list is accepted does not depend on its order. -/
theorem fault_eq_none_of_perm (hproper : ∀ r ∈ rs, r.start ≠ r.stop) (hperm : rs.Perm ts) :
    fault s (sortDescending rs) = none ↔ fault s (sortDescending ts) = none := by
  have hproper' : ∀ r ∈ ts, r.start ≠ r.stop := fun r hr => hproper r (hperm.mem_iff.mpr hr)
  rw [fault_sortDescending_eq_none_iff hproper, fault_sortDescending_eq_none_iff hproper',
    hperm.pairwise_iff Apart.symm]
  simp only [hperm.mem_iff]

/-- **There is one way to put an accepted list in descending order.** -/
theorem sortDescending_eq_of_perm (hproper : ∀ r ∈ rs, r.start ≠ r.stop) (hperm : rs.Perm ts)
    (h : fault s (sortDescending rs) = none) : sortDescending rs = sortDescending ts :=
  (sortDescending_eq_of_pairwise (hperm.symm.trans (perm_sortDescending rs).symm)
    (pairwise_start_of_accepted hproper h)).symm

/-- An accepted list is edited to the same in any order. -/
theorem edit_eq_of_perm (hproper : ∀ r ∈ rs, r.start ≠ r.stop) (hperm : rs.Perm ts)
    (h : fault s (sortDescending rs) = none) : edit s rs = edit s ts := by
  by_cases hne : rs = []
  · subst hne
    rw [List.nil_perm.mp hperm]
  · have hne' : ts ≠ [] := fun hnil => hne (List.perm_nil.mp (hnil ▸ hperm))
    rw [edit_of_accepted h hne,
      edit_of_accepted ((fault_eq_none_of_perm hproper hperm).mp h) hne',
      sortDescending_eq_of_perm hproper hperm h]

/-- **A list of ranges comes to the same in any order**, if no range is empty: to the same text, or
it is turned down, or the same range is stale when its turn comes. -/
theorem edit_of_perm (hproper : ∀ r ∈ rs, r.start ≠ r.stop) (hperm : rs.Perm ts) :
    (∃ text, edit s rs = .ok text ∧ edit s ts = .ok text) ∨
      (∃ e e', edit s rs = .error (.rejected e) ∧ edit s ts = .error (.rejected e')) ∨
      ∃ r, edit s rs = .error (.stale r) ∧ edit s ts = .error (.stale r) := by
  by_cases haccepted : fault s (sortDescending rs) = none
  · rw [← edit_eq_of_perm hproper hperm haccepted]
    cases hedit : edit s rs with
    | ok text => exact .inl ⟨text, rfl, rfl⟩
    | error e =>
      cases e with
      | rejected e => exact absurd haccepted (exists_edit_eq_rejected_iff.mp ⟨e, hedit⟩)
      | stale r => exact .inr (.inr ⟨r, rfl, rfl⟩)
  · have haccepted' := mt (fault_eq_none_of_perm hproper hperm).mpr haccepted
    obtain ⟨e, he⟩ := exists_edit_eq_rejected_iff.mpr haccepted
    obtain ⟨e', he'⟩ := exists_edit_eq_rejected_iff.mpr haccepted'
    exact .inr (.inl ⟨e, e', he, he'⟩)

end Removal

namespace Sample

open Removal

/-- Two statements on lines of their own, and one that shares its line. -/
def listed : Text := "a();\nb();\nx; c();\n".toList

/-- The ranges of the calls, the last one first. -/
def calls : List Removal := [⟨13, 17, false⟩, ⟨5, 9, false⟩, ⟨0, 4, true⟩]

/-- In another order the ranges at hand come to the same text. -/
theorem sample_edit_of_perm :
    (∀ r ∈ calls, r.start ≠ r.stop) ∧
      calls.Perm [⟨5, 9, false⟩, ⟨13, 17, false⟩, ⟨0, 4, true⟩] ∧
      edit listed [⟨5, 9, false⟩, ⟨13, 17, false⟩, ⟨0, 4, true⟩] = .ok ";\nx;\n".toList := by
  have hproper : ∀ r ∈ calls, r.start ≠ r.stop := by decide
  have hperm : calls.Perm [⟨5, 9, false⟩, ⟨13, 17, false⟩, ⟨0, 4, true⟩] := by decide
  have hedit : edit listed calls = .ok ";\nx;\n".toList := by
    rw [@edit_of_descending listed calls (by decide) (by decide) (List.cons_ne_nil _ _)]
    decide
  rcases @edit_of_perm listed _ _ hproper hperm with
    ⟨text, hleft, hright⟩ | ⟨e, _, hleft, -⟩ | ⟨r, hleft, -⟩
  · rw [hedit] at hleft
    exact ⟨hproper, hperm, hleft ▸ hright⟩
  all_goals
    rw [hedit] at hleft
    cases hleft

end Sample

end Delog
