import Delog.Directory.Basic

/-!
# Proofs/Directory/Entry — putting, deleting and settling entries

Entries at different locations are independent of one another: where both are there already, they
may be put in either order, and it does not matter for the list of entries itself.

* `find?_delete`, `find?_settle` — what is found after entries are deleted, or settled
* `put_comm` — entries at two locations may be put in either order
* `put_self` — an entry put where it already is changes nothing
* `unlink_put` — an entry put where there was nothing leaves no trace once it is taken out
-/

namespace Delog.Directory

variable {d : Directory} {l₁ l₂ loc : Location} {e e₁ e₂ : Entry}

theorem find?_of_ne_nil (d : Directory) (h : loc ≠ []) : d.find? loc = d.entries.lookup loc :=
  if_neg h

theorem ne_nil_of_find? (h : d.find? loc ≠ some .directory) : loc ≠ [] := by
  rintro rfl
  exact h rfl

theorem ne_nil_of_file {f : RegularFile} (h : d.find? loc = some (.file f)) : loc ≠ [] :=
  ne_nil_of_find? (by rw [h]; simp)

theorem ne_nil_of_none (h : d.find? loc = none) : loc ≠ [] := ne_nil_of_find? (by rw [h]; simp)

theorem find?_put_of_none (h : d.find? loc = none) (e : Entry) :
    (d.put loc e).find? loc = some e := by
  rw [find?_put d (ne_nil_of_none h), if_pos rfl]

theorem mem_of_find? (h : d.find? loc = some e) (hloc : loc ≠ []) : (loc, e) ∈ d.entries := by
  rw [find?_of_ne_nil d hloc, List.lookup_eq_some_iff] at h
  obtain ⟨before, after, hentries, -⟩ := h
  rw [hentries]
  exact List.mem_append_right _ List.mem_cons_self

/-- No link is found in a directory of files. -/
theorem find?_ne_link (h : ∀ x ∈ d.entries, ∃ f, x.2 = .file f) (loc : Location) (t : Path) :
    d.find? loc ≠ some (.link t) := by
  intro hlink
  obtain ⟨f, hf⟩ := h _ (mem_of_find? hlink (ne_nil_of_find? (by rw [hlink]; simp)))
  cases hf

/-! ## Deleting -/

theorem lookup_filter (p : Location → Bool) (l : Location) : ∀ xs : List (Location × Entry),
    (xs.filter fun x => p x.1).lookup l = if p l then xs.lookup l else none
  | [] => by simp
  | (k, x) :: xs => by
    have ih := lookup_filter p l xs
    by_cases h : l = k
    · subst h
      by_cases hp : p l = true
      · simp [hp]
      · simp [hp, ih]
    · rw [List.filter_cons, List.lookup_cons, beq_false_of_ne h]
      split
      · rw [List.lookup_cons, beq_false_of_ne h, ih]
      · exact ih

/-- **Deleting an entry takes away that entry and all below it**, and no other. -/
theorem find?_delete (d : Directory) (h : loc ≠ []) (l : Location) :
    (d.delete loc).find? l = if loc <+: l then none else d.find? l := by
  by_cases hl : l = []
  · subst hl
    rw [if_neg fun hpre => h (List.prefix_nil.mp hpre)]
    rfl
  · rw [find?_of_ne_nil _ hl, find?_of_ne_nil _ hl, delete,
      lookup_filter fun k => !loc.isPrefixOf k]
    simp only [← List.isPrefixOf_iff_prefix, Bool.not_eq_true', ← Bool.not_eq_true]
    by_cases hpre : loc.isPrefixOf l = true
    · rw [if_neg (not_not_intro hpre), if_pos hpre]
    · rw [if_pos hpre, if_neg hpre]

/-! ## Settling -/

theorem lookup_map_settled (l : Location) : ∀ xs : List (Location × Entry),
    (xs.map fun x => (x.1, settled x.2)).lookup l = (xs.lookup l).map settled
  | [] => rfl
  | (k, x) :: xs => by
    by_cases h : l = k
    · simp [h]
    · simp [List.lookup_cons, beq_false_of_ne h, lookup_map_settled l xs]

/-- **Settling forgets of every file whether it was written.** -/
theorem find?_settle (d : Directory) (l : Location) :
    d.settle.find? l = (d.find? l).map settled := by
  by_cases hl : l = []
  · subst hl
    rfl
  · rw [find?_of_ne_nil _ hl, find?_of_ne_nil _ hl, settle, lookup_map_settled]

theorem map_settled_putInto (loc : Location) (e : Entry) : ∀ xs : List (Location × Entry),
    (putInto loc e xs).map (fun x => (x.1, settled x.2)) =
      putInto loc (settled e) (xs.map fun x => (x.1, settled x.2))
  | [] => rfl
  | x :: xs => by
    rw [putInto, List.map_cons, putInto]
    split
    · rfl
    · rw [List.map_cons, map_settled_putInto loc e xs]

theorem settle_put (d : Directory) (loc : Location) (e : Entry) :
    (d.put loc e).settle = d.settle.put loc (settled e) :=
  congrArg Directory.mk (map_settled_putInto loc e d.entries)

/-! ## Putting an entry once more, or for a while -/

theorem putInto_self : ∀ {xs : List (Location × Entry)}, xs.lookup loc = some e →
    putInto loc e xs = xs
  | [], h => by simp at h
  | (k, x) :: xs, h => by
    rw [putInto]
    by_cases hk : k = loc
    · subst hk
      obtain rfl : x = e := by simpa using h
      rw [if_pos rfl]
    · rw [List.lookup_cons, beq_false_of_ne (Ne.symm hk)] at h
      rw [if_neg hk, putInto_self h]

/-- **An entry put where it already is changes nothing.** -/
theorem put_self (hloc : loc ≠ []) (h : d.find? loc = some e) : d.put loc e = d := by
  rw [find?_of_ne_nil d hloc] at h
  exact congrArg Directory.mk (putInto_self h)

theorem putInto_putInto (loc : Location) (e₁ e₂ : Entry) : ∀ xs : List (Location × Entry),
    putInto loc e₂ (putInto loc e₁ xs) = putInto loc e₂ xs
  | [] => by simp [putInto]
  | (k, x) :: xs => by
    by_cases hk : k = loc
    · simp [putInto, hk]
    · simp [putInto, hk, putInto_putInto loc e₁ e₂ xs]

/-- **Of two entries put at one location** the second one stays. -/
@[simp] theorem put_put (d : Directory) (loc : Location) (e₁ e₂ : Entry) :
    (d.put loc e₁).put loc e₂ = d.put loc e₂ :=
  congrArg Directory.mk (putInto_putInto loc e₁ e₂ d.entries)

theorem filter_putInto : ∀ {xs : List (Location × Entry)}, xs.lookup loc = none →
    (putInto loc e xs).filter (fun x => x.1 ≠ loc) = xs
  | [], _ => by simp [putInto]
  | (k, x) :: xs, h => by
    by_cases hk : k = loc
    · simp [hk] at h
    · rw [List.lookup_cons, beq_false_of_ne (Ne.symm hk)] at h
      rw [putInto, if_neg hk, List.filter_cons, if_pos (by simpa using hk), filter_putInto h]

/-- **An entry put where there was nothing**, and taken out again, leaves no trace. -/
theorem unlink_put (h : d.find? loc = none) (e : Entry) : (d.put loc e).unlink loc = d := by
  rw [find?_of_ne_nil d (ne_nil_of_none h)] at h
  exact congrArg Directory.mk (filter_putInto h)

theorem putInto_comm (hne : l₁ ≠ l₂) : ∀ {xs : List (Location × Entry)}, xs.lookup l₁ ≠ none →
    putInto l₂ e₂ (putInto l₁ e₁ xs) = putInto l₁ e₁ (putInto l₂ e₂ xs)
  | [], h => absurd rfl h
  | (k, x) :: xs, h => by
    by_cases h₁ : k = l₁
    · subst h₁
      simp [putInto, hne]
    · by_cases h₂ : k = l₂
      · subst h₂
        simp [putInto, Ne.symm hne]
      · rw [List.lookup_cons, beq_false_of_ne (Ne.symm h₁)] at h
        simp [putInto, h₁, h₂, putInto_comm hne h]

/-- **Entries at two locations may be put in either order**, if one of them is there already. -/
theorem put_comm (hne : l₁ ≠ l₂) (hloc : l₁ ≠ []) (h : d.find? l₁ ≠ none) :
    (d.put l₁ e₁).put l₂ e₂ = (d.put l₂ e₂).put l₁ e₁ := by
  rw [find?_of_ne_nil d hloc] at h
  exact congrArg Directory.mk (putInto_comm hne h)

end Delog.Directory
