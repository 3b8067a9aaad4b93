import Delog.Proofs.Tree.Site
import Delog.Tree.Fault

/-!
# Proofs/Tree/Fault — which faults of a tree are found

The search for faults goes by the marks of the parser: it looks below marked nodes only, and not
below a node that is a fault itself.  So a fault is found when all nodes above it are marked, and
the marks that a parser sets see to that.

* `faulty_eq_map_filter` — the faults found, by the sites of the tree
* `isSome_firstFault_iff` — when a fault is found at all, whatever the marks
* `isSome_firstFault_of_isMarked` — with the marks of a parser none goes unnoticed
-/

namespace Delog.Node

/-- Whether the search for faults looks below a node. -/
def isSearched (n : Node) : Bool := n.info.hasError && !n.isFaulty

/-- **The marks that a parser sets**: on every node that has a fault below it, and on a root that is
a fault itself.  A fault that is a token may be without one. -/
structure IsMarked (root : Node) : Prop where
  hasError_of_below : ∀ n ∈ root.preorder, ∀ c ∈ n.children, ∀ m ∈ c.preorder,
    m.isFaulty = true → n.info.hasError = true
  hasError_of_isFaulty : root.isFaulty = true → root.info.hasError = true

instance (root : Node) : Decidable root.IsMarked :=
  decidable_of_iff
    ((∀ n ∈ root.preorder, ∀ c ∈ n.children, ∀ m ∈ c.preorder,
        m.isFaulty = true → n.info.hasError = true) ∧
      (root.isFaulty = true → root.info.hasError = true))
    ⟨fun ⟨h₁, h₂⟩ => ⟨h₁, h₂⟩, fun ⟨h₁, h₂⟩ => ⟨h₁, h₂⟩⟩

/-! ## The faults found -/

mutual

private theorem faulty_eq {above : List Node} (habove : above.all isSearched = true)
    (before after : List Node) :
    ∀ n : Node, n.faulty
      = ((sitesAt above before after n).filter (Site.isFound isFaulty isSearched)).map Site.node
  | mk i cs => by
    rw [faulty, filter_isFound_sitesAt habove]
    by_cases hfaulty : (mk i cs).isFaulty = true
    · rw [if_pos hfaulty, if_pos hfaulty, if_neg (by simp [isSearched, hfaulty])]
      rfl
    · rw [if_neg hfaulty, if_neg hfaulty, List.nil_append]
      by_cases hmark : i.hasError = true
      · have hsearched : (mk i cs).isSearched = true := by simp [isSearched, hmark, hfaulty]
        rw [if_pos hmark, if_pos hsearched]
        refine faultyAll_eq ?_ [] cs
        rw [List.all_cons, hsearched, habove, Bool.and_self]
      · rw [if_neg hmark, if_neg (by simp [isSearched, hmark])]
        rfl
termination_by structural n => n

private theorem faultyAll_eq {above : List Node} (habove : above.all isSearched = true)
    (before : List Node) :
    ∀ ns : List Node, faultyAll ns
      = ((sitesBelow above before ns).filter (Site.isFound isFaulty isSearched)).map Site.node
  | [] => by rw [faultyAll, sitesBelow, List.filter_nil, List.map_nil]
  | n :: after => by
    rw [faultyAll, sitesBelow, List.filter_append, List.map_append,
      ← faulty_eq habove before after n, ← faultyAll_eq habove (n :: before) after]
termination_by structural ns => ns

end

/-- **The faults found** are those that have only marked nodes above them, none a fault itself. -/
theorem faulty_eq_map_filter (root : Node) :
    root.faulty = (root.sites.filter (Site.isFound isFaulty isSearched)).map Site.node :=
  faulty_eq List.all_nil [] [] root

theorem isSome_firstFault {source : Text} {root : Node} :
    (root.firstFault source).isSome = true ↔ root.info.hasError = true ∧ root.faulty ≠ [] := by
  rw [firstFault, faults]
  split
  · rename_i hmark
    cases root.faulty <;> simp [hmark]
  · rename_i hmark
    simp [hmark]

/-- **A fault is found when the root and all nodes above some fault are marked.**  Found is that
fault, or the uppermost of those above it. -/
theorem isSome_firstFault_iff {source : Text} {root : Node} :
    (root.firstFault source).isSome = true ↔ root.info.hasError = true ∧
      ∃ x ∈ root.sites, x.node.isFaulty = true ∧ ∀ n ∈ x.ancestors, n.info.hasError = true := by
  rw [isSome_firstFault, faulty_eq_map_filter, ne_eq, List.map_eq_nil_iff, List.filter_eq_nil_iff]
  refine and_congr_right fun _ => ?_
  simp only [Site.isFound, isSearched, Bool.and_eq_true, List.all_eq_true, not_forall, not_not,
    exists_prop]
  constructor
  · rintro ⟨x, hx, hfaulty, habove⟩
    exact ⟨x, hx, hfaulty, fun n hn => (habove n hn).1⟩
  · rintro ⟨x, hx, hfaulty, habove⟩
    obtain ⟨y, hy, hfound, hyx⟩ := exists_isFound_of_mem_sites hx hfaulty
    rw [Site.isFound, Bool.and_eq_true, List.all_eq_true] at hfound
    refine ⟨y, hy, hfound.1, fun n hn => ⟨habove n ?_, hfound.2 n hn⟩⟩
    rcases hyx with rfl | hyx
    · exact hn
    · exact hyx.mem (List.mem_cons_of_mem _ hn)

/-- **All nodes above a fault are marked** in a tree with the marks of a parser. -/
theorem IsMarked.hasError_of_mem_ancestors {root m : Node} (hmarked : root.IsMarked) {x : Site}
    (hx : x ∈ root.sites) (hfaulty : x.node.isFaulty = true) (hm : m ∈ x.ancestors) :
    m.info.hasError = true := by
  obtain ⟨hmem, c, hc, hbelow⟩ := mem_preorder_of_mem_ancestors hx hm
  exact hmarked.hasError_of_below m hmem c hc _ hbelow hfaulty

/-- **No fault goes unnoticed** in a tree with the marks of a parser. -/
theorem isSome_firstFault_of_isMarked {root : Node} (hmarked : root.IsMarked)
    (hfaulty : ∃ n ∈ root.preorder, n.isFaulty = true) (source : Text) :
    (root.firstFault source).isSome = true := by
  obtain ⟨n, hn, hfaulty⟩ := hfaulty
  refine isSome_firstFault_iff.mpr ⟨?_, ?_⟩
  · rcases mem_preorder.mp hn with rfl | ⟨c, hc, hn⟩
    · exact hmarked.hasError_of_isFaulty hfaulty
    · exact hmarked.hasError_of_below root (self_mem_preorder root) c hc n hn hfaulty
  · obtain ⟨x, hx, rfl⟩ := exists_site hn
    exact ⟨x, hx, hfaulty, fun m hm => hmarked.hasError_of_mem_ancestors hx hfaulty hm⟩

/-- **Nothing is found in a tree without faults**, whatever its marks. -/
theorem firstFault_eq_none {root : Node} (hclean : ∀ n ∈ root.preorder, n.isFaulty = false)
    (source : Text) : root.firstFault source = none := by
  rw [← Option.not_isSome_iff_eq_none, isSome_firstFault_iff]
  rintro ⟨-, x, hx, hfaulty, -⟩
  rw [hclean _ (node_mem_preorder hx)] at hfaulty
  cases hfaulty

end Delog.Node
