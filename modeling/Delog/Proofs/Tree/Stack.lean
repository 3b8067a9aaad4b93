import Delog.Proofs.Tree.Site

/-!
# Proofs/Tree/Stack — searching with a stack

A search need not follow the recursion of the tree.  It may keep the sites that it has still to see
on a stack, and put the children of a node on top of the others.  It comes to the same sites, in the
same order.

* `visit_root` — what a visit from the root comes to
-/

namespace Delog

/-- The sites of siblings with known surroundings; those before the first are known. -/
def siblings (above before : List Node) : List Node → List Site
  | [] => []
  | n :: after => ⟨n, above, before, after⟩ :: siblings above (n :: before) after

/-- **The sites of the children** of a node. -/
def Site.below (x : Site) : List Site := siblings (x.node :: x.ancestors) [] x.node.children

/-- The number of nodes at and below the sites on a stack. -/
def unvisited : List Site → Nat
  | [] => 0
  | x :: stack => x.node.preorder.length + unvisited stack

theorem unvisited_append (left right : List Site) :
    unvisited (left ++ right) = unvisited left + unvisited right := by
  induction left with
  | nil => rw [List.nil_append, unvisited, Nat.zero_add]
  | cons x left ih => rw [List.cons_append, unvisited, unvisited, ih, Nat.add_assoc]

theorem unvisited_siblings (above before ns : List Node) :
    unvisited (siblings above before ns) = (Node.preorderAll ns).length := by
  induction ns generalizing before with
  | nil => rfl
  | cons n after ih => rw [siblings, unvisited, ih, Node.preorderAll, List.length_append]

theorem unvisited_below (x : Site) : unvisited x.below + 1 = x.node.preorder.length := by
  obtain ⟨⟨i, cs⟩, above, before, after⟩ := x
  rw [Site.below, unvisited_siblings, Node.preorder, List.length_cons]
  rfl

namespace Node

variable {p q : Node → Bool}

/-- **A visit that reports nodes with `p` and looks below nodes with `q` only**: it takes the first
site off the stack, and puts those of the children on top of the others. -/
def visit (p q : Node → Bool) : List Site → List Site
  | [] => []
  | x :: stack =>
    (if p x.node then [x] else []) ++
      if q x.node then visit p q (x.below ++ stack) else visit p q stack
termination_by stack => unvisited stack
decreasing_by
  all_goals
    have := unvisited_below x
    simp only [unvisited_append, unvisited]
    omega

theorem flatMap_siblings {above : List Node} (before ns : List Node) :
    ((siblings above before ns).flatMap fun x => sitesAt x.ancestors x.before x.after x.node) =
      sitesBelow above before ns := by
  induction ns generalizing before with
  | nil => rfl
  | cons n after ih => rw [siblings, List.flatMap_cons, ih, sitesBelow]

theorem ancestors_of_mem_siblings {above before ns : List Node} {x : Site}
    (hx : x ∈ siblings above before ns) : x.ancestors = above := by
  induction ns generalizing before with
  | nil => exact absurd hx List.not_mem_nil
  | cons n after ih =>
    rcases List.mem_cons.mp hx with rfl | hx
    · rfl
    · exact ih hx

/-- **What a visit comes to from a stack**: what a search comes to from each of the sites on it, one
after the other. -/
theorem visit_eq {stack : List Site} (h : ∀ x ∈ stack, x.ancestors.all q = true) :
    visit p q stack = (stack.flatMap fun x => sitesAt x.ancestors x.before x.after x.node).filter
      (Site.isFound p q) := by
  fun_induction visit p q stack with
  | case1 => rfl
  | case2 x stack ihbelow ih =>
    obtain ⟨⟨i, cs⟩, above, before, after⟩ := x
    obtain ⟨habove, hstack⟩ := List.forall_mem_cons.mp h
    rw [List.flatMap_cons, List.filter_append, filter_isFound_sitesAt habove, List.append_assoc]
    refine congrArg₂ (· ++ ·) rfl ?_
    by_cases hq : q (mk i cs) = true
    · have hall : (mk i cs :: above).all q = true := by
        rw [List.all_cons, hq, habove, Bool.and_self]
      have hbelow : ∀ y ∈ Site.below ⟨mk i cs, above, before, after⟩ ++ stack,
          y.ancestors.all q = true := by
        intro y hy
        rcases List.mem_append.mp hy with hy | hy
        · rw [ancestors_of_mem_siblings hy]
          exact hall
        · exact hstack y hy
      rw [if_pos hq, if_pos hq, ihbelow hbelow, List.flatMap_append, List.filter_append, Site.below,
        flatMap_siblings]
      rfl
    · rw [if_neg hq, if_neg hq, ih hstack, List.nil_append]

/-- **What a visit from the root comes to.** -/
theorem visit_root (root : Node) :
    visit p q [⟨root, [], [], []⟩] = root.sites.filter (Site.isFound p q) := by
  rw [visit_eq (by simp), List.flatMap_singleton]
  rfl

end Node

end Delog
