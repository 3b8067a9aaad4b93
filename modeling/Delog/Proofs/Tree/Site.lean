import Delog.Tree.Node
import Mathlib.Data.List.Basic

/-!
# Proofs/Tree/Site — the sites of a tree, and searching them

A node of a tree is told from its equals by where it stands: below which nodes, and between which
siblings.  A search that looks below some nodes only comes to the matches that have nothing but such
nodes above them.

* `map_node_sites` — the sites are the pre-order, with what is around each node
* `children_eq_of_mem_sites` — the siblings of a node are the other children of its parent
* `filter_isFound_sitesAt` — what a search finds, by the recursion of the tree
* `exists_isFound_of_mem_sites` — a search that stops at its matches misses none
-/

namespace Delog

/-- **A node where it stands in a tree.** -/
structure Site where
  node : Node
  /-- The nodes above it, from its parent to the root. -/
  ancestors : List Node
  /-- The siblings before it, from near to far. -/
  before : List Node
  /-- The siblings after it, from near to far. -/
  after : List Node

/-- The node right above it. -/
def Site.parent? (x : Site) : Option Node := x.ancestors.head?

/-- Whether a search for `p` that looks below nodes with `q` only comes to the site. -/
def Site.isFound (p q : Node → Bool) (x : Site) : Bool := p x.node && x.ancestors.all q

namespace Node

/-- **What holds of a node whenever it holds of its children holds of every node.** -/
theorem induction {P : Node → Prop} (h : ∀ n, (∀ c ∈ n.children, P c) → P n) : ∀ n, P n
  | mk i cs => h (mk i cs) fun c hc =>
    have : sizeOf c < sizeOf (mk i cs) := by
      have := List.sizeOf_lt_of_mem (show c ∈ cs from hc)
      simp only [mk.sizeOf_spec]
      omega
    induction h c
termination_by n => sizeOf n

/-- What is below a node that is below another one is below that one. -/
theorem mem_preorder_trans {n m k : Node} (hm : m ∈ n.preorder) (hk : k ∈ m.preorder) :
    k ∈ n.preorder := by
  induction n using induction with
  | h n ih =>
    rcases mem_preorder.mp hm with rfl | ⟨c, hc, hm⟩
    · exact hk
    · exact mem_preorder.mpr (.inr ⟨c, hc, ih c hc hm⟩)

mutual

/-- The sites of a node with known surroundings and of all nodes below it, in pre-order. -/
def sitesAt (above before after : List Node) : Node → List Site
  | mk i cs => ⟨mk i cs, above, before, after⟩ :: sitesBelow (mk i cs :: above) [] cs
termination_by structural n => n

/-- The sites of siblings and of all nodes below them; those before the first are known. -/
def sitesBelow (above before : List Node) : List Node → List Site
  | [] => []
  | n :: after => sitesAt above before after n ++ sitesBelow above (n :: before) after
termination_by structural ns => ns

end

/-- **The sites of a tree**, in pre-order. -/
def sites (root : Node) : List Site := sitesAt [] [] [] root

/-! ## Sites and nodes -/

mutual

theorem map_node_sitesAt (above before after : List Node) :
    ∀ n, (sitesAt above before after n).map Site.node = n.preorder
  | mk i cs => by
    rw [sitesAt, List.map_cons, map_node_sitesBelow, preorder]
termination_by structural n => n

theorem map_node_sitesBelow (above before : List Node) :
    ∀ ns, (sitesBelow above before ns).map Site.node = preorderAll ns
  | [] => by rw [sitesBelow, preorderAll, List.map_nil]
  | n :: after => by
    rw [sitesBelow, List.map_append, map_node_sitesAt, map_node_sitesBelow, preorderAll]
termination_by structural ns => ns

end

/-- **The sites are those of the nodes in pre-order.** -/
theorem map_node_sites (root : Node) : root.sites.map Site.node = root.preorder :=
  map_node_sitesAt [] [] [] root

theorem node_mem_preorder {root : Node} {x : Site} (hx : x ∈ root.sites) :
    x.node ∈ root.preorder := by
  rw [← map_node_sites]
  exact List.mem_map_of_mem hx

/-- Every node of a tree has a site. -/
theorem exists_site {root n : Node} (hn : n ∈ root.preorder) : ∃ x ∈ root.sites, x.node = n := by
  rw [← map_node_sites] at hn
  exact List.mem_map.mp hn

mutual

/-- What is above a node is above all that is below it. -/
theorem isSuffix_ancestors_of_mem_sitesAt {above before after : List Node} :
    ∀ n, ∀ x ∈ sitesAt above before after n, above <:+ x.ancestors
  | mk i cs, x, hx => by
    rw [sitesAt, List.mem_cons] at hx
    rcases hx with rfl | hx
    · exact List.suffix_rfl
    · exact (List.suffix_cons _ _).trans (isSuffix_ancestors_of_mem_sitesBelow cs x hx)
termination_by structural n => n

theorem isSuffix_ancestors_of_mem_sitesBelow {above before : List Node} :
    ∀ ns, ∀ x ∈ sitesBelow above before ns, above <:+ x.ancestors
  | [], _, hx => by simp [sitesBelow] at hx
  | n :: after, x, hx => by
    rw [sitesBelow, List.mem_append] at hx
    rcases hx with hx | hx
    · exact isSuffix_ancestors_of_mem_sitesAt n x hx
    · exact isSuffix_ancestors_of_mem_sitesBelow after x hx
termination_by structural ns => ns

end

mutual

/-- The node of a site stands below each of its ancestors within the tree. -/
theorem mem_preorder_of_mem_ancestors_sitesAt {above before after : List Node} :
    ∀ n, ∀ x ∈ sitesAt above before after n, ∀ m ∈ x.ancestors,
      m ∈ above ∨ m ∈ n.preorder ∧ ∃ c ∈ m.children, x.node ∈ c.preorder
  | mk i cs, x, hx, m, hm => by
    rw [sitesAt, List.mem_cons] at hx
    rcases hx with rfl | hx
    · exact .inl hm
    · rcases mem_preorder_of_mem_ancestors_sitesBelow cs x hx m hm with h | ⟨c, hc, hbelow⟩
      · rcases List.mem_cons.mp h with rfl | h
        · refine .inr ⟨self_mem_preorder _, ?_⟩
          have hx := List.mem_map_of_mem (f := Site.node) hx
          rw [map_node_sitesBelow, preorderAll_eq_flatMap, List.mem_flatMap] at hx
          exact hx
        · exact .inl h
      · exact .inr ⟨mem_preorder.mpr (.inr ⟨c, hc, hbelow.1⟩), hbelow.2⟩
termination_by structural n => n

theorem mem_preorder_of_mem_ancestors_sitesBelow {above before : List Node} :
    ∀ ns, ∀ x ∈ sitesBelow above before ns, ∀ m ∈ x.ancestors,
      m ∈ above ∨ ∃ n ∈ ns, m ∈ n.preorder ∧ ∃ c ∈ m.children, x.node ∈ c.preorder
  | [], _, hx, _, _ => by simp [sitesBelow] at hx
  | n :: after, x, hx, m, hm => by
    rw [sitesBelow, List.mem_append] at hx
    rcases hx with hx | hx
    · exact (mem_preorder_of_mem_ancestors_sitesAt n x hx m hm).imp_right fun h =>
        ⟨n, List.mem_cons_self, h⟩
    · exact (mem_preorder_of_mem_ancestors_sitesBelow after x hx m hm).imp_right
        fun ⟨n', hn', h⟩ => ⟨n', List.mem_cons_of_mem _ hn', h⟩
termination_by structural ns => ns

end

/-- **An ancestor is a node of the tree**, and has the node below one of its children. -/
theorem mem_preorder_of_mem_ancestors {root m : Node} {x : Site} (hx : x ∈ root.sites)
    (hm : m ∈ x.ancestors) : m ∈ root.preorder ∧ ∃ c ∈ m.children, x.node ∈ c.preorder :=
  (mem_preorder_of_mem_ancestors_sitesAt root x hx m hm).resolve_left List.not_mem_nil

mutual

/-- A node stands among the children of its parent. -/
theorem children_eq_of_mem_sitesAt {above before after : List Node} :
    ∀ n, (∀ parent ∈ above.head?, parent.children = before.reverse ++ n :: after) →
      ∀ x ∈ sitesAt above before after n, ∀ parent ∈ x.ancestors.head?,
        parent.children = x.before.reverse ++ x.node :: x.after
  | mk i cs, habove, x, hx => by
    rw [sitesAt, List.mem_cons] at hx
    rcases hx with rfl | hx
    · exact habove
    · exact children_eq_of_mem_sitesBelow cs rfl x hx
termination_by structural n => n

theorem children_eq_of_mem_sitesBelow {parent : Node} {above before : List Node} :
    ∀ ns, parent.children = before.reverse ++ ns →
      ∀ x ∈ sitesBelow (parent :: above) before ns, ∀ p ∈ x.ancestors.head?,
        p.children = x.before.reverse ++ x.node :: x.after
  | [], _, _, hx => by simp [sitesBelow] at hx
  | n :: after, hchildren, x, hx => by
    rw [sitesBelow, List.mem_append] at hx
    rcases hx with hx | hx
    · refine children_eq_of_mem_sitesAt n (fun p hp => ?_) x hx
      rw [← Option.some.inj hp, hchildren]
    · refine children_eq_of_mem_sitesBelow after ?_ x hx
      rw [hchildren, List.reverse_cons, List.append_assoc, List.singleton_append]
termination_by structural ns => ns

end

/-- **The siblings of a node are the other children of its parent.** -/
theorem children_eq_of_mem_sites {root parent : Node} {x : Site} (hx : x ∈ root.sites)
    (hparent : x.parent? = some parent) :
    parent.children = x.before.reverse ++ x.node :: x.after :=
  children_eq_of_mem_sitesAt root (fun _ h => absurd h (Option.not_mem_none _)) x hx parent hparent

/-- A node with siblings has a parent. -/
theorem exists_parent_of_mem_sites {root : Node} {x : Site} (hx : x ∈ root.sites)
    (hbefore : x.before ≠ []) : ∃ parent, x.parent? = some parent := by
  obtain ⟨i, cs⟩ := root
  rw [sites, sitesAt, List.mem_cons] at hx
  rcases hx with rfl | hx
  · exact absurd rfl hbefore
  · have hsuffix := isSuffix_ancestors_of_mem_sitesBelow cs x hx
    exact ⟨_, List.head?_eq_some_head (hsuffix.ne_nil (List.cons_ne_nil _ _))⟩

/-! ## Searching -/

variable {p q : Node → Bool}

/-- **What a search finds from a node downwards**: the node if it matches, and what it finds below
it if it looks there. -/
theorem filter_isFound_sitesAt {above : List Node} (habove : above.all q = true)
    (before after : List Node) (i : NodeInfo) (cs : List Node) :
    (sitesAt above before after (mk i cs)).filter (Site.isFound p q) =
      (if p (mk i cs) then [⟨mk i cs, above, before, after⟩] else []) ++
        if q (mk i cs) then (sitesBelow (mk i cs :: above) [] cs).filter (Site.isFound p q)
        else [] := by
  have hbelow : q (mk i cs) = false →
      (sitesBelow (mk i cs :: above) [] cs).filter (Site.isFound p q) = [] := by
    intro hq
    rw [List.filter_eq_nil_iff]
    intro x hx hfound
    simp only [Site.isFound, Bool.and_eq_true, List.all_eq_true] at hfound
    have := hfound.2 _ ((isSuffix_ancestors_of_mem_sitesBelow cs x hx).mem List.mem_cons_self)
    simp [hq] at this
  have hself : Site.isFound p q ⟨mk i cs, above, before, after⟩ = p (mk i cs) := by
    rw [Site.isFound, habove, Bool.and_true]
  rw [sitesAt, List.filter_cons, hself]
  by_cases hq : q (mk i cs) = true
  · rw [if_pos hq]
    split <;> rfl
  · rw [hbelow (by simpa using hq), if_neg hq]
    split <;> rfl

mutual

private theorem exists_isFound_sitesAt {above before after : List Node}
    (habove : above.all (!p ·) = true) :
    ∀ n, ∀ x ∈ sitesAt above before after n, p x.node = true →
      ∃ y ∈ sitesAt above before after n,
        y.isFound p (!p ·) = true ∧ (y = x ∨ y.node :: y.ancestors <:+ x.ancestors)
  | mk i cs, x, hx, hp => by
    rw [sitesAt] at hx ⊢
    by_cases hn : p (mk i cs) = true
    · refine ⟨_, List.mem_cons_self, by rw [Site.isFound, hn, habove, Bool.and_self], ?_⟩
      rcases List.mem_cons.mp hx with rfl | hx
      · exact .inl rfl
      · exact .inr (isSuffix_ancestors_of_mem_sitesBelow cs x hx)
    · rcases List.mem_cons.mp hx with rfl | hx
      · exact absurd hp hn
      · have hall : (mk i cs :: above).all (!p ·) = true := by
          rw [List.all_cons, habove, Bool.and_true]
          simpa using hn
        obtain ⟨y, hy, hfound⟩ := exists_isFound_sitesBelow hall cs x hx hp
        exact ⟨y, List.mem_cons_of_mem _ hy, hfound⟩
termination_by structural n => n

private theorem exists_isFound_sitesBelow {above before : List Node}
    (habove : above.all (!p ·) = true) :
    ∀ ns, ∀ x ∈ sitesBelow above before ns, p x.node = true →
      ∃ y ∈ sitesBelow above before ns,
        y.isFound p (!p ·) = true ∧ (y = x ∨ y.node :: y.ancestors <:+ x.ancestors)
  | [], _, hx, _ => by simp [sitesBelow] at hx
  | n :: after, x, hx, hp => by
    rw [sitesBelow, List.mem_append] at hx
    simp only [sitesBelow, List.mem_append]
    rcases hx with hx | hx
    · obtain ⟨y, hy, hfound⟩ := exists_isFound_sitesAt habove n x hx hp
      exact ⟨y, .inl hy, hfound⟩
    · obtain ⟨y, hy, hfound⟩ := exists_isFound_sitesBelow habove after x hx hp
      exact ⟨y, .inr hy, hfound⟩
termination_by structural ns => ns

end

/-- **A search that stops at its matches misses none**: each match is found, or is below one that
is. -/
theorem exists_isFound_of_mem_sites {root : Node} {x : Site} (hx : x ∈ root.sites)
    (hp : p x.node = true) :
    ∃ y ∈ root.sites, y.isFound p (!p ·) = true ∧ (y = x ∨ y.node :: y.ancestors <:+ x.ancestors) :=
  exists_isFound_sitesAt List.all_nil root x hx hp

end Node

end Delog
