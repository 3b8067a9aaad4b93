import Delog.Proofs.Tree.Address

/-!
# Proofs/Tree/Weed — trees without extra nodes

An extra node, as a comment is one, may stand anywhere and is no part of what stands around it.
Some of the extra nodes may be weeded out of a tree, each with all that is below it.  Whichever
these are, the tree is the same again when all others are weeded out too, and a look-up that no
extra node matches comes to the same child of it.

* `bare_weed` — one tree is left when all extra nodes go, whatever went before
* `find?_bareAll` — a look-up among siblings that is blind to extra nodes
* `exists_eq_weed` — the nodes of a weeded tree are nodes of the tree, weeded themselves
-/

namespace Delog.Node

mutual

/-- **A tree without some of its extra nodes**: those at a chosen address go, with all that is below
them.  Nodes that are not extra stay, whether chosen or not. -/
def weed (chosen : Address → Bool) : Node → Node
  | mk i cs => mk i (weedAll chosen 0 cs)
termination_by structural n => n

/-- Siblings without some of the extra nodes, the first sibling being the child `k`. -/
def weedAll (chosen : Address → Bool) (k : Nat) : List Node → List Node
  | [] => []
  | n :: ns =>
    if n.info.isExtra && chosen [k] then weedAll chosen (k + 1) ns
    else weed (fun a => chosen (k :: a)) n :: weedAll chosen (k + 1) ns
termination_by structural ns => ns

end

@[simp] theorem info_weed (chosen : Address → Bool) (n : Node) : (n.weed chosen).info = n.info := by
  cases n
  rw [weed, info_mk, info_mk]

@[simp] theorem kind_weed (chosen : Address → Bool) (n : Node) : (n.weed chosen).kind = n.kind := by
  rw [kind, info_weed, kind]

@[simp] theorem text_weed (chosen : Address → Bool) (source : Text) (n : Node) :
    (n.weed chosen).text source = n.text source := by
  rw [text, span, info_weed, text, span]

/-- **A tree without any extra nodes**, the root apart. -/
def bare (n : Node) : Node := n.weed fun _ => true

/-- Siblings without any extra nodes. -/
def bareAll (ns : List Node) : List Node := (ns.filter fun n => !n.info.isExtra).map bare

theorem bareAll_cons (n : Node) (ns : List Node) :
    bareAll (n :: ns) = if n.info.isExtra then bareAll ns else n.bare :: bareAll ns := by
  rw [bareAll, bareAll, List.filter_cons]
  cases n.info.isExtra <;> rfl

theorem weedAll_eq_bareAll (k : Nat) (ns : List Node) :
    weedAll (fun _ => true) k ns = bareAll ns := by
  induction ns generalizing k with
  | nil => rfl
  | cons n ns ih => rw [weedAll, ih, bareAll_cons, Bool.and_true, bare]

theorem bare_mk (i : NodeInfo) (cs : List Node) : (mk i cs).bare = mk i (bareAll cs) := by
  rw [bare, weed, weedAll_eq_bareAll]

@[simp] theorem children_bare (n : Node) : n.bare.children = bareAll n.children := by
  cases n
  rw [bare_mk, children_mk, children_mk]

@[simp] theorem info_bare (n : Node) : n.bare.info = n.info := info_weed _ n

@[simp] theorem kind_bare (n : Node) : n.bare.kind = n.kind := kind_weed _ n

@[simp] theorem text_bare (source : Text) (n : Node) : n.bare.text source = n.text source :=
  text_weed _ source n

mutual

/-- **Whatever was weeded out**, the same tree is left when all extra nodes go. -/
theorem bare_weed (chosen : Address → Bool) : ∀ n : Node, (n.weed chosen).bare = n.bare
  | mk i cs => by rw [weed, bare_mk, bare_mk, bareAll_weedAll]
termination_by structural n => n

theorem bareAll_weedAll (chosen : Address → Bool) (k : Nat) :
    ∀ ns : List Node, bareAll (weedAll chosen k ns) = bareAll ns
  | [] => by rw [weedAll]
  | n :: ns => by
    rw [weedAll, bareAll_cons n]
    cases hextra : n.info.isExtra with
    | true =>
      rw [if_pos rfl, Bool.true_and]
      split
      · exact bareAll_weedAll chosen (k + 1) ns
      · rw [bareAll_cons, info_weed, hextra, if_pos rfl, bareAll_weedAll chosen (k + 1) ns]
    | false =>
      rw [Bool.false_and, if_neg Bool.false_ne_true, if_neg Bool.false_ne_true, bareAll_cons,
        info_weed, hextra, if_neg Bool.false_ne_true, bare_weed _ n,
        bareAll_weedAll chosen (k + 1) ns]
termination_by structural ns => ns

end

/-- **A look-up among siblings** that no extra node matches, and by which a node and its bare tree
are alike, comes to the same sibling without them. -/
theorem find?_bareAll {p : Node → Bool} {ns : List Node}
    (hextra : ∀ n ∈ ns, n.info.isExtra = true → p n = false) (hbare : ∀ n ∈ ns, p n.bare = p n) :
    (bareAll ns).find? p = (ns.find? p).map bare := by
  induction ns with
  | nil => rfl
  | cons n ns ih =>
    obtain ⟨hextra, hextras⟩ := List.forall_mem_cons.mp hextra
    obtain ⟨hbare, hbares⟩ := List.forall_mem_cons.mp hbare
    have hrest := ih hextras hbares
    rw [bareAll_cons]
    split
    · rename_i h
      rw [hrest, List.find?_cons_of_neg (by simp [hextra h])]
    · cases hp : p n with
      | true =>
        rw [List.find?_cons_of_pos (hbare.trans hp), List.find?_cons_of_pos hp, Option.map_some]
      | false =>
        rw [List.find?_cons_of_neg (by simp [hbare, hp]), List.find?_cons_of_neg (by simp [hp]),
          hrest]

mutual

/-- **The nodes of a weeded tree are nodes of the tree**, weeded themselves. -/
theorem exists_eq_weed {m : Node} (chosen : Address → Bool) :
    ∀ n : Node, m ∈ (n.weed chosen).preorder →
      ∃ k ∈ n.preorder, ∃ chosen', m = k.weed chosen'
  | mk i cs, hm => by
    rw [weed, preorder, List.mem_cons] at hm
    rcases hm with rfl | hm
    · exact ⟨mk i cs, self_mem_preorder _, chosen, by rw [weed]⟩
    · obtain ⟨k, hk, h⟩ := exists_eq_weedAll chosen 0 cs hm
      exact ⟨k, by rw [preorder]; exact List.mem_cons_of_mem _ hk, h⟩
termination_by structural n => n

theorem exists_eq_weedAll {m : Node} (chosen : Address → Bool) (k : Nat) :
    ∀ ns : List Node, m ∈ preorderAll (weedAll chosen k ns) →
      ∃ n ∈ preorderAll ns, ∃ chosen', m = n.weed chosen'
  | [], hm => by
    rw [weedAll, preorderAll] at hm
    cases hm
  | n :: ns, hm => by
    have hrest : m ∈ preorderAll (weedAll chosen (k + 1) ns) →
        ∃ n' ∈ preorderAll (n :: ns), ∃ chosen', m = n'.weed chosen' := by
      intro hm
      obtain ⟨n', hn', h⟩ := exists_eq_weedAll chosen (k + 1) ns hm
      exact ⟨n', by rw [preorderAll]; exact List.mem_append_right _ hn', h⟩
    rw [weedAll] at hm
    split at hm
    · exact hrest hm
    · rw [preorderAll, List.mem_append] at hm
      rcases hm with hm | hm
      · obtain ⟨n', hn', h⟩ := exists_eq_weed _ n hm
        exact ⟨n', by rw [preorderAll]; exact List.mem_append_left _ hn', h⟩
      · exact hrest hm
termination_by structural ns => ns

end

end Delog.Node
