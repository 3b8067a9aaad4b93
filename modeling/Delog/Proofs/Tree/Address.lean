import Delog.Proofs.Tree.Site
import Mathlib.Data.List.Lex

/-!
# Proofs/Tree/Address — the addresses of the nodes of a tree

Equal nodes may stand at several places of a tree, even with all that is around them equal, so a
node is told by its address: which child to take at each node on the way from the root.  What is
above a node is at the shorter addresses on this way, and pre-order is the lexicographic order of
addresses.

* `mem_search` — a search comes to the matches that it can reach, whatever their place
* `pairwise_search` — it comes to them in pre-order, to none twice
* `search_congr` — what it goes by, it reads at the nodes of the tree
* `exists_mem_search`, `eq_of_mem_search` — if it stops at its matches, each of the others is below
  exactly one of them
* `map_node_search` — it comes to the matches among the sites of the tree
-/

namespace Delog.Node

/-- **Where a node stands**: which child to take at each node on the way to it. -/
abbrev Address := List Nat

/-- The node at an address. -/
def at? (n : Node) : Address → Option Node
  | [] => some n
  | i :: a => n.children[i]?.bind (·.at? a)

@[simp] theorem at?_nil (n : Node) : n.at? [] = some n := rfl

theorem at?_cons {n m : Node} {i : Nat} {a : Address} :
    n.at? (i :: a) = some m ↔ ∃ c, n.children[i]? = some c ∧ c.at? a = some m :=
  Option.bind_eq_some_iff

/-- **Whether all nodes on the way to an address have `q`**, the node there apart. -/
def AllAbove (q : Node → Bool) (n : Node) (a : Address) : Prop :=
  ∀ b, b <+: a → b ≠ a → ∀ m, n.at? b = some m → q m = true

theorem allAbove_nil {q : Node → Bool} {n : Node} : AllAbove q n [] :=
  fun _ hb hne => absurd (List.prefix_nil.mp hb) hne

theorem allAbove_cons {q : Node → Bool} {n : Node} {i : Nat} {a : Address} :
    AllAbove q n (i :: a) ↔
      q n = true ∧ ∀ c, n.children[i]? = some c → AllAbove q c a := by
  constructor
  · intro h
    refine ⟨h [] List.nil_prefix (List.cons_ne_nil i a).symm n rfl, fun c hc b hb hne m hm => ?_⟩
    exact h (i :: b) ((List.prefix_cons_inj i).mpr hb) (by simpa using hne) m
      (at?_cons.mpr ⟨c, hc, hm⟩)
  · rintro ⟨hn, h⟩ b hb hne m hm
    rcases List.prefix_cons_iff.mp hb with rfl | ⟨b, rfl, hbelow⟩
    · exact Option.some.inj hm ▸ hn
    · obtain ⟨c, hc, hm⟩ := at?_cons.mp hm
      exact h c hc b hbelow (by simpa using hne) m hm

/-! ## Searching -/

variable {p q : Node → Bool}

mutual

/-- **What a search for `p` that looks below nodes with `q` only comes to**, in pre-order. -/
def search (p q : Node → Bool) : Node → List (Address × Node)
  | mk i cs =>
    (if p (mk i cs) then [([], mk i cs)] else []) ++
      if q (mk i cs) then searchAll p q 0 cs else []
termination_by structural n => n

/-- What the search comes to below siblings, the first of them being the child `k`. -/
def searchAll (p q : Node → Bool) (k : Nat) : List Node → List (Address × Node)
  | [] => []
  | n :: ns => (search p q n).map (fun x => (k :: x.1, x.2)) ++ searchAll p q (k + 1) ns
termination_by structural ns => ns

end

theorem mem_searchAll {ns : List Node} {k : Nat} {a : Address} {m : Node} :
    (a, m) ∈ searchAll p q k ns ↔
      ∃ j b, a = (k + j) :: b ∧ ∃ c, ns[j]? = some c ∧ (b, m) ∈ search p q c := by
  induction ns generalizing k with
  | nil => simp [searchAll]
  | cons n ns ih =>
    rw [searchAll, List.mem_append, List.mem_map, ih]
    constructor
    · rintro (⟨⟨b, m⟩, hb, ⟨⟩⟩ | ⟨j, b, rfl, hc⟩)
      · exact ⟨0, b, rfl, n, rfl, hb⟩
      · exact ⟨j + 1, b, by rw [Nat.add_assoc, Nat.add_comm 1 j], hc⟩
    · rintro ⟨_ | j, b, rfl, c, hc, hb⟩
      · obtain rfl : n = c := Option.some.inj hc
        exact .inl ⟨(b, m), hb, rfl⟩
      · exact .inr ⟨j, b, by rw [Nat.add_assoc, Nat.add_comm 1 j], c, hc, hb⟩

theorem mem_search_nil {n m : Node} : ([], m) ∈ n.search p q ↔ n = m ∧ p n = true := by
  obtain ⟨i, cs⟩ := n
  have hbelow : ([], m) ∉ searchAll p q 0 cs := fun h => by
    obtain ⟨j, b, hnil, -⟩ := mem_searchAll.mp h
    cases hnil
  rw [search, List.mem_append, List.mem_ite_nil_right, List.mem_ite_nil_right, List.mem_singleton,
    Prod.mk.injEq]
  constructor
  · rintro (⟨hp, -, rfl⟩ | ⟨-, h⟩)
    · exact ⟨rfl, hp⟩
    · exact absurd h hbelow
  · rintro ⟨rfl, hp⟩
    exact .inl ⟨hp, rfl, rfl⟩

theorem mem_search_cons {n m : Node} {i : Nat} {a : Address} :
    (i :: a, m) ∈ n.search p q ↔
      q n = true ∧ ∃ c, n.children[i]? = some c ∧ (a, m) ∈ c.search p q := by
  obtain ⟨info, cs⟩ := n
  have hbelow : (i :: a, m) ∈ searchAll p q 0 cs ↔
      ∃ c, cs[i]? = some c ∧ (a, m) ∈ c.search p q := by
    rw [mem_searchAll]
    constructor
    · rintro ⟨j, b, heq, hc⟩
      rw [Nat.zero_add, List.cons.injEq] at heq
      obtain ⟨rfl, rfl⟩ := heq
      exact hc
    · exact fun hc => ⟨i, a, by rw [Nat.zero_add], hc⟩
  rw [search, List.mem_append, List.mem_ite_nil_right, List.mem_ite_nil_right, children_mk,
    ← hbelow]
  simp

/-- **A search comes to the matches with nothing but nodes with `q` above them.** -/
theorem mem_search {n m : Node} {a : Address} :
    (a, m) ∈ n.search p q ↔ n.at? a = some m ∧ p m = true ∧ AllAbove q n a := by
  induction a generalizing n with
  | nil =>
    rw [mem_search_nil, at?_nil, Option.some.injEq]
    constructor
    · rintro ⟨rfl, hp⟩
      exact ⟨rfl, hp, allAbove_nil⟩
    · rintro ⟨rfl, hp, -⟩
      exact ⟨rfl, hp⟩
  | cons i a ih =>
    rw [mem_search_cons, at?_cons, allAbove_cons]
    constructor
    · rintro ⟨hq, c, hc, hm⟩
      obtain ⟨hat, hp, habove⟩ := ih.mp hm
      refine ⟨⟨c, hc, hat⟩, hp, hq, fun d hd => ?_⟩
      exact Option.some.inj (hc.symm.trans hd) ▸ habove
    · rintro ⟨⟨c, hc, hat⟩, hp, hq, habove⟩
      exact ⟨hq, c, hc, ih.mpr ⟨hat, hp, habove c hc⟩⟩

mutual

/-- **A search comes to its matches in pre-order**, to none twice. -/
theorem pairwise_search : ∀ n : Node, (n.search p q).Pairwise fun x y => x.1 < y.1
  | mk i cs => by
    rw [search, List.pairwise_append]
    refine ⟨?_, ?_, ?_⟩
    · split <;> simp
    · split
      · exact pairwise_searchAll 0 cs
      · exact .nil
    · rintro x hx ⟨a, m⟩ hy
      rw [List.mem_ite_nil_right, List.mem_singleton] at hx
      rw [List.mem_ite_nil_right] at hy
      obtain ⟨-, rfl⟩ := hx
      obtain ⟨j, b, rfl, -⟩ := mem_searchAll.mp hy.2
      exact List.nil_lt_cons _ _
termination_by structural n => n

theorem pairwise_searchAll (k : Nat) :
    ∀ ns : List Node, (searchAll p q k ns).Pairwise fun x y => x.1 < y.1
  | [] => by
    rw [searchAll]
    exact .nil
  | n :: ns => by
    rw [searchAll, List.pairwise_append, List.pairwise_map]
    refine ⟨?_, pairwise_searchAll (k + 1) ns, ?_⟩
    · exact (pairwise_search n).imp fun h => List.cons_lt_cons_iff.mpr (.inr ⟨rfl, h⟩)
    · rintro x hx ⟨a, m⟩ hy
      obtain ⟨y, -, rfl⟩ := List.mem_map.mp hx
      obtain ⟨j, b, rfl, -⟩ := mem_searchAll.mp hy
      exact List.cons_lt_cons_iff.mpr (.inl (by omega))
termination_by structural ns => ns

end

section Congr

variable {p' q' : Node → Bool}

mutual

/-- **A search goes by what `p` and `q` are at the nodes of the tree.** -/
theorem search_congr : ∀ n : Node, (∀ m ∈ n.preorder, p m = p' m ∧ q m = q' m) →
    n.search p q = n.search p' q'
  | mk i cs, h => by
    rw [preorder, List.forall_mem_cons] at h
    obtain ⟨⟨hp, hq⟩, hbelow⟩ := h
    rw [search, search, hp, hq, searchAll_congr 0 cs hbelow]
termination_by structural n => n

theorem searchAll_congr (k : Nat) :
    ∀ ns : List Node, (∀ m ∈ preorderAll ns, p m = p' m ∧ q m = q' m) →
      searchAll p q k ns = searchAll p' q' k ns
  | [], _ => by rw [searchAll, searchAll]
  | n :: ns, h => by
    rw [preorderAll, List.forall_mem_append] at h
    rw [searchAll, searchAll, search_congr n h.1, searchAll_congr (k + 1) ns h.2]
termination_by structural ns => ns

end

end Congr

/-! ## A search that stops at its matches -/

/-- **It misses none**: each match is found, or is below one that is. -/
theorem exists_mem_search {n m : Node} {a : Address} (hm : n.at? a = some m) (hp : p m = true) :
    ∃ x ∈ n.search p (!p ·), x.1 <+: a := by
  induction a generalizing n with
  | nil =>
    obtain rfl : n = m := Option.some.inj hm
    exact ⟨([], n), mem_search_nil.mpr ⟨rfl, hp⟩, List.nil_prefix⟩
  | cons i a ih =>
    by_cases hn : p n = true
    · exact ⟨([], n), mem_search_nil.mpr ⟨rfl, hn⟩, List.nil_prefix⟩
    · obtain ⟨c, hc, hm⟩ := at?_cons.mp hm
      obtain ⟨⟨b, m'⟩, hx, hb⟩ := ih hm
      exact ⟨(i :: b, m'), mem_search_cons.mpr ⟨by simpa using hn, c, hc, hx⟩,
        (List.prefix_cons_inj i).mpr hb⟩

/-- **It finds nothing below what it found.** -/
theorem eq_of_prefix_of_mem_search {n : Node} {x y : Address × Node}
    (hx : x ∈ n.search p (!p ·)) (hy : y ∈ n.search p (!p ·)) (h : x.1 <+: y.1) : x = y := by
  obtain ⟨hatx, hpx, -⟩ := mem_search.mp hx
  obtain ⟨haty, -, habove⟩ := mem_search.mp hy
  by_cases hne : x.1 = y.1
  · exact Prod.ext hne (Option.some.inj (hatx.symm.trans (hne ▸ haty)))
  · have hfree : (!p x.2) = true := habove x.1 h hne x.2 hatx
    rw [hpx] at hfree
    cases hfree

/-- **What it finds on the way to a node is one match.** -/
theorem eq_of_mem_search {n : Node} {x y : Address × Node} {a : Address}
    (hx : x ∈ n.search p (!p ·)) (hy : y ∈ n.search p (!p ·)) (hxa : x.1 <+: a) (hya : y.1 <+: a) :
    x = y := by
  rcases List.prefix_or_prefix_of_prefix hxa hya with h | h
  · exact eq_of_prefix_of_mem_search hx hy h
  · exact (eq_of_prefix_of_mem_search hy hx h).symm

/-! ## The sites of what is found -/

mutual

theorem map_node_searchAt {above : List Node} (habove : above.all q = true)
    (before after : List Node) :
    ∀ n : Node, (n.search p q).map Prod.snd =
      ((sitesAt above before after n).filter (Site.isFound p q)).map Site.node
  | mk i cs => by
    rw [search, filter_isFound_sitesAt habove, List.map_append, List.map_append]
    congr 1
    · split <;> rfl
    · split
      · rename_i hq
        exact map_node_searchBelow (by rw [List.all_cons, hq, habove, Bool.and_self]) 0 [] cs
      · rfl
termination_by structural n => n

theorem map_node_searchBelow {above : List Node} (habove : above.all q = true) (k : Nat)
    (before : List Node) :
    ∀ ns : List Node, (searchAll p q k ns).map Prod.snd =
      ((sitesBelow above before ns).filter (Site.isFound p q)).map Site.node
  | [] => by rw [searchAll, sitesBelow, List.filter_nil, List.map_nil, List.map_nil]
  | n :: ns => by
    rw [searchAll, sitesBelow, List.map_append, List.map_map, List.filter_append, List.map_append,
      ← map_node_searchAt habove before ns n,
      ← map_node_searchBelow habove (k + 1) (n :: before) ns]
    rfl
termination_by structural ns => ns

end

/-- **What a search comes to**, by the sites of the tree. -/
theorem map_node_search (root : Node) :
    (root.search p q).map Prod.snd = (root.sites.filter (Site.isFound p q)).map Site.node :=
  map_node_searchAt List.all_nil [] [] root

end Delog.Node
