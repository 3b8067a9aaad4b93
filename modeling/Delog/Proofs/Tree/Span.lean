import Delog.Proofs.Text.Segment
import Delog.Proofs.Tree.Address

/-!
# Proofs/Tree/Span — the spans of a well-formed tree

A parser gives each node a span of the source, around the spans of its children, which follow one
another.  Then two nodes share text only if one of them stands below the other.

* `Orderly.within` — what is below a node lies within its span
* `Orderly.apart` — of two nodes the later one is below the earlier one, or starts after its end
* `Orderly.prefix_or_apart` — so they share text only if one is below the other
* `WellFormed.orderly` — what a parser gives is orderly
-/

namespace Delog.Node

open Text

/-- **What a parser gives of a node**: a span that cuts no character, around the spans of the
children, which are in order and share nothing.  An expression statement has text, without blanks
at its ends. -/
structure IsRegular (source : Text) (n : Node) : Prop where
  start_le_stop : n.span.start ≤ n.span.stop
  isBoundary_start : isBoundary source n.span.start = true
  isBoundary_stop : isBoundary source n.span.stop = true
  nested : ∀ c ∈ n.children, n.span.start ≤ c.span.start ∧ c.span.stop ≤ n.span.stop
  ordered : n.children.Pairwise fun a b => a.span.stop ≤ b.span.start
  isSolid_text : n.kind = "expression_statement" → isSolid (n.text source) = true

instance (source : Text) (n : Node) : Decidable (n.IsRegular source) :=
  decidable_of_iff
    (n.span.start ≤ n.span.stop ∧ isBoundary source n.span.start = true ∧
      isBoundary source n.span.stop = true ∧
      (∀ c ∈ n.children, n.span.start ≤ c.span.start ∧ c.span.stop ≤ n.span.stop) ∧
      (n.children.Pairwise fun a b => a.span.stop ≤ b.span.start) ∧
      (n.kind = "expression_statement" → isSolid (n.text source) = true))
    ⟨fun ⟨h₁, h₂, h₃, h₄, h₅, h₆⟩ => ⟨h₁, h₂, h₃, h₄, h₅, h₆⟩,
      fun ⟨h₁, h₂, h₃, h₄, h₅, h₆⟩ => ⟨h₁, h₂, h₃, h₄, h₅, h₆⟩⟩

/-- **A well-formed tree** of a source: all its nodes are regular. -/
def WellFormed (source : Text) (root : Node) : Prop := ∀ n ∈ root.preorder, n.IsRegular source

instance (source : Text) (root : Node) : Decidable (root.WellFormed source) :=
  inferInstanceAs (Decidable (∀ n ∈ root.preorder, n.IsRegular source))

/-- **A node around its children**, which are in order and share nothing. -/
structure IsOrderly (n : Node) : Prop where
  nested : ∀ c ∈ n.children, n.span.start ≤ c.span.start ∧ c.span.stop ≤ n.span.stop
  ordered : n.children.Pairwise fun a b => a.span.stop ≤ b.span.start

instance (n : Node) : Decidable n.IsOrderly :=
  decidable_of_iff
    ((∀ c ∈ n.children, n.span.start ≤ c.span.start ∧ c.span.stop ≤ n.span.stop) ∧
      n.children.Pairwise fun a b => a.span.stop ≤ b.span.start)
    ⟨fun ⟨h₁, h₂⟩ => ⟨h₁, h₂⟩, fun ⟨h₁, h₂⟩ => ⟨h₁, h₂⟩⟩

/-- **An orderly tree**: all its nodes are around their children.  No source is needed to tell. -/
def Orderly (root : Node) : Prop := ∀ n ∈ root.preorder, n.IsOrderly

instance (root : Node) : Decidable root.Orderly :=
  inferInstanceAs (Decidable (∀ n ∈ root.preorder, n.IsOrderly))

/-- **A well-formed tree is orderly.** -/
theorem WellFormed.orderly {source : Text} {root : Node} (h : root.WellFormed source) :
    root.Orderly := fun n hn => ⟨(h n hn).nested, (h n hn).ordered⟩

namespace Orderly

variable {n x y : Node} {a b : Address}

theorem isOrderly (h : n.Orderly) : n.IsOrderly := h n (self_mem_preorder n)

theorem of_mem_children (h : n.Orderly) {c : Node} (hc : c ∈ n.children) : c.Orderly :=
  fun m hm => h m (mem_preorder.mpr (.inr ⟨c, hc, hm⟩))

/-- **What is below a node lies within its span.** -/
theorem within (h : n.Orderly) (hx : n.at? a = some x) :
    n.span.start ≤ x.span.start ∧ x.span.stop ≤ n.span.stop := by
  induction a generalizing n with
  | nil =>
    obtain rfl : n = x := Option.some.inj hx
    exact ⟨Nat.le_refl _, Nat.le_refl _⟩
  | cons i a ih =>
    obtain ⟨c, hc, hx⟩ := at?_cons.mp hx
    have hmem := List.mem_of_getElem? hc
    have hchild := h.isOrderly.nested c hmem
    have hbelow := ih (h.of_mem_children hmem) hx
    omega

/-- **Of two nodes of a tree** the later one stands below the earlier one, or starts after its end:
where their addresses part, the first is below the earlier child. -/
theorem apart (h : n.Orderly) (hx : n.at? a = some x) (hy : n.at? b = some y) (hlt : a < b) :
    a <+: b ∨ x.span.stop ≤ y.span.start := by
  induction a generalizing n b with
  | nil => exact .inl List.nil_prefix
  | cons i a ih =>
    cases b with
    | nil => exact absurd hlt (List.not_lt_nil _)
    | cons j b =>
      obtain ⟨c, hc, hx⟩ := at?_cons.mp hx
      obtain ⟨d, hd, hy⟩ := at?_cons.mp hy
      rcases List.cons_lt_cons_iff.mp hlt with hij | ⟨rfl, hab⟩
      · have hcd : c.span.stop ≤ d.span.start := by
          obtain ⟨hi, rfl⟩ := List.getElem?_eq_some_iff.mp hc
          obtain ⟨hj, rfl⟩ := List.getElem?_eq_some_iff.mp hd
          exact List.pairwise_iff_getElem.mp h.isOrderly.ordered i j hi hj hij
        have hleft := (h.of_mem_children (List.mem_of_getElem? hc)).within hx
        have hright := (h.of_mem_children (List.mem_of_getElem? hd)).within hy
        right
        omega
      · obtain rfl : c = d := Option.some.inj (hc.symm.trans hd)
        exact (ih (h.of_mem_children (List.mem_of_getElem? hc)) hx hy hab).imp_left
          (List.prefix_cons_inj i).mpr

/-- **Two nodes share text only if one of them stands below the other.** -/
theorem prefix_or_apart (h : n.Orderly) (hx : n.at? a = some x) (hy : n.at? b = some y) :
    a <+: b ∨ b <+: a ∨ x.span.stop ≤ y.span.start ∨ y.span.stop ≤ x.span.start := by
  rcases lt_trichotomy a b with hlt | rfl | hlt
  · exact (h.apart hx hy hlt).imp_right fun hxy => .inr (.inl hxy)
  · exact .inl List.prefix_rfl
  · exact .inr ((h.apart hy hx hlt).imp_right .inr)

/-- **What a search finds that stops at its matches is apart**, one match after the other. -/
theorem pairwise_span_search (h : n.Orderly) (p : Node → Bool) :
    (n.search p (!p ·)).Pairwise fun x y => x.2.span.stop ≤ y.2.span.start := by
  refine pairwise_search n |>.imp_of_mem fun {x y} hx hy hlt => ?_
  refine (h.apart (mem_search.mp hx).1 (mem_search.mp hy).1 hlt).resolve_left fun hprefix => ?_
  rw [eq_of_prefix_of_mem_search hx hy hprefix] at hlt
  exact lt_irrefl _ hlt

end Orderly

end Delog.Node
