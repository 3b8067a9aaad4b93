import Delog.Proofs.Logging.Outermost
import Delog.Proofs.Strip.Outcome
import Delog.Proofs.Tree.Stack

/-!
# Proofs/Logging/Partition — the ranges to remove and all other nodes of a tree

The ranges to remove are those of the outermost logging statements, in pre-order.  In an orderly
tree they are apart, and each node of the tree is around one of them, within exactly one, or apart
from all of them.

* `removals_partition` — which nodes give the ranges, and where all others stand
-/

namespace Delog

open Text

variable {source : Text} {object : String}

namespace Node

/-- **The ranges to remove are those that a visit of the tree comes to** which does not look below a
logging statement. -/
theorem removals_eq_map_visit (root : Node) :
    root.removals source object =
      (visit (isLogging source object) (!isLogging source object ·) [⟨root, [], [], []⟩]).map
        (Site.removal source object) := by
  rw [visit_root, removals_eq_map_outermost]
  rfl

/-- **Every logging statement is one of the outermost ones, or below exactly one of them.** -/
theorem existsUnique_outermostAt {root n : Node} {a : Address} (hn : root.at? a = some n)
    (hlog : n.isLogging source object = true) :
    ∃! x, x ∈ root.outermostAt source object ∧ x.1 <+: a := by
  obtain ⟨x, hx, hxa⟩ := exists_mem_search hn hlog
  exact ⟨x, ⟨hx, hxa⟩, fun y ⟨hy, hya⟩ => eq_of_mem_search hy hx hya hxa⟩

/-- **Every node of an orderly tree** is around an outermost logging statement, is one or is below
exactly one of them, or shares no text with any. -/
theorem Orderly.around_or_within_or_apart {root n : Node} {a : Address} (h : root.Orderly)
    (hn : root.at? a = some n) :
    (∃ x ∈ root.outermostAt source object, a <+: x.1 ∧ a ≠ x.1) ∨
      (∃! x, x ∈ root.outermostAt source object ∧ x.1 <+: a) ∨
      ∀ r ∈ root.removals source object, r.stop ≤ n.span.start ∨ n.span.stop ≤ r.start := by
  by_cases hwithin : ∃ x ∈ root.outermostAt source object, x.1 <+: a
  · obtain ⟨x, hx, hxa⟩ := hwithin
    exact .inr (.inl ⟨x, ⟨hx, hxa⟩, fun y ⟨hy, hya⟩ => eq_of_mem_search hy hx hya hxa⟩)
  by_cases haround : ∃ x ∈ root.outermostAt source object, a <+: x.1
  · obtain ⟨x, hx, hax⟩ := haround
    exact .inl ⟨x, hx, hax, fun hne => hwithin ⟨x, hx, hne ▸ List.prefix_rfl⟩⟩
  · refine .inr (.inr fun r hr => ?_)
    have hspan := List.mem_map_of_mem (f := Removal.span) hr
    rw [map_span_removals, List.mem_map] at hspan
    obtain ⟨⟨b, m⟩, hx, hspan⟩ := hspan
    have hstart : m.span.start = r.start := congrArg Span.start hspan
    have hstop : m.span.stop = r.stop := congrArg Span.stop hspan
    rw [← hstart, ← hstop]
    rcases h.prefix_or_apart (mem_outermostAt.mp hx).1 hn with hba | hab | hapart
    · exact absurd ⟨_, hx, hba⟩ hwithin
    · exact absurd ⟨_, hx, hab⟩ haround
    · exact hapart

/-- **The ranges to remove and the nodes of a tree.**  The spans of the ranges are those of the
logging statements with no logging statement above them, in pre-order and each once.  Of any other
logging statement exactly one of these is above it.  In an orderly tree the ranges are apart, one
after the other, and each node of the tree is around one of them, within exactly one, or shares no
text with any. -/
theorem removals_partition {root : Node} (h : root.Orderly) (source : Text) (object : String) :
    root.removals source object =
        (visit (isLogging source object) (!isLogging source object ·) [⟨root, [], [], []⟩]).map
          (Site.removal source object) ∧
      (root.removals source object).map Removal.span =
        (root.outermostAt source object).map (fun x => x.2.span) ∧
      (∀ a n, (a, n) ∈ root.outermostAt source object ↔
        root.at? a = some n ∧ n.isLogging source object = true ∧
          ∀ b, b <+: a → b ≠ a → ∀ m, root.at? b = some m → m.isLogging source object = false) ∧
      ((root.outermostAt source object).Pairwise fun x y => x.1 < y.1) ∧
      ((root.removals source object).Pairwise fun r t => r.stop ≤ t.start) ∧
      ∀ a n, root.at? a = some n →
        (n.isLogging source object = true →
          ∃! x, x ∈ root.outermostAt source object ∧ x.1 <+: a) ∧
        ((∃ x ∈ root.outermostAt source object, a <+: x.1 ∧ a ≠ x.1) ∨
          (∃! x, x ∈ root.outermostAt source object ∧ x.1 <+: a) ∨
          ∀ r ∈ root.removals source object, r.stop ≤ n.span.start ∨ n.span.stop ≤ r.start) :=
  ⟨removals_eq_map_visit root, map_span_removals root, fun _ _ => mem_outermostAt,
    pairwise_search root, h.pairwise_removals, fun _ _ hn =>
      ⟨existsUnique_outermostAt hn, h.around_or_within_or_apart hn⟩⟩

end Node

/-! ## A tree at hand -/

namespace Sample

/-- A source in which one logging statement is part of another. -/
def nestedSource : Text := "console.log(() => {console.log();});\nb;\n".toList

/-- The tree of the source. -/
def nested : Node :=
  node "program" 0 40 none
    [node "expression_statement" 0 36 none
      [node "call_expression" 0 35 none
        [node "member_expression" 0 11 (some "function")
          [node "identifier" 0 7 (some "object") [],
            node "property_identifier" 8 11 (some "property") []],
          node "arguments" 11 35 (some "arguments")
            [node "arrow_function" 12 34 none [node "statement_block" 18 34 none [logging 19]]]]],
      node "expression_statement" 37 39 none []]

/-- The inner statement at hand is below exactly one outermost one, and the last statement shares no
text with the one range. -/
theorem sample_removals_partition :
    nested.Orderly ∧
      (∃! x, x ∈ nested.outermostAt nestedSource "console" ∧ x.1 <+: [0, 0, 1, 0, 0, 0]) ∧
      nested.removals nestedSource "console" = [⟨0, 36, false⟩] := by
  have horderly : nested.Orderly := by decide
  obtain ⟨-, -, -, -, -, hnodes⟩ := Node.removals_partition horderly nestedSource "console"
  have hinner : nested.at? [0, 0, 1, 0, 0, 0] = some (logging 19) := rfl
  exact ⟨horderly, (hnodes _ _ hinner).1 (by decide), by decide⟩

end Sample

end Delog
