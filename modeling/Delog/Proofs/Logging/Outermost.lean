import Delog.Logging.Collect
import Delog.Proofs.Removal.Excise
import Delog.Proofs.Tree.Span

/-!
# Proofs/Logging/Outermost — the ranges to remove are those of the outermost logging statements

A logging statement is outermost when it is not part of another one.  Each of these gives one range,
and the others go with the statement they are part of.

* `removals_eq_map_outermost` — the ranges are the spans of the outermost logging statements
* `removals_eq_nil_iff` — there is nothing to remove just when nothing logs
* `solidIn_of_mem_removals`, `pairwise_removals` — the ranges are solid, and follow one another
-/

namespace Delog

open Text

variable {source : Text} {object : String}

/-- Whether an empty statement takes the place of a logging statement. -/
def Site.needsPlaceholder (source : Text) (object : String) (x : Site) : Bool :=
  match x.ancestors with
  | [] => true
  | parent :: _ => Node.needsPlaceholder source object parent.kind x.before x.after

/-- The range that a logging statement gives. -/
def Site.removal (source : Text) (object : String) (x : Site) : Removal where
  start := x.node.span.start
  stop := x.node.span.stop
  placeholder := x.needsPlaceholder source object

namespace Node

/-- **The outermost logging statements** of a tree: those that are not part of another one. -/
def outermost (source : Text) (object : String) (root : Node) : List Site :=
  root.sites.filter (Site.isFound (isLogging source object) (!isLogging source object ·))

/-- **The source without its outermost logging statements**: their spans are cut out, or a `;` takes
their place. -/
def reduced (source : Text) (object : String) (root : Node) : Text :=
  Removal.without 0 source (root.removals source object)

theorem mem_outermost {root : Node} {x : Site} :
    x ∈ root.outermost source object ↔
      x ∈ root.sites ∧ x.node.isLogging source object = true ∧
        ∀ n ∈ x.ancestors, n.isLogging source object = false := by
  simp [outermost, Site.isFound]

/-! ## What is collected -/

mutual

private theorem collect_eq {above : List Node}
    (habove : above.all (!isLogging source object ·) = true) (before after : List Node) :
    ∀ n : Node,
      collect source object (Site.needsPlaceholder source object ⟨n, above, before, after⟩) n
      = ((sitesAt above before after n).filter
          (Site.isFound (isLogging source object) (!isLogging source object ·))).map
            (Site.removal source object)
  | mk i cs => by
    rw [collect, filter_isFound_sitesAt habove]
    by_cases hlog : isLogging source object (mk i cs) = true
    · simp only [hlog, if_pos, Bool.not_true, Bool.false_eq_true, if_false, List.append_nil]
      rfl
    · have hall : (mk i cs :: above).all (!isLogging source object ·) = true := by
        rw [List.all_cons, habove, Bool.and_true]
        simpa using hlog
      rw [if_neg hlog, if_neg hlog, List.nil_append, if_pos (by simpa using hlog)]
      exact collectAll_eq hall [] cs
termination_by structural n => n

private theorem collectAll_eq {parent : Node} {above : List Node}
    (habove : (parent :: above).all (!isLogging source object ·) = true) (before : List Node) :
    ∀ ns : List Node, collectAll source object parent.kind before ns
      = ((sitesBelow (parent :: above) before ns).filter
          (Site.isFound (isLogging source object) (!isLogging source object ·))).map
            (Site.removal source object)
  | [] => by rw [collectAll, sitesBelow, List.filter_nil, List.map_nil]
  | n :: after => by
    rw [collectAll, sitesBelow, List.filter_append, List.map_append,
      ← collect_eq habove before after n, ← collectAll_eq habove (n :: before) after]
    rfl
termination_by structural ns => ns

end

/-- **The ranges to remove are those of the outermost logging statements**, in order. -/
theorem removals_eq_map_outermost (root : Node) :
    root.removals source object = (root.outermost source object).map (Site.removal source object) :=
  collect_eq List.all_nil [] [] root

/-- **The outermost logging statements**, each with its address. -/
def outermostAt (source : Text) (object : String) (root : Node) : List (Address × Node) :=
  root.search (isLogging source object) (!isLogging source object ·)

theorem mem_outermostAt {root n : Node} {a : Address} :
    (a, n) ∈ root.outermostAt source object ↔
      root.at? a = some n ∧ n.isLogging source object = true ∧
        ∀ b, b <+: a → b ≠ a → ∀ m, root.at? b = some m → m.isLogging source object = false := by
  simp [outermostAt, mem_search, AllAbove]

/-- **The spans of the ranges are those of the outermost logging statements**, in order. -/
theorem map_span_removals (root : Node) :
    (root.removals source object).map Removal.span =
      (root.outermostAt source object).map fun x => x.2.span := by
  have hnode := congrArg (List.map span)
    (map_node_search (p := isLogging source object) (q := (!isLogging source object ·)) root)
  rw [List.map_map, List.map_map] at hnode
  rw [removals_eq_map_outermost, List.map_map]
  exact hnode.symm

/-- **There is nothing to remove just when nothing logs.** -/
theorem removals_eq_nil_iff {root : Node} :
    root.removals source object = [] ↔ root.loggingStatements source object = [] := by
  rw [removals_eq_map_outermost, List.map_eq_nil_iff, loggingStatements, List.filter_eq_nil_iff]
  constructor
  · intro hnone n hn hlog
    obtain ⟨x, hx, rfl⟩ := exists_site hn
    obtain ⟨y, hy, hfound, -⟩ := exists_isFound_of_mem_sites hx hlog
    exact List.filter_eq_nil_iff.mp hnone y hy hfound
  · intro hnone
    refine List.eq_nil_iff_forall_not_mem.mpr fun x hx => ?_
    obtain ⟨hsite, hlog, -⟩ := mem_outermost.mp hx
    exact hnone _ (node_mem_preorder hsite) hlog

/-! ## The ranges of a well-formed tree -/

theorem kind_of_isLogging {n : Node} (h : n.isLogging source object = true) :
    n.kind = "expression_statement" := by
  rw [isLogging, Bool.and_eq_true, beq_iff_eq] at h
  exact h.1

/-- **The ranges to remove from an orderly tree follow one another.** -/
theorem Orderly.pairwise_removals {root : Node} (h : root.Orderly) :
    (root.removals source object).Pairwise fun a b => a.stop ≤ b.start := by
  have hspans : ((root.removals source object).map Removal.span).Pairwise
      fun a b => a.stop ≤ b.start := by
    rw [map_span_removals, List.pairwise_map]
    exact h.pairwise_span_search _
  exact List.pairwise_map.mp hspans

namespace WellFormed

variable {root : Node} (h : root.WellFormed source)
include h

/-- **The ranges to remove are solid.** -/
theorem solidIn_of_mem_removals : ∀ r ∈ root.removals source object, r.SolidIn source := by
  intro r hr
  rw [removals_eq_map_outermost, List.mem_map] at hr
  obtain ⟨x, hx, rfl⟩ := hr
  obtain ⟨hsite, hlog, -⟩ := mem_outermost.mp hx
  have hreg := h _ (node_mem_preorder hsite)
  exact {
    start_le_stop := hreg.start_le_stop
    isBoundary_start := hreg.isBoundary_start
    isBoundary_stop := hreg.isBoundary_stop
    isSolid_slice := hreg.isSolid_text (kind_of_isLogging hlog) }

/-- **The ranges to remove follow one another.** -/
theorem pairwise_removals :
    (root.removals source object).Pairwise fun a b => a.stop ≤ b.start :=
  h.orderly.pairwise_removals

end WellFormed

end Node

end Delog
