import Delog.Proofs.Removal.Balance
import Delog.Proofs.Strip.Outcome

/-!
# Proofs/Strip/Shrink — when stripping makes a source smaller

Each logging statement takes more bytes than what is left in its place, so that a source shrinks by
stripping, unless its runs of line breaks grow by as much as that.

* `size_strip_le` — the balance of a stripped source
* `Shrinks.size_lt` — when a source shrinks
* `shrinks_of_convention` — no run can grow in a source that keeps to one convention
-/

namespace Delog

open Text

namespace Node

/-- **A tree that is sound as far as its logging statements go.**  Its nodes are around their
children, which are in order and share nothing.  A logging statement spans more than a byte, having
a dot and parentheses; it cuts no character and has no blanks at its ends. -/
structure SoundlyLogs (source : Text) (object : String) (root : Node) : Prop where
  orderly : root.Orderly
  wide : ∀ n ∈ root.loggingStatements source object, n.span.start + 2 ≤ n.span.stop
  isBoundary_start : ∀ n ∈ root.loggingStatements source object,
    isBoundary source n.span.start = true
  isBoundary_stop : ∀ n ∈ root.loggingStatements source object, isBoundary source n.span.stop = true
  isSolid_text : ∀ n ∈ root.loggingStatements source object, isSolid (n.text source) = true

/-- A range to remove is that of a logging statement. -/
theorem exists_of_mem_removals {source : Text} {object : String} {root : Node} {r : Removal}
    (hr : r ∈ root.removals source object) :
    ∃ n ∈ root.loggingStatements source object, r.span = n.span := by
  rw [removals_eq_map_outermost, List.mem_map] at hr
  obtain ⟨x, hx, rfl⟩ := hr
  obtain ⟨hsite, hlog, -⟩ := mem_outermost.mp hx
  exact ⟨x.node, List.mem_filter.mpr ⟨node_mem_preorder hsite, hlog⟩, rfl⟩

namespace SoundlyLogs

variable {source : Text} {object : String} {root : Node} (h : root.SoundlyLogs source object)
include h

theorem wide_of_mem_removals : ∀ r ∈ root.removals source object, r.start + 2 ≤ r.stop := by
  intro r hr
  obtain ⟨n, hn, hspan⟩ := exists_of_mem_removals hr
  obtain ⟨hstart, hstop⟩ := Span.mk.inj hspan
  rw [hstart, hstop]
  exact h.wide n hn

/-- The ranges to remove are solid. -/
theorem solidIn_of_mem_removals : ∀ r ∈ root.removals source object, r.SolidIn source := by
  intro r hr
  have hwide := h.wide_of_mem_removals r hr
  obtain ⟨n, hn, hspan⟩ := exists_of_mem_removals hr
  obtain ⟨hstart, hstop⟩ := Span.mk.inj hspan
  exact {
    start_le_stop := by omega
    isBoundary_start := hstart ▸ h.isBoundary_start n hn
    isBoundary_stop := hstop ▸ h.isBoundary_stop n hn
    isSolid_slice := by
      rw [hspan]
      exact h.isSolid_text n hn }

end SoundlyLogs

end Node

namespace Stripper

variable {s : Stripper} {source : Text} {name : String} {trees : Trees} {root : Node}

/-- How many bytes removing the logging statements of a source saves. -/
def saves (s : Stripper) (source : Text) (root : Node) : Nat :=
  Removal.savedBy (root.removals source s.options.loggingObject)

/-- By how many bytes tidying stretches a source without its logging statements. -/
def stretches (s : Stripper) (source : Text) (root : Node) : Nat :=
  Removal.stretch source (root.removals source s.options.loggingObject)

/-- **A source that shrinks when it is stripped**: tidying does not stretch it by as much as
removing its logging statements saves. -/
structure Shrinks (s : Stripper) (source : Text) (root : Node) : Prop where
  soundlyLogs : root.SoundlyLogs source s.options.loggingObject
  stretches_lt : root.removals source s.options.loggingObject ≠ [] →
    s.stretches source root < s.saves source root

/-- **The balance of a stripped source.** -/
theorem size_strip_le (h : trees.source.SoundlyLogs source s.options.loggingObject) {text : Text}
    {count : Nat} (hstrip : s.strip source name trees = .ok (.modified text count)) :
    size text + s.saves source trees.source ≤ size source + s.stretches source trees.source := by
  obtain ⟨hne, hedit, -⟩ := of_strip_eq_modified hstrip
  exact Removal.size_edit_le h.solidIn_of_mem_removals h.orderly.pairwise_removals hne hedit

/-- **A source that shrinks** is longer than what it is stripped to. -/
theorem Shrinks.size_lt (h : s.Shrinks source trees.source) {text : Text} {count : Nat}
    (hstrip : s.strip source name trees = .ok (.modified text count)) :
    size text < size source := by
  have hbalance := size_strip_le h.soundlyLogs hstrip
  have hlt := h.stretches_lt (of_strip_eq_modified hstrip).1
  omega

/-- **A source in one convention shrinks**: its first line break is a bare newline, or it has none,
or all its line breaks are `\r\n`. -/
theorem shrinks_of_convention (h : root.SoundlyLogs source s.options.loggingObject)
    (hconvention : LineEnding.detect source = .lf ∨ KeepsToCrlf source) :
    s.Shrinks source root where
  soundlyLogs := h
  stretches_lt hne := by
    have hzero := Removal.stretch_eq_zero h.solidIn_of_mem_removals h.orderly.pairwise_removals
      hconvention
    rw [stretches, hzero]
    exact Removal.savedBy_pos hne h.wide_of_mem_removals

end Stripper

end Delog
