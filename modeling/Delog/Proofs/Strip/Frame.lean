import Delog.Proofs.Strip.Outcome

/-!
# Proofs/Strip/Frame — stripping takes nothing but the logging statements

The text a source comes to and the source without its outermost logging statements have the same
characters, white space apart, and break their lines between the same characters.  So a comment that
runs to the end of its line ends where it did, and no two statements come to stand on one line.

* `strip_loses_only_logging` — what a modified source is made of
-/

namespace Delog.Stripper

open Text Node Removal

variable {s : Stripper} {source : Text} {name : String} {trees : Trees}

/-- **Only the outermost logging statements go**, and a modified source counts them.  The ranges are
their spans, and the text has the characters and the line breaks of the source without these. -/
theorem strip_loses_only_logging (hroot : trees.source.WellFormed source) {text : Text}
    {count : Nat} (h : s.strip source name trees = .ok (.modified text count)) :
    (trees.source.removals source s.options.loggingObject).map Removal.span =
        (trees.source.outermost source s.options.loggingObject).map (·.node.span) ∧
      count = (trees.source.outermost source s.options.loggingObject).length ∧
      nonblank text = nonblank (trees.source.reduced source s.options.loggingObject) ∧
      breaks text = breaks (trees.source.reduced source s.options.loggingObject) := by
  obtain ⟨hne, hedit, hcount⟩ := of_strip_eq_modified h
  have hranges : trees.source.removals source s.options.loggingObject =
      (trees.source.outermost source s.options.loggingObject).map
        (Site.removal source s.options.loggingObject) := removals_eq_map_outermost trees.source
  obtain ⟨q, -, hq, hskel⟩ :=
    exists_edit hroot.solidIn_of_mem_removals hroot.pairwise_removals hne
  obtain rfl : text = tidy source q := Except.ok.inj (hedit.symm.trans hq)
  have htext : skeleton (tidy source q) =
      skeleton (trees.source.reduced source s.options.loggingObject) :=
    (skeleton_tidy source q).trans hskel
  refine ⟨?_, ?_, nonblank_eq_of_skeleton_eq htext, breaks_eq_of_skeleton_eq htext⟩
  · rw [hranges, List.map_map]
    rfl
  · rw [hcount, hranges, List.length_map]

theorem sample_loses_only_logging :
    (Sample.root.removals Sample.source "console").map Removal.span =
        (Sample.root.outermost Sample.source "console").map (·.node.span) ∧
      2 = (Sample.root.outermost Sample.source "console").length ∧
      nonblank Sample.text = nonblank (Sample.root.reduced Sample.source "console") ∧
      breaks Sample.text = breaks (Sample.root.reduced Sample.source "console") :=
  strip_loses_only_logging (s := .new .default) Sample.wellFormed Sample.strip_eq

example : Sample.root.reduced Sample.source "console" = "if (a) ;\n\n\n\n\nb;\n".toList := by decide

end Delog.Stripper
