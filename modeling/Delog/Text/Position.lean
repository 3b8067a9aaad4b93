import Delog.Text.Line

/-!
# Text/Position — the line and column of an offset

Lines are counted from one by the newlines before the offset, columns from one by the characters
since the last of them.
-/

namespace Delog

/-- **A place in a text**, as people are told of it. -/
structure Position where
  line : Nat
  column : Nat
deriving DecidableEq, Repr

namespace Text

/-- **The line and column of a byte offset.** -/
def position (s : Text) (offset : Nat) : Position :=
  let before := takeBytes offset s
  ⟨before.count '\n' + 1, (lastLine before).length + 1⟩

end Text

end Delog
