import Delog.Text.Line
import Delog.Text.Utf8

/-!
# Removal/Tidy — the form an edited text is left in

After the removals a text is tidied as a whole: lines of blanks only are emptied, three or more line
breaks in a row become two, the ends are trimmed, and the line break the text ended with before is
put back.  Emptying comes first, as an indented blank line would otherwise split a run of breaks.

Collapsing need not follow the characters of a text.  It may go over the bytes with two offsets:
where to read next, and up to where the text is copied.  It passes over a byte at which no line
break starts, and over a run of line breaks at once.  Only before three or more of them it copies
what is left to copy, and writes two breaks in their place.  The text is cut at these offsets, which
would fail inside a character.

* `collapseBreaks` — collapsing, by recursion on the characters
* `passOver` — collapsing, in one pass over the bytes
* `Pass.next_lt_of_turn` — each turn of the pass reads on
-/

namespace Delog.Removal

open Text

/-- A line without its content if that is horizontal blanks only. -/
def emptied (l : Line) : Line := if l.content.all isHorizontal then { l with content := [] } else l

/-- **Empties the lines that hold only blanks.**  Their endings stay. -/
def emptyBlankLines (s : Text) : Text := unlines ((lines s).map emptied)

/-- What a run of line breaks becomes: three or more are replaced by two of the given kind. -/
def settleRun (ending : LineEnding) (run : List LineEnding) : Text :=
  if 3 ≤ run.length then ending.text ++ ending.text else run.flatMap LineEnding.text

/-- `collapseBreaks` on a text that follows the line breaks `run`. -/
def collapseFrom (ending : LineEnding) (run : List LineEnding) : Text → Text
  | [] => settleRun ending run
  | '\n' :: s => collapseFrom ending (run ++ [.lf]) s
  | '\r' :: '\n' :: s => collapseFrom ending (run ++ [.crlf]) s
  | c :: s => settleRun ending run ++ c :: collapseFrom ending [] s

/-- **Replaces every run of three or more line breaks by exactly two** of the given kind. -/
def collapseBreaks (ending : LineEnding) (s : Text) : Text := collapseFrom ending [] s

/-! ## Collapsing in one pass over the bytes -/

/-- How many bytes line breaks take, and how many line breaks they are. -/
structure BreakCount where
  bytes : Nat
  breaks : Nat
deriving DecidableEq, Repr

/-- **Counts the line breaks at the start of a byte list**, on top of those before it. -/
def countBreaks (n : BreakCount) : Bytes → BreakCount
  | 0x0D :: 0x0A :: bs => countBreaks ⟨n.bytes + 2, n.breaks + 1⟩ bs
  | 0x0A :: bs => countBreaks ⟨n.bytes + 1, n.breaks + 1⟩ bs
  | _ => n

/-- The slice of a text between two offsets, unless they are out of order or one is no boundary. -/
def slice? (s : Text) (range : Span) : Option Text :=
  if range.start ≤ range.stop ∧ isBoundary s range.start ∧ isBoundary s range.stop then
    some (slice s range)
  else none

/-- **How far a pass over the bytes of a text has come.** -/
structure Pass where
  /-- Where it reads next. -/
  next : Nat
  /-- Up to where the text is copied, or replaced. -/
  copied : Nat
  /-- What is written. -/
  out : Text
deriving DecidableEq, Repr

namespace Pass

/-- **One turn of the pass**: it reads on by a byte, or by a run of line breaks.  It fails if it
cuts the text inside a character. -/
def turn (ending : LineEnding) (s : Text) (p : Pass) : Option Pass :=
  let n := countBreaks ⟨0, 0⟩ ((encode s).drop p.next)
  if n.breaks = 0 then some { p with next := p.next + 1 }
  else if 3 ≤ n.breaks then
    (slice? s ⟨p.copied, p.next⟩).map fun piece =>
      ⟨p.next + n.bytes, p.next + n.bytes, p.out ++ piece ++ ending.text ++ ending.text⟩
  else some { p with next := p.next + n.bytes }

/-- The end of the pass, where what is left is copied. -/
def finish (s : Text) (p : Pass) : Option Text :=
  (slice? s ⟨p.copied, size s⟩).map (p.out ++ ·)

/-- A line break takes a byte at least. -/
theorem breaks_le_bytes (n : BreakCount) (bs : Bytes) :
    (countBreaks n bs).breaks + n.bytes ≤ (countBreaks n bs).bytes + n.breaks := by
  fun_induction countBreaks n bs with
  | case1 n bs ih =>
    simp only at ih
    omega
  | case2 n bs ih =>
    simp only at ih
    omega
  | case3 n bs => exact Nat.le_of_eq (Nat.add_comm _ _)

/-- **Each turn reads on**, so that there are no more turns than bytes. -/
theorem next_lt_of_turn {ending : LineEnding} {s : Text} {p q : Pass}
    (h : p.turn ending s = some q) : p.next < q.next := by
  have hcount := breaks_le_bytes ⟨0, 0⟩ ((encode s).drop p.next)
  simp only [turn] at h
  split at h
  · cases h
    exact Nat.lt_succ_self _
  · split at h
    · obtain ⟨piece, -, rfl⟩ := Option.map_eq_some_iff.mp h
      simp only at hcount ⊢
      omega
    · cases h
      simp only at hcount ⊢
      omega

/-- **The pass from where it has come to**: turn after turn up to the end of the text. -/
def run (ending : LineEnding) (s : Text) (p : Pass) : Option Text :=
  if p.next < size s then
    match _h : p.turn ending s with
    | some q => run ending s q
    | none => none
  else p.finish s
termination_by size s - p.next
decreasing_by
  have := next_lt_of_turn _h
  omega

end Pass

/-- **Collapses the runs of line breaks of a text** in one pass over its bytes. -/
def passOver (ending : LineEnding) (s : Text) : Option Text := Pass.run ending s ⟨0, 0, []⟩

/-! ## The text as a whole -/

/-- The line break a text ends with; a blank text counts as having none. -/
def finalBreak (s : Text) : Text :=
  if (trim s).isEmpty then [] else ((LineEnding.final s).map LineEnding.text).getD []

/-- **Tidies an edited text** in the manner of the text it was made from. -/
def tidy (given edited : Text) : Text :=
  trim (collapseBreaks (LineEnding.detect given) (emptyBlankLines edited)) ++ finalBreak given

end Delog.Removal
