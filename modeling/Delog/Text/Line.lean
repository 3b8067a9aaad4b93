import Delog.Text.Blank

/-!
# Text/Line — lines and their endings

A line ends in `\n` or in `\r\n`; a carriage return without a newline after it is an ordinary
character of the line it stands in.

* `unlines_lines` — a text is its lines, written one after the other
-/

namespace Delog

/-- **The two ways a line ends.** -/
inductive LineEnding where
  | lf
  | crlf
deriving DecidableEq, Repr

namespace LineEnding

/-- The characters of a line ending. -/
def text : LineEnding → Text
  | lf => ['\n']
  | crlf => ['\r', '\n']

/-- **The convention of a text**, read off its first newline; a text without one uses `\n`. -/
def detect : Text → LineEnding
  | [] => lf
  | '\n' :: _ => lf
  | '\r' :: '\n' :: _ => crlf
  | _ :: s => detect s

/-- The ending a text finishes with, if its last line is finished. -/
def final (s : Text) : Option LineEnding :=
  match s.reverse with
  | '\n' :: '\r' :: _ => some crlf
  | '\n' :: _ => some lf
  | _ => none

end LineEnding

/-- **A line**: what stands on it, and how it ends.  Only the last line of a text may have no
ending. -/
structure Line where
  content : Text
  ending : Option LineEnding
deriving DecidableEq, Repr

namespace Line

/-- The line as it stands in the text. -/
def text (l : Line) : Text := l.content ++ (l.ending.map LineEnding.text).getD []

end Line

namespace Text

/-- **The lines of a text.**  The empty text has none, and a final line ending starts no new one. -/
def lines : Text → List Line
  | [] => []
  | '\n' :: s => ⟨[], some .lf⟩ :: lines s
  | '\r' :: '\n' :: s => ⟨[], some .crlf⟩ :: lines s
  | c :: s =>
    match lines s with
    | [] => [⟨[c], none⟩]
    | l :: ls => ⟨c :: l.content, l.ending⟩ :: ls

/-- The text that has the given lines. -/
def unlines (ls : List Line) : Text := ls.flatMap Line.text

/-- **A text is its lines, written one after the other.** -/
@[simp] theorem unlines_lines (s : Text) : unlines (lines s) = s := by
  fun_induction lines s with
  | case1 => rfl
  | case2 s ih => simpa [unlines, Line.text, LineEnding.text] using ih
  | case3 s ih => simpa [unlines, Line.text, LineEnding.text] using ih
  | case4 c s _ _ h ih =>
    rw [h] at ih
    rw [← ih]
    rfl
  | case5 c s _ _ l ls h ih =>
    rw [h] at ih
    rw [← ih]
    rfl

/-! ## Line breaks at an offset -/

/-- What follows the line break that a text starts with, if it starts with one. -/
def afterBreak? : Text → Option Text
  | '\n' :: s => some s
  | '\r' :: '\n' :: s => some s
  | _ => none

/-- The characters of a text after its last newline. -/
def lastLine (s : Text) : Text := takeEndWhile (· != '\n') s

/-- The characters of a text before its first newline. -/
def firstLine (s : Text) : Text := s.takeWhile (· != '\n')

end Text

end Delog
