import Delog.Text.Bytes
import Delog.Text.LetterTable

/-!
# Text/Letter — letters and digits of all scripts
-/

namespace Delog.Text

/-- Whether a code point lies in one of the ranges. -/
def inRanges (ranges : List (Nat × Nat)) (n : Nat) : Bool :=
  ranges.any fun r => decide (r.1 ≤ n) && decide (n ≤ r.2)

/-- Whether a character has the Unicode property `Alphabetic`. -/
def isAlphabetic (c : Char) : Bool := inRanges alphabeticRanges c.toNat

/-- Whether a character is of a numeric category: a decimal digit, a letter number or another
number. -/
def isNumeric (c : Char) : Bool := inRanges numericRanges c.toNat

end Delog.Text
