import Delog.Text.Bytes

/-!
# Text/Blank — white space, and taking it off the ends

Blank characters are those with the Unicode property `White_Space`.  A blank is *horizontal* when
it does not end a line.

* `dropEndWhile_append_takeEndWhile` — a text is what stays and what is taken off its end
* `trim_eq_nil` — only a blank text is trimmed to nothing
-/

namespace Delog.Text

/-- The characters with the property `White_Space`. -/
def blanks : List Char :=
  ['\t', '\n', '\x0b', '\x0c', '\r', ' ', '\u0085', '\u00a0', '\u1680',
    '\u2000', '\u2001', '\u2002', '\u2003', '\u2004', '\u2005', '\u2006', '\u2007', '\u2008',
    '\u2009', '\u200a', '\u2028', '\u2029', '\u202f', '\u205f', '\u3000']

/-- Whether a character is white space. -/
def isBlank (c : Char) : Bool := blanks.contains c

/-- Whether a character is white space that stays on its line. -/
def isHorizontal (c : Char) : Bool := isBlank c && c != '\n' && c != '\r'

/-- The longest final segment of characters with `p`. -/
def takeEndWhile (p : Char → Bool) (s : Text) : Text := (s.reverse.takeWhile p).reverse

/-- What is left before the longest final segment of characters with `p`. -/
def dropEndWhile (p : Char → Bool) (s : Text) : Text := (s.reverse.dropWhile p).reverse

/-- The text from its first character that is not blank. -/
def trimStart (s : Text) : Text := s.dropWhile isBlank

/-- The text up to its last character that is not blank. -/
def trimEnd (s : Text) : Text := dropEndWhile isBlank s

/-- The text without the blanks at its ends. -/
def trim (s : Text) : Text := trimEnd (trimStart s)

/-! ## Horizontal blanks -/

theorem isBlank_of_isHorizontal {c : Char} (h : isHorizontal c = true) : isBlank c = true := by
  simp only [isHorizontal, Bool.and_eq_true] at h
  exact h.1.1

@[simp] theorem isHorizontal_newline : isHorizontal '\n' = false := by decide

@[simp] theorem isHorizontal_carriageReturn : isHorizontal '\r' = false := by decide

/-! ## Taking characters off the end -/

/-- **A text is what stays and what is taken off its end.** -/
@[simp] theorem dropEndWhile_append_takeEndWhile (p : Char → Bool) (s : Text) :
    dropEndWhile p s ++ takeEndWhile p s = s := by
  rw [dropEndWhile, takeEndWhile, ← List.reverse_append, List.takeWhile_append_dropWhile,
    List.reverse_reverse]

theorem all_takeEndWhile (p : Char → Bool) (s : Text) : (takeEndWhile p s).all p = true := by
  rw [takeEndWhile, List.all_reverse]
  exact List.all_takeWhile

@[simp] theorem dropEndWhile_nil (p : Char → Bool) : dropEndWhile p [] = [] := rfl

@[simp] theorem dropEndWhile_append_singleton (p : Char → Bool) (s : Text) (c : Char) :
    dropEndWhile p (s ++ [c]) = if p c then dropEndWhile p s else s ++ [c] := by
  simp only [dropEndWhile, List.reverse_append, List.reverse_cons, List.reverse_nil, List.nil_append,
    List.cons_append, List.dropWhile_cons]
  split <;> simp_all

theorem dropWhile_eq_nil {p : Char → Bool} : ∀ {s : Text},
    s.dropWhile p = [] ↔ ∀ c ∈ s, p c = true
  | [] => by simp
  | c :: s => by
    by_cases h : p c = true
    · simp [h, dropWhile_eq_nil (s := s)]
    · simp [h]

theorem dropEndWhile_eq_nil {p : Char → Bool} {s : Text} :
    dropEndWhile p s = [] ↔ ∀ c ∈ s, p c = true := by
  rw [dropEndWhile, List.reverse_eq_nil_iff, dropWhile_eq_nil]
  simp

/-- **Only a blank text is trimmed to nothing.** -/
theorem trim_eq_nil {s : Text} : trim s = [] ↔ ∀ c ∈ s, isBlank c = true := by
  rw [trim, trimEnd, dropEndWhile_eq_nil]
  constructor
  · intro h c hc
    rw [← List.takeWhile_append_dropWhile (p := isBlank) (l := s), List.mem_append] at hc
    rcases hc with hc | hc
    · exact List.all_eq_true.mp List.all_takeWhile c hc
    · exact h c hc
  · exact fun h c hc => h c ((List.dropWhile_sublist isBlank).subset hc)

end Delog.Text
