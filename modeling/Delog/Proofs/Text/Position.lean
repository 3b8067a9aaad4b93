import Delog.Proofs.Text.Segment
import Delog.Text.Position
import Mathlib.Data.Prod.Lex

/-!
# Proofs/Text/Position — from a place back to its offset

A place counts newlines and then characters, where an offset counts bytes.  The newlines cut a text
into pieces; the line of a place picks one of them, and the column says how far into it the place
is.

* `exists_splitOn_append` — the pieces of a text, cut at an offset
* `offset?_position` — the place of an offset leads back to it
* `key_position_lt_iff` — places, by line and then by column, are in the order of their offsets
-/

namespace Delog

/-- **The order of places**: by line, and on one line by column. -/
def Position.key (p : Position) : ℕ ×ₗ ℕ := toLex (p.line, p.column)

namespace Text

/-- **The offset of a place**: the bytes of the pieces before its line, each with its newline, and
those of as many characters of the line as come before its column.  A line or a column that the text
does not have gives none. -/
def offset? (s : Text) : Position → Option Nat
  | ⟨line + 1, column + 1⟩ => do
    let piece ← (s.splitOn '\n')[line]?
    if column ≤ piece.length then
      some (size ((((s.splitOn '\n').take line).flatMap (· ++ ['\n'])) ++ piece.take column))
    else none
  | _ => none

/-! ## The last line -/

/-- A text without newlines is one line, and goes on the last line of the text before it. -/
theorem lastLine_append {b : Text} (hb : '\n' ∉ b) (a : Text) :
    lastLine (a ++ b) = lastLine a ++ b := by
  have hall : ∀ c ∈ b.reverse, (c != '\n') = true := fun c hc => by
    simpa using fun heq : c = '\n' => hb (heq ▸ List.mem_reverse.mp hc)
  rw [lastLine, takeEndWhile, List.reverse_append, List.takeWhile_append_of_pos hall,
    List.reverse_append, List.reverse_reverse]
  rfl

theorem notMem_lastLine (a : Text) : '\n' ∉ lastLine a := fun h => by
  simpa using List.all_eq_true.mp (all_takeEndWhile _ a) _ h

/-- **What stands before the last line**: nothing, or a text that ends in a newline. -/
theorem lastLine_cases (a : Text) : lastLine a = a ∨ ∃ c, a = c ++ '\n' :: lastLine a := by
  by_cases ha : '\n' ∈ a
  · right
    obtain ⟨l, c, hsplit, hl⟩ := List.eq_append_cons_of_mem (List.mem_reverse.mpr ha)
    have heq : a = c.reverse ++ '\n' :: l.reverse := by
      simpa using congrArg List.reverse hsplit
    have hlast : lastLine a = l.reverse := by
      have hnil : lastLine (c.reverse ++ ['\n']) = [] := by simp [lastLine, takeEndWhile]
      rw [heq, List.append_cons, lastLine_append (by simpa using hl), hnil, List.nil_append]
    exact ⟨c.reverse, by rw [hlast]; exact heq⟩
  · exact .inl (lastLine_append ha [])

/-! ## The pieces between the newlines -/

/-- What stands before the first newline goes to the first piece. -/
theorem exists_splitOn_append_of_notMem {l : Text} (hl : '\n' ∉ l) (b : Text) :
    ∃ r rs, (l ++ b).splitOn '\n' = (l ++ r) :: rs := by
  induction l with
  | nil => exact List.exists_cons_of_ne_nil (List.splitOn_ne_nil _ b)
  | cons c l ih =>
    obtain ⟨hc, hl⟩ := not_or.mp (List.mem_cons.not.mp hl)
    obtain ⟨r, rs, h⟩ := ih hl
    have hbeq : (c == '\n') = false := by simpa using Ne.symm hc
    exact ⟨r, rs, by rw [List.cons_append, List.splitOn_cons_eq_if_modifyHead, hbeq, h]; rfl⟩

/-- **The pieces of a text**, each with a newline after it, are the text with one more newline; they
are one more than the newlines. -/
theorem flatMap_splitOn (c : Text) :
    (c.splitOn '\n').flatMap (· ++ ['\n']) = c ++ ['\n'] ∧
      (c.splitOn '\n').length = c.count '\n' + 1 := by
  induction c with
  | nil => simp
  | cons d c ih =>
    obtain ⟨r, rs, h⟩ := List.exists_cons_of_ne_nil (List.splitOn_ne_nil '\n' c)
    rw [h] at ih
    rw [List.splitOn_cons_eq_if_modifyHead, h]
    by_cases hd : d = '\n'
    · subst hd
      simpa using ih
    · simpa [hd] using ih

/-- **The pieces of a text, cut at an offset**: before the piece with the offset there are as many
as there are newlines, and they make up all that stands before the last line. -/
theorem exists_splitOn_append (a b : Text) :
    ∃ ps r rs, (a ++ b).splitOn '\n' = ps ++ (lastLine a ++ r) :: rs ∧
      ps.length = a.count '\n' ∧ ps.flatMap (· ++ ['\n']) ++ lastLine a = a := by
  have hlast := notMem_lastLine a
  rcases lastLine_cases a with h | ⟨c, h⟩
  · rw [h] at hlast ⊢
    obtain ⟨r, rs, hsplit⟩ := exists_splitOn_append_of_notMem hlast b
    exact ⟨[], r, rs, hsplit, (List.count_eq_zero.mpr hlast).symm, rfl⟩
  · obtain ⟨r, rs, hsplit⟩ := exists_splitOn_append_of_notMem hlast b
    obtain ⟨htext, hlength⟩ := flatMap_splitOn c
    refine ⟨c.splitOn '\n', r, rs, ?_, ?_, ?_⟩
    · rw [← hsplit, ← List.splitOn_append_cons_self, ← List.cons_append, ← List.append_assoc, ← h]
    · rw [hlength, h, List.count_append, List.count_cons_self,
        List.count_eq_zero.mpr hlast]
    · rw [htext, List.append_assoc, List.singleton_append, ← h]

/-! ## Places and offsets -/

theorem position_append (a b : Text) :
    position (a ++ b) (size a) = ⟨a.count '\n' + 1, (lastLine a).length + 1⟩ := by
  rw [position, takeBytes_size_append]

/-- **The place of an offset leads back to it.** -/
theorem offset?_position {s : Text} {n : Nat} (h : isBoundary s n = true) :
    s.offset? (s.position n) = some n := by
  obtain ⟨a, b, rfl, rfl⟩ := isBoundary_iff.mp h
  obtain ⟨ps, r, rs, hsplit, hlength, htext⟩ := exists_splitOn_append a b
  have hpiece : (ps ++ (lastLine a ++ r) :: rs)[ps.length]? = some (lastLine a ++ r) := by simp
  have hcolumn : (lastLine a).length ≤ (lastLine a ++ r).length := by simp
  rw [position_append, offset?, hsplit, ← hlength, hpiece, List.take_left]
  simp only [Option.bind_eq_bind, Option.bind_some, if_pos hcolumn, List.take_left, htext]

/-- **An offset further on has a later place.** -/
theorem key_position_lt {s : Text} {m n : Nat} (hm : isBoundary s m = true)
    (hn : isBoundary s n = true) (h : m < n) : (s.position m).key < (s.position n).key := by
  obtain ⟨a, b, c, rfl, rfl, rfl⟩ := exists_parts hm hn (Nat.le_of_lt h)
  have hb : b ≠ [] := by
    rintro rfl
    simp at h
  rw [position_append, ← List.append_assoc, ← size_append, position_append, Position.key,
    Position.key, Prod.Lex.toLex_lt_toLex, List.count_append]
  by_cases hnewline : '\n' ∈ b
  · left
    have := List.count_pos_iff.mpr hnewline
    dsimp only
    omega
  · right
    have := List.length_pos_iff.mpr hb
    rw [List.count_eq_zero.mpr hnewline, lastLine_append hnewline, List.length_append]
    exact ⟨rfl, by dsimp only; omega⟩

/-- **Places are in the order of their offsets.** -/
theorem key_position_lt_iff {s : Text} {m n : Nat} (hm : isBoundary s m = true)
    (hn : isBoundary s n = true) : (s.position m).key < (s.position n).key ↔ m < n := by
  refine ⟨fun h => ?_, key_position_lt hm hn⟩
  rcases Nat.lt_trichotomy m n with hlt | rfl | hlt
  · exact hlt
  · exact absurd h (lt_irrefl _)
  · exact absurd h (lt_asymm (key_position_lt hn hm hlt))

end Text

end Delog
