import Delog.Text.Bytes

/-!
# Removal/Range — the byte ranges to remove, and which lists of them are sound

A `Removal` is a half-open byte range together with what becomes of it: it is deleted, or a `;`
takes its place.  A list of removals is put in descending order of start before it is checked, so
that two ranges overlap only if two neighbours do.

* `perm_sortDescending`, `pairwise_sortDescending` — sorting rearranges, latest start first
* `check_eq_none` — a range passes when it is in bounds and cuts no character
-/

namespace Delog

open Text

/-- **A range to remove.** -/
structure Removal where
  start : Nat
  stop : Nat
  /-- Whether an empty statement `;` takes the place of the range. -/
  placeholder : Bool
deriving DecidableEq, Repr

/-- **Why a list of ranges is turned down.** -/
inductive RangeError where
  /-- The range is reversed, or ends after the text, which has `length` bytes. -/
  | outOfBounds (range : Span) (length : Nat)
  /-- An end of the range falls inside a character. -/
  | notCharBoundary (range : Span)
  /-- Two ranges share a byte, or the first ends after the start of the second. -/
  | overlap (first second : Span)
deriving DecidableEq, Repr

namespace RangeError

/-- The wording of a range error. -/
def message : RangeError → String
  | outOfBounds range length =>
    s!"invalid removal range [{range.start}, {range.stop}) in text of length {length}"
  | notCharBoundary range => s!"removal range [{range.start}, {range.stop}) splits a UTF-8 character"
  | overlap first second =>
    s!"removal ranges [{first.start}, {first.stop}) and [{second.start}, {second.stop}) overlap"

end RangeError

namespace Removal

/-- The bytes a removal covers. -/
def span (r : Removal) : Span := ⟨r.start, r.stop⟩

/-- The ranges, those that start later first.  Ranges with one start keep their order. -/
def sortDescending (rs : List Removal) : List Removal :=
  rs.mergeSort fun a b => decide (b.start ≤ a.start)

/-- What is wrong with a range by itself, in the text `s`. -/
def check (s : Text) (r : Removal) : Option RangeError :=
  if r.stop < r.start ∨ size s < r.stop then some (.outOfBounds r.span (size s))
  else if isBoundary s r.start && isBoundary s r.stop then none
  else some (.notCharBoundary r.span)

/-- The first two neighbours that overlap, in a list sorted by descending start. -/
def firstOverlap : List Removal → Option RangeError
  | later :: earlier :: rs =>
    if later.start < earlier.stop then some (.overlap earlier.span later.span)
    else firstOverlap (earlier :: rs)
  | _ => none

/-- **The first fault of a list of ranges** sorted by descending start.  A range that is unsound by
itself goes before any overlap. -/
def fault (s : Text) (sorted : List Removal) : Option RangeError :=
  (sorted.findSome? (check s)).or (firstOverlap sorted)

/-! ## Order -/

theorem perm_sortDescending (rs : List Removal) : (sortDescending rs).Perm rs :=
  List.mergeSort_perm rs _

/-- **Sorting puts the latest start first.** -/
theorem pairwise_sortDescending (rs : List Removal) :
    (sortDescending rs).Pairwise fun a b => b.start ≤ a.start := by
  refine (List.pairwise_mergeSort ?_ ?_ rs).imp fun h => of_decide_eq_true h
  · intro a b c hab hbc
    simp only [decide_eq_true_eq] at *
    omega
  · intro a b
    simp only [Bool.or_eq_true, decide_eq_true_eq]
    omega

/-! ## Faults -/

/-- **A range passes by itself when it is in bounds and cuts no character.** -/
theorem check_eq_none {s : Text} {r : Removal} :
    check s r = none ↔ r.start ≤ r.stop ∧ isBoundary s r.start ∧ isBoundary s r.stop := by
  rw [check]
  split
  · rename_i h
    simp only [reduceCtorEq, false_iff, not_and]
    intro _ _ hb
    have := isBoundary_le hb
    omega
  · rename_i h
    split
    · rename_i hb
      simp only [Bool.and_eq_true] at hb
      simp only [hb, and_self, and_true, true_iff]
      omega
    · rename_i hb
      simp only [reduceCtorEq, false_iff, not_and]
      intro _ h1 h2
      exact hb (by simp [h1, h2])

end Removal

end Delog
