import Delog.Text.Blank
import Mathlib.Data.List.Basic
import Mathlib.Tactic.ByContra

/-!
# Proofs/Text/Segment — the segments of a text, and those without blanks at their ends

A segment is what stands between two boundaries.  A *solid* segment has no blank at either end, so
that taking blanks off the text before it or after it leaves it whole.

* `isInside_iff` — an offset that is no boundary is inside a character
* `exists_parts` — two boundaries part a text in three, with their slice in the middle
* `slice_append` — a slice does not depend on what follows
* `dropWhile_append_of_startsSolid`, `dropEndWhile_append_of_endsSolid` — blanks are taken off
  only up to a solid end
-/

namespace Delog.Text

/-! ## Boundaries of initial segments -/

theorem isBoundary_append {s : Text} {n : Nat} (h : isBoundary s n = true) (t : Text) :
    isBoundary (s ++ t) n = true := by
  obtain ⟨a, b, rfl, rfl⟩ := isBoundary_iff.mp h
  rw [List.append_assoc]
  exact isBoundary_size_append a (b ++ t)

theorem size_pos {s : Text} (h : s ≠ []) : 0 < size s := by
  obtain ⟨c, s, rfl⟩ := List.exists_cons_of_ne_nil h
  have := c.utf8Size_pos
  rw [size_cons]
  omega

/-- **The shorter of two initial segments is an initial segment of the longer.** -/
theorem isPrefix_of_size_le {a b s : Text} (ha : a <+: s) (hb : b <+: s) (h : size a ≤ size b) :
    a <+: b := by
  rcases List.prefix_or_prefix_of_prefix ha hb with hab | ⟨m, rfl⟩
  · exact hab
  · obtain rfl : m = [] := by
      by_contra hm
      have := size_pos hm
      rw [size_append] at h
      omega
    exact ⟨[], by simp⟩

/-- A boundary of a longer text that the shorter one reaches is one of the shorter. -/
theorem isBoundary_of_append {s t : Text} {n : Nat} (h : isBoundary (s ++ t) n = true)
    (hn : n ≤ size s) : isBoundary s n = true := by
  obtain ⟨a, b, hab, rfl⟩ := isBoundary_iff.mp h
  obtain ⟨m, rfl⟩ := isPrefix_of_size_le ⟨b, hab.symm⟩ (List.prefix_append s t) hn
  exact isBoundary_size_append a m

/-- **An offset inside a character**: past its first byte, and before its end. -/
def IsInside (s : Text) (n : Nat) : Prop :=
  ∃ a c b, s = a ++ c :: b ∧ size a < n ∧ n < size a + c.utf8Size

/-- No character boundary is inside a character. -/
theorem isBoundary_of_isInside {s : Text} {n : Nat} (h : IsInside s n) :
    isBoundary s n = false := by
  obtain ⟨a, c, b, rfl, hlow, hhigh⟩ := h
  rw [← Bool.not_eq_true, isBoundary_iff]
  rintro ⟨x, y, hxy, rfl⟩
  obtain ⟨m, rfl⟩ := isPrefix_of_size_le ⟨c :: b, rfl⟩ ⟨y, hxy.symm⟩ (Nat.le_of_lt hlow)
  rw [List.append_assoc, List.append_cancel_left_eq] at hxy
  rw [size_append] at hlow hhigh
  cases m with
  | nil => simp at hlow
  | cons d m =>
    obtain ⟨rfl, -⟩ := List.cons.inj hxy
    rw [size_cons] at hhigh
    omega

theorem isInside_of_isBoundary_eq_false {s : Text} {n : Nat} (hle : n ≤ size s)
    (h : isBoundary s n = false) : IsInside s n := by
  induction s generalizing n with
  | nil =>
    obtain rfl : n = 0 := by simpa using hle
    cases h
  | cons c s ih =>
    cases n with
    | zero => cases h
    | succ n =>
      by_cases hc : c.utf8Size ≤ n + 1
      · have htail : isBoundary s (n + 1 - c.utf8Size) = false := by simpa [isBoundary, hc] using h
        rw [size_cons] at hle
        obtain ⟨a, d, b, rfl, hlow, hhigh⟩ := ih (by omega) htail
        exact ⟨c :: a, d, b, rfl, by rw [size_cons]; omega, by rw [size_cons]; omega⟩
      · exact ⟨[], c, s, rfl, Nat.succ_pos n, by rw [size_nil]; omega⟩

/-- **An offset that a text reaches is a boundary, or inside a character.** -/
theorem isInside_iff {s : Text} {n : Nat} :
    IsInside s n ↔ n ≤ size s ∧ isBoundary s n = false := by
  refine ⟨fun h => ⟨?_, isBoundary_of_isInside h⟩,
    fun h => isInside_of_isBoundary_eq_false h.1 h.2⟩
  obtain ⟨a, c, b, rfl, -, hhigh⟩ := h
  rw [size_append, size_cons]
  omega

instance (s : Text) (n : Nat) : Decidable (IsInside s n) := decidable_of_iff _ isInside_iff.symm

/-! ## Slices -/

theorem slice_append_append (a b c : Text) :
    slice (a ++ (b ++ c)) ⟨size a, size a + size b⟩ = b := by
  simp [slice]

/-- **Two boundaries part a text in three.** -/
theorem exists_parts {s : Text} {m n : Nat} (hm : isBoundary s m = true)
    (hn : isBoundary s n = true) (hmn : m ≤ n) :
    ∃ a b c, s = a ++ (b ++ c) ∧ m = size a ∧ n = size a + size b := by
  obtain ⟨a, r, hs, rfl⟩ := isBoundary_iff.mp hm
  obtain ⟨x, c, hx, rfl⟩ := isBoundary_iff.mp hn
  obtain ⟨b, rfl⟩ := isPrefix_of_size_le ⟨r, hs.symm⟩ ⟨c, hx.symm⟩ hmn
  exact ⟨a, b, c, by rw [hx, List.append_assoc], rfl, size_append a b⟩

/-- The part between two boundaries is the slice they bound. -/
theorem exists_eq_append_slice {s : Text} {m n : Nat} (hm : isBoundary s m = true)
    (hn : isBoundary s n = true) (hmn : m ≤ n) :
    ∃ a c, s = a ++ (slice s ⟨m, n⟩ ++ c) ∧ m = size a ∧ n = size a + size (slice s ⟨m, n⟩) := by
  obtain ⟨a, b, c, rfl, rfl, rfl⟩ := exists_parts hm hn hmn
  rw [slice_append_append]
  exact ⟨a, c, rfl, rfl, rfl⟩

/-- **A slice does not depend on what follows.** -/
theorem slice_append {s : Text} {m n : Nat} (hm : isBoundary s m = true)
    (hn : isBoundary s n = true) (hmn : m ≤ n) (t : Text) :
    slice (s ++ t) ⟨m, n⟩ = slice s ⟨m, n⟩ := by
  obtain ⟨a, b, c, rfl, rfl, rfl⟩ := exists_parts hm hn hmn
  rw [List.append_assoc, List.append_assoc, slice_append_append, slice_append_append]

/-! ## Solid ends -/

theorem ne_newline_of_isBlank_eq_false {c : Char} (h : isBlank c = false) : c ≠ '\n' := by
  rintro rfl
  exact absurd h (by decide)

/-- Whether a text does not start with a blank. -/
def startsSolid (s : Text) : Bool := s.head?.all fun c => !isBlank c

/-- Whether a text does not end in a blank. -/
def endsSolid (s : Text) : Bool := s.getLast?.all fun c => !isBlank c

/-- **Whether a text is solid**: it is not empty, and neither starts nor ends with a blank. -/
def isSolid (s : Text) : Bool := !s.isEmpty && startsSolid s && endsSolid s

theorem ne_nil_of_isSolid {s : Text} (h : isSolid s = true) : s ≠ [] := by
  rintro rfl
  simp [isSolid] at h

/-- A solid text is not blank where it starts. -/
theorem exists_cons_of_isSolid {s : Text} (h : isSolid s = true) :
    ∃ c t, s = c :: t ∧ isBlank c = false := by
  obtain ⟨c, t, rfl⟩ := List.exists_cons_of_ne_nil (ne_nil_of_isSolid h)
  simp only [isSolid, startsSolid, Bool.and_eq_true] at h
  exact ⟨c, t, rfl, by simpa using h.1.2⟩

/-- A solid text is not blank where it ends. -/
theorem exists_append_of_isSolid {s : Text} (h : isSolid s = true) :
    ∃ t c, s = t ++ [c] ∧ isBlank c = false := by
  obtain ⟨t, c, rfl⟩ := (List.eq_nil_or_concat' s).resolve_left (ne_nil_of_isSolid h)
  simp only [isSolid, endsSolid, Bool.and_eq_true] at h
  exact ⟨t, c, rfl, by simpa using h.2⟩

/-- Whatever stands before a text that ends solid, or is empty. -/
theorem endsSolid_append {a b : Text} (h : isSolid b = true) : endsSolid (a ++ b) = true := by
  obtain ⟨t, c, rfl, hc⟩ := exists_append_of_isSolid h
  simp [endsSolid, ← List.append_assoc, hc]

theorem startsSolid_cons {c : Char} (hc : isBlank c = false) (s : Text) :
    startsSolid (c :: s) = true := by
  simp [startsSolid, hc]

theorem startsSolid_append {a b : Text} (h : isSolid a = true) : startsSolid (a ++ b) = true := by
  obtain ⟨c, t, rfl, hc⟩ := exists_cons_of_isSolid h
  simp [startsSolid, hc]

/-- What stands between two solid texts makes one solid text of them. -/
theorem isSolid_append_append {a b : Text} (ha : isSolid a = true) (hb : isSolid b = true)
    (s : Text) : isSolid (a ++ (s ++ b)) = true := by
  rw [isSolid, startsSolid_append ha, ← List.append_assoc, endsSolid_append hb, List.append_assoc]
  simp [ne_nil_of_isSolid ha]

/-- A text that starts solid is empty, or starts with a character that is not blank. -/
theorem eq_nil_or_of_startsSolid {s : Text} (h : startsSolid s = true) :
    s = [] ∨ ∃ c t, s = c :: t ∧ isBlank c = false := by
  cases s with
  | nil => exact .inl rfl
  | cons c t => exact .inr ⟨c, t, rfl, by simpa [startsSolid] using h⟩

section Erosion

variable {p : Char → Bool} (hp : ∀ c, p c = true → isBlank c = true)
include hp

/-- **Blanks at the start of a text go only up to a solid start.** -/
theorem dropWhile_append_of_startsSolid {z : Text} (hz : startsSolid z = true) (s : Text) :
    (s ++ z).dropWhile p = s.dropWhile p ++ z := by
  have hdrop : z.dropWhile p = z := by
    rcases eq_nil_or_of_startsSolid hz with rfl | ⟨c, t, rfl, hc⟩
    · rfl
    · have : p c = false := by
        by_contra h
        simp [hp c (by simpa using h)] at hc
      simp [this]
  rw [List.dropWhile_append, hdrop]
  split
  · rename_i h
    rw [List.isEmpty_iff.mp h, List.nil_append]
  · rfl

/-- **Blanks at the end of a text go only up to a solid end.** -/
theorem dropEndWhile_append_of_endsSolid {a : Text} (ha : endsSolid a = true) (s : Text) :
    dropEndWhile p (a ++ s) = a ++ dropEndWhile p s := by
  have hrev : startsSolid a.reverse = true := by
    simpa [startsSolid, endsSolid] using ha
  rw [dropEndWhile, List.reverse_append, dropWhile_append_of_startsSolid hp hrev,
    List.reverse_append, List.reverse_reverse, dropEndWhile]

end Erosion

end Delog.Text
