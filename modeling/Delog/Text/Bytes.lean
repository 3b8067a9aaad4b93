/-!
# Text/Bytes — characters, and the byte offsets between them

A `Text` is the list of its characters.  Offsets into it count the bytes of its UTF-8 form, so an
offset may fall inside a character; those that do not are its *boundaries*.

* `takeBytes_append_dropBytes` — cutting at any offset loses nothing
* `isBoundary_iff` — the boundaries are the sizes of the initial segments
* `takeBytes_size_append`, `dropBytes_size_append` — cutting at a boundary gives the two parts
-/

namespace Delog

/-- A text, as its characters in order. -/
abbrev Text := List Char

/-- A half-open range of byte offsets. -/
structure Span where
  start : Nat
  stop : Nat
deriving DecidableEq, Repr

namespace Text

/-- **The number of bytes** of the UTF-8 form. -/
def size : Text → Nat
  | [] => 0
  | c :: s => c.utf8Size + size s

@[simp] theorem size_nil : size [] = 0 := rfl

@[simp] theorem size_cons (c : Char) (s : Text) : size (c :: s) = c.utf8Size + size s := rfl

@[simp] theorem size_append (s t : Text) : size (s ++ t) = size s + size t := by
  induction s with
  | nil => simp
  | cons c s ih => simp [ih, Nat.add_assoc]

/-- The characters that fit whole into the first `n` bytes. -/
def takeBytes : Nat → Text → Text
  | _, [] => []
  | n, c :: s => if c.utf8Size ≤ n then c :: takeBytes (n - c.utf8Size) s else []

/-- What follows the characters that fit whole into the first `n` bytes. -/
def dropBytes : Nat → Text → Text
  | _, [] => []
  | n, c :: s => if c.utf8Size ≤ n then dropBytes (n - c.utf8Size) s else c :: s

/-- Whether the offset `n` lies between two characters, or at one of the ends. -/
def isBoundary : Text → Nat → Bool
  | _, 0 => true
  | [], _ + 1 => false
  | c :: s, n + 1 => decide (c.utf8Size ≤ n + 1) && isBoundary s (n + 1 - c.utf8Size)

/-- The characters between two boundaries. -/
def slice (s : Text) (range : Span) : Text :=
  takeBytes (range.stop - range.start) (dropBytes range.start s)

/-! ## Cutting -/

/-- **Cutting loses nothing.** -/
@[simp] theorem takeBytes_append_dropBytes (n : Nat) (s : Text) :
    takeBytes n s ++ dropBytes n s = s := by
  induction s generalizing n with
  | nil => rfl
  | cons c s ih =>
    simp only [takeBytes, dropBytes]
    split
    · simp [ih]
    · rfl

@[simp] theorem takeBytes_size_append (s t : Text) : takeBytes (size s) (s ++ t) = s := by
  induction s with
  | nil =>
    cases t with
    | nil => rfl
    | cons c t =>
      have := c.utf8Size_pos
      rw [size_nil, List.nil_append, takeBytes, if_neg (by omega)]
  | cons c s ih => simp [takeBytes, ih]

@[simp] theorem dropBytes_size_append (s t : Text) : dropBytes (size s) (s ++ t) = t := by
  have h := takeBytes_append_dropBytes (size s) (s ++ t)
  rw [takeBytes_size_append] at h
  exact List.append_cancel_left h

@[simp] theorem isBoundary_size_append (s t : Text) : isBoundary (s ++ t) (size s) = true := by
  induction s with
  | nil => cases t <;> rfl
  | cons c s ih =>
    have := c.utf8Size_pos
    obtain ⟨n, hn⟩ : ∃ n, size (c :: s) = n + 1 := ⟨c.utf8Size + size s - 1, by simp; omega⟩
    rw [hn, List.cons_append, isBoundary, ← hn]
    simp [ih]

/-- **The boundaries are the sizes of the initial segments.** -/
theorem isBoundary_iff {s : Text} {n : Nat} :
    isBoundary s n = true ↔ ∃ a b, s = a ++ b ∧ size a = n := by
  constructor
  · intro h
    induction s generalizing n with
    | nil =>
      cases n with
      | zero => exact ⟨[], [], rfl, rfl⟩
      | succ n => simp [isBoundary] at h
    | cons c s ih =>
      cases n with
      | zero => exact ⟨[], c :: s, rfl, rfl⟩
      | succ n =>
        simp only [isBoundary, Bool.and_eq_true, decide_eq_true_eq] at h
        obtain ⟨a, b, rfl, hn⟩ := ih h.2
        exact ⟨c :: a, b, rfl, by simp only [size_cons]; omega⟩
  · rintro ⟨a, b, rfl, rfl⟩
    exact isBoundary_size_append a b

theorem isBoundary_le {s : Text} {n : Nat} (h : isBoundary s n = true) : n ≤ size s := by
  obtain ⟨a, b, rfl, rfl⟩ := isBoundary_iff.mp h
  simp

end Text

end Delog
