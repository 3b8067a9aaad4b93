import Delog.Text.Bytes

/-!
# Text/Utf8 — the bytes of a text, and reading them back

`encode` writes the UTF-8 form.  Reading goes byte by byte and gives a list of pieces: the
characters, and one mark for each longest run of bytes that starts a character but does not finish
it.  `decode` accepts only bytes without such marks, `decodeLossy` shows each of them as U+FFFD.

* `length_encode` — the UTF-8 form has as many bytes as the text counts
-/

namespace Delog

/-- Raw bytes, as they stand in a file or in a path. -/
abbrev Bytes := List UInt8

namespace Text

/-- **The UTF-8 form of a text.** -/
def encode (s : Text) : Bytes := s.flatMap String.utf8EncodeChar

/-- **A character that is not read to its end.** -/
structure Unfinished where
  /-- How many bytes are to follow. -/
  missing : Nat
  /-- The bounds of the next byte. -/
  low : UInt8
  high : UInt8
  /-- The bits read so far. -/
  bits : Nat

/-- What one byte leads to: a piece, or a character to go on with. -/
inductive Reading where
  /-- A character, or a mark for bytes that make none. -/
  | piece (c : Option Char)
  | unfinished (u : Unfinished)

namespace Reading

/-- The first byte of a character.  The bounds on the second byte keep out overlong forms,
surrogates and numbers beyond U+10FFFF. -/
def first (b : UInt8) : Reading :=
  if b < 0x80 then .piece (some (Char.ofNat b.toNat))
  else if b < 0xC2 then .piece none
  else if b < 0xE0 then .unfinished ⟨1, 0x80, 0xBF, b.toNat - 0xC0⟩
  else if b = 0xE0 then .unfinished ⟨2, 0xA0, 0xBF, 0⟩
  else if b = 0xED then .unfinished ⟨2, 0x80, 0x9F, 0xD⟩
  else if b < 0xF0 then .unfinished ⟨2, 0x80, 0xBF, b.toNat - 0xE0⟩
  else if b = 0xF0 then .unfinished ⟨3, 0x90, 0xBF, 0⟩
  else if b < 0xF4 then .unfinished ⟨3, 0x80, 0xBF, b.toNat - 0xF0⟩
  else if b = 0xF4 then .unfinished ⟨3, 0x80, 0x8F, 4⟩
  else .piece none

/-- The next byte of a character, unless it cannot go on with that byte. -/
def next (u : Unfinished) (b : UInt8) : Option Reading :=
  if u.low ≤ b ∧ b ≤ u.high then
    let bits := u.bits * 64 + (b.toNat - 0x80)
    some (if u.missing ≤ 1 then .piece (some (Char.ofNat bits))
      else .unfinished ⟨u.missing - 1, 0x80, 0xBF, bits⟩)
  else none

end Reading

/-- **The pieces of a byte list**, after what is already read. -/
def pieces : Option Unfinished → Bytes → List (Option Char)
  | none, [] => []
  | some _, [] => [none]
  | none, b :: bs =>
    match Reading.first b with
    | .piece c => c :: pieces none bs
    | .unfinished u => pieces (some u) bs
  | some u, b :: bs =>
    match Reading.next u b with
    | some (.piece c) => c :: pieces none bs
    | some (.unfinished u) => pieces (some u) bs
    | none =>
      none :: match Reading.first b with
        | .piece c => c :: pieces none bs
        | .unfinished u => pieces (some u) bs

/-- **The text with the given UTF-8 form**, if there is one. -/
def decode (bs : Bytes) : Option Text := (pieces none bs).mapM id

/-- The text of a byte list, with U+FFFD for what is not UTF-8. -/
def decodeLossy (bs : Bytes) : Text := (pieces none bs).map (·.getD '\uFFFD')

/-- **The UTF-8 form has as many bytes as the text counts.** -/
@[simp] theorem length_encode (s : Text) : (encode s).length = size s := by
  induction s with
  | nil => rfl
  | cons c s ih =>
    rw [encode, List.flatMap_cons, List.length_append, ← encode, ih,
      String.length_utf8EncodeChar, size_cons]

end Text

end Delog
