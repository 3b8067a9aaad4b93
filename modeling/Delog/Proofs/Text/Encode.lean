import Delog.Text.Utf8

/-!
# Proofs/Text/Encode — the bytes of a text, by its characters

An ASCII byte in the bytes of a text is a character of its own: all bytes of the other characters
are beyond ASCII.  So what is ASCII may be looked for in the bytes.

* `utf8EncodeChar_cases` — the bytes of a character
* `exists_of_encode_eq_cons` — an ASCII byte at the start is the first character
* `drop_encode_append` — the bytes from an offset
-/

namespace Delog.Text

theorem encode_append (s t : Text) : encode (s ++ t) = encode s ++ encode t :=
  List.flatMap_append

theorem drop_encode_append (s t : Text) (k : Nat) :
    (encode (s ++ t)).drop (size s + k) = (encode t).drop k := by
  rw [encode_append, ← List.drop_drop, List.drop_left' (length_encode s)]

/-- **An ASCII character is one byte, its number**; all bytes of other characters are beyond ASCII:
the first is at least `0xC0`, and `0x80` is added to each other one. -/
theorem utf8EncodeChar_cases (c : Char) :
    (c.toNat < 0x80 ∧ String.utf8EncodeChar c = [UInt8.ofNat c.toNat]) ∨
      ∀ b ∈ String.utf8EncodeChar c, 0x80 ≤ b.toNat := by
  have hnat : c.val.toNat = c.toNat := rfl
  by_cases h : c.toNat < 0x80
  · exact .inl ⟨h, by simp [String.utf8EncodeChar, hnat, Nat.le_of_lt_succ h]⟩
  · right
    simp only [String.utf8EncodeChar, hnat]
    rw [if_neg (by omega)]
    repeat' split
    all_goals
      simp only [List.forall_mem_cons, List.not_mem_nil, false_implies, implies_true, and_true,
        UInt8.toNat_ofNat']
      omega

/-- **An ASCII byte at the start of the bytes is the first character** of the text. -/
theorem exists_of_encode_eq_cons {s : Text} {b : UInt8} {bs : Bytes} (hb : b.toNat < 0x80)
    (h : encode s = b :: bs) : ∃ t, s = Char.ofNat b.toNat :: t ∧ encode t = bs := by
  cases s with
  | nil => cases h
  | cons c t =>
    rw [encode, List.flatMap_cons, ← encode] at h
    rcases utf8EncodeChar_cases c with ⟨hc, hone⟩ | hbeyond
    · rw [hone, List.singleton_append] at h
      obtain ⟨rfl, rfl⟩ := List.cons.inj h
      refine ⟨t, ?_, rfl⟩
      rw [UInt8.toNat_ofNat', Nat.mod_eq_of_lt (by omega), Char.ofNat_toNat]
    · obtain ⟨x, xs, hx⟩ := List.exists_cons_of_ne_nil (String.utf8EncodeChar_ne_nil (c := c))
      rw [hx] at h hbeyond
      obtain ⟨rfl, -⟩ := List.cons.inj h
      exact absurd hb (Nat.not_lt.mpr (hbeyond x List.mem_cons_self))

end Delog.Text
