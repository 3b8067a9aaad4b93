import Delog.Text.Utf8
import Mathlib.Algebra.GroupWithZero.Nat

/-!
# Proofs/Text/Decode — a text takes as many bytes as it is read from

A character that is read in part may still come to any number in a certain range, and all numbers in
the range take the same number of bytes.  Each byte that is read narrows the range.

* `Unfinished.After.next` — reading one more byte of a character
* `size_of_decode` — a text takes as many bytes as it is read from
-/

namespace Delog.Text

/-- The ranges of the numbers of characters: how many bytes such a character takes, the least
number, and the first number beyond.  Surrogates are left out. -/
def sizeRanges : List (Nat × Nat × Nat) :=
  [(1, 0, 0x80), (2, 0x80, 0x800), (3, 0x800, 0xD800), (3, 0xE000, 0x10000), (4, 0x10000, 0x110000)]

/-- How many bytes a character takes, by its number. -/
theorem utf8Size_eq (c : Char) : c.utf8Size =
    if c.toNat < 0x80 then 1
    else if c.toNat < 0x800 then 2
    else if c.toNat < 0x10000 then 3
    else 4 := by
  simp only [Char.utf8Size, UInt32.le_iff_toNat_le, UInt32.toNat_ofNatLT, ← Nat.lt_succ_iff]
  rfl

/-- A character with a number in one of the ranges takes the bytes of that range. -/
theorem utf8Size_ofNat {r : Nat × Nat × Nat} (hr : r ∈ sizeRanges) {n : Nat} (hle : r.2.1 ≤ n)
    (hlt : n < r.2.2) : (Char.ofNat n).utf8Size = r.1 := by
  simp only [sizeRanges, List.mem_cons, List.not_mem_nil, or_false] at hr
  have hvalid : n.isValidChar := by
    rcases hr with rfl | rfl | rfl | rfl | rfl <;> simp only [Nat.isValidChar] at hle hlt ⊢ <;>
      omega
  have hnat : (Char.ofNat n).toNat = n := by
    rw [Char.ofNat, dif_pos hvalid]
    rfl
  rw [utf8Size_eq, hnat]
  rcases hr with rfl | rfl | rfl | rfl | rfl <;> simp only at hle hlt ⊢ <;> grind

namespace Unfinished

/-- The least number that an unfinished character may come to. -/
def least (u : Unfinished) : Nat := (u.bits * 64 + (u.low.toNat - 0x80)) * 64 ^ (u.missing - 1)

/-- The first number beyond those that an unfinished character may come to. -/
def bound (u : Unfinished) : Nat := (u.bits * 64 + (u.high.toNat - 0x80) + 1) * 64 ^ (u.missing - 1)

/-- **An unfinished character after so many bytes**: whatever it comes to takes these bytes and the
missing ones. -/
structure After (u : Unfinished) (count : Nat) : Prop where
  missing_pos : 0 < u.missing
  exists_range : ∃ r ∈ sizeRanges, count + u.missing = r.1 ∧ r.2.1 ≤ u.least ∧ u.bound ≤ r.2.2

/-- An unfinished character of which the next byte is not restricted comes to the numbers with the
bits read so far. -/
theorem After.of_bits {count m bits : Nat} (size least bound : Nat)
    (hr : (size, least, bound) ∈ sizeRanges) (hcount : count + (m + 1) = size)
    (hleast : least ≤ bits * 64 ^ (m + 1)) (hbound : (bits + 1) * 64 ^ (m + 1) ≤ bound) :
    After ⟨m + 1, 0x80, 0xBF, bits⟩ count := by
  have hlow : (0x80 : UInt8).toNat - 0x80 = 0 := rfl
  have hhigh : (0xBF : UInt8).toNat - 0x80 = 63 := rfl
  have hsum : bits * 64 + 63 + 1 = (bits + 1) * 64 := by omega
  rw [Nat.pow_succ', ← Nat.mul_assoc] at hleast hbound
  refine ⟨Nat.succ_pos m, _, hr, hcount, ?_, ?_⟩
  · rwa [Unfinished.least, hlow, Nat.add_zero, Nat.add_sub_cancel]
  · rwa [Unfinished.bound, hhigh, hsum, Nat.add_sub_cancel]

end Unfinished

open Unfinished (After)

/-- **What is left to expect of a reading** after so many bytes. -/
def Reading.Sound (count : Nat) : Reading → Prop
  | piece none => True
  | piece (some c) => c.utf8Size = count
  | unfinished u => u.After count

/-- The first byte of a character.  The surrogates part the range at `0xED`. -/
theorem Reading.sound_first (b : UInt8) : (first b).Sound 1 := by
  simp only [first, UInt8.lt_iff_toNat_lt, ← UInt8.toNat_inj, UInt8.reduceToNat]
  split
  · exact utf8Size_ofNat (r := (1, 0, 0x80)) (by decide) (Nat.zero_le _) ‹_›
  split
  · trivial
  split
  · exact After.of_bits 2 0x80 0x800 (by decide) rfl (by omega) (by omega)
  split
  · exact ⟨Nat.succ_pos 1, (3, 0x800, 0xD800), by decide, rfl, by decide, by decide⟩
  split
  · exact ⟨Nat.succ_pos 1, (3, 0x800, 0xD800), by decide, rfl, by decide, by decide⟩
  split
  · rcases Nat.lt_or_ge b.toNat 0xED with hbefore | hafter
    · exact After.of_bits 3 0x800 0xD800 (by decide) rfl (by omega) (by omega)
    · exact After.of_bits 3 0xE000 0x10000 (by decide) rfl (by omega) (by omega)
  split
  · exact ⟨Nat.succ_pos 2, (4, 0x10000, 0x110000), by decide, rfl, by decide, by decide⟩
  split
  · exact After.of_bits 4 0x10000 0x110000 (by decide) rfl (by omega) (by omega)
  split
  · exact ⟨Nat.succ_pos 2, (4, 0x10000, 0x110000), by decide, rfl, by decide, by decide⟩
  · trivial

/-- **One more byte of a character** narrows the range of what it may come to. -/
theorem Unfinished.After.next {u : Unfinished} {count : Nat} (h : u.After count) {b : UInt8}
    {reading : Reading} (hnext : Reading.next u b = some reading) : reading.Sound (count + 1) := by
  obtain ⟨hpos, r, hr, hcount, hleast, hbound⟩ := h
  rw [Reading.next] at hnext
  split at hnext
  · rename_i hb
    have hlow : u.low.toNat ≤ b.toNat := UInt8.le_iff_toNat_le.mp hb.1
    have hhigh : b.toNat ≤ u.high.toNat := UInt8.le_iff_toNat_le.mp hb.2
    obtain rfl := Option.some.inj hnext
    have hleast' : r.2.1 ≤ (u.bits * 64 + (b.toNat - 0x80)) * 64 ^ (u.missing - 1) :=
      Nat.le_trans hleast (Nat.mul_le_mul_right _ (by omega))
    have hbound' : (u.bits * 64 + (b.toNat - 0x80) + 1) * 64 ^ (u.missing - 1) ≤ r.2.2 :=
      Nat.le_trans (Nat.mul_le_mul_right _ (by omega)) hbound
    split
    · have hone : u.missing = 1 := by omega
      rw [hone, Nat.sub_self, Nat.pow_zero, Nat.mul_one] at hleast' hbound'
      rw [Reading.Sound, utf8Size_ofNat hr hleast' hbound', ← hcount, hone]
    · obtain ⟨m, hm⟩ : ∃ m, u.missing = m + 2 := ⟨u.missing - 2, by omega⟩
      have hrest : m + 2 - 1 = m + 1 := rfl
      rw [hm, hrest] at hleast' hbound'
      rw [hm] at hcount ⊢
      exact After.of_bits r.1 r.2.1 r.2.2 hr (by omega) hleast' hbound'
  · cases hnext

/-- A text from an option of its first character and an option of the others. -/
theorem exists_of_mapM_cons {c : Option Char} {cs : List (Option Char)} {s : Text}
    (h : (c :: cs).mapM id = some s) : ∃ d t, c = some d ∧ cs.mapM id = some t ∧ s = d :: t := by
  simp only [List.mapM_cons, id_eq, Option.bind_eq_bind, Option.bind_eq_some_iff, Option.pure_def,
    Option.some.injEq] at h
  obtain ⟨d, rfl, t, ht, rfl⟩ := h
  exact ⟨d, t, rfl, ht, rfl⟩

/-- **What is already read of a character**, if anything is, and of how many bytes it is. -/
def Pending (count : Nat) : Option Unfinished → Prop
  | none => count = 0
  | some u => u.After count

/-- The pieces of a byte list, after a reading. -/
def Reading.piecesFrom (bs : Bytes) : Reading → List (Option Char)
  | piece c => c :: pieces none bs
  | unfinished u => pieces (some u) bs

theorem pieces_none_cons (b : UInt8) (bs : Bytes) :
    pieces none (b :: bs) = (Reading.first b).piecesFrom bs := by
  rw [pieces]
  cases Reading.first b <;> rfl

theorem pieces_some_cons {u : Unfinished} {b : UInt8} {reading : Reading}
    (h : Reading.next u b = some reading) (bs : Bytes) :
    pieces (some u) (b :: bs) = reading.piecesFrom bs := by
  rw [pieces, h]
  cases reading <;> rfl

/-- A byte with which a character cannot go on leaves a mark. -/
theorem mapM_pieces_eq_none {u : Unfinished} {b : UInt8} (h : Reading.next u b = none)
    (bs : Bytes) :
    (pieces (some u) (b :: bs)).mapM id = none := by
  rw [pieces, h]
  rfl

/-- After a reading of so many bytes, the text takes these and those that follow, if it does so with
whatever is pending. -/
theorem size_of_piecesFrom {reading : Reading} {count : Nat} {bs : Bytes} {s : Text}
    (hsound : reading.Sound count)
    (hrest : ∀ {u : Option Unfinished} {count : Nat} {s : Text}, Pending count u →
      (pieces u bs).mapM id = some s → size s = count + bs.length)
    (h : (reading.piecesFrom bs).mapM id = some s) : size s = count + bs.length := by
  cases reading with
  | piece c =>
    obtain ⟨d, t, rfl, ht, rfl⟩ := exists_of_mapM_cons h
    have hd : d.utf8Size = count := hsound
    rw [size_cons, hd, hrest (u := none) rfl ht, Nat.zero_add]
  | unfinished u => exact hrest (u := some u) hsound h

/-- **The pieces of a byte list** take its bytes and those of what is already read, if there are no
marks among them. -/
theorem size_of_pieces (bs : Bytes) {u : Option Unfinished} {count : Nat} {s : Text}
    (hu : Pending count u) (h : (pieces u bs).mapM id = some s) : size s = count + bs.length := by
  induction bs generalizing u count s with
  | nil =>
    cases u with
    | none =>
      cases h
      exact hu.symm
    | some u => cases h
  | cons b bs ih =>
    cases u with
    | none =>
      obtain rfl : count = 0 := hu
      rw [pieces_none_cons] at h
      rw [size_of_piecesFrom (Reading.sound_first b) ih h, List.length_cons, Nat.zero_add,
        Nat.add_comm]
    | some u =>
      cases hnext : Reading.next u b with
      | none =>
        rw [mapM_pieces_eq_none hnext] at h
        cases h
      | some reading =>
        rw [pieces_some_cons hnext] at h
        rw [size_of_piecesFrom (Unfinished.After.next hu hnext) ih h, List.length_cons,
          Nat.add_right_comm, Nat.add_assoc]

/-- **A text takes as many bytes as it is read from.** -/
theorem size_of_decode {bs : Bytes} {s : Text} (h : decode bs = some s) : size s = bs.length := by
  rw [size_of_pieces bs (u := none) rfl h, Nat.zero_add]

end Delog.Text
