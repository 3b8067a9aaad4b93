import Delog.Proofs.Removal.Upkeep
import Delog.Proofs.Text.Chunks
import Delog.Proofs.Text.Encode

/-!
# Proofs/Removal/Pass — collapsing runs of line breaks in one pass over the bytes

The pass over the bytes reads on by a byte or by a run of line breaks, and cuts the text at the ends
of runs.  No line break is counted from inside a character, so it turns at the chunks of the text as
the recursion on the characters does, and cuts no character.

* `Pass.run_join`, `collapseBreaks_join` — what the pass, and the recursion on the characters, make
  of maximal chunks
* `collapse_settles_maximal_runs` — both settle the runs of the text and keep the pieces between
  them
-/

namespace Delog.Removal

open Text

/-! ## Line breaks in the bytes of a text -/

/-- No line breaks are counted where none starts. -/
theorem countBreaks_encode {s : Text} (hs : afterBreak? s = none) (n : BreakCount) :
    countBreaks n (encode s) = n := by
  rw [countBreaks.eq_def]
  split
  · rename_i h
    obtain ⟨t, rfl, ht⟩ := exists_of_encode_eq_cons (by decide) h
    obtain ⟨u, rfl, -⟩ := exists_of_encode_eq_cons (by decide) ht
    cases hs
  · rename_i h
    obtain ⟨t, rfl, -⟩ := exists_of_encode_eq_cons (by decide) h
    cases hs
  · rfl

/-- A byte beyond ASCII is no part of a line break. -/
theorem countBreaks_cons {b : UInt8} (hb : 0x80 ≤ b.toNat) (n : BreakCount) (bs : Bytes) :
    countBreaks n (b :: bs) = n := by
  rw [countBreaks]
  · rintro _ ⟨rfl, -⟩
    exact absurd hb (by decide)
  · rintro _ ⟨rfl, -⟩
    exact absurd hb (by decide)

/-- **Nor are any counted from a byte inside a character.** -/
theorem countBreaks_drop {c : Char} {s : Text} (hc : afterBreak? (c :: s) = none) {k : Nat}
    (hk : k < c.utf8Size) (n : BreakCount) : countBreaks n ((encode (c :: s)).drop k) = n := by
  have hlength := String.length_utf8EncodeChar c
  rcases utf8EncodeChar_cases c with ⟨-, hone⟩ | hbeyond
  · rw [hone, List.length_singleton] at hlength
    obtain rfl : k = 0 := by omega
    exact countBreaks_encode hc n
  · have hdrop : (encode (c :: s)).drop k =
        (String.utf8EncodeChar c)[k] :: ((String.utf8EncodeChar c).drop (k + 1) ++ encode s) := by
      rw [encode, List.flatMap_cons, ← encode, List.drop_append_of_le_length (by omega),
        List.drop_eq_getElem_cons (by omega), List.cons_append]
    have hge : 0x80 ≤ ((String.utf8EncodeChar c)[k]).toNat := hbeyond _ (List.getElem_mem _)
    rw [hdrop, countBreaks_cons hge]

/-- **A whole run of line breaks is counted.** -/
theorem countBreaks_run {s : Text} (hs : afterBreak? s = none) (es : List LineEnding)
    (n : BreakCount) : countBreaks n (encode (es.flatMap LineEnding.text ++ s)) =
      ⟨n.bytes + size (es.flatMap LineEnding.text), n.breaks + es.length⟩ := by
  induction es generalizing n with
  | nil => exact countBreaks_encode hs n
  | cons e es ih =>
    have hbreak : ∀ t, countBreaks n (encode (e.text ++ t)) =
        countBreaks ⟨n.bytes + size e.text, n.breaks + 1⟩ (encode t) := by
      cases e <;> exact fun _ => rfl
    rw [List.flatMap_cons, List.append_assoc, hbreak, ih, size_append, List.length_cons,
      Nat.add_assoc, Nat.add_assoc, Nat.add_comm 1]

/-! ## What the pass makes of chunks -/

/-- What collapsing makes of a chunk of a text: a piece stays, and a run is settled. -/
def settleChunk (ending : LineEnding) : Chunk → Text
  | .piece s => s
  | .run es => settleRun ending es

/-- **A text with its runs of line breaks collapsed**, chunk by chunk. -/
def settleChunks (ending : LineEnding) (ps : List Chunk) : Text := ps.flatMap (settleChunk ending)

@[simp] theorem settleChunks_cons (ending : LineEnding) (p : Chunk) (ps : List Chunk) :
    settleChunks ending (p :: ps) = settleChunk ending p ++ settleChunks ending ps := rfl

/-- A segment is the slice between its ends. -/
theorem slice?_append_append (a x t : Text) :
    slice? (a ++ (x ++ t)) ⟨size a, size (a ++ x)⟩ = some x := by
  have hstop := isBoundary_size_append (a ++ x) t
  rw [List.append_assoc] at hstop
  rw [slice?, if_pos ⟨by simp, isBoundary_size_append a _, hstop⟩, size_append, slice_append_append]

namespace Pass

variable {ending : LineEnding} {s : Text} {p q : Pass}

theorem run_of_turn (hlt : p.next < size s) (h : p.turn ending s = some q) :
    p.run ending s = q.run ending s := by
  rw [run, if_pos hlt]
  split
  · rename_i r hr
    rw [h] at hr
    cases hr
    rfl
  · rename_i hr
    rw [h] at hr
    cases hr

theorem run_of_end (h : size s ≤ p.next) : p.run ending s = p.finish s := by
  rw [run, if_neg (Nat.not_lt.mpr h)]

/-- Bytes at which no line break starts are passed over. -/
theorem run_skip {n : Nat} (hle : p.next + n ≤ size s)
    (h : ∀ k < n, countBreaks ⟨0, 0⟩ ((encode s).drop (p.next + k)) = ⟨0, 0⟩) :
    p.run ending s = Pass.run ending s { p with next := p.next + n } := by
  induction n generalizing p with
  | zero => rfl
  | succ n ih =>
    have hturn : p.turn ending s = some { p with next := p.next + 1 } := by
      have hfirst := h 0 (Nat.succ_pos n)
      rw [Nat.add_zero] at hfirst
      simp only [turn, hfirst, if_pos]
    have hnext : ∀ k, p.next + 1 + k = p.next + (k + 1) := fun k => by omega
    rw [run_of_turn (by omega) hturn, ih (by simp only; omega) fun k hk => ?_]
    · simp only [hnext]
    · simpa only [hnext] using h (k + 1) (by omega)

/-- **A piece is passed over**, and stays to be copied. -/
theorem run_piece (ending : LineEnding) {x rest : Text} (hx : Unbroken rest x) (a out : Text)
    (copied : Nat) :
    Pass.run ending (a ++ (x ++ rest)) ⟨size a, copied, out⟩ =
      Pass.run ending (a ++ (x ++ rest)) ⟨size (a ++ x), copied, out⟩ := by
  induction x generalizing a with
  | nil => rw [List.append_nil]
  | cons c x ih =>
    obtain ⟨hc, hx⟩ := hx
    have hsize : size (a ++ [c]) = size a + c.utf8Size := by simp
    have hskip : Pass.run ending (a ++ (c :: x ++ rest)) ⟨size a, copied, out⟩ =
        Pass.run ending (a ++ (c :: x ++ rest)) ⟨size (a ++ [c]), copied, out⟩ := by
      rw [hsize]
      refine run_skip ?_ fun k hk => ?_
      · simp only [size_append, size_cons, List.cons_append]
        omega
      · rw [drop_encode_append]
        exact countBreaks_drop hc hk _
    have hrest := ih hx (a ++ [c])
    simp only [List.append_assoc, List.singleton_append] at hrest
    exact hskip.trans hrest

/-- **A run of line breaks is one turn.**  Three or more breaks are replaced, once what stands
before them is copied. -/
theorem turn_run (ending : LineEnding) {es : List LineEnding} {rest : Text}
    (h : Chunk.IsRun es rest) (a x out : Text) :
    Pass.turn ending (a ++ (x ++ (es.flatMap LineEnding.text ++ rest)))
        ⟨size (a ++ x), size a, out⟩ =
      some (if 3 ≤ es.length then
        ⟨size (a ++ x ++ es.flatMap LineEnding.text), size (a ++ x ++ es.flatMap LineEnding.text),
          out ++ x ++ ending.text ++ ending.text⟩
      else ⟨size (a ++ x ++ es.flatMap LineEnding.text), size a, out⟩) := by
  have hcount : countBreaks ⟨0, 0⟩
      ((encode (a ++ (x ++ (es.flatMap LineEnding.text ++ rest)))).drop (size (a ++ x))) =
        ⟨size (es.flatMap LineEnding.text), es.length⟩ := by
    have hdrop := drop_encode_append (a ++ x) (es.flatMap LineEnding.text ++ rest) 0
    rw [Nat.add_zero, List.append_assoc, List.drop_zero] at hdrop
    rw [hdrop, countBreaks_run h.stops, Nat.zero_add, Nat.zero_add]
  have hne : es.length ≠ 0 := mt List.length_eq_zero_iff.mp h.ne_nil
  rw [size_append (a ++ x)]
  simp only [turn, hcount, if_neg hne, slice?_append_append, Option.map_some]
  split <;> rfl

/-- **What the pass makes of maximal chunks**, after the text `a` that is copied or replaced and the
text `x` that is still to be copied. -/
theorem run_join (ending : LineEnding) {ps : List Chunk} (hps : Chunk.AreMaximal ps)
    (a x out : Text) :
    Pass.run ending (a ++ (x ++ Chunk.join ps)) ⟨size (a ++ x), size a, out⟩ =
      some (out ++ (x ++ settleChunks ending ps)) := by
  induction ps generalizing a x out with
  | nil =>
    have hslice := slice?_append_append a x []
    rw [Chunk.join_nil, run_of_end (by simp), finish]
    rw [List.append_nil] at hslice ⊢
    rw [hslice, Option.map_some]
    simp [settleChunks]
  | cons p ps ih =>
    obtain ⟨hp, hps⟩ := hps
    cases p with
    | piece y =>
      have hpiece := run_piece ending hp.unbroken (a ++ x) out (size a)
      have hrest := ih hps a (x ++ y) out
      simp only [List.append_assoc] at hpiece hrest
      rw [Chunk.join_cons, Chunk.text, hpiece, hrest, settleChunks_cons, settleChunk]
    | run es =>
      have hturn := turn_run ending hp a x out
      have hlt : size (a ++ x) <
          size (a ++ (x ++ (es.flatMap LineEnding.text ++ Chunk.join ps))) := by
        have hpos : es.flatMap LineEnding.text ++ Chunk.join ps ≠ [] := fun hnil =>
          Chunk.afterBreak?_run hp.ne_nil (Chunk.join ps) (by rw [hnil]; rfl)
        have := size_pos hpos
        rw [← List.append_assoc, size_append (a ++ x)]
        omega
      rw [Chunk.join_cons, Chunk.text, run_of_turn hlt hturn, settleChunks_cons, settleChunk,
        settleRun]
      by_cases hlong : 3 ≤ es.length
      · have hrest := ih hps (a ++ x ++ es.flatMap LineEnding.text) []
          (out ++ x ++ ending.text ++ ending.text)
        rw [if_pos hlong, if_pos hlong]
        simpa only [List.append_assoc, List.nil_append, List.append_nil] using hrest
      · have hrest := ih hps a (x ++ es.flatMap LineEnding.text) out
        rw [if_neg hlong, if_neg hlong]
        simpa only [List.append_assoc] using hrest

end Pass

/-- **The pass settles the chunks of a text.** -/
theorem passOver_eq (ending : LineEnding) (s : Text) :
    passOver ending s = some (settleChunks ending (chunks s)) := by
  have h := Pass.run_join ending (areMaximal_chunks s) [] [] []
  rwa [join_chunks] at h

/-- Behind a character of two bytes, three bare newlines become two breaks of the other kind. -/
example : passOver .crlf ['ä', '\n', '\n', '\n', 'b'] =
    some ['ä', '\r', '\n', '\r', '\n', 'b'] := by cbv

/-! ## What the recursion on the characters makes of chunks -/

theorem collapseFrom_piece_append (ending : LineEnding) {x rest : Text} (hx : Unbroken rest x) :
    collapseFrom ending [] (x ++ rest) = x ++ collapseFrom ending [] rest := by
  induction x with
  | nil => rfl
  | cons c x ih =>
    rw [List.cons_append, collapseFrom_cons ending [] hx.1, ih hx.2]
    rfl

theorem collapseFrom_run_append (ending : LineEnding) {rest : Text}
    (hrest : afterBreak? rest = none) (run es : List LineEnding) :
    collapseFrom ending run (es.flatMap LineEnding.text ++ rest) =
      settleRun ending (run ++ es) ++ collapseFrom ending [] rest := by
  induction es generalizing run with
  | nil =>
    rw [List.flatMap_nil, List.nil_append, List.append_nil]
    cases rest with
    | nil => simp [collapseFrom, settleRun]
    | cons c rest =>
      rw [collapseFrom_cons ending run hrest, collapseFrom_cons ending [] hrest]
      rfl
  | cons e es ih =>
    rw [List.flatMap_cons, List.append_assoc, collapseFrom_ending_append, ih, List.append_assoc,
      List.singleton_append]

/-- **What collapsing makes of maximal chunks.** -/
theorem collapseBreaks_join (ending : LineEnding) {ps : List Chunk} (hps : Chunk.AreMaximal ps) :
    collapseBreaks ending (Chunk.join ps) = settleChunks ending ps := by
  induction ps with
  | nil => rfl
  | cons p ps ih =>
    obtain ⟨hp, hps⟩ := hps
    rw [Chunk.join_cons, settleChunks_cons, ← ih hps]
    cases p with
    | piece y => exact collapseFrom_piece_append ending hp.unbroken
    | run es => exact collapseFrom_run_append ending hp.stops [] es

/-- **Collapsing settles the maximal runs of line breaks and keeps the pieces between them.**  A
text is cut into maximal chunks in one way.  Collapsing it, character by character, gives the chunks
with the runs settled; and so does the pass over the bytes, which cuts no character and reads on
with each turn. -/
theorem collapse_settles_maximal_runs (ending : LineEnding) (s : Text) :
    (∀ ps, Chunk.AreMaximal ps ∧ Chunk.join ps = s ↔ ps = chunks s) ∧
      collapseBreaks ending s = settleChunks ending (chunks s) ∧
      passOver ending s = some (settleChunks ending (chunks s)) ∧
      ∀ p q : Pass, p.turn ending s = some q → p.next < q.next := by
  refine ⟨fun ps => areMaximal_and_join_eq_iff, ?_, passOver_eq ending s,
    fun p q => Pass.next_lt_of_turn⟩
  have h := collapseBreaks_join ending (areMaximal_chunks s)
  rwa [join_chunks] at h

end Delog.Removal
