import Delog.Proofs.Text.Break

/-!
# Proofs/Text/Chunks — a text cut at its runs of line breaks

A text is made up of runs of line breaks and of the pieces between them.  The cut is right if no
line break starts inside a piece, a piece ends only where one starts, and none starts where a run
ends.  There is just one such cut, and reading the text from left to right finds it.

* `chunks_piece_append`, `chunks_run_append` — the chunks of a text that starts with a maximal one
* `areMaximal_and_join_eq_iff` — the one cut of a text into maximal chunks
-/

namespace Delog

open Text

/-- **A chunk of a text**: a piece without line breaks, or a run of line breaks. -/
inductive Chunk where
  | piece (s : Text)
  | run (es : List LineEnding)
deriving DecidableEq, Repr

/-- Whether no line break starts at a character of a text in front of the text `rest`. -/
def Text.Unbroken (rest : Text) : Text → Prop
  | [] => True
  | c :: s => afterBreak? (c :: (s ++ rest)) = none ∧ Unbroken rest s

namespace Chunk

/-- The chunk as it stands in the text. -/
def text : Chunk → Text
  | piece s => s
  | run es => es.flatMap LineEnding.text

/-- The text made up of chunks. -/
def join (ps : List Chunk) : Text := ps.flatMap text

/-- **A piece that is as long as it can be**: a line break starts nowhere in it, but where it ends,
unless the text ends there too. -/
structure IsPiece (s rest : Text) : Prop where
  ne_nil : s ≠ []
  unbroken : Unbroken rest s
  stops : rest ≠ [] → afterBreak? rest ≠ none

/-- **A run of line breaks that is as long as it can be**: none starts where it ends. -/
structure IsRun (es : List LineEnding) (rest : Text) : Prop where
  ne_nil : es ≠ []
  stops : afterBreak? rest = none

/-- Whether a chunk is as long as it can be in front of the text `rest`. -/
def IsMaximal (rest : Text) : Chunk → Prop
  | piece s => IsPiece s rest
  | run es => IsRun es rest

/-- **Whether chunks are the maximal ones** of the text that they make up. -/
def AreMaximal : List Chunk → Prop
  | [] => True
  | p :: ps => p.IsMaximal (join ps) ∧ AreMaximal ps

/-- The chunks of a text behind a further line break. -/
def consBreak (e : LineEnding) : List Chunk → List Chunk
  | run es :: ps => run (e :: es) :: ps
  | ps => run [e] :: ps

/-- The chunks of a text behind a character that starts no line break. -/
def consChar (c : Char) : List Chunk → List Chunk
  | piece s :: ps => piece (c :: s) :: ps
  | ps => piece [c] :: ps

end Chunk

/-- **The chunks of a text**, read from left to right.  A carriage return without a newline after it
is an ordinary character. -/
def Text.chunks : Text → List Chunk
  | [] => []
  | '\n' :: s => Chunk.consBreak .lf (chunks s)
  | '\r' :: '\n' :: s => Chunk.consBreak .crlf (chunks s)
  | c :: s => Chunk.consChar c (chunks s)

namespace Chunk

@[simp] theorem join_nil : join [] = [] := rfl

@[simp] theorem join_cons (p : Chunk) (ps : List Chunk) : join (p :: ps) = p.text ++ join ps := rfl

@[simp] theorem join_consBreak (e : LineEnding) (ps : List Chunk) :
    join (consBreak e ps) = e.text ++ join ps := by
  rw [consBreak.eq_def]
  split <;> simp [text]

@[simp] theorem join_consChar (c : Char) (ps : List Chunk) :
    join (consChar c ps) = c :: join ps := by
  rw [consChar.eq_def]
  split <;> simp [text]

/-- No line break starts where a maximal piece does. -/
theorem IsPiece.afterBreak? {s rest : Text} (h : IsPiece s rest) :
    Text.afterBreak? (s ++ rest) = none := by
  obtain ⟨c, s, rfl⟩ := List.exists_cons_of_ne_nil h.ne_nil
  exact h.unbroken.1

/-- A line break starts where a run of them does. -/
theorem afterBreak?_run {es : List LineEnding} (hne : es ≠ []) (s : Text) :
    Text.afterBreak? (es.flatMap LineEnding.text ++ s) ≠ none := by
  obtain ⟨e, es, rfl⟩ := List.exists_cons_of_ne_nil hne
  rw [List.flatMap_cons, List.append_assoc, afterBreak?_ending_append]
  exact Option.some_ne_none _

/-- **A further line break** goes into the run at the start, or is a run of its own. -/
theorem AreMaximal.consBreak {ps : List Chunk} (h : AreMaximal ps) (e : LineEnding) :
    AreMaximal (consBreak e ps) := by
  match ps, h with
  | [], _ => exact ⟨⟨List.cons_ne_nil _ _, rfl⟩, trivial⟩
  | piece s :: ps, h => exact ⟨⟨List.cons_ne_nil _ _, h.1.afterBreak?⟩, h⟩
  | run es :: ps, h => exact ⟨⟨List.cons_ne_nil _ _, h.1.stops⟩, h.2⟩

/-- **A further character that starts no line break** goes into the piece at the start, or is a
piece of its own. -/
theorem AreMaximal.consChar {ps : List Chunk} (h : AreMaximal ps) {c : Char}
    (hc : Text.afterBreak? (c :: join ps) = none) : AreMaximal (consChar c ps) := by
  match ps, h with
  | [], _ => exact ⟨⟨List.cons_ne_nil _ _, ⟨hc, trivial⟩, fun hne => absurd rfl hne⟩, trivial⟩
  | run es :: ps, h =>
    exact ⟨⟨List.cons_ne_nil _ _, ⟨hc, trivial⟩, fun _ => afterBreak?_run h.1.ne_nil _⟩, h⟩
  | piece s :: ps, h =>
    exact ⟨⟨List.cons_ne_nil _ _, ⟨hc, h.1.unbroken⟩, h.1.stops⟩, h.2⟩

end Chunk

namespace Text

open Chunk

@[simp] theorem chunks_ending_append (e : LineEnding) (s : Text) :
    chunks (e.text ++ s) = consBreak e (chunks s) := by
  cases e with
  | lf => rw [LineEnding.text, List.singleton_append, chunks]
  | crlf => rw [LineEnding.text, List.cons_append, List.singleton_append, chunks]

theorem chunks_cons {c : Char} {s : Text} (hc : afterBreak? (c :: s) = none) :
    chunks (c :: s) = consChar c (chunks s) := by
  obtain ⟨hn, hr⟩ := ne_of_afterBreak?_cons hc
  rw [chunks]
  exacts [hn, hr]

/-- **The chunks of a text make it up.** -/
@[simp] theorem join_chunks (s : Text) : join (chunks s) = s := by
  induction s using break_induction with
  | nil => rfl
  | ending e s ih => rw [chunks_ending_append, join_consBreak, ih]
  | char c s hc ih => rw [chunks_cons hc, join_consChar, ih]

/-- **The chunks of a text are maximal.** -/
theorem areMaximal_chunks (s : Text) : AreMaximal (chunks s) := by
  induction s using break_induction with
  | nil => exact trivial
  | ending e s ih =>
    rw [chunks_ending_append]
    exact ih.consBreak e
  | char c s hc ih =>
    rw [chunks_cons hc]
    exact ih.consChar (by rwa [join_chunks])

/-! ## The chunks of a text that starts with a maximal one -/

/-- Where no line break starts, no run does. -/
theorem consBreak_chunks {s : Text} (hs : afterBreak? s = none) (e : LineEnding) :
    consBreak e (chunks s) = run [e] :: chunks s := by
  cases s with
  | nil => rfl
  | cons c s =>
    rw [chunks_cons hs, consChar.eq_def]
    split <;> rfl

/-- Where a line break starts, no piece does. -/
theorem consChar_chunks {s : Text} (hs : s ≠ [] → afterBreak? s ≠ none) (c : Char) :
    consChar c (chunks s) = piece [c] :: chunks s := by
  induction s using break_induction with
  | nil => rfl
  | ending e s =>
    rw [chunks_ending_append, consBreak.eq_def]
    split <;> rfl
  | char d s hd => exact absurd hd (hs (List.cons_ne_nil d s))

theorem chunks_piece_append {s rest : Text} (h : IsPiece s rest) :
    chunks (s ++ rest) = piece s :: chunks rest := by
  obtain ⟨hne, hs, hstops⟩ := h
  induction s with
  | nil => exact absurd rfl hne
  | cons c s ih =>
    rw [List.cons_append, chunks_cons hs.1]
    by_cases hnil : s = []
    · rw [hnil, List.nil_append, consChar_chunks hstops]
    · rw [ih hnil hs.2, consChar]

theorem chunks_run_append {es : List LineEnding} {rest : Text} (h : IsRun es rest) :
    chunks (es.flatMap LineEnding.text ++ rest) = run es :: chunks rest := by
  obtain ⟨hne, hstops⟩ := h
  induction es with
  | nil => exact absurd rfl hne
  | cons e es ih =>
    rw [List.flatMap_cons, List.append_assoc, chunks_ending_append]
    by_cases hnil : es = []
    · rw [hnil, List.flatMap_nil, List.nil_append, consBreak_chunks hstops]
    · rw [ih hnil, consBreak]

/-- **The one cut of a text** into maximal chunks is the one that reading it from left to right
finds. -/
theorem areMaximal_and_join_eq_iff {ps : List Chunk} {s : Text} :
    AreMaximal ps ∧ join ps = s ↔ ps = chunks s := by
  constructor
  · rintro ⟨hps, rfl⟩
    induction ps with
    | nil => rfl
    | cons p ps ih =>
      obtain ⟨hp, hps⟩ := hps
      rw [join_cons]
      cases p with
      | piece s => rw [text, chunks_piece_append hp, ← ih hps]
      | run es => rw [text, chunks_run_append hp, ← ih hps]
  · rintro rfl
    exact ⟨areMaximal_chunks s, join_chunks s⟩

/-- A lone carriage return stays in its piece, and breaks of both kinds make up one run. -/
example : chunks ['a', '\r', '\r', '\n', '\n', 'b'] =
    [.piece ['a', '\r'], .run [.crlf, .lf], .piece ['b']] := by decide

end Text

end Delog
