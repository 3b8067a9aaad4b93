import Delog.Proofs.Text.Content

/-!
# Proofs/Text/Ending — the line endings of a text, and texts that keep to one of them

A newline and a carriage return are of no other use in a paired text than to end lines, so that the
endings of its lines tell where both of them stand.  A text keeps to `\r\n` when it has no other
ending and is paired.

* `endings_append` — the endings of a text are those of its parts
* `detect_eq`, `mem_endings_of_final` — the convention of a text and its final ending are among them
* `keepsToCrlf_iff` — a text keeps to `\r\n` when it is paired and has no other ending
-/

namespace Delog.Text

/-- **The line endings of a text**, in order. -/
def endings (s : Text) : List LineEnding := (lines s).filterMap Line.ending

/-! ## The endings of the parts -/

@[simp] theorem endings_nil : endings [] = [] := rfl

@[simp] theorem endings_ending_append (e : LineEnding) (s : Text) :
    endings (e.text ++ s) = e :: endings s := by
  rw [endings, lines_ending_append]
  rfl

/-- A character that starts no line break goes to a line, and not to its ending. -/
theorem endings_cons {c : Char} {s : Text} (hc : afterBreak? (c :: s) = none) :
    endings (c :: s) = endings s := by
  rw [endings, endings, lines_cons hc]
  cases lines s with
  | nil => rfl
  | cons l ls => cases h : l.ending <;> simp [h]

/-- What stands on a line ends none. -/
theorem endings_inline_append {k : Text} (hk : isInline k = true) (s : Text) :
    endings (k ++ s) = endings s := by
  induction k with
  | nil => rfl
  | cons c k ih =>
    rw [isInline, List.all_cons, Bool.and_eq_true] at hk
    have hc : c ≠ '\n' ∧ c ≠ '\r' := by simpa using hk.1
    rw [List.cons_append, endings_cons (afterBreak?_cons_of_ne hc.1 hc.2 _), ih hk.2]

theorem endings_inline {k : Text} (hk : isInline k = true) : endings k = [] := by
  simpa using endings_inline_append hk []

/-- **The endings of a text are those of its parts**, if it is not cut inside of one. -/
theorem endings_append {a : Text} (ha : isPaired a = true) (b : Text) :
    endings (a ++ b) = endings a ++ endings b := by
  refine line_induction (P := fun a => endings (a ++ b) = endings a ++ endings b)
    (fun k hk => ?_) (fun k e s hk _ ih => ?_) ha
  · rw [endings_inline_append hk, endings_inline hk, List.nil_append]
  · rw [List.append_assoc, List.append_assoc, endings_inline_append hk, endings_ending_append, ih,
      endings_inline_append hk, endings_ending_append, List.cons_append]

/-- **Where a line ends**, its ending parts the text. -/
theorem exists_of_mem_endings {s : Text} (hs : isPaired s = true) {e : LineEnding}
    (he : e ∈ endings s) : ∃ a b, s = a ++ (e.text ++ b) ∧ isPaired a = true := by
  revert he
  refine line_induction (P := fun s => e ∈ endings s →
    ∃ a b, s = a ++ (e.text ++ b) ∧ isPaired a = true) (fun k hk he => ?_)
    (fun k e' s hk _ ih he => ?_) hs
  · rw [endings_inline hk] at he
    cases he
  · have hpaired : isPaired k = true := by
      simpa [isPaired] using isPaired_inline_append hk []
    rw [endings_inline_append hk, endings_ending_append, List.mem_cons] at he
    rcases he with rfl | he
    · exact ⟨k, s, rfl, hpaired⟩
    · obtain ⟨a, b, rfl, ha⟩ := ih he
      refine ⟨k ++ (e'.text ++ a), b, by simp only [List.append_assoc], ?_⟩
      rw [isPaired_inline_append hk, isPaired_ending_append, ha]

/-- A solid segment of a paired text is paired. -/
theorem isPaired_of_solid {a b c : Text} (hb : isSolid b = true)
    (h : isPaired (a ++ (b ++ c)) = true) : isPaired b = true := by
  refine isPaired_of_getLast? ?_ (isPaired_of_suffix (List.suffix_append a _) h)
  obtain ⟨t, d, rfl, hd⟩ := exists_append_of_isSolid hb
  rw [List.getLast?_concat]
  rintro ⟨⟩
  cases hd

/-! ## Taking from the ends -/

theorem isInline_of_horizontal {k : Text} (hk : k.all isHorizontal = true) : isInline k = true := by
  rw [isInline, List.all_eq_true]
  intro c hc
  have h := List.all_eq_true.mp hk c hc
  rw [isHorizontal, Bool.and_assoc, Bool.and_eq_true] at h
  exact h.2

theorem endings_dropWhile (s : Text) : endings (s.dropWhile isHorizontal) = endings s := by
  have h := endings_inline_append (k := s.takeWhile isHorizontal)
    (isInline_of_horizontal List.all_takeWhile) (s.dropWhile isHorizontal)
  rw [List.takeWhile_append_dropWhile] at h
  exact h.symm

theorem endings_dropEndWhile {s : Text} (hs : isPaired s = true) :
    endings (dropEndWhile isHorizontal s) = endings s := by
  have h := endings_append (isPaired_dropEndWhile hs) (takeEndWhile isHorizontal s)
  rw [dropEndWhile_append_takeEndWhile,
    endings_inline (isInline_of_horizontal (all_takeEndWhile _ s)), List.append_nil] at h
  exact h.symm

/-- Of the endings of a text only the first one goes with a line break that the text starts with. -/
theorem endings_afterBreak_subset (s : Text) :
    endings ((afterBreak? s).getD s) ⊆ endings s := by
  cases h : afterBreak? s with
  | none => exact List.Subset.refl _
  | some t =>
    obtain ⟨e, rfl⟩ := exists_ending_of_afterBreak? h
    rw [endings_ending_append]
    exact List.subset_cons_self _ _

/-! ## The convention of a text, and its final ending -/

/-- **The convention of a text is its first ending.** -/
theorem detect_eq (s : Text) : LineEnding.detect s = (endings s).head?.getD .lf := by
  induction s using break_induction with
  | nil => rfl
  | ending e s ih =>
    rw [endings_ending_append]
    cases e <;> rfl
  | char c s hc ih =>
    rw [endings_cons hc, ← ih, LineEnding.detect.eq_def]
    split
    · rename_i h
      cases h
    · rename_i h
      cases h
      cases hc
    · rename_i h
      cases h
      cases hc
    · rename_i h
      cases h
      rfl

/-- The convention of a text with line breaks is one of its endings. -/
theorem detect_mem_endings {s : Text} (h : endings s ≠ []) :
    LineEnding.detect s ∈ endings s := by
  obtain ⟨e, es, hes⟩ := List.exists_cons_of_ne_nil h
  simp [detect_eq, hes]

/-- The convention is `\r\n` only in a text with a carriage return. -/
theorem mem_of_mem_detect {s : Text} (h : '\r' ∈ (LineEnding.detect s).text) : '\r' ∈ s := by
  fun_induction LineEnding.detect s with
  | case1 => simp [LineEnding.text] at h
  | case2 => simp [LineEnding.text] at h
  | case3 => exact List.mem_cons_self
  | case4 c s _ _ ih => exact List.mem_cons_of_mem _ (ih h)

/-- The final ending of a text stands behind all else. -/
theorem exists_eq_append_of_final {s : Text} {e : LineEnding} (h : LineEnding.final s = some e) :
    ∃ a, s = a ++ e.text ∧ (e = .lf → a.getLast? ≠ some '\r') := by
  rw [LineEnding.final] at h
  split at h
  · rename_i t hs
    cases h
    exact ⟨t.reverse, by simpa [LineEnding.text] using congrArg List.reverse hs, by simp⟩
  · rename_i t hreturn hs
    cases h
    refine ⟨t.reverse, by simpa [LineEnding.text] using congrArg List.reverse hs, fun _ hlast => ?_⟩
    rw [List.getLast?_reverse] at hlast
    obtain ⟨u, rfl⟩ := List.head?_eq_some_iff.mp hlast
    exact hreturn u rfl
  · cases h

/-- **The final ending of a text is one of its endings.** -/
theorem mem_endings_of_final {s : Text} (hs : isPaired s = true) {e : LineEnding}
    (h : LineEnding.final s = some e) : e ∈ endings s := by
  obtain ⟨a, rfl, hlast⟩ := exists_eq_append_of_final h
  have ha : isPaired a = true := by
    cases e with
    | lf => exact isPaired_of_getLast? (hlast rfl) hs
    | crlf => exact isPaired_of_append (by simp [LineEnding.text]) hs
  have hfinal : endings e.text = [e] := by simpa using endings_ending_append e []
  rw [endings_append ha, hfinal]
  exact List.mem_append_right _ List.mem_cons_self

/-! ## Texts that keep to one ending -/

/-- **A text keeps to `\r\n`**: before every newline there is a carriage return, and after every
carriage return a newline. -/
structure KeepsToCrlf (s : Text) : Prop where
  before_newline : ∀ a b, s = a ++ '\n' :: b → a.getLast? = some '\r'
  after_return : ∀ a b, s = a ++ '\r' :: b → b.head? = some '\n'

/-- A text is paired when a newline follows every carriage return. -/
theorem isPaired_iff {s : Text} :
    isPaired s = true ↔ ∀ a b, s = a ++ '\r' :: b → b.head? = some '\n' := by
  constructor
  · rintro h a b rfl
    have hb := isPaired_of_suffix (List.suffix_append a _) h
    rw [isPaired, Bool.and_eq_true] at hb
    simpa using hb.1
  · intro h
    induction s with
    | nil => rfl
    | cons c s ih =>
      rw [isPaired, ih fun a b hs => h (c :: a) b (by rw [hs, List.cons_append]), Bool.and_true]
      by_cases hc : c = '\r'
      · simp [h [] s (by rw [hc, List.nil_append])]
      · simp [hc]

/-- **A text keeps to `\r\n` when it is paired and has no other ending.** -/
theorem keepsToCrlf_iff {s : Text} :
    KeepsToCrlf s ↔ isPaired s = true ∧ ∀ e ∈ endings s, e = .crlf := by
  constructor
  · rintro ⟨hbefore, hafter⟩
    have hs := isPaired_iff.mpr hafter
    refine ⟨hs, fun e he => ?_⟩
    obtain ⟨a, b, rfl, ha⟩ := exists_of_mem_endings hs he
    cases e with
    | crlf => rfl
    | lf =>
      obtain ⟨k, rfl⟩ := List.getLast?_eq_some_iff.mp (hbefore a b rfl)
      have hk := isPaired_iff.mp ha k [] rfl
      cases hk
  · rintro ⟨hs, hcrlf⟩
    refine ⟨?_, isPaired_iff.mp hs⟩
    rintro a b rfl
    by_contra hlast
    have hlf : LineEnding.lf ∈ endings (a ++ '\n' :: b) := by
      rw [endings_append (isPaired_of_getLast? hlast hs)]
      exact List.mem_append_right _ (by
        rw [show '\n' :: b = LineEnding.lf.text ++ b from rfl, endings_ending_append]
        exact List.mem_cons_self)
    cases hcrlf _ hlf

end Delog.Text
