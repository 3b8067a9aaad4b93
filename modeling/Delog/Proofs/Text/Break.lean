import Delog.Proofs.Text.Segment
import Delog.Text.Line

/-!
# Proofs/Text/Break — a text as characters and line breaks

A text is read from left to right, at each step a line break or a single character.  A carriage
return is part of a break or a character of its own, as a newline follows it or not.

* `break_induction` — induction along that reading
* `lines_ending_append`, `lines_cons` — the lines of a text, along that reading
* `afterBreak?_append` — solid text after a text does not change how it is read
-/

namespace Delog.Text

@[simp] theorem afterBreak?_ending_append (e : LineEnding) (s : Text) :
    afterBreak? (e.text ++ s) = some s := by
  cases e <;> rfl

/-- A line break ends in a newline. -/
theorem exists_ending_eq_append_newline (e : LineEnding) : ∃ k, e.text = k ++ ['\n'] := by
  cases e with
  | lf => exact ⟨[], rfl⟩
  | crlf => exact ⟨['\r'], rfl⟩

theorem isBlank_of_mem_ending {e : LineEnding} {c : Char} (hc : c ∈ e.text) :
    isBlank c = true := by
  have hblank : e.text.all isBlank = true := by cases e <;> decide
  exact List.all_eq_true.mp hblank c hc

/-- A text that starts with a line break goes on after it. -/
theorem exists_ending_of_afterBreak? {s t : Text} (h : afterBreak? s = some t) :
    ∃ e : LineEnding, s = e.text ++ t := by
  rw [afterBreak?.eq_def] at h
  split at h
  · cases h
    exact ⟨.lf, rfl⟩
  · cases h
    exact ⟨.crlf, rfl⟩
  · cases h

/-- A character that starts no line break is no newline, and no carriage return before one. -/
theorem ne_of_afterBreak?_cons {c : Char} {s : Text} (h : afterBreak? (c :: s) = none) :
    c ≠ '\n' ∧ ∀ t, c = '\r' → s ≠ '\n' :: t := by
  constructor
  · rintro rfl
    cases h
  · rintro t rfl rfl
    cases h

/-- **Induction on a text, by line breaks and other characters.** -/
theorem break_induction {P : Text → Prop} (nil : P [])
    (ending : ∀ (e : LineEnding) s, P s → P (e.text ++ s))
    (char : ∀ c s, afterBreak? (c :: s) = none → P s → P (c :: s)) (s : Text) : P s := by
  induction h : s.length using Nat.strongRecOn generalizing s with
  | ind n ih =>
    subst h
    cases s with
    | nil => exact nil
    | cons c s =>
      cases hbreak : afterBreak? (c :: s) with
      | none => exact char c s hbreak (ih _ (Nat.lt_succ_self _) s rfl)
      | some t =>
        obtain ⟨e, he⟩ := exists_ending_of_afterBreak? hbreak
        rw [he]
        refine ending e t (ih t.length ?_ t rfl)
        have hpos : 0 < e.text.length := by cases e <;> decide
        rw [he, List.length_append]
        omega

/-- **Solid text that follows changes no line break.** -/
theorem afterBreak?_append {z : Text} (hz : startsSolid z = true) (s : Text) :
    afterBreak? (s ++ z) = (afterBreak? s).map (· ++ z) := by
  rcases eq_nil_or_of_startsSolid hz with rfl | ⟨c, t, rfl, hc⟩
  · simp
  · have hn := ne_newline_of_isBlank_eq_false hc
    have hr : c ≠ '\r' := by
      rintro rfl
      exact absurd hc (by decide)
    match s with
    | [] => simp [afterBreak?, hn, hr]
    | [d] => by_cases hd : d = '\n' <;> by_cases hd' : d = '\r' <;> simp [afterBreak?, hd, hd', hn]
    | d :: e :: s =>
      by_cases hd : d = '\n' <;> by_cases hd' : d = '\r' <;> by_cases he : e = '\n' <;>
        simp [afterBreak?, hd, hd', he]

theorem afterBreak?_cons_append {c : Char} {s z : Text} (hs : afterBreak? (c :: s) = none)
    (hz : startsSolid z = true) : afterBreak? (c :: (s ++ z)) = none := by
  rw [← List.cons_append, afterBreak?_append hz, hs, Option.map_none]

theorem afterBreak?_cons_eq_none {c : Char} (hc : isBlank c = false) (s : Text) :
    afterBreak? (c :: s) = none :=
  afterBreak?_append (startsSolid_cons hc s) []

/-! ## Lines -/

@[simp] theorem lines_ending_append (e : LineEnding) (s : Text) :
    lines (e.text ++ s) = ⟨[], some e⟩ :: lines s := by
  cases e with
  | lf => rw [LineEnding.text, List.singleton_append, lines]
  | crlf => rw [LineEnding.text, List.cons_append, List.singleton_append, lines]

/-- A character that starts no line break goes to the first line. -/
theorem lines_cons {c : Char} {s : Text} (hc : afterBreak? (c :: s) = none) :
    lines (c :: s) =
      match lines s with
      | [] => [⟨[c], none⟩]
      | l :: ls => ⟨c :: l.content, l.ending⟩ :: ls := by
  obtain ⟨hn, hr⟩ := ne_of_afterBreak?_cons hc
  exact lines.eq_4 c s hn hr

end Delog.Text
