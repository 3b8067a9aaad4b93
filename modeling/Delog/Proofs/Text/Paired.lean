import Delog.Proofs.Text.Break

/-!
# Proofs/Text/Paired — texts in which every carriage return is part of a line break

In a paired text a carriage return is always followed by a newline, so that a character that breaks
no line is horizontal or not blank.

* `isPaired_append`, `isPaired_of_append` — paired texts and their parts
* `exists_stop` — where the blanks at the start of a paired text stop
-/

namespace Delog.Text

/-- **Whether every carriage return is followed by a newline.** -/
def isPaired : Text → Bool
  | [] => true
  | c :: s => (c != '\r' || s.head? == some '\n') && isPaired s

/-! ## Parts of paired texts -/

/-- Paired texts may be put one after the other. -/
theorem isPaired_append {s t : Text} (hs : isPaired s = true) (ht : isPaired t = true) :
    isPaired (s ++ t) = true := by
  induction s with
  | nil => exact ht
  | cons c s ih =>
    simp only [isPaired, Bool.and_eq_true] at hs
    rw [List.cons_append, isPaired, ih hs.2, Bool.and_true]
    cases s with
    | nil => simpa using Or.inl hs.1
    | cons d s => exact hs.1

/-- The end of a paired text is paired. -/
theorem isPaired_of_suffix {s t : Text} (hsuffix : t <:+ s) (h : isPaired s = true) :
    isPaired t = true := by
  obtain ⟨a, rfl⟩ := hsuffix
  induction a with
  | nil => exact h
  | cons c a ih =>
    rw [List.cons_append, isPaired, Bool.and_eq_true] at h
    exact ih h.2

/-- The start of a paired text is paired, unless it is cut inside of a line break. -/
theorem isPaired_of_append {s t : Text} (ht : t.head? ≠ some '\n')
    (h : isPaired (s ++ t) = true) : isPaired s = true := by
  induction s with
  | nil => rfl
  | cons c s ih =>
    rw [List.cons_append, isPaired, Bool.and_eq_true] at h
    rw [isPaired, ih h.2, Bool.and_true]
    cases s with
    | nil => simpa [ht] using h.1
    | cons d s => exact h.1

/-- The start of a paired text is paired, if it does not end in a carriage return. -/
theorem isPaired_of_getLast? {s t : Text} (hs : s.getLast? ≠ some '\r')
    (h : isPaired (s ++ t) = true) : isPaired s = true := by
  induction s with
  | nil => rfl
  | cons c s ih =>
    rw [List.cons_append, isPaired, Bool.and_eq_true] at h
    cases s with
    | nil =>
      have hc : c ≠ '\r' := by simpa using hs
      simp [isPaired, hc]
    | cons d s =>
      rw [isPaired, ih (by simpa using hs) h.2, Bool.and_true]
      exact h.1

theorem isPaired_of_startsSolid {s t : Text} (ht : startsSolid t = true)
    (h : isPaired (s ++ t) = true) : isPaired s = true := by
  refine isPaired_of_append ?_ h
  rcases eq_nil_or_of_startsSolid ht with rfl | ⟨c, u, rfl, hc⟩
  · simp
  · simpa using ne_newline_of_isBlank_eq_false hc

theorem isPaired_dropEndWhile {s : Text} (h : isPaired s = true) :
    isPaired (dropEndWhile isHorizontal s) = true := by
  rw [← dropEndWhile_append_takeEndWhile isHorizontal s] at h
  refine isPaired_of_append (fun hhead => ?_) h
  have := List.all_eq_true.mp (all_takeEndWhile isHorizontal s) '\n'
    (List.mem_of_mem_head? hhead)
  simp at this

@[simp] theorem isPaired_ending_append (e : LineEnding) (s : Text) :
    isPaired (e.text ++ s) = isPaired s := by
  cases e with
  | lf => simp [LineEnding.text, isPaired]
  | crlf => simp [LineEnding.text, isPaired]

theorem isPaired_cons {c : Char} (hc : c ≠ '\r') (s : Text) : isPaired (c :: s) = isPaired s := by
  simp [isPaired, hc]

theorem afterBreak?_cons_of_ne {c : Char} (hn : c ≠ '\n') (hr : c ≠ '\r') (s : Text) :
    afterBreak? (c :: s) = none := by
  rw [afterBreak?.eq_def]
  split
  · rename_i h
    exact absurd (List.cons.inj h).1 hn
  · rename_i h
    exact absurd (List.cons.inj h).1 hr
  · rfl

/-- In a paired text a character that starts no line break is no part of one. -/
theorem ne_of_isPaired {c : Char} {s : Text} (h : isPaired (c :: s) = true)
    (hc : afterBreak? (c :: s) = none) : c ≠ '\n' ∧ c ≠ '\r' := by
  refine ⟨?_, ?_⟩
  · rintro rfl
    cases hc
  · rintro rfl
    rw [isPaired, Bool.and_eq_true] at h
    obtain ⟨t, rfl⟩ : ∃ t, s = '\n' :: t := by
      cases s with
      | nil => simp at h
      | cons d t => exact ⟨t, by simpa using h.1⟩
    cases hc

/-! ## Where the blanks at the start stop -/

/-- **What stops the horizontal blanks of a paired text**: a line break, or a character that is not
blank. -/
def IsStop (u : Text) : Prop := (∃ e : LineEnding, u = e.text) ∨ ∃ c, u = [c] ∧ isBlank c = false

/-- **A paired text starts with horizontal blanks**, and ends there, or goes on with what stops
them. -/
theorem exists_stop {s : Text} (h : isPaired s = true) :
    (∀ c ∈ s, isHorizontal c = true) ∨
      ∃ w u t, s = w ++ (u ++ t) ∧ (∀ c ∈ w, isHorizontal c = true) ∧ IsStop u := by
  have hsplit := List.takeWhile_append_dropWhile (p := isHorizontal) (l := s)
  have htake : ∀ c ∈ s.takeWhile isHorizontal, isHorizontal c = true := fun c hc =>
    List.all_eq_true.mp List.all_takeWhile c hc
  cases hdrop : s.dropWhile isHorizontal with
  | nil => exact .inl (dropWhile_eq_nil.mp hdrop)
  | cons c t =>
    have hc : isHorizontal c = false := by
      have hhead := List.head?_dropWhile_not isHorizontal s
      rw [hdrop] at hhead
      simpa using hhead
    have hpaired : isPaired (c :: t) = true :=
      isPaired_of_suffix (hdrop ▸ List.dropWhile_suffix isHorizontal) h
    rw [hdrop] at hsplit
    cases hbreak : afterBreak? (c :: t) with
    | some v =>
      obtain ⟨e, he⟩ := exists_ending_of_afterBreak? hbreak
      exact .inr ⟨_, e.text, v, by rw [← he, hsplit], htake, .inl ⟨e, rfl⟩⟩
    | none =>
      obtain ⟨hn, hr⟩ := ne_of_isPaired hpaired hbreak
      refine .inr ⟨_, [c], t, hsplit.symm, htake, .inr ⟨c, rfl, ?_⟩⟩
      simpa [isHorizontal, hn, hr] using hc

end Delog.Text
