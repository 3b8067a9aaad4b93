import Delog.Proofs.Text.Paired
import Delog.Removal.Gap

/-!
# Proofs/Text/Content — what stands on the lines of a text

In a paired text a line is a text without any part of a line break, and its ending.  A text may be
cut where a line starts or where one ends, and the lines of interest are those of the parts.

* `lines_inline_append`, `lines_append_of_atLineStart` — the lines of a text and of its parts
* `line_induction` — a paired text, line by line
* `contentsWith` — the contents of the lines of one kind
* `contentsWith_append_of_atLineStart`, `contentsWith_append_of_atLineEnd` — those of the parts
-/

namespace Delog.Text

open Removal

/-- **Whether no character of a text is part of a line break.** -/
def isInline (k : Text) : Bool := k.all fun c => c != '\n' && c != '\r'

theorem ne_of_isInline {k : Text} (hk : isInline k = true) {c : Char} (hc : c ∈ k) :
    c ≠ '\n' ∧ c ≠ '\r' := by
  simpa using List.all_eq_true.mp hk c hc

theorem isInline_append (a b : Text) : isInline (a ++ b) = (isInline a && isInline b) :=
  List.all_append

/-- Inline blanks are horizontal. -/
theorem isHorizontal_of_isInline {k : Text} (hk : isInline k = true) {c : Char} (hc : c ∈ k)
    (hblank : isBlank c = true) : isHorizontal c = true := by
  obtain ⟨hn, hr⟩ := ne_of_isInline hk hc
  simp [isHorizontal, hblank, hn, hr]

theorem isPaired_inline_append {k : Text} (hk : isInline k = true) (s : Text) :
    isPaired (k ++ s) = isPaired s := by
  induction k with
  | nil => rfl
  | cons c k ih =>
    rw [isInline, List.all_cons, Bool.and_eq_true] at hk
    have hc : c ≠ '\n' ∧ c ≠ '\r' := by simpa using hk.1
    rw [List.cons_append, isPaired_cons hc.2]
    exact ih hk.2

/-! ## The lines of a text and of its parts -/

/-- **A line up to its ending** is one of the lines of the text. -/
theorem lines_inline_append {k : Text} (hk : isInline k = true) (e : LineEnding) (s : Text) :
    lines (k ++ (e.text ++ s)) = ⟨k, some e⟩ :: lines s := by
  induction k with
  | nil => exact lines_ending_append e s
  | cons c k ih =>
    rw [isInline, List.all_cons, Bool.and_eq_true] at hk
    have hc : c ≠ '\n' ∧ c ≠ '\r' := by simpa using hk.1
    rw [List.cons_append, lines_cons (afterBreak?_cons_of_ne hc.1 hc.2 _), ih hk.2]

/-- A last line without an ending. -/
theorem lines_inline {k : Text} (hk : isInline k = true) (hne : k ≠ []) :
    lines k = [⟨k, none⟩] := by
  induction k with
  | nil => exact absurd rfl hne
  | cons c k ih =>
    rw [isInline, List.all_cons, Bool.and_eq_true] at hk
    have hc : c ≠ '\n' ∧ c ≠ '\r' := by simpa using hk.1
    rw [lines_cons (afterBreak?_cons_of_ne hc.1 hc.2 _)]
    by_cases hnil : k = []
    · rw [hnil, lines]
    · rw [ih hk.2 hnil]

/-- **Induction on a paired text, line by line.** -/
theorem line_induction {P : Text → Prop} (last : ∀ k, isInline k = true → P k)
    (line : ∀ k (e : LineEnding) s, isInline k = true → isPaired s = true → P s →
      P (k ++ (e.text ++ s)))
    {s : Text} (hs : isPaired s = true) : P s := by
  suffices h : ∀ k, isInline k = true → P (k ++ s) from h [] rfl
  induction s using break_induction with
  | nil => exact fun k hk => by rw [List.append_nil]; exact last k hk
  | ending e s ih =>
    rw [isPaired_ending_append] at hs
    exact fun k hk => line k e s hk hs (ih hs [] rfl)
  | char c s hc ih =>
    obtain ⟨hn, hr⟩ := ne_of_isPaired hs hc
    rw [isPaired_cons hr] at hs
    intro k hk
    rw [List.append_cons]
    exact ih hs (k ++ [c]) (by simpa [isInline, hn, hr] using hk)

/-- **A text may be cut where a line starts.** -/
theorem lines_append_of_atLineStart {a : Text} (ha : atLineStart a = true) (b : Text) :
    lines (a ++ b) = lines a ++ lines b := by
  induction a using break_induction with
  | nil => rfl
  | ending e a ih =>
    have ha : atLineStart a = true := by
      cases a with
      | nil => rfl
      | cons c a => rwa [atLineStart, List.getLast?_append_of_ne_nil _ (List.cons_ne_nil c a)] at ha
    rw [List.append_assoc, lines_ending_append, lines_ending_append, ih ha, List.cons_append]
  | char c a hc ih =>
    cases a with
    | nil =>
      obtain rfl : c = '\n' := by simpa [atLineStart] using ha
      cases hc
    | cons d a =>
      have ha : atLineStart (d :: a) = true := by simpa [atLineStart] using ha
      have hcons : afterBreak? (c :: (d :: a ++ b)) = none := by
        by_cases hd : d = '\n' <;> by_cases hr : c = '\r' <;> by_cases hn : c = '\n' <;>
          simp_all [afterBreak?]
      have hne : lines (d :: a) ≠ [] := fun hnil => by
        have h := unlines_lines (d :: a)
        rw [hnil] at h
        cases h
      obtain ⟨l, ls, hls⟩ := List.exists_cons_of_ne_nil hne
      rw [List.cons_append, lines_cons hcons, ih ha, lines_cons hc, hls]
      rfl

/-! ## The last line, and the first -/

/-- A line starts behind a line break. -/
theorem atLineStart_append_ending (a : Text) (e : LineEnding) :
    atLineStart (a ++ e.text) = true := by
  obtain ⟨k, hk⟩ := exists_ending_eq_append_newline e
  simp [atLineStart, hk, ← List.append_assoc]

/-- A paired text is lines that are finished, and what stands after them. -/
theorem exists_atLineStart_append {s : Text} (hs : isPaired s = true) :
    ∃ a k, s = a ++ k ∧ atLineStart a = true ∧ isInline k = true := by
  refine line_induction (P := fun s => ∃ a k, s = a ++ k ∧ atLineStart a = true ∧
    isInline k = true) (fun k hk => ⟨[], k, rfl, rfl, hk⟩) (fun k e s hk _ ih => ?_) hs
  obtain ⟨a, k', rfl, ha, hk'⟩ := ih
  refine ⟨k ++ (e.text ++ a), k', by simp only [List.append_assoc], ?_, hk'⟩
  rcases List.eq_nil_or_concat' a with rfl | ⟨b, c, rfl⟩
  · simpa using atLineStart_append_ending k e
  · simpa [atLineStart, ← List.append_assoc] using ha

/-- A paired text starts with what stands on its first line. -/
theorem exists_append_atLineEnd {s : Text} (hs : isPaired s = true) :
    ∃ k b, s = k ++ b ∧ isInline k = true ∧ atLineEnd b = true := by
  refine line_induction (P := fun s => ∃ k b, s = k ++ b ∧ isInline k = true ∧
    atLineEnd b = true) (fun k hk => ⟨k, [], by simp, hk, rfl⟩) (fun k e s hk _ _ => ?_) hs
  exact ⟨k, e.text ++ s, rfl, hk, by cases e <;> rfl⟩

/-- A text that ends a line is empty or starts with a line break. -/
theorem eq_nil_or_of_atLineEnd {s : Text} (h : atLineEnd s = true) :
    s = [] ∨ ∃ (e : LineEnding) (t : Text), s = e.text ++ t := by
  rw [atLineEnd, Bool.or_eq_true, List.isEmpty_iff] at h
  refine h.imp_right fun h => ?_
  obtain ⟨t, ht⟩ := Option.isSome_iff_exists.mp h
  obtain ⟨e, he⟩ := exists_ending_of_afterBreak? ht
  exact ⟨e, t, he⟩

/-! ## The contents of lines of one kind -/

/-- **The contents of the lines** that are of one kind, in order. -/
def contentsWith (f : Text → Bool) (s : Text) : List Text := ((lines s).map Line.content).filter f

theorem contentsWith_append_of_atLineStart (f : Text → Bool) {a : Text}
    (ha : atLineStart a = true) (b : Text) :
    contentsWith f (a ++ b) = contentsWith f a ++ contentsWith f b := by
  rw [contentsWith, lines_append_of_atLineStart ha, List.map_append, List.filter_append]
  rfl

theorem contentsWith_inline_append (f : Text → Bool) {k : Text} (hk : isInline k = true)
    (e : LineEnding) (s : Text) :
    contentsWith f (k ++ (e.text ++ s)) = [k].filter f ++ contentsWith f s := by
  rw [contentsWith, lines_inline_append hk, List.map_cons, ← List.singleton_append,
    List.filter_append]
  rfl

section Kind

variable {f : Text → Bool} (hf : f [] = false)
include hf

/-- Empty lines are not of the kind. -/
theorem contentsWith_inline {k : Text} (hk : isInline k = true) :
    contentsWith f k = [k].filter f := by
  by_cases hnil : k = []
  · rw [hnil, List.filter_singleton, hf]
    rfl
  · rw [contentsWith, lines_inline hk hnil]
    rfl

theorem contentsWith_ending_append (e : LineEnding) (s : Text) :
    contentsWith f (e.text ++ s) = contentsWith f s := by
  have h := contentsWith_inline_append f (k := []) rfl e s
  rwa [List.nil_append, List.filter_singleton, hf] at h

theorem contentsWith_run_append (run : List LineEnding) (s : Text) :
    contentsWith f (run.flatMap LineEnding.text ++ s) = contentsWith f s := by
  induction run with
  | nil => rfl
  | cons e run ih =>
    rw [List.flatMap_cons, List.append_assoc, contentsWith_ending_append hf, ih]

/-- The content of a line in front of a run of line breaks. -/
theorem contentsWith_inline_run_append {k : Text} (hk : isInline k = true)
    {run : List LineEnding} (hne : run ≠ []) (s : Text) :
    contentsWith f (k ++ (run.flatMap LineEnding.text ++ s)) =
      [k].filter f ++ contentsWith f s := by
  obtain ⟨e, run, rfl⟩ := List.exists_cons_of_ne_nil hne
  rw [List.flatMap_cons, List.append_assoc, contentsWith_inline_append f hk,
    contentsWith_run_append hf]

/-- **A text may be cut where a line ends.** -/
theorem contentsWith_append_of_atLineEnd {a b : Text} (ha : isPaired a = true)
    (hb : atLineEnd b = true) :
    contentsWith f (a ++ b) = contentsWith f a ++ contentsWith f b := by
  refine line_induction (P := fun a => contentsWith f (a ++ b) = contentsWith f a ++
    contentsWith f b) (fun k hk => ?_) (fun k e s hk _ ih => ?_) ha
  · rcases eq_nil_or_of_atLineEnd hb with rfl | ⟨e, t, rfl⟩
    · rw [List.append_nil]
      exact (List.append_nil _).symm
    · rw [contentsWith_inline_append f hk, contentsWith_inline hf hk,
        contentsWith_ending_append hf]
  · rw [List.append_assoc, List.append_assoc, contentsWith_inline_append f hk,
      contentsWith_inline_append f hk, ih, List.append_assoc]

end Kind

/-- What stands on a line stands in the text. -/
theorem mem_of_mem_content {s : Text} {l : Line} (hl : l ∈ lines s) {c : Char}
    (hc : c ∈ l.content) : c ∈ s := by
  rw [← unlines_lines s, unlines, List.mem_flatMap]
  exact ⟨l, hl, List.mem_append_left _ hc⟩

/-- **The contents of the lines that are not blank**, in order. -/
def codeLines (s : Text) : List Text := contentsWith (fun k => !k.all isBlank) s

theorem codeLines_eq_nil {s : Text} (hs : ∀ c ∈ s, isBlank c = true) : codeLines s = [] := by
  rw [codeLines, contentsWith, List.filter_eq_nil_iff]
  intro k hk
  obtain ⟨l, hl, rfl⟩ := List.mem_map.mp hk
  simpa using fun c hc => hs c (mem_of_mem_content hl hc)

end Delog.Text
