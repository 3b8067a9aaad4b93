import Delog.Proofs.Removal.Accept
import Delog.Proofs.Removal.Gap
import Delog.Proofs.Text.Content

/-!
# Proofs/Removal/Reach — how far a removal reaches

A list of ranges may be accepted with ranges that are empty, or that start or end with a blank.
Where a deleted range ends its line, the blanks before it go with it.  If these are part of the
range before it, that range is left with offsets that no longer fit the text, and its removal fails
or takes code that no range covers.

* `Undisturbed` — no removal reaches into the range before it
* `edit_undisturbed` — such a list, if accepted, is carried out, and nothing else goes but blanks
* `Sample.reached_range_is_stale` — an accepted list that is not carried out
-/

namespace Delog

open Text

namespace Removal

/-- Whether a text breaks the line, or ends, before the next character that is not blank. -/
def breaksAhead (s : Text) : Bool := s.all isBlank || (s.takeWhile isBlank).contains '\n'

/-- The blanks that stand before a range on its line. -/
def blanksBefore (s : Text) (r : Removal) : Text :=
  takeEndWhile isHorizontal (takeBytes r.start s)

/-- **No removal reaches into the range before it.**  The ranges are listed in ascending order, and
the one before the first of them ends at `low`: where a deleted range ends its line, once the ranges
after it are gone, the blanks before it start at the end of the range before it or later. -/
def Undisturbed (s : Text) : Nat → List Removal → Prop
  | _, [] => True
  | low, r :: rs =>
    (r.placeholder = false → breaksAhead (without r.stop (dropBytes r.stop s) rs) = true →
      low + size (blanksBefore s r) ≤ r.start) ∧ Undisturbed s r.stop rs

instance decidableUndisturbed (s : Text) : ∀ low rs, Decidable (Undisturbed s low rs)
  | _, [] => isTrue trivial
  | _, r :: rs =>
    have := decidableUndisturbed s r.stop rs
    inferInstanceAs (Decidable (_ ∧ _))

/-! ## The end of the line, once blanks are gone -/

/-- Before the end of a line there are only blanks. -/
theorem exists_newline_of_atLineEnd {s : Text} (h : atLineEnd (s.dropWhile isHorizontal) = true) :
    (∀ c ∈ s, isBlank c = true) ∨
      ∃ w v, s = w ++ '\n' :: v ∧ ∀ c ∈ w, isBlank c = true := by
  have hsplit := List.takeWhile_append_dropWhile (p := isHorizontal) (l := s)
  rcases eq_nil_or_of_atLineEnd h with hnil | ⟨e, v, he⟩
  · exact .inl fun c hc => isBlank_of_isHorizontal (dropWhile_eq_nil.mp hnil c hc)
  · obtain ⟨k, hk⟩ := exists_ending_eq_append_newline e
    refine .inr ⟨s.takeWhile isHorizontal ++ k, v, ?_, fun c hc => ?_⟩
    · rw [he, hk] at hsplit
      simpa using hsplit.symm
    · rcases List.mem_append.mp hc with hc | hc
      · exact isBlank_of_isHorizontal (List.all_eq_true.mp List.all_takeWhile c hc)
      · exact isBlank_of_mem_ending (hk ▸ List.mem_append_left _ hc)

/-- A text that does not break the line first goes on with a character that is not blank. -/
theorem exists_of_breaksAhead_eq_false {s : Text} (h : breaksAhead s = false) :
    ∃ w d u, s = w ++ d :: u ∧ (∀ c ∈ w, isBlank c = true ∧ c ≠ '\n') ∧ isBlank d = false := by
  rw [breaksAhead, Bool.or_eq_false_iff] at h
  obtain ⟨hall, hnewline⟩ := h
  have hsplit := List.takeWhile_append_dropWhile (p := isBlank) (l := s)
  cases hdrop : s.dropWhile isBlank with
  | nil =>
    rw [List.all_eq_true.mpr (dropWhile_eq_nil.mp hdrop)] at hall
    cases hall
  | cons d u =>
    have hd := List.head?_dropWhile_not isBlank s
    rw [hdrop] at hsplit hd
    refine ⟨_, d, u, hsplit.symm, fun c hc => ⟨?_, ?_⟩, by simpa using hd⟩
    · exact List.all_eq_true.mp List.all_takeWhile c hc
    · rintro rfl
      rw [List.contains_iff_mem.mpr hc] at hnewline
      cases hnewline

/-- When only blanks are taken from a text, its first character that is not blank is kept. -/
theorem exists_of_sublist {s w u : Text} {d : Char} (hsub : List.Sublist s (w ++ d :: u))
    (hw : ∀ c ∈ w, isBlank c = true) (hd : isBlank d = false)
    (hchars : nonblank s = nonblank (w ++ d :: u)) :
    ∃ x z, s = x ++ d :: z ∧ List.Sublist x w := by
  obtain ⟨x, y, rfl, hx, hy⟩ := List.sublist_append_iff.mp hsub
  have hxblank : ∀ c ∈ x, isBlank c = true := fun c hc => hw c (hx.subset hc)
  have hychars : nonblank y = d :: nonblank u := by
    rw [nonblank_append, nonblank_append, nonblank_eq_nil (List.all_eq_true.mpr hxblank),
      nonblank_eq_nil (List.all_eq_true.mpr hw)] at hchars
    simpa [nonblank, hd] using hchars
  rcases List.sublist_cons_iff.mp hy with hy | ⟨z, rfl, -⟩
  · have hlen : (nonblank y).length ≤ (nonblank u).length :=
      (hy.filter fun c => !isBlank c).length_le
    rw [hychars, List.length_cons] at hlen
    omega
  · exact ⟨x, z, rfl, hx⟩

/-- **Taking blanks from a text does not bring the end of the line nearer.**  If what is left starts
at the end of a line, then the text breaks the line before its next character that is not blank. -/
theorem breaksAhead_of_sublist {s t : Text} (hsub : List.Sublist s t)
    (hchars : nonblank s = nonblank t) (hend : atLineEnd (s.dropWhile isHorizontal) = true) :
    breaksAhead t = true := by
  by_contra hahead
  obtain ⟨w, d, u, rfl, hw, hd⟩ := exists_of_breaksAhead_eq_false (Bool.not_eq_true _ ▸ hahead)
  obtain ⟨x, z, rfl, hx⟩ := exists_of_sublist hsub (fun c hc => (hw c hc).1) hd hchars
  have hne : ∀ {c}, isBlank c = true → c ≠ d := by
    rintro c hc rfl
    rw [hd] at hc
    cases hc
  rcases exists_newline_of_atLineEnd hend with hblank | ⟨k, v, hk, hkblank⟩
  · exact hne (hblank d (by simp)) rfl
  · have hnewline : '\n' ≠ d := hne (by decide)
    rcases List.append_eq_append_iff.mp hk with ⟨m, hm, hmv⟩ | ⟨m, hm, hmv⟩
    · cases m with
      | nil => exact hnewline (List.cons.inj hmv).1.symm
      | cons c m =>
        obtain ⟨rfl, -⟩ := List.cons.inj hmv
        exact hne (hkblank d (by simp [hm])) rfl
    · cases m with
      | nil => exact hnewline (List.cons.inj hmv).1
      | cons c m =>
        obtain ⟨rfl, -⟩ := List.cons.inj hmv
        exact (hw _ (hx.subset (by simp [hm]))).2 rfl

/-! ## A run of removals that reach into no other range -/

/-- Blanks that leave room for a segment do not reach into it. -/
theorem isPrefix_dropEndWhile {p s : Text} (hp : p <+: s)
    (hroom : size p + size (takeEndWhile isHorizontal s) ≤ size s) :
    p <+: dropEndWhile isHorizontal s := by
  have hsize := congrArg size (dropEndWhile_append_takeEndWhile isHorizontal s)
  rw [size_append] at hsize
  exact isPrefix_of_size_le hp (dropEndWhile_isPrefix _ s) (by omega)

/-- **One removal that does not reach into the text before its gap** takes nothing else but
blanks. -/
theorem exists_run_of_isPrefix {r : Removal} {p gap body q : Text}
    (hstart : r.start = size p + size gap) (hstop : r.stop = size p + size gap + size body)
    (hkept : r.placeholder = false → p <+: (closeGap (p ++ gap) q).1) :
    ∃ q', run (p ++ gap ++ (body ++ q)) r = .ok (p ++ q') ∧
      List.Sublist q' (gap ++ (r.filling ++ q)) ∧
      nonblank q' = nonblank (gap ++ (r.filling ++ q)) := by
  rw [run_eq (by rw [hstart, size_append]) (by rw [hstop, size_append]), filling]
  cases hplace : r.placeholder with
  | true => exact ⟨gap ++ ';' :: q, by simp, List.Sublist.refl _, rfl⟩
  | false =>
    obtain ⟨g, hg⟩ := hkept hplace
    obtain ⟨hbefore, hafter⟩ := closeGap_parts (p ++ gap) q
    obtain ⟨hbchars, hachars⟩ := nonblank_closeGap (p ++ gap) q
    rw [← hg] at hbefore hbchars
    rw [nonblank_append, nonblank_append, List.append_cancel_left_eq] at hbchars
    refine ⟨g ++ (closeGap (p ++ gap) q).2, by simp [← hg], ?_, ?_⟩
    · exact ((List.prefix_append_right_inj p).mp hbefore).sublist.append hafter.sublist
    · rw [if_neg Bool.false_ne_true, List.nil_append, nonblank_append, hbchars, hachars,
        nonblank_append]

/-- **A run of removals, from the last to the first**, none of which reaches into the range before
it.  What stands before the first range stays, and of the rest only blanks go with the ranges. -/
theorem exists_runAll_of_undisturbed {s p t : Text} {rs : List Removal} (hs : s = p ++ t)
    (hcheck : ∀ r ∈ rs, check s r = none) (hlow : ∀ r ∈ rs, size p ≤ r.start)
    (hpair : rs.Pairwise fun a b => a.stop ≤ b.start) (h : Undisturbed s (size p) rs) :
    ∃ q, runAll s rs.reverse = .ok (p ++ q) ∧ List.Sublist q (without (size p) t rs) ∧
      nonblank q = nonblank (without (size p) t rs) := by
  induction rs generalizing p t with
  | nil => exact ⟨t, by rw [hs]; rfl, List.Sublist.refl t, rfl⟩
  | cons r rs ih =>
    obtain ⟨hfirst, hpair⟩ := List.pairwise_cons.mp hpair
    obtain ⟨hreach, h⟩ := h
    obtain ⟨hle, hstart, hstop⟩ := check_eq_none.mp (hcheck r List.mem_cons_self)
    obtain ⟨a, body, rest, hparts, ha, hb⟩ := exists_parts hstart hstop hle
    obtain ⟨gap, rfl⟩ := isPrefix_of_size_le ⟨t, hs.symm⟩ ⟨body ++ rest, hparts.symm⟩
      (ha ▸ hlow r List.mem_cons_self)
    obtain rfl : t = gap ++ (body ++ rest) := by
      rw [hs, List.append_assoc] at hparts
      exact List.append_cancel_left hparts
    have hsize : size (p ++ gap ++ body) = r.stop := by rw [size_append, hb]
    obtain ⟨q, hq, hsub, hchars⟩ := ih (p := p ++ gap ++ body) (t := rest) (by simp [hs])
      (fun x hx => hcheck x (List.mem_cons_of_mem _ hx)) (fun x hx => hsize ▸ hfirst x hx) hpair
      (hsize.symm ▸ h)
    rw [hsize] at hsub hchars
    have hkept : r.placeholder = false → p <+: (closeGap (p ++ gap) q).1 := by
      refine fun hplace => isPrefix_closeGap (List.prefix_append p gap) fun hend => ?_
      have hrest : dropBytes r.stop s = rest := by
        rw [hs, ← hsize, ← List.append_assoc, ← List.append_assoc, dropBytes_size_append]
      have hblanks : blanksBefore s r = takeEndWhile isHorizontal (p ++ gap) := by
        rw [blanksBefore, hs, ha, ← List.append_assoc, takeBytes_size_append]
      have hroom := hreach hplace (hrest ▸ breaksAhead_of_sublist hsub hchars hend)
      rw [hblanks, ha] at hroom
      exact isPrefix_dropEndWhile (List.prefix_append p gap) hroom
    rw [size_append] at ha hb
    obtain ⟨q', hq', hsub', hchars'⟩ := exists_run_of_isPrefix ha hb hkept
    refine ⟨q', ?_, ?_, ?_⟩
    · rw [runAll_reverse_cons, hq, List.append_assoc (p ++ gap) body]
      exact hq'
    · rw [without_of_fits ha hb]
      exact hsub'.trans ((List.Sublist.refl gap).append ((List.Sublist.refl _).append hsub))
    · rw [hchars', without_of_fits ha hb]
      simp only [nonblank_append, hchars]

/-- **Accepted ranges of any kind are removed without loss**, in whichever order they are given, if
no removal reaches into the range before it; other lists may be, too.  The text has the characters
it had outside the ranges, and `;` where an empty statement is due. -/
theorem edit_undisturbed {s : Text} {rs : List Removal}
    (haccepted : fault s (sortDescending rs) = none) (h : Undisturbed s 0 (sortAscending rs)) :
    ∃ text, edit s rs = .ok text ∧
      nonblank text = nonblank (without 0 s (sortAscending rs)) := by
  by_cases hne : rs = []
  · subst hne
    exact ⟨s, rfl, by rw [sortAscending_eq_nil.mpr rfl]; rfl⟩
  · obtain ⟨q, hq, -, hchars⟩ := exists_runAll_of_undisturbed (p := []) (t := s) rfl
      (fun r hr => check_of_accepted haccepted (mem_sortAscending.mp hr))
      (fun _ _ => Nat.zero_le _) (pairwise_sortAscending haccepted) h
    rw [reverse_sortAscending, List.nil_append] at hq
    refine ⟨tidy s q, ?_, ?_⟩
    · rw [edit_of_accepted haccepted hne, hq]
      rfl
    · exact (nonblank_eq_of_skeleton_eq (skeleton_tidy s q)).trans hchars

end Removal

/-! ## A removal that reaches into the range before it -/

namespace Sample

open Removal

/-- A source with a statement that is replaced, blanks after it included, an empty range, and a
statement that ends its line. -/
def looseSource : Text := "if (x) a;  \n  b;\n".toList

/-- The ranges of the source, the last one first. -/
def looseRanges : List Removal := [⟨14, 16, false⟩, ⟨7, 10, true⟩, ⟨0, 0, false⟩]

theorem sample_edit_undisturbed :
    fault looseSource (sortDescending looseRanges) = none ∧
      Undisturbed looseSource 0 (sortAscending looseRanges) ∧
      ∃ text, edit looseSource looseRanges = .ok text ∧
        nonblank text = "if(x);".toList := by
  have hsort : sortDescending looseRanges = looseRanges :=
    sortDescending_of_pairwise (by decide)
  have haccepted : fault looseSource (sortDescending looseRanges) = none := by
    rw [hsort]
    decide
  have hundisturbed : Undisturbed looseSource 0 (sortAscending looseRanges) := by
    rw [sortAscending, hsort]
    decide
  obtain ⟨text, htext, hchars⟩ := edit_undisturbed haccepted hundisturbed
  rw [sortAscending, hsort] at hchars
  exact ⟨haccepted, hundisturbed, text, htext, hchars⟩

/-- **An empty range among the blanks before a statement is stale** when its turn comes, as these
blanks went with the statement; and a range that ends in such blanks takes code of the next line.
Both lists are accepted. -/
theorem reached_range_is_stale :
    fault "a  b".toList (sortDescending [⟨3, 4, false⟩, ⟨2, 2, false⟩]) = none ∧
      edit "a  b".toList [⟨3, 4, false⟩, ⟨2, 2, false⟩] = .error (.stale ⟨2, 2, false⟩) ∧
    fault "x a  b\ncd\n".toList (sortDescending [⟨5, 6, false⟩, ⟨2, 5, false⟩]) = none ∧
      edit "x a  b\ncd\n".toList [⟨5, 6, false⟩, ⟨2, 5, false⟩] = .ok "x d\n".toList ∧
      nonblank (without 0 "x a  b\ncd\n".toList [⟨2, 5, false⟩, ⟨5, 6, false⟩]) =
        "xcd".toList := by
  have hempty : sortDescending [⟨3, 4, false⟩, ⟨2, 2, false⟩] = [⟨3, 4, false⟩, ⟨2, 2, false⟩] :=
    sortDescending_of_pairwise (by decide)
  have hblank : sortDescending [⟨5, 6, false⟩, ⟨2, 5, false⟩] = [⟨5, 6, false⟩, ⟨2, 5, false⟩] :=
    sortDescending_of_pairwise (by decide)
  have hfirst : fault "a  b".toList (sortDescending [⟨3, 4, false⟩, ⟨2, 2, false⟩]) = none := by
    rw [hempty]
    decide
  have hsecond :
      fault "x a  b\ncd\n".toList (sortDescending [⟨5, 6, false⟩, ⟨2, 5, false⟩]) = none := by
    rw [hblank]
    decide
  refine ⟨hfirst, ?_, hsecond, ?_, by decide⟩
  · rw [edit_of_accepted hfirst (List.cons_ne_nil _ _), hempty]
    decide
  · rw [edit_of_accepted hsecond (List.cons_ne_nil _ _), hblank]
    decide

end Sample

end Delog
