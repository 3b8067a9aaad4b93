import Delog.Proofs.Removal.Settled
import Delog.Proofs.Strip.Outcome

/-!
# Proofs/Strip/Literal — what becomes of a literal that is not removed

A literal over several lines is text like any other to the tidying of a modified source.  It stands
in the result, between the code that was around it, but with its blank lines emptied and its runs of
line breaks collapsed; only a settled literal keeps its value.

* `exists_edit_segment` — what editing makes of a segment that no range touches
* `literal_in_modified_text` — what becomes of a literal, and which literals are kept
-/

namespace Delog

open Text Removal

namespace Removal

/-- Ranges that keep off a segment are before it and after it. -/
theorem exists_append_of_disjoint {m n : Nat} {rs : List Removal}
    (hpair : rs.Pairwise fun a b => a.stop ≤ b.start) (hle : ∀ r ∈ rs, r.start ≤ r.stop)
    (hfree : ∀ r ∈ rs, r.stop ≤ m ∨ n ≤ r.start) :
    ∃ left right, rs = left ++ right ∧ (∀ r ∈ left, r.stop ≤ m) ∧ ∀ r ∈ right, n ≤ r.start := by
  induction rs with
  | nil => exact ⟨[], [], rfl, by simp, by simp⟩
  | cons r rs ih =>
    obtain ⟨hfirst, hpair⟩ := List.pairwise_cons.mp hpair
    rcases hfree r List.mem_cons_self with hstop | hstart
    · obtain ⟨left, right, rfl, hleft, hright⟩ := ih hpair
        (fun x hx => hle x (List.mem_cons_of_mem _ hx))
        fun x hx => hfree x (List.mem_cons_of_mem _ hx)
      exact ⟨r :: left, right, rfl, List.forall_mem_cons.mpr ⟨hstop, hleft⟩, hright⟩
    · refine ⟨[], r :: rs, rfl, by simp, List.forall_mem_cons.mpr ⟨hstart, fun x hx => ?_⟩⟩
      have := hle r List.mem_cons_self
      have := hfirst x hx
      omega

/-- **Editing settles a segment that no range touches**, and on either side of it makes of the text
what it makes of it without the ranges.  The ranges after the segment go first, and leave it whole;
then those before it. -/
theorem exists_edit_segment {x a y : Text} {left right : List Removal} (ha : isSolid a = true)
    (hsolid : ∀ r ∈ left ++ right, r.SolidIn (x ++ (a ++ y)))
    (hpair : (left ++ right).Pairwise fun a b => a.stop ≤ b.start) (hne : left ++ right ≠ [])
    (hleft : ∀ r ∈ left, r.stop ≤ size x) (hright : ∀ r ∈ right, size x + size a ≤ r.start) :
    ∃ p z, edit (x ++ (a ++ y)) (left ++ right) =
        .ok (p ++ (settle (LineEnding.detect (x ++ (a ++ y))) a ++ z)) ∧
      nonblank p = nonblank (without 0 x left) ∧
      nonblank z = nonblank (without (size x + size a) y right) := by
  obtain ⟨hpairl, hpairr, -⟩ := List.pairwise_append.mp hpair
  have hfitsr : Fits (size (x ++ a)) y right := by
    refine fits_of_solidIn (z := []) (fun r hr => ?_) hpairr
    have hr' := hsolid r (List.mem_append_right _ hr)
    have hstop := isBoundary_le hr'.isBoundary_stop
    simp only [size_append] at hstop ⊢
    exact ⟨by simpa using hr', hright r hr, by omega⟩
  have hfitsl : Fits (size []) x left := by
    refine fits_of_solidIn (z := a ++ y) (fun r hr => ?_) hpairl
    have hstop := hleft r hr
    exact ⟨hsolid r (List.mem_append_left _ hr), Nat.zero_le _, by simpa using hstop⟩
  obtain ⟨q, hq, hqskel⟩ := exists_runAll (z := []) (endsSolid_append ha) rfl hfitsr
  obtain ⟨w, hw, hwskel⟩ := exists_runAll (z := a ++ q) rfl (startsSolid_append ha) hfitsl
  simp only [List.append_nil, List.nil_append, List.append_assoc] at hq hqskel hw hwskel
  have hrun : runAll (x ++ (a ++ y)) (left ++ right).reverse = .ok (w ++ (a ++ q)) := by
    rw [List.reverse_append, runAll_append, hq]
    exact hw
  obtain ⟨p, z, htidy, hp, hz⟩ := exists_tidy_append (x ++ (a ++ y)) ha w q
  refine ⟨p, z, by rw [edit_eq hsolid hpair hne, hrun, ← htidy]; rfl, ?_, ?_⟩
  · have h := nonblank_eq_of_skeleton_eq hwskel
    rw [nonblank_append, nonblank_append (without _ _ _)] at h
    rw [hp]
    exact List.append_cancel_right h
  · have h := nonblank_eq_of_skeleton_eq hqskel
    rw [nonblank_append, nonblank_append, nonblank_append, nonblank_append, size_append] at h
    rw [hz]
    exact List.append_cancel_left (List.append_cancel_left h)

end Removal

namespace Stripper

open Node

variable {s : Stripper} {source : Text} {name : String} {trees : Trees}

/-- **What becomes of a literal** that no removed statement covers, or of any other node with solid
ends.  It stands in the modified text with its blank lines emptied and its runs of line breaks
collapsed, between what is left of the code around it.  It keeps its value just when it is
settled. -/
theorem literal_in_modified_text (hroot : trees.source.WellFormed source) {text : Text}
    {count : Nat} (h : s.strip source name trees = .ok (.modified text count)) {n : Node}
    (hn : n ∈ trees.source.preorder) (hsolid : isSolid (n.text source) = true)
    (hfree : ∀ r ∈ trees.source.removals source s.options.loggingObject,
      r.stop ≤ n.span.start ∨ n.span.stop ≤ r.start) :
    (∃ left right before after,
      trees.source.removals source s.options.loggingObject = left ++ right ∧
      (∀ r ∈ left, r.stop ≤ n.span.start) ∧ (∀ r ∈ right, n.span.stop ≤ r.start) ∧
      text = before ++ (settle (LineEnding.detect source) (n.text source) ++ after) ∧
      nonblank before = nonblank (without 0 (takeBytes n.span.start source) left) ∧
      nonblank after = nonblank (without n.span.stop (dropBytes n.span.stop source) right)) ∧
    (settle (LineEnding.detect source) (n.text source) = n.text source ↔
      IsSettled (n.text source)) ∧
    (IsSettled (n.text source) → n.text source <:+: text) := by
  obtain ⟨hne, hedit, -⟩ := of_strip_eq_modified h
  have hreg := hroot n hn
  have hranges : ∀ r ∈ trees.source.removals source s.options.loggingObject, r.SolidIn source :=
    hroot.solidIn_of_mem_removals
  have hpair : (trees.source.removals source s.options.loggingObject).Pairwise
      fun a b => a.stop ≤ b.start := hroot.pairwise_removals
  obtain ⟨left, right, hsplit, hleft, hright⟩ :=
    exists_append_of_disjoint hpair (fun r hr => (hranges r hr).start_le_stop) hfree
  obtain ⟨x, y, htext, hstart, hstop⟩ :
      ∃ x y, source = x ++ (n.text source ++ y) ∧ n.span.start = size x ∧
        n.span.stop = size x + size (n.text source) :=
    exists_eq_append_slice hreg.isBoundary_start hreg.isBoundary_stop hreg.start_le_stop
  obtain ⟨p, z, hpz, hp, hz⟩ : ∃ p z, edit source (left ++ right) =
        .ok (p ++ (settle (LineEnding.detect source) (n.text source) ++ z)) ∧
      nonblank p = nonblank (without 0 x left) ∧
      nonblank z = nonblank (without (size x + size (n.text source)) y right) := by
    rw [hsplit] at hranges hpair hne
    rw [htext] at hranges
    have hed := exists_edit_segment hsolid hranges hpair hne (fun r hr => hstart ▸ hleft r hr)
      (fun r hr => hstop ▸ hright r hr)
    rwa [← htext] at hed
  have htake : takeBytes n.span.start source = x := by
    rw [htext, hstart, takeBytes_size_append]
  have hdrop : dropBytes n.span.stop source = y := by
    rw [htext, hstop, ← size_append, ← List.append_assoc, dropBytes_size_append]
  have hmodified : text = p ++ (settle (LineEnding.detect source) (n.text source) ++ z) := by
    rw [hsplit] at hedit
    exact Except.ok.inj (hedit.symm.trans hpz)
  refine ⟨⟨left, right, p, z, hsplit, hleft, hright, hmodified, ?_, ?_⟩, settle_eq_self_iff _, ?_⟩
  · rw [htake, hp]
  · rw [hdrop, hstop, hz]
  · intro hsettled
    rw [hmodified, (settle_eq_self_iff _).mpr hsettled, ← List.append_assoc]
    exact List.infix_append p _ z

end Stripper

/-! ## A literal that does not keep its value -/

namespace Sample

/-- A template over five lines, three of them empty. -/
def template : Node := node "template_string" 10 18 (some "value") []

/-- A source with the template in it, and a logging statement after it. -/
def templateSource : Text := "const t = `a\n\n\n\nb`;\nconsole.log();\n".toList

/-- The tree of the source with the template. -/
def templateTrees : Trees where
  source := node "program" 0 35 none
    [node "lexical_declaration" 0 19 none
      [node "variable_declarator" 6 18 none [node "identifier" 6 7 (some "name") [], template]],
      logging 20]
  result := none

/-- The text the source with the template comes to. -/
def templateText : Text := "const t = `a\n\nb`;\n".toList

theorem wellFormed_template : templateTrees.source.WellFormed templateSource := by decide

theorem template_mem_preorder : template ∈ templateTrees.source.preorder := by
  simp [templateTrees, template, node, Node.preorder, Node.preorderAll]

/-- No removed statement touches the template. -/
theorem template_disjoint : ∀ r ∈ templateTrees.source.removals templateSource "console",
    r.stop ≤ template.span.start ∨ template.span.stop ≤ r.start := by decide

theorem strip_template :
    (Stripper.new .default).strip templateSource "a.ts" templateTrees =
      .ok (.modified templateText 1) := by
  have hfault : templateTrees.source.firstFault templateSource = none := by decide
  have hne : templateTrees.source.removals templateSource "console" ≠ [] := by decide
  have hq : Removal.runAll templateSource
      (templateTrees.source.removals templateSource "console").reverse =
        .ok "const t = `a\n\n\n\nb`;\n".toList := by decide
  exact Stripper.strip_of_runAll (s := .new .default) wellFormed_template hfault hne hq

theorem template_in_modified_text :
    (∃ before after, templateText = before ++
      (settle (LineEnding.detect templateSource) (template.text templateSource) ++ after)) ∧
      (IsSettled (template.text templateSource) →
        template.text templateSource <:+: templateText) := by
  have hsolid : isSolid (template.text templateSource) = true := by decide
  obtain ⟨⟨_, _, before, after, -, -, -, htext, -⟩, -, hkept⟩ :=
    Stripper.literal_in_modified_text (s := .new .default) wellFormed_template strip_template
      template_mem_preorder hsolid template_disjoint
  exact ⟨⟨before, after, htext⟩, hkept⟩

/-- **The template loses two of its lines**, though no removed statement touches it: it has four
line breaks, and what is left of the whole text has three. -/
theorem template_not_in_modified_text :
    template.kind = "template_string" ∧ template ∈ templateTrees.source.preorder ∧
      (∀ r ∈ templateTrees.source.removals templateSource "console",
        r.stop ≤ template.span.start ∨ template.span.stop ≤ r.start) ∧
      (Stripper.new .default).strip templateSource "a.ts" templateTrees =
        .ok (.modified templateText 1) ∧
      ¬ template.text templateSource <:+: templateText := by
  refine ⟨rfl, template_mem_preorder, template_disjoint, strip_template, fun hinfix => ?_⟩
  have hcount := hinfix.sublist.count_le '\n'
  exact absurd hcount (by decide)

end Sample

end Delog
