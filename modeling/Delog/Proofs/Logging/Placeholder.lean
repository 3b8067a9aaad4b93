import Delog.Proofs.Strip.Outcome

/-!
# Proofs/Logging/Placeholder — a run of logging statements goes as one

The statements of a list that stay part the logging statements into runs.  In one run there may be
any number of them, with comments among them; the statements on both sides of the run decide for
all of it whether it is deleted, or empty statements take its place.

* `Site.placeholder_iff` — the decision, by the statements that stay on both sides
* `placeholder_of_outermost` — which ranges have empty statements in their place
-/

namespace Delog

open Text

variable {source : Text} {object : String}

namespace Node

/-- Whether a node is a statement that stays. -/
def survives (source : Text) (object : String) (n : Node) : Bool :=
  n.info.isNamed && !n.info.isExtra && !n.isLogging source object

/-- **The children that stay**: neither tokens nor comments, nor logging statements. -/
def survivors (source : Text) (object : String) (n : Node) : List Node :=
  n.children.filter (survives source object)

/-- **Whether two statements would be read as one** if nothing stood between them: the first has no
`;` at its end, and the other starts as the continuation of a line. -/
def Joins (source : Text) (b a : Node) : Prop :=
  (trimEnd (b.text source)).getLast? ≠ some ';' ∧
    ∃ c ∈ ['(', '[', '\x60', '+', '-', '/'], (trimStart (a.text source)).head? = some c

theorem survives_of_isLogging {n : Node} (h : n.isLogging source object = true) :
    n.survives source object = false := by
  rw [survives, h, Bool.not_true, Bool.and_false]

theorem survivor?_eq (siblings : List Node) :
    survivor? source object siblings = (siblings.filter (survives source object)).head? :=
  List.head?_filter.symm

theorem isContinuation_iff {a : Node} : a.isContinuation source = true ↔
    ∃ c ∈ continuationStarts, (trimStart (a.text source)).head? = some c := by
  rw [isContinuation, Option.any_eq_true]
  simp only [List.contains_iff_mem, and_comm]

theorem joinsNeighbours_iff {before after : List Node} :
    joinsNeighbours source object before after = true ↔
      ∃ b a, (before.filter (survives source object)).head? = some b ∧
        (after.filter (survives source object)).head? = some a ∧ Joins source b a := by
  rw [joinsNeighbours, survivor?_eq, survivor?_eq]
  split
  · rename_i b a hb ha
    rw [hb, ha, Bool.and_eq_true, isContinuation_iff, Bool.not_eq_true', isTerminated,
      beq_eq_false_iff_ne]
    constructor
    · exact fun h => ⟨b, a, rfl, rfl, h⟩
    · rintro ⟨b', a', ⟨⟩, ⟨⟩, h⟩
      exact h
  · rename_i hnone
    constructor
    · intro h
      cases h
    · rintro ⟨b, a, hb, ha, -⟩
      exact absurd ha (hnone b a hb)

end Node

/-! ## Runs -/

namespace Site

open Node

/-- **The run that a logging statement is in**: the number of siblings before it that stay. -/
def run (source : Text) (object : String) (x : Site) : Nat :=
  (x.before.filter (survives source object)).length

/-- Below a parent, the parent and the siblings decide. -/
theorem placeholder_eq {x : Site} {parent : Node} (hparent : x.parent? = some parent) :
    (x.removal source object).placeholder =
      Node.needsPlaceholder source object parent.kind x.before x.after := by
  obtain ⟨above, habove⟩ := List.head?_eq_some_iff.mp hparent
  rw [removal, needsPlaceholder, habove]

section

variable {root parent : Node} {x : Site} {k : Nat} (hx : x ∈ root.sites)
  (hlog : x.node.isLogging source object = true) (hparent : x.parent? = some parent)
include hx hlog hparent

/-- The children that stay are before the logging statement or after it. -/
theorem survivors_parent : parent.survivors source object =
    (x.before.filter (survives source object)).reverse ++
      x.after.filter (survives source object) := by
  rw [survivors, children_eq_of_mem_sites hx hparent, List.filter_append, List.filter_reverse,
    List.filter_cons_of_neg (by simp [survives_of_isLogging hlog])]

/-- Of the children that stay, the last one before a run is the nearest one. -/
theorem getElem?_survivors_before (hk : x.run source object = k + 1) :
    (parent.survivors source object)[k]? = (x.before.filter (survives source object)).head? := by
  rw [run] at hk
  have hlt : k < (x.before.filter (survives source object)).length := by omega
  rw [survivors_parent hx hlog hparent, List.getElem?_append_left (by rwa [List.length_reverse]),
    List.getElem?_reverse hlt, List.head?_eq_getElem?]
  congr 1
  omega

/-- Of the children that stay, the first one after a run is the nearest one. -/
theorem getElem?_survivors_after : (parent.survivors source object)[x.run source object]? =
    (x.after.filter (survives source object)).head? := by
  have hlength : (x.before.filter (survives source object)).reverse.length =
      x.run source object := List.length_reverse
  rw [survivors_parent hx hlog hparent, List.getElem?_append_right hlength.le, hlength,
    Nat.sub_self, List.head?_eq_getElem?]

/-- **Where statements stand in a list**, an empty one takes the place of a logging statement just
when those that stay on both sides of its run would be read as one. -/
theorem placeholder_iff (hlist : parent.kind ∈ statementLists) :
    (x.removal source object).placeholder = true ↔
      ∃ k b a, x.run source object = k + 1 ∧ (parent.survivors source object)[k]? = some b ∧
        (parent.survivors source object)[k + 1]? = some a ∧ Joins source b a := by
  have hflag : (x.removal source object).placeholder =
      joinsNeighbours source object x.before x.after := by
    rw [placeholder_eq hparent, Node.needsPlaceholder]
    simp [hlist]
  rw [hflag, joinsNeighbours_iff]
  constructor
  · rintro ⟨b, a, hb, ha, h⟩
    obtain ⟨k, hk⟩ : ∃ k, x.run source object = k + 1 := by
      refine Nat.exists_eq_succ_of_ne_zero fun hzero => ?_
      rw [List.eq_nil_of_length_eq_zero hzero] at hb
      cases hb
    refine ⟨k, b, a, hk, ?_, ?_, h⟩
    · rw [getElem?_survivors_before hx hlog hparent hk, hb]
    · rw [← hk, getElem?_survivors_after hx hlog hparent, ha]
  · rintro ⟨k, b, a, hk, hb, ha, h⟩
    rw [getElem?_survivors_before hx hlog hparent hk] at hb
    rw [← hk, getElem?_survivors_after hx hlog hparent] at ha
    exact ⟨b, a, hb, ha, h⟩

end

/-- **Elsewhere** an empty statement always takes the place of a logging statement. -/
theorem placeholder_of_notMem {x : Site}
    (h : ∀ parent, x.parent? = some parent → parent.kind ∉ statementLists) :
    (x.removal source object).placeholder = true := by
  rw [removal, needsPlaceholder]
  split
  · rfl
  · rename_i parent above habove
    have hnot := h parent (by rw [parent?, habove]; rfl)
    simp [Node.needsPlaceholder, hnot]

end Site

namespace Node

/-- **A run of logging statements goes as one.**  The ranges are those of the outermost logging
statements.  Off the lists of statements each of them has an empty statement in its place.  In a
list it is so just when, of the children that stay, the one before the run and the one after it
would be read as one; a run at either end of the list is deleted. -/
theorem placeholder_of_outermost (source : Text) (object : String) (root : Node) :
    root.removals source object = (root.outermost source object).map (Site.removal source object) ∧
    ∀ x ∈ root.outermost source object,
      ((∀ parent, x.parent? = some parent →
          parent.kind ∉ ["program", "statement_block", "switch_case", "switch_default"]) →
        (x.removal source object).placeholder = true) ∧
      ∀ parent, x.parent? = some parent →
        parent.kind ∈ ["program", "statement_block", "switch_case", "switch_default"] →
        parent.children = x.before.reverse ++ x.node :: x.after ∧
        (∀ k b a, x.run source object = k + 1 → (parent.survivors source object)[k]? = some b →
          (parent.survivors source object)[k + 1]? = some a →
          ((x.removal source object).placeholder = true ↔ Joins source b a)) ∧
        (x.run source object = 0 ∨ x.run source object = (parent.survivors source object).length →
          (x.removal source object).placeholder = false) ∧
        ∀ y ∈ root.outermost source object, y.parent? = some parent →
          y.run source object = x.run source object →
          (y.removal source object).placeholder = (x.removal source object).placeholder := by
  refine ⟨removals_eq_map_outermost root, fun x hx => ⟨Site.placeholder_of_notMem, ?_⟩⟩
  intro parent hparent hlist
  have hiff : ∀ y ∈ root.outermost source object, y.parent? = some parent →
      ((y.removal source object).placeholder = true ↔
        ∃ k b a, y.run source object = k + 1 ∧ (parent.survivors source object)[k]? = some b ∧
          (parent.survivors source object)[k + 1]? = some a ∧ Joins source b a) := by
    intro y hy hparent
    obtain ⟨hsite, hlog, -⟩ := mem_outermost.mp hy
    exact Site.placeholder_iff hsite hlog hparent hlist
  refine ⟨children_eq_of_mem_sites (mem_outermost.mp hx).1 hparent, ?_, ?_, ?_⟩
  · intro k b a hk hb ha
    rw [hiff x hx hparent]
    constructor
    · rintro ⟨k', b', a', hk', hb', ha', h⟩
      obtain rfl : k = k' := Nat.succ.inj (hk.symm.trans hk')
      cases hb.symm.trans hb'
      cases ha.symm.trans ha'
      exact h
    · exact fun h => ⟨k, b, a, hk, hb, ha, h⟩
  · intro hend
    rw [← Bool.not_eq_true, hiff x hx hparent]
    rintro ⟨k, b, a, hk, hb, ha, -⟩
    have hlt : k + 1 < (parent.survivors source object).length :=
      (List.getElem?_eq_some_iff.mp ha).1
    omega
  · intro y hy hyparent hrun
    rw [Bool.eq_iff_iff, hiff x hx hparent, hiff y hy hyparent, hrun]

end Node

end Delog

/-! ## A run at hand -/

namespace Delog.Sample

/-- A source in which two logging statements and a comment stand between an assignment without a
`;` and a bracket. -/
def unfinished : Text := "a = b\nconsole.log();\n// c\nconsole.log();\n[1].map(f)\n".toList

/-- The tree of the assignment. -/
def assignment : Node := node "expression_statement" 0 5 none []

/-- The tree of the comment. -/
def comment : Node := .mk ⟨"comment", true, true, false, false, false, ⟨21, 25⟩, none⟩ []

/-- The tree of the call after the bracket. -/
def mapping : Node := node "expression_statement" 41 51 none []

/-- The tree of the source. -/
def list : Node :=
  node "program" 0 52 none [assignment, logging 6, comment, logging 26, mapping]

/-- The first logging statement where it stands. -/
def first : Site := ⟨logging 6, [list], [assignment], [comment, logging 26, mapping]⟩

/-- The second logging statement where it stands. -/
def second : Site := ⟨logging 26, [list], [comment, logging 6, assignment], [mapping]⟩

theorem outermost_list : list.outermost unfinished "console" = [first, second] := by rfl

/-- The two logging statements at hand are one run, and each has an empty statement in its place. -/
theorem sample_placeholder_of_outermost :
    first.run unfinished "console" = second.run unfinished "console" ∧
      list.removals unfinished "console" = [⟨6, 20, true⟩, ⟨26, 40, true⟩] := by
  obtain ⟨hmap, hrule⟩ := Node.placeholder_of_outermost unfinished "console" list
  have hfirst : first ∈ list.outermost unfinished "console" := by simp [outermost_list]
  have hsecond : second ∈ list.outermost unfinished "console" := by simp [outermost_list]
  obtain ⟨-, hrun, -, hsame⟩ := (hrule first hfirst).2 list rfl (by decide)
  have hjoins : Node.Joins unfinished assignment mapping := ⟨by decide, '[', by decide, by rfl⟩
  have hflag : (first.removal unfinished "console").placeholder = true :=
    (hrun 0 assignment mapping (by decide) (by rfl) (by rfl)).mpr hjoins
  have hflag' : (second.removal unfinished "console").placeholder = true :=
    (hsame second hsecond rfl (by decide)).trans hflag
  refine ⟨by decide, ?_⟩
  rw [hmap, outermost_list]
  exact congrArg₂ (fun p q => [Removal.mk 6 20 p, Removal.mk 26 40 q]) hflag hflag'

end Delog.Sample
