import Delog.Proofs.Logging.Placeholder

/-!
# Proofs/Logging/Continuation — statements that would go on the line before

Between two statements that stay there is no `;` if the first has none and only logging statements
are deleted between them.  Then the second one is read as a part of the first if it starts with a
character that goes on with an expression.  In plain scripts these are `(`, `[`, a backtick, `+`,
`-` and `/`; where there are type assertions or elements of markup, a statement may start with `<`
too, and `<` is an operator.

* `placeholder_of_continuation` — before all of these but `<` an empty statement is kept
-/

namespace Delog

open Text

variable {source : Text} {object : String}

namespace Node

/-- Whether two statements join goes by the character that the second one starts with, if the first
has no `;` at its end. -/
theorem joins_iff {b a : Node} {c : Char} (hopen : (trimEnd (b.text source)).getLast? ≠ some ';')
    (hstart : (trimStart (a.text source)).head? = some c) :
    Joins source b a ↔ c ∈ ['(', '[', '\x60', '+', '-', '/'] := by
  rw [Joins, hstart]
  constructor
  · rintro ⟨-, d, hd, heq⟩
    exact Option.some.inj heq ▸ hd
  · exact fun hc => ⟨hopen, c, hc, rfl⟩

/-- **The nearest statements that stay on both sides** of a logging statement, and its parent, say
whether an empty statement takes its place. -/
theorem placeholder_iff_joins {x : Site} {parent b a : Node} (hparent : x.parent? = some parent)
    (hbefore : x.before.find? (survives source object) = some b)
    (hafter : x.after.find? (survives source object) = some a) :
    (x.removal source object).placeholder = true ↔
      parent.kind ∉ statementLists ∨ Joins source b a := by
  rw [← List.head?_filter] at hbefore hafter
  have hjoins : joinsNeighbours source object x.before x.after = true ↔ Joins source b a := by
    rw [joinsNeighbours_iff, hbefore, hafter]
    constructor
    · rintro ⟨_, _, ⟨⟩, ⟨⟩, h⟩
      exact h
    · exact fun h => ⟨b, a, rfl, rfl, h⟩
  rw [Site.placeholder_eq hparent, needsPlaceholder, Bool.or_eq_true, hjoins]
  simp

/-- **Before a continuation an empty statement is kept, unless it starts with `<`.**  Let the
nearest statement that stays before an outermost logging statement have no `;` at its end, and the
nearest one after it start with a character by which a line goes on.  Then the range of the logging
statement has an empty statement in its place just when it does not stand in a list of statements,
or the character is not `<`. -/
theorem placeholder_of_continuation {root : Node} {x : Site}
    (hx : x ∈ root.outermost source object) {b a : Node} {c : Char}
    (hbefore : x.before.find? (survives source object) = some b)
    (hafter : x.after.find? (survives source object) = some a)
    (hopen : (trimEnd (b.text source)).getLast? ≠ some ';')
    (hstart : (trimStart (a.text source)).head? = some c)
    (hc : c ∈ ['(', '[', '\x60', '+', '-', '/', '<']) :
    x.removal source object ∈ root.removals source object ∧
      ∃ parent, x.parent? = some parent ∧
        parent.children = x.before.reverse ++ x.node :: x.after ∧
        ((x.removal source object).placeholder = true ↔
          parent.kind ∉ ["program", "statement_block", "switch_case", "switch_default"] ∨
            c ≠ '<') := by
  have hsite := (mem_outermost.mp hx).1
  have hne : x.before ≠ [] := fun hnil => by
    rw [hnil] at hbefore
    cases hbefore
  obtain ⟨parent, hparent⟩ := exists_parent_of_mem_sites hsite hne
  have hother : c ∈ ['(', '[', '\x60', '+', '-', '/'] ↔ c ≠ '<' := by
    constructor
    · rintro hmem rfl
      exact absurd hmem (by decide)
    · exact fun hne => (List.mem_append (t := ['<'])).mp hc |>.resolve_right (by simpa using hne)
  refine ⟨?_, parent, hparent, children_eq_of_mem_sites hsite hparent, ?_⟩
  · rw [removals_eq_map_outermost]
    exact List.mem_map_of_mem hx
  · rw [placeholder_iff_joins hparent hbefore hafter, joins_iff hopen hstart, hother]
    rfl

end Node

/-! ## Continuations at hand -/

namespace Sample

/-- The nearest statements that stay around the first logging statement at hand are the assignment
and the call after the bracket, and an empty statement is kept between them. -/
theorem sample_placeholder_of_continuation :
    first.before.find? (Node.survives unfinished "console") = some assignment ∧
      first.after.find? (Node.survives unfinished "console") = some mapping ∧
      (trimEnd (assignment.text unfinished)).getLast? ≠ some ';' ∧
      (trimStart (mapping.text unfinished)).head? = some '[' ∧
      (first.removal unfinished "console").placeholder = true := by
  have hfirst : first ∈ list.outermost unfinished "console" := by simp [outermost_list]
  have hbefore : first.before.find? (Node.survives unfinished "console") = some assignment := by rfl
  have hafter : first.after.find? (Node.survives unfinished "console") = some mapping := by rfl
  have hopen : (trimEnd (assignment.text unfinished)).getLast? ≠ some ';' := by decide
  have hstart : (trimStart (mapping.text unfinished)).head? = some '[' := by decide
  obtain ⟨-, parent, -, -, hflag⟩ :=
    Node.placeholder_of_continuation hfirst hbefore hafter hopen hstart (by decide)
  exact ⟨hbefore, hafter, hopen, hstart, hflag.mpr (.inr (by decide))⟩

/-- A source in which a type assertion comes after the logging statement. -/
def assertionSource : Text := "a = b\nconsole.log();\n<T>c\n".toList

/-- The tree of the type assertion. -/
def assertion : Node :=
  node "expression_statement" 21 25 none
    [node "type_assertion" 21 25 none
      [node "type_arguments" 21 24 none [node "type_identifier" 22 23 none []],
        node "identifier" 24 25 none []]]

/-- The tree of the source with the type assertion. -/
def assertionRoot : Node := node "program" 0 26 none [assignment, logging 6, assertion]

/-- **Before a type assertion the logging statement is deleted**, though the assignment before it
has no `;`, and what is left is read as `a = b < T > c`. -/
theorem assertion_continues_assignment :
    assertionRoot.WellFormed assertionSource ∧
      (∀ n ∈ assertionRoot.preorder, n.isFaulty = false) ∧
      ∃ x ∈ assertionRoot.outermost assertionSource "console",
        x.before.find? (Node.survives assertionSource "console") = some assignment ∧
        x.after.find? (Node.survives assertionSource "console") = some assertion ∧
        (trimEnd (assignment.text assertionSource)).getLast? ≠ some ';' ∧
        (assertion.text assertionSource).head? = some '<' ∧
        (x.removal assertionSource "console").placeholder = false := by
  have houtermost : assertionRoot.outermost assertionSource "console" =
      [⟨logging 6, [assertionRoot], [assignment], [assertion]⟩] := by rfl
  refine ⟨by decide, by decide, ⟨logging 6, [assertionRoot], [assignment], [assertion]⟩, ?_, by rfl,
    by rfl, by decide, by decide, by decide⟩
  rw [houtermost]
  exact List.mem_singleton_self _

end Sample

end Delog
