import Delog.Proofs.Logging.Outermost
import Delog.Proofs.Removal.Upkeep
import Delog.Proofs.Tree.Fault
import Delog.Strip.Stripper

/-!
# Proofs/Strip/Outcome — what stripping a source comes to

A source with syntax errors is refused, one without logging statements is left alone, and any other
is edited.  In a well-formed tree the ranges of the logging statements can always be removed, so
that the only thing left to go wrong is the check of the result.

* `strip_cases` — all that stripping can come to
* `strip_of_runAll` — what becomes of a well-formed source with logging statements
-/

namespace Delog.Stripper

open Text Node

variable {s : Stripper} {source : Text} {name : String} {trees : Trees}

/-- A source with a syntax error is refused. -/
theorem strip_of_firstFault {f : Fault} (h : trees.source.firstFault source = some f) :
    s.findRemovals source name trees.source = .error (.parse name f.position f.defect.message) ∧
      s.strip source name trees = .error (.parse name f.position f.defect.message) := by
  have hfind : s.findRemovals source name trees.source =
      .error (.parse name f.position f.defect.message) := by
    rw [findRemovals, h]
  exact ⟨hfind, by rw [strip, hfind]; rfl⟩

section

variable (hfault : trees.source.firstFault source = none)
include hfault

/-- A source without logging statements is left alone. -/
theorem strip_of_removals_eq_nil
    (hnil : trees.source.removals source s.options.loggingObject = []) :
    s.strip source name trees = .ok .unchanged := by
  rw [strip, findRemovals, hfault, hnil]
  rfl

/-- A source with logging statements is edited, and the result checked. -/
theorem strip_of_removals_ne_nil
    (hne : trees.source.removals source s.options.loggingObject ≠ []) :
    s.strip source name trees =
      match edit source (trees.source.removals source s.options.loggingObject) with
      | .error e => .error (.internal name (.edit e))
      | .ok text =>
        match trees.result.bind (firstFault text) with
        | some f => .error (.internal name (.parser (.ofFault f)))
        | none => .ok (.modified text
            (trees.source.removals source s.options.loggingObject).length) := by
  have hempty : ¬ (trees.source.removals source s.options.loggingObject).isEmpty = true := by
    simpa using hne
  rw [strip, findRemovals, hfault]
  exact if_neg hempty

end

/-- **All that stripping can come to**, each with what leads to it. -/
theorem strip_cases (s : Stripper) (source : Text) (name : String) (trees : Trees) :
    (∃ f, trees.source.firstFault source = some f ∧
      s.strip source name trees = .error (.parse name f.position f.defect.message)) ∨
    (trees.source.firstFault source = none ∧
      trees.source.removals source s.options.loggingObject = [] ∧
      s.strip source name trees = .ok .unchanged) ∨
    (∃ e, edit source (trees.source.removals source s.options.loggingObject) = .error e ∧
      s.strip source name trees = .error (.internal name (.edit e))) ∨
    (∃ text f, edit source (trees.source.removals source s.options.loggingObject) = .ok text ∧
      trees.result.bind (firstFault text) = some f ∧
      s.strip source name trees = .error (.internal name (.parser (.ofFault f)))) ∨
    (∃ text, trees.source.removals source s.options.loggingObject ≠ [] ∧
      edit source (trees.source.removals source s.options.loggingObject) = .ok text ∧
      trees.result.bind (firstFault text) = none ∧
      s.strip source name trees = .ok (.modified text
        (trees.source.removals source s.options.loggingObject).length)) := by
  cases hfault : trees.source.firstFault source with
  | some f => exact .inl ⟨f, rfl, (strip_of_firstFault hfault).2⟩
  | none =>
    by_cases hnil : trees.source.removals source s.options.loggingObject = []
    · exact .inr (.inl ⟨rfl, hnil, strip_of_removals_eq_nil hfault hnil⟩)
    · rw [strip_of_removals_ne_nil hfault hnil]
      cases hedit : edit source (trees.source.removals source s.options.loggingObject) with
      | error e => exact .inr (.inr (.inl ⟨e, rfl, rfl⟩))
      | ok text =>
        cases hresult : trees.result.bind (firstFault text) with
        | some f => exact .inr (.inr (.inr (.inl ⟨text, f, rfl, hresult, by simp only [hresult]⟩)))
        | none => exact .inr (.inr (.inr (.inr ⟨text, hnil, rfl, hresult, by simp only [hresult]⟩)))

/-- **A modified source** had logging statements, whose ranges were removed. -/
theorem of_strip_eq_modified {text : Text} {count : Nat}
    (h : s.strip source name trees = .ok (.modified text count)) :
    trees.source.removals source s.options.loggingObject ≠ [] ∧
      edit source (trees.source.removals source s.options.loggingObject) = .ok text ∧
      count = (trees.source.removals source s.options.loggingObject).length := by
  rcases strip_cases s source name trees with ⟨_, -, hs⟩ | ⟨-, -, hs⟩ | ⟨_, -, hs⟩ |
    ⟨_, _, -, -, hs⟩ | ⟨t, hne, hedit, -, hs⟩ <;> rw [hs] at h <;> cases h
  exact ⟨hne, hedit, rfl⟩

/-! ## In a well-formed tree -/

/-- **A well-formed source with logging statements** comes to the tidied text without them, unless
the check of that text finds a fault. -/
theorem strip_of_runAll (hroot : trees.source.WellFormed source)
    (hfault : trees.source.firstFault source = none)
    (hne : trees.source.removals source s.options.loggingObject ≠ []) {q : Text}
    (hq : Removal.runAll source (trees.source.removals source s.options.loggingObject).reverse
      = .ok q) :
    s.strip source name trees =
      match trees.result.bind (firstFault (Removal.tidy source q)) with
      | some f => .error (.internal name (.parser (.ofFault f)))
      | none => .ok (.modified (Removal.tidy source q)
          (trees.source.removals source s.options.loggingObject).length) := by
  rw [strip_of_removals_ne_nil hfault hne,
    Removal.edit_eq hroot.solidIn_of_mem_removals hroot.pairwise_removals hne, hq]
  rfl

end Delog.Stripper

/-! ## A source at hand -/

namespace Delog.Sample

/-- A node of the grammar, apart from its marks. -/
def node (kind : String) (start stop : Nat) (field : Option String) (children : List Node) : Node :=
  .mk ⟨kind, true, false, false, false, false, ⟨start, stop⟩, field⟩ children

/-- The tree of `console.log();`, from an offset on. -/
def logging (start : Nat) : Node :=
  node "expression_statement" start (start + 14) none
    [node "call_expression" start (start + 13) none
      [node "member_expression" start (start + 11) (some "function")
        [node "identifier" start (start + 7) (some "object") [],
          node "property_identifier" (start + 8) (start + 11) (some "property") []],
        node "arguments" (start + 11) (start + 13) (some "arguments") []]]

/-- A source with two logging statements, of which the first is the body of an `if`. -/
def source : Text := "if (a) console.log();\n\n\n\nconsole.log();\nb;\n".toList

/-- The tree of the source. -/
def root : Node :=
  node "program" 0 43 none
    [node "if_statement" 0 21 none [node "parenthesized_expression" 3 6 none [], logging 7],
      logging 25, node "expression_statement" 40 42 none []]

/-- The root with a missing token at its end. -/
def faulty : Node :=
  .mk { root.info with hasError := true }
    (root.children ++ [.mk ⟨";", false, false, false, true, true, ⟨43, 43⟩, none⟩ []])

/-- The trees of the source and of the text it comes to. -/
def trees : Trees := ⟨root, none⟩

/-- The text the source comes to. -/
def text : Text := "if (a) ;\n\nb;\n".toList

theorem wellFormed : trees.source.WellFormed source := by decide

theorem strip_eq : (Stripper.new .default).strip source "a.ts" trees = .ok (.modified text 2) := by
  have hfault : trees.source.firstFault source = none := by decide
  have hne : trees.source.removals source "console" ≠ [] := by decide
  have hq : Removal.runAll source (trees.source.removals source "console").reverse =
      .ok "if (a) ;\n\n\n\nb;\n".toList := by decide
  exact Stripper.strip_of_runAll (s := .new .default) wellFormed hfault hne hq

end Delog.Sample
