import Delog.Proofs.Logging.Placeholder

/-!
# Proofs/Logging/Names — of a source, only the names decide what is removed

Which nodes are logging statements goes by the kinds of the nodes, and by what the identifiers read.
No other text of the source is looked at: whatever a string, a template or a comment says, it
neither makes a logging statement nor hides one.

* `SameNames.isLogging_eq` — where the names are the same, the same nodes are logging statements
* `removals_of_sameNames` — and the ranges to remove have the same spans
-/

namespace Delog

open Text

variable {source other : Text} {object : String}

namespace Node

/-- **Two texts have the same names** in a tree: each identifier reads the same in both. -/
def SameNames (source other : Text) (root : Node) : Prop :=
  ∀ n ∈ root.preorder, n.kind = "identifier" → n.text source = n.text other

instance (source other : Text) (root : Node) : Decidable (SameNames source other root) :=
  inferInstanceAs
    (Decidable (∀ n ∈ root.preorder, n.kind = "identifier" → n.text source = n.text other))

namespace SameNames

variable {n : Node} (h : SameNames source other n)
include h

theorem of_mem_children {c : Node} (hc : c ∈ n.children) : SameNames source other c :=
  fun m hm => h m (mem_preorder.mpr (.inr ⟨c, hc, hm⟩))

theorem of_mem_preorder {m : Node} (hm : m ∈ n.preorder) : SameNames source other m :=
  fun k hk => h k (mem_preorder_trans hm hk)

/-- What is asked of a child comes to the same, if it does for each node with the same names. -/
theorem any_eq {p p' : Node → Bool} (hp : ∀ c, SameNames source other c → p c = p' c)
    (q : Node → Bool) : (n.children.find? q).any p = (n.children.find? q).any p' := by
  cases hfind : n.children.find? q with
  | none => rfl
  | some c => exact hp c (h.of_mem_children (List.mem_of_find?_eq_some hfind))

/-- This is the one place where the text of the source is read. -/
theorem isNamedObject_eq : n.isNamedObject source object = n.isNamedObject other object := by
  by_cases hkind : n.kind = "identifier"
  · rw [isNamedObject, isNamedObject, h n (self_mem_preorder n) hkind]
  · rw [isNamedObject, isNamedObject, beq_false_of_ne hkind, Bool.false_and, Bool.false_and]

theorem isMethodOf_eq : n.isMethodOf source object = n.isMethodOf other object :=
  congrArg (_ && ·) (h.any_eq (fun _ hc => hc.isNamedObject_eq) _)

theorem isLoggingCall_eq : n.isLoggingCall source object = n.isLoggingCall other object :=
  congrArg (_ && ·) (h.any_eq (fun _ hc => hc.isMethodOf_eq) _)

/-- **Where the names are the same, the same nodes are logging statements.** -/
theorem isLogging_eq : n.isLogging source object = n.isLogging other object :=
  congrArg (_ && ·) (h.any_eq (fun _ hc => hc.isLoggingCall_eq) _)

end SameNames

/-- **Only the names decide what is removed.**  Of two texts with the same names in a tree the same
nodes are logging statements, and the ranges to remove have the same spans, whatever the texts say
elsewhere: in strings, templates and comments, and where the methods are named. -/
theorem removals_of_sameNames {root : Node} (h : SameNames source other root) (object : String) :
    root.loggingStatements source object = root.loggingStatements other object ∧
      (root.removals source object).map Removal.span =
        (root.removals other object).map Removal.span := by
  have hlog : ∀ n ∈ root.preorder, n.isLogging source object = n.isLogging other object :=
    fun n hn => (h.of_mem_preorder hn).isLogging_eq
  refine ⟨List.filter_congr hlog, ?_⟩
  rw [map_span_removals, map_span_removals, outermostAt, outermostAt,
    search_congr root fun n hn => ⟨hlog n hn, by rw [hlog n hn]⟩]

end Node

/-! ## Another text at hand -/

namespace Sample

/-- Another text of the size of the unfinished source, for the same tree: a template in place of the
assignment, another comment, other methods, and no bracket after the logging statements. -/
def retold : Text := "`con`\nconsole.dir();\n/**/\nconsole.dir();\nf(`;`)+10;\n".toList

/-- The two texts at hand have the same names, and so the same spans to remove. -/
theorem sample_removals_of_sameNames :
    Node.SameNames unfinished retold list ∧ size unfinished = size retold ∧
      (list.removals retold "console").map Removal.span = [⟨6, 20⟩, ⟨26, 40⟩] := by
  have hnames : Node.SameNames unfinished retold list := by decide
  have hspans : (list.removals unfinished "console").map Removal.span = [⟨6, 20⟩, ⟨26, 40⟩] := by
    decide
  exact ⟨hnames, by decide, ((Node.removals_of_sameNames hnames "console").2).symm.trans hspans⟩

/-- What takes the place of the ranges is not decided by names: the bracket asked for empty
statements, and in the other text there is none. -/
example : (list.removals unfinished "console").map Removal.placeholder = [true, true] ∧
    (list.removals retold "console").map Removal.placeholder = [false, false] := by decide

end Sample

end Delog
