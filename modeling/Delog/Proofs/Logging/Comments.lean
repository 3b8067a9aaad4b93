import Delog.Proofs.Logging.Placeholder
import Delog.Proofs.Tree.Weed

/-!
# Proofs/Logging/Comments — comments have no say in what is removed

Comments may stand before the call of a logging statement and within it, and any number of them
among its siblings.  The expression of a statement is looked up past them, the parts of a call by
the names of their fields, and the statements that stay on both sides past comments and logging
statements; so it makes no difference which of the comments are in the tree.

* `isLogging_bare` — a statement logs or not, with or without the comments in it
* `collect_bare` — what is collected from a tree is collected without its comments
* `removals_weed` — the ranges to remove do not depend on the comments, or any other extra nodes
-/

namespace Delog

open Text

variable {source : Text} {object : String}

namespace Node

/-- **Extra nodes without a name**: none goes by a field name in its parent. -/
def ExtrasUnnamed (root : Node) : Prop :=
  ∀ n ∈ root.preorder, n.info.isExtra = true → n.info.field = none

instance (root : Node) : Decidable root.ExtrasUnnamed :=
  inferInstanceAs (Decidable (∀ n ∈ root.preorder, n.info.isExtra = true → n.info.field = none))

/-- **Extra nodes in which nothing logs**: none is a logging statement, or has one in it. -/
def ExtrasSilent (source : Text) (object : String) (root : Node) : Prop :=
  ∀ n ∈ root.preorder, n.info.isExtra = true → ∀ m ∈ n.preorder, m.isLogging source object = false

instance (source : Text) (object : String) (root : Node) :
    Decidable (ExtrasSilent source object root) :=
  inferInstanceAs (Decidable (∀ n ∈ root.preorder, n.info.isExtra = true →
    ∀ m ∈ n.preorder, m.isLogging source object = false))

/-! ## Logging statements without comments -/

theorem isNamedObject_bare (n : Node) :
    n.bare.isNamedObject source object = n.isNamedObject source object := by
  rw [isNamedObject, isNamedObject, kind_bare, text_bare]

/-- The expression of a statement is the same without the comments before it. -/
theorem expression?_bare (n : Node) : n.bare.expression? = n.expression?.map bare := by
  rw [expression?, expression?, children_bare]
  refine find?_bareAll (fun c _ hc => ?_) fun c _ => by rw [info_bare]
  rw [hc, Bool.not_true, Bool.and_false]

namespace ExtrasUnnamed

variable {n : Node} (h : n.ExtrasUnnamed)
include h

theorem of_mem_children {c : Node} (hc : c ∈ n.children) : c.ExtrasUnnamed :=
  fun m hm => h m (mem_preorder.mpr (.inr ⟨c, hc, hm⟩))

theorem of_mem_preorder {m : Node} (hm : m ∈ n.preorder) : m.ExtrasUnnamed :=
  fun k hk => h k (mem_preorder_trans hm hk)

/-- A look-up by a field name comes to the same child without the comments. -/
theorem child?_bare (field : String) : n.bare.child? field = (n.child? field).map bare := by
  rw [child?, child?, children_bare]
  refine find?_bareAll (fun c hc hextra => ?_) fun c _ => by rw [info_bare]
  rw [h c (mem_preorder.mpr (.inr ⟨c, hc, self_mem_preorder c⟩)) hextra]
  rfl

theorem hasChild_bare (field kind : String) :
    n.bare.hasChild field kind = n.hasChild field kind := by
  rw [hasChild, hasChild, h.child?_bare, Option.any_map]
  cases n.child? field with
  | none => rfl
  | some c => exact congrArg (· == kind) (kind_bare c)

/-- What is asked of the child with a field name comes to the same without the comments, if it does
for each node with unnamed comments. -/
theorem any_child?_bare {p : Node → Bool} (hp : ∀ c : Node, c.ExtrasUnnamed → p c.bare = p c)
    (field : String) : (n.bare.child? field).any p = (n.child? field).any p := by
  rw [h.child?_bare, Option.any_map]
  cases hfind : n.child? field with
  | none => rfl
  | some c => exact hp c (h.of_mem_children (List.mem_of_find?_eq_some hfind))

theorem isMethodOf_bare : n.bare.isMethodOf source object = n.isMethodOf source object := by
  rw [isMethodOf, isMethodOf, kind_bare, h.hasChild_bare,
    h.any_child?_bare fun c _ => isNamedObject_bare c]

theorem isLoggingCall_bare :
    n.bare.isLoggingCall source object = n.isLoggingCall source object := by
  rw [isLoggingCall, isLoggingCall, kind_bare, h.hasChild_bare,
    h.any_child?_bare fun c hc => hc.isMethodOf_bare]

/-- **A statement logs or not**, with or without the comments in it. -/
theorem isLogging_bare : n.bare.isLogging source object = n.isLogging source object := by
  rw [isLogging, isLogging, kind_bare, expression?_bare, Option.any_map]
  cases hfind : n.expression? with
  | none => rfl
  | some c =>
    exact congrArg (_ && ·)
      (h.of_mem_children (List.mem_of_find?_eq_some hfind)).isLoggingCall_bare

/-- So it does with some of the comments. -/
theorem isLogging_weed (chosen : Address → Bool) (hweed : (n.weed chosen).ExtrasUnnamed) :
    (n.weed chosen).isLogging source object = n.isLogging source object := by
  rw [← hweed.isLogging_bare, bare_weed, h.isLogging_bare]

/-- Weeding names no comment. -/
theorem weed (chosen : Address → Bool) : (n.weed chosen).ExtrasUnnamed := by
  intro m hm hextra
  obtain ⟨k, hk, _, rfl⟩ := exists_eq_weed chosen n hm
  rw [info_weed] at hextra ⊢
  exact h k hk hextra

end ExtrasUnnamed

/-! ## The statements on both sides -/

theorem isTerminated_bare (n : Node) : n.bare.isTerminated source = n.isTerminated source := by
  rw [isTerminated, isTerminated, text_bare]

theorem isContinuation_bare (n : Node) :
    n.bare.isContinuation source = n.isContinuation source := by
  rw [isContinuation, isContinuation, text_bare]

/-- **The nearest statement that stays** is the same without the comments on the way to it. -/
theorem survivor?_bareAll {siblings : List Node} (h : ∀ n ∈ siblings, n.ExtrasUnnamed) :
    survivor? source object (bareAll siblings) = (survivor? source object siblings).map bare := by
  refine find?_bareAll (fun n _ hextra => ?_) fun n hn => ?_
  · rw [hextra, Bool.not_true, Bool.and_false, Bool.false_and]
  · rw [info_bare, (h n hn).isLogging_bare]

theorem needsPlaceholder_bareAll {before after : List Node} (parent : String)
    (hbefore : ∀ n ∈ before, n.ExtrasUnnamed) (hafter : ∀ n ∈ after, n.ExtrasUnnamed) :
    needsPlaceholder source object parent (bareAll before) (bareAll after) =
      needsPlaceholder source object parent before after := by
  rw [needsPlaceholder, needsPlaceholder, joinsNeighbours, joinsNeighbours,
    survivor?_bareAll hbefore, survivor?_bareAll hafter]
  cases survivor? source object before with
  | none => rfl
  | some b =>
    cases survivor? source object after with
    | none => rfl
    | some a => simp only [Option.map_some, isTerminated_bare, isContinuation_bare]

/-! ## What is collected -/

/-- From a node in which nothing logs nothing is collected. -/
theorem collect_eq_nil {n : Node} (h : ∀ m ∈ n.preorder, m.isLogging source object = false)
    (placeholder : Bool) : collect source object placeholder n = [] := by
  have hflag : collect source object placeholder n = n.removals source object := by
    obtain ⟨i, cs⟩ := n
    have hself := h _ (self_mem_preorder _)
    rw [removals, collect, collect, hself]
    rfl
  rw [hflag, removals_eq_nil_iff, loggingStatements, List.filter_eq_nil_iff]
  simpa using h

mutual

/-- **What is collected from a tree is collected without its comments.** -/
theorem collect_bare (placeholder : Bool) : ∀ n : Node, n.ExtrasUnnamed →
    ExtrasSilent source object n →
      collect source object placeholder n.bare = collect source object placeholder n
  | mk i cs, hnames, hsilent => by
    have hlog :
        (mk i (bareAll cs)).isLogging source object = (mk i cs).isLogging source object := by
      rw [← bare_mk, hnames.isLogging_bare]
    have hbelow := collectAll_bareAll i.kind [] cs (by simp) (fun c hc => hnames.of_mem_children hc)
      fun c hc m hm => hsilent m (mem_preorder.mpr (.inr ⟨c, hc, hm⟩))
    rw [bare_mk, collect, collect, hlog]
    exact congrArg (ite _ _ ·) hbelow
termination_by structural n => n

theorem collectAll_bareAll (parent : String) (before : List Node) : ∀ ns : List Node,
    (∀ n ∈ before, n.ExtrasUnnamed) → (∀ n ∈ ns, n.ExtrasUnnamed) →
    (∀ n ∈ ns, ExtrasSilent source object n) →
      collectAll source object parent (bareAll before) (bareAll ns) =
        collectAll source object parent before ns
  | [], _, _, _ => by
    have hnil : bareAll [] = [] := rfl
    rw [hnil, collectAll, collectAll]
  | n :: after, hbefore, hnames, hsilent => by
    obtain ⟨hname, hnames⟩ := List.forall_mem_cons.mp hnames
    obtain ⟨hself, hsilent⟩ := List.forall_mem_cons.mp hsilent
    have hrest := collectAll_bareAll parent (n :: before) after
      (List.forall_mem_cons.mpr ⟨hname, hbefore⟩) hnames hsilent
    rw [bareAll_cons] at hrest
    rw [bareAll_cons, collectAll]
    split
    · rename_i hextra
      rw [if_pos hextra] at hrest
      rw [hrest, collect_eq_nil (hself n (self_mem_preorder n) hextra), List.nil_append]
    · rename_i hextra
      rw [if_neg hextra] at hrest
      rw [collectAll, hrest, needsPlaceholder_bareAll parent hbefore hnames,
        collect_bare _ n hname hself]
termination_by structural ns => ns

end

/-- Weeding makes no comment log. -/
theorem ExtrasSilent.weed {root : Node} (h : ExtrasSilent source object root)
    (hnames : root.ExtrasUnnamed) (chosen : Address → Bool) :
    ExtrasSilent source object (root.weed chosen) := by
  intro n hn hextra m hm
  obtain ⟨k, hk, chosen', rfl⟩ := exists_eq_weed chosen root hn
  obtain ⟨l, hl, chosen'', rfl⟩ := exists_eq_weed chosen' k hm
  rw [info_weed] at hextra
  have hname := hnames.of_mem_preorder (mem_preorder_trans hk hl)
  rw [hname.isLogging_weed chosen'' (hname.weed chosen'')]
  exact h k hk hextra l hl

/-- **Comments have no say in what is removed.**  Let no extra node of a tree go by a field name,
and none be a logging statement or have one in it.  Then whichever of the extra nodes are taken out
of the tree, with all that is below them, the ranges to remove stay what they are, and so does what
takes their place. -/
theorem removals_weed {root : Node} (hnames : root.ExtrasUnnamed)
    (hsilent : ExtrasSilent source object root) (chosen : Address → Bool) :
    (root.weed chosen).removals source object = root.removals source object := by
  calc (root.weed chosen).removals source object
      = (root.weed chosen).bare.removals source object :=
        (collect_bare true _ (hnames.weed chosen) (hsilent.weed hnames chosen)).symm
    _ = root.bare.removals source object := by rw [bare_weed]
    _ = root.removals source object := collect_bare true _ hnames hsilent

end Node

namespace Sample

/-- A source with comments before a logging statement and between the parts of it. -/
def commented : Text := "a\n// c\nc/**/.l/**/()\n[1]\n".toList

/-- The tree of a comment. -/
def remark (start stop : Nat) : Node :=
  .mk ⟨"comment", true, true, false, false, false, ⟨start, stop⟩, none⟩ []

/-- The tree of `l` as the method of `c`, with or without comments in it. -/
def method (comments : List Node) : Node :=
  node "member_expression" 7 14 (some "function")
    ([node "identifier" 7 8 (some "object") []] ++ comments ++
      [node "property_identifier" 13 14 (some "property") []])

/-- The tree of the source, by the comments before the statement, in its call and in its method. -/
def commentedTree (before inCall inMethod : List Node) : Node :=
  node "program" 0 25 none
    ([node "expression_statement" 0 1 none []] ++ before ++
      [node "expression_statement" 7 20 none
        [node "call_expression" 7 20 none
          ([method inMethod] ++ inCall ++ [node "arguments" 18 20 (some "arguments") []])],
        node "expression_statement" 21 24 none []])

/-- The tree with all comments gives the same range as the tree in which only one is left, the
second child of the call, at the address `[2, 0, 1]`. -/
theorem sample_removals_weed :
    (commentedTree [] [remark 14 18] []).removals commented "c" =
        (commentedTree [remark 2 6] [remark 14 18] [remark 8 12]).removals commented "c" ∧
      (commentedTree [] [remark 14 18] []).removals commented "c" = [⟨7, 20, true⟩] := by
  have hnames : (commentedTree [remark 2 6] [remark 14 18] [remark 8 12]).ExtrasUnnamed := by decide
  have hsilent : Node.ExtrasSilent commented "c"
      (commentedTree [remark 2 6] [remark 14 18] [remark 8 12]) := by decide
  have hweed : (commentedTree [remark 2 6] [remark 14 18] [remark 8 12]).weed (· ≠ [2, 0, 1]) =
      commentedTree [] [remark 14 18] [] := by rfl
  rw [← hweed]
  exact ⟨Node.removals_weed hnames hsilent (· ≠ [2, 0, 1]), by decide⟩

end Sample

end Delog
