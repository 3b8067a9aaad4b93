import Delog.Text.Bytes

/-!
# Tree/Node — syntax trees

A node of a syntax tree has a kind, a span of the source, a few marks, and its children in the order
of the source, tokens and comments among them.  A child may go by a field name in its parent.

* `mem_preorder` — the pre-order lists a node and all that is below it
-/

namespace Delog

/-- **What a node says about itself**, apart from its children. -/
structure NodeInfo where
  kind : String
  /-- The node stands for a rule of the grammar, and not for a token. -/
  isNamed : Bool
  /-- The node may stand anywhere, as comments may. -/
  isExtra : Bool
  /-- The node covers text that the grammar does not account for. -/
  isError : Bool
  /-- The node was put in for a token that the source lacks. -/
  isMissing : Bool
  /-- The parser reports an error at the node or below it. -/
  hasError : Bool
  span : Span
  /-- The field by which the parent knows the node. -/
  field : Option String
deriving DecidableEq, Repr

/-- **A node of a syntax tree.** -/
inductive Node where
  | mk (info : NodeInfo) (children : List Node)

namespace Node

/-- What the node says about itself. -/
def info : Node → NodeInfo
  | mk info _ => info

/-- The children, in the order of the source. -/
def children : Node → List Node
  | mk _ children => children

@[simp] theorem info_mk (i : NodeInfo) (cs : List Node) : (mk i cs).info = i := rfl

@[simp] theorem children_mk (i : NodeInfo) (cs : List Node) : (mk i cs).children = cs := rfl

/-- The kind of a node. -/
def kind (n : Node) : String := n.info.kind

/-- The bytes a node covers. -/
def span (n : Node) : Span := n.info.span

/-- **The first child with a field name.** -/
def child? (n : Node) (field : String) : Option Node :=
  n.children.find? fun c => c.info.field == some field

/-- The text a node covers. -/
def text (source : Text) (n : Node) : Text := source.slice n.span

mutual

/-- **The node and all nodes below it**, each before its children. -/
def preorder : Node → List Node
  | mk i cs => mk i cs :: preorderAll cs

/-- The nodes of several trees, one tree after the other. -/
def preorderAll : List Node → List Node
  | [] => []
  | n :: ns => preorder n ++ preorderAll ns

end

/-! ## Reaching every node -/

theorem preorderAll_eq_flatMap : ∀ ns : List Node, preorderAll ns = ns.flatMap preorder
  | [] => rfl
  | n :: ns => by rw [preorderAll, preorderAll_eq_flatMap ns, List.flatMap_cons]

@[simp] theorem self_mem_preorder (n : Node) : n ∈ n.preorder := by
  cases n
  rw [preorder]
  exact List.mem_cons_self

/-- **Below a node are its children and what is below them.** -/
theorem mem_preorder {n m : Node} :
    m ∈ n.preorder ↔ m = n ∨ ∃ c ∈ n.children, m ∈ c.preorder := by
  cases n
  rw [preorder, List.mem_cons, preorderAll_eq_flatMap, List.mem_flatMap]
  rfl

end Node

end Delog
