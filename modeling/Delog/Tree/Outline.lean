import Delog.Tree.Node

/-!
# Tree/Outline — trees written as lists of nodes with depths

An outline lists the nodes of a tree in pre-order, each with its depth.  The children of a node are
found among the entries after it: they, and what is below them, are deeper than the node.
-/

namespace Delog

/-- The nodes of a tree in pre-order, each with its depth. -/
abbrev Outline := List (Nat × NodeInfo)

namespace Node

/-- **The trees of an outline**, each with the depth of its root: an entry takes the trees after it
that lie deeper for its children. -/
def forest : Outline → List (Nat × Node)
  | [] => []
  | (depth, info) :: entries =>
    let later := forest entries
    (depth, mk info ((later.takeWhile (depth < ·.1)).map (·.2))) ::
      later.dropWhile (depth < ·.1)

/-- **The tree of an outline**: that of its first entry. -/
def ofOutline? (entries : Outline) : Option Node := (forest entries).head?.map (·.2)

end Node

end Delog
