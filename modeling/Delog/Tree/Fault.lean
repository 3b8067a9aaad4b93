import Delog.Text.Position
import Delog.Tree.Node

/-!
# Tree/Fault — finding the syntax errors of a source

A source is at fault where its tree has an error node or a missing node.  Faults inside a faulty
node add nothing and are left out, and a tree or a branch is searched only if the parser marks it as
having an error.
-/

namespace Delog

open Text

/-- **What is wrong at a place in a source.** -/
inductive Defect where
  /-- A token of this kind is missing. -/
  | missing (kind : String)
  /-- The text is not accounted for; the snippet may be empty. -/
  | unexpected (snippet : Text)
deriving DecidableEq, Repr

namespace Defect

/-- The wording of a defect. -/
def message : Defect → String
  | missing kind => s!"missing `{kind}`"
  | unexpected [] => "unexpected syntax"
  | unexpected snippet => s!"unexpected `{String.ofList snippet}`"

end Defect

/-- **A syntax error of a source.** -/
structure Fault where
  span : Span
  position : Position
  defect : Defect
deriving DecidableEq, Repr

namespace Fault

/-- How many characters of the source a message quotes at most. -/
def snippetLength : Nat := 40

/-- **The fault at a faulty node.**  The message quotes the beginning of its first line. -/
def ofNode (source : Text) (n : Node) : Fault where
  span := n.span
  position := source.position n.span.start
  defect :=
    if n.info.isMissing then .missing n.kind
    else .unexpected ((trim (firstLine (n.text source))).take snippetLength)

end Fault

namespace Node

/-- Whether the node itself is an error. -/
def isFaulty (n : Node) : Bool := n.info.isError || n.info.isMissing

mutual

/-- **The faulty nodes from a node downwards**, in the order of the source. -/
def faulty : Node → List Node
  | mk i cs =>
    if (mk i cs).isFaulty then [mk i cs]
    else if i.hasError then faultyAll cs
    else []

/-- The faulty nodes of several trees. -/
def faultyAll : List Node → List Node
  | [] => []
  | n :: ns => faulty n ++ faultyAll ns

end

/-- **The syntax errors of a source**, by its tree. -/
def faults (source : Text) (root : Node) : List Fault :=
  if root.info.hasError then root.faulty.map (Fault.ofNode source) else []

/-- The first syntax error of a source, if there is one. -/
def firstFault (source : Text) (root : Node) : Option Fault := (root.faults source).head?

end Node

end Delog
