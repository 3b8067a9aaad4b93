import Delog.Logging.Collect
import Delog.Options
import Delog.Strip.Error

/-!
# Strip/Stripper — removing the logging statements of a source

Stripping a source takes its syntax tree, and to check the result it takes the tree of the text it
comes to.  A source with syntax errors is left alone, and a result with syntax errors is withheld.
-/

namespace Delog

/-- **The syntax trees a parser gives** in the course of one removal. -/
structure Trees where
  /-- The tree of the source. -/
  source : Node
  /-- The tree of the text without the logging statements; none if it is known to have no errors. -/
  result : Option Node

/-- **What stripping a source comes to.** -/
inductive Stripped where
  /-- There are no logging statements; the source stands as it is. -/
  | unchanged
  | modified (text : Text) (statements : Nat)
deriving DecidableEq, Repr

namespace Stripped

/-- Whether the source has logging statements to remove. -/
def isModified : Stripped → Bool
  | unchanged => false
  | modified .. => true

end Stripped

/-- **The settings by which sources are stripped.** -/
structure Stripper where
  options : Options
  /-- The dialect sources are read by unless another is named. -/
  dialect : Dialect
deriving DecidableEq, Repr

namespace Stripper

/-- A stripper for sources in the default dialect. -/
def new (options : Options) : Stripper := ⟨options, Dialect.default⟩

/-- The stripper with another dialect. -/
def withDialect (s : Stripper) (dialect : Dialect) : Stripper := { s with dialect }

/-- **The ranges of the logging statements of a source**, which must have no syntax errors. -/
def findRemovals (s : Stripper) (source : Text) (name : String) (root : Node) :
    Except RemovalError (List Removal) :=
  match root.firstFault source with
  | some f => .error (.parse name f.position f.defect.message)
  | none => .ok (root.removals source s.options.loggingObject)

/-- **Removes the logging statements of a source.** -/
def strip (s : Stripper) (source : Text) (name : String) (trees : Trees) :
    Except RemovalError Stripped := do
  let ranges ← s.findRemovals source name trees.source
  if ranges.isEmpty then return .unchanged
  match edit source ranges with
  | .error e => throw (.internal name (.edit e))
  | .ok text =>
    match trees.result.bind (Node.firstFault text) with
    | some f => throw (.internal name (.parser (.ofFault f)))
    | none => return .modified text ranges.length

end Stripper

/-- **Checks a source for syntax errors**, by its tree. -/
def checkSource (source : Text) (root : Node) : Except ParserError Unit :=
  match root.firstFault source with
  | some f => .error (.ofFault f)
  | none => .ok ()

end Delog
