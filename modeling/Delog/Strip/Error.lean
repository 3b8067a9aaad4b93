import Delog.Dialect
import Delog.Removal.Edit
import Delog.Tree.Fault

/-!
# Strip/Error — why a source is not stripped

A source with syntax errors is turned down.  All else that may go wrong is a fault of the program
itself or of its parser, and is reported as such.
-/

namespace Delog

/-- **What goes wrong in parsing.** -/
inductive ParserError where
  /-- The grammar of a dialect cannot be had. -/
  | noGrammar (dialect : Dialect)
  /-- The parser gives no tree. -/
  | noTree
  /-- The source has a syntax error. -/
  | atFault (position : Position) (detail : String)
deriving DecidableEq, Repr

namespace ParserError

/-- A fault of a source, as an error in parsing it. -/
def ofFault (f : Fault) : ParserError := atFault f.position f.defect.message

/-- The wording of an error in parsing. -/
def message : ParserError → String
  | noGrammar dialect => s!"failed to set {dialect.name} language for parser"
  | noTree => "failed to parse source code"
  | atFault position detail =>
    s!"syntax error at line {position.line}, column {position.column}: {detail}"

end ParserError

/-- **What ought not to go wrong.** -/
inductive InternalError where
  | parser (error : ParserError)
  | edit (error : EditError)
deriving DecidableEq, Repr

/-- **Why a source is not stripped.** -/
inductive RemovalError where
  /-- The source has a syntax error. -/
  | parse (source : String) (position : Position) (detail : String)
  | internal (source : String) (cause : InternalError)
deriving DecidableEq, Repr

namespace RemovalError

/-- The name of the source. -/
def sourceName : RemovalError → String
  | parse source .. => source
  | internal source _ => source

/-- The wording of an error in removal. -/
def message : RemovalError → String
  | parse source position detail =>
    s!"failed to parse {source} (line {position.line}, column {position.column}): {detail}"
  | internal source _ => s!"console removal failed for {source}"

end RemovalError

end Delog
