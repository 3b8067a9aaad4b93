import Delog.Logging.Statement
import Delog.Removal.Range
import Delog.Text.Blank

/-!
# Logging/Collect — the ranges to remove from a source

Every logging statement that is not part of another one gives a range.  Deleting the statement is
sound where statements stand in a list; elsewhere, as for the body of an `if`, an empty statement
takes its place.  So it does where the statements on both sides, with nothing between them, would be
read as one: the one before has no `;` and the one after starts as a continuation would.
-/

namespace Delog.Node

open Text

/-- The kinds of nodes whose children are lists of statements. -/
def statementLists : List String := ["program", "statement_block", "switch_case", "switch_default"]

/-- The characters by which an unfinished line goes on: `(`, `[`, a backtick, `+`, `-` and `/`. -/
def continuationStarts : List Char := ['(', '[', '\x60', '+', '-', '/']

/-- **The nearest statement that stays**, of siblings listed from near to far: neither a token nor a
comment, nor a logging statement. -/
def survivor? (source : Text) (object : String) (siblings : List Node) : Option Node :=
  siblings.find? fun n => n.info.isNamed && !n.info.isExtra && !n.isLogging source object

/-- Whether a statement ends with `;`. -/
def isTerminated (source : Text) (n : Node) : Bool :=
  (trimEnd (n.text source)).getLast? == some ';'

/-- Whether a statement starts as the continuation of a line would. -/
def isContinuation (source : Text) (n : Node) : Bool :=
  (trimStart (n.text source)).head?.any continuationStarts.contains

/-- Whether the statements on both sides would be read as one if nothing stood between them. -/
def joinsNeighbours (source : Text) (object : String) (before after : List Node) : Bool :=
  match survivor? source object before, survivor? source object after with
  | some b, some a => !b.isTerminated source && a.isContinuation source
  | _, _ => false

/-- **Whether an empty statement takes the place** of a logging statement, by the kind of its parent
and its siblings on both sides, from near to far. -/
def needsPlaceholder (source : Text) (object : String) (parent : String)
    (before after : List Node) :
    Bool :=
  !statementLists.contains parent || joinsNeighbours source object before after

mutual

/-- The ranges to remove from a node downwards; `placeholder` says what becomes of the node
itself. -/
def collect (source : Text) (object : String) (placeholder : Bool) : Node → List Removal
  | mk i cs =>
    if (mk i cs).isLogging source object then [⟨i.span.start, i.span.stop, placeholder⟩]
    else collectAll source object i.kind [] cs

/-- The ranges to remove from the children of a node, those before them being listed from near to
far. -/
def collectAll (source : Text) (object : String) (parent : String) (before : List Node) :
    List Node → List Removal
  | [] => []
  | n :: after =>
    collect source object (needsPlaceholder source object parent before after) n ++
      collectAll source object parent (n :: before) after

end

/-- **The ranges to remove from a source**, in the order of the source.  A root has no parent, so an
empty statement would take its place. -/
def removals (source : Text) (object : String) (root : Node) : List Removal :=
  collect source object true root

end Delog.Node
