import Delog.Tree.Node

/-!
# Logging/Statement — which nodes are logging statements

A logging statement calls a method of the logging object and does nothing else, as in
`console.log(x);`.  The kinds of the nodes decide, so that look-alikes in strings, templates and
comments are never taken for one.  The name of the method does not matter.
-/

namespace Delog.Node

open Text

/-- The expression of an expression statement: its first child that is neither a token nor a
comment. -/
def expression? (n : Node) : Option Node :=
  n.children.find? fun c => c.info.isNamed && !c.info.isExtra

/-- Whether the child with a field name is there and has the given kind. -/
def hasChild (n : Node) (field kind : String) : Bool := (n.child? field).any (·.kind == kind)

/-- Whether an expression is a name, and the name is `object`. -/
def isNamedObject (source : Text) (object : String) (n : Node) : Bool :=
  n.kind == "identifier" && n.text source == object.toList

/-- Whether an expression selects a property of the object, as `console.log` does.  A property in
brackets or a private one does not count. -/
def isMethodOf (source : Text) (object : String) (n : Node) : Bool :=
  n.kind == "member_expression" && n.hasChild "property" "property_identifier" &&
    (n.child? "object").any (isNamedObject source object)

/-- Whether an expression calls a method of the object.  A template in place of the arguments does
not count. -/
def isLoggingCall (source : Text) (object : String) (n : Node) : Bool :=
  n.kind == "call_expression" && n.hasChild "arguments" "arguments" &&
    (n.child? "function").any (isMethodOf source object)

/-- **Whether a node is a logging statement**: the whole statement is a call of a method of the
object. -/
def isLogging (source : Text) (object : String) (n : Node) : Bool :=
  n.kind == "expression_statement" && n.expression?.any (isLoggingCall source object)

/-- The logging statements of a tree, those within another one included. -/
def loggingStatements (source : Text) (object : String) (root : Node) : List Node :=
  root.preorder.filter (isLogging source object)

end Delog.Node
