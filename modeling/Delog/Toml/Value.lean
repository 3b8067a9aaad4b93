import Delog.Decimal.Shortest
import Delog.Text.Bytes

/-!
# Toml/Value — the values of a configuration document

A table remembers how it was made, as that decides in which ways it may still grow.  The entries of
a table stand in the order in which their keys first came up.
-/

namespace Delog.Toml

/-- **How a table was made.** -/
inductive Form where
  /-- By a header of its own. -/
  | header
  /-- By the header of a table inside it. -/
  | implied
  /-- By the key of an entry inside it. -/
  | dotted
  /-- As a value between braces, which cannot grow. -/
  | braces
deriving DecidableEq, Repr

/-- **A value of a document.** -/
inductive Value where
  | string (s : Text)
  | integer (n : Int)
  | float (x : Binary64)
  | boolean (b : Bool)
  /-- A date, a time, or both, as it is written. -/
  | moment (s : Text)
  | array (items : List Value)
  | table (form : Form) (entries : List (Text × Value))
  /-- An array whose items are tables with headers of their own. -/
  | tables (items : List (List (Text × Value)))

/-- The entries of a table, in order. -/
abbrev Entries := List (Text × Value)

end Delog.Toml
