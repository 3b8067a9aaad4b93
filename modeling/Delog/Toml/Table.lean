import Delog.Toml.Value

/-!
# Toml/Table — how tables grow

A key with dots leads through tables that it makes on the way.  No key is given twice, a table with
a header of its own does not get entries by keys from outside, and a table between braces does not
grow at all.
-/

namespace Delog.Toml.Entries

/-- Whether there is an entry with a key. -/
def has (es : Entries) (key : Text) : Bool := (es.lookup key).isSome

/-- Changes the value of a key. -/
def set (es : Entries) (key : Text) (v : Value) : Entries :=
  es.map fun e => if e.1 = key then (key, v) else e

/-- Takes out the entry of a key. -/
def erase (es : Entries) (key : Text) : Entries := es.filter fun e => e.1 ≠ key

/-- Whether a table of a form may be entered, by the key of an entry or else by a header. -/
def mayEnter (byKey : Bool) (form : Form) : Bool :=
  form ≠ .braces && !(byKey && form = .header)

/-- **Changes the entries of the table at the end of a path**, starting from the entries of a table
of a given form.  Tables missing on the way are made, and an array of tables is entered at its last
table. -/
def update (byKey : Bool) (change : Form → Entries → Option Entries) :
    Form → List Text → Entries → Option Entries
  | form, [], es => change form es
  | _, key :: path, es =>
    match es.lookup key with
    | none => do
      let form := if byKey then .dotted else .implied
      let sub ← update byKey change form path []
      return es ++ [(key, .table form sub)]
    | some (.table form sub) =>
      if mayEnter byKey form then do
        let sub ← update byKey change form path sub
        return set es key (.table form sub)
      else none
    | some (.tables items) => do
      let sub ← update byKey change .header path (items.getLast?.getD [])
      return set es key (.tables (items.dropLast ++ [sub]))
    | some _ => none

/-- **Adds an entry whose key may have dots.**  The table that gets it was made by keys with dots if
and only if the key has dots. -/
def add (es : Entries) (path : List Text) (key : Text) (v : Value) : Option Entries :=
  let change (form : Form) (es : Entries) : Option Entries :=
    if (form = .dotted ↔ path ≠ []) ∧ !has es key then some (es ++ [(key, v)]) else none
  update true change .header path es

/-- Makes the table of a header in the table that is to hold it.  One that is implied so far moves
to the end. -/
def openTable (key : Text) (_ : Form) (es : Entries) : Option Entries :=
  match es.lookup key with
  | none => some (es ++ [(key, .table .header [])])
  | some (.table .implied sub) => some (erase es key ++ [(key, .table .header sub)])
  | some _ => none

/-- Makes the next table of an array of tables. -/
def openItem (key : Text) (_ : Form) (es : Entries) : Option Entries :=
  match es.lookup key with
  | none => some (es ++ [(key, .tables [[]])])
  | some (.tables items) => some (set es key (.tables (items ++ [[]])))
  | some _ => none

end Delog.Toml.Entries
