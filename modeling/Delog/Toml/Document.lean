import Delog.Toml.Scalar
import Delog.Toml.Table
import Delog.Toml.Token

/-!
# Toml/Document — reading a configuration document

A document is a list of expressions, one a line: an entry, which goes to the table of the last
header before it, or a header.  Between brackets or braces a line may break around every key, mark
and value, but not between the parts of a key.  Values may be nested up to a limit, and a key may
have as many parts.
-/

namespace Delog.Toml

open Token

/-! ## Keys -/

/-- Whether a character may stand in a key without quotes. -/
def isKeyChar (c : Char) : Bool := c.isAlphanum || c = '_' || c = '-'

/-- The key that a token stands for. -/
def keyOf? : Token → Option Text
  | .bare s => if s.all isKeyChar then some s else none
  | .quoted s => some s
  | _ => none

/-- **The parts of a key with dots**, around which there may be blanks, and what follows it. -/
def readKey : List Token → Option (List Text × List Token)
  | .blank _ :: ts => readKey ts
  | t :: .blank _ :: .dot :: ts => do
    let (path, rest) ← readKey ts
    return ((← keyOf? t) :: path, rest)
  | t :: .dot :: ts => do
    let (path, rest) ← readKey ts
    return ((← keyOf? t) :: path, rest)
  | t :: .blank _ :: ts => do return ([← keyOf? t], ts)
  | t :: ts => do return ([← keyOf? t], ts)
  | [] => none

/-- How deep values may be nested, and how many parts a key may have. -/
def nestingLimit : Nat := 80

/-- A path without its last part, and that part, unless the path is too long for a key. -/
def splitLast (path : List Text) : Option (List Text × Text) :=
  if path.length ≤ nestingLimit then path.getLast?.map fun key => (path.dropLast, key) else none

/-! ## Values -/

/-- What follows blanks. -/
def skipBlanks (ts : List Token) : List Token :=
  ts.dropWhile fun
    | .blank _ => true
    | _ => false

/-- What follows blanks and line breaks. -/
def skipLines (ts : List Token) : List Token :=
  ts.dropWhile fun
    | .blank _ => true
    | .newline => true
    | _ => false

/-- The longest text without quotes that a list of tokens starts with, and what follows it. -/
def unquoted : List Token → Text × List Token
  | .bare s :: ts => let r := unquoted ts; (s ++ r.1, r.2)
  | .dot :: ts => let r := unquoted ts; ('.' :: r.1, r.2)
  | ts => ([], ts)

/-- The text of a value without quotes, and what follows it.  A time may be parted from its date by
a space. -/
def unquotedValue (ts : List Token) : Text × List Token :=
  match unquoted ts with
  | (date, .blank [' '] :: .bare (c :: s) :: rest) =>
    if Scalar.isDate date && c.isDigit then
      let r := unquoted (.bare (c :: s) :: rest)
      (date ++ ' ' :: r.1, r.2)
    else (date, .blank [' '] :: .bare (c :: s) :: rest)
  | r => r

mutual

/-- A value, with a bound on the nesting and one on the number of steps. -/
def readValue (depth : Nat) : Nat → List Token → Option (Value × List Token)
  | 0, _ => none
  | fuel + 1, .openBracket :: ts =>
    match depth with
    | 0 => none
    | depth + 1 => readItems depth fuel [] ts
  | fuel + 1, .openBrace :: ts =>
    match depth with
    | 0 => none
    | depth + 1 => readEntries depth fuel [] ts
  | _ + 1, .quoted s :: ts => some (.string s, ts)
  | _ + 1, .block s :: ts => some (.string s, ts)
  | _ + 1, ts => do
    let (s, rest) := unquotedValue ts
    return (← Scalar.read s, rest)

/-- The items of an array after those already read. -/
def readItems (depth : Nat) : Nat → List Value → List Token → Option (Value × List Token)
  | 0, _, _ => none
  | fuel + 1, items, ts =>
    match skipLines ts with
    | .closeBracket :: rest => some (.array items, rest)
    | ts => do
      let (v, rest) ← readValue depth fuel ts
      match skipLines rest with
      | .comma :: rest => readItems depth fuel (items ++ [v]) rest
      | .closeBracket :: rest => some (.array (items ++ [v]), rest)
      | _ => none

/-- The entries between braces after those already read. -/
def readEntries (depth : Nat) : Nat → Entries → List Token → Option (Value × List Token)
  | 0, _, _ => none
  | fuel + 1, entries, ts =>
    match skipLines ts with
    | .closeBrace :: rest => some (.table .braces entries, rest)
    | ts => do
      let (path, rest) ← readKey ts
      let (path, key) ← splitLast path
      match skipLines rest with
      | .equals :: rest =>
        let (v, rest) ← readValue depth fuel (skipLines rest)
        let entries ← entries.add path key v
        match skipLines rest with
        | .comma :: rest => readEntries depth fuel entries rest
        | .closeBrace :: rest => some (.table .braces entries, rest)
        | _ => none
      | _ => none

end

/-! ## Documents -/

/-- **A document in the making**: its entries, and the path of the table that gets the next one. -/
structure Draft where
  entries : Entries
  current : List Text

/-- The part of a document after a header or an entry: a line break, unless nothing follows. -/
def endOfLine (ts : List Token) : Option (List Token) :=
  match skipBlanks ts with
  | [] => some []
  | .newline :: rest => some rest
  | _ => none

/-- A header of an array of tables, after its two opening brackets. -/
def readItemHeader (d : Draft) (ts : List Token) : Option (Draft × List Token) := do
  let (path, rest) ← readKey ts
  let (parents, key) ← splitLast path
  match rest with
  | .closeBracket :: .closeBracket :: rest =>
    return (⟨← Entries.update false (Entries.openItem key) .header parents d.entries, path⟩, rest)
  | _ => none

/-- A header of a table, after its opening bracket. -/
def readTableHeader (d : Draft) (ts : List Token) : Option (Draft × List Token) := do
  let (path, rest) ← readKey ts
  let (parents, key) ← splitLast path
  match rest with
  | .closeBracket :: rest =>
    return (⟨← Entries.update false (Entries.openTable key) .header parents d.entries, path⟩, rest)
  | _ => none

/-- An entry. -/
def readEntry (d : Draft) (ts : List Token) : Option (Draft × List Token) := do
  let (path, rest) ← readKey ts
  let (path, key) ← splitLast path
  match rest with
  | .equals :: rest =>
    let (v, rest) ← readValue nestingLimit (2 * ts.length + 2) (skipBlanks rest)
    let change (_ : Form) (es : Entries) := es.add path key v
    return (⟨← Entries.update false change .header d.current d.entries, d.current⟩, rest)
  | _ => none

/-- The expressions of a document, with a bound on their number. -/
def readExpressions : Nat → Draft → List Token → Option Entries
  | 0, _, _ => none
  | fuel + 1, d, ts =>
    match skipLines ts with
    | [] => some d.entries
    | ts => do
      let (d, rest) ← match ts with
        | .openBracket :: .openBracket :: ts => readItemHeader d ts
        | .openBracket :: ts => readTableHeader d ts
        | ts => readEntry d ts
      readExpressions fuel d (← endOfLine rest)

/-- **Reads a document**; nothing is given for a text that is none.  A byte order mark may stand
before it. -/
def read (s : Text) : Option Entries := do
  let s := match s with
    | '\uFEFF' :: s => s
    | s => s
  let ts ← tokens s
  readExpressions (ts.length + 1) ⟨[], []⟩ ts

end Delog.Toml
