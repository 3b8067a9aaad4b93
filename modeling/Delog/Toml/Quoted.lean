import Delog.Text.Bytes

/-!
# Toml/Quoted — strings in quotes

A string stands between single or double quotes, and on several lines between three of them.  Only
double quotes have escapes.  A string is read character by character; the mode tells what has been
seen of an escape, of a line break or of the closing quotes.
-/

namespace Delog.Toml.Quoted

/-- **How a string is quoted.** -/
structure Style where
  quote : Char
  /-- Whether the string stands between three quotes. -/
  block : Bool

/-- What has been seen of something longer than a character. -/
inductive Mode where
  | plain
  /-- A backslash. -/
  | escape
  /-- An escape by number, with so many digits to come. -/
  | code (digits value : Nat)
  /-- A carriage return. -/
  | break
  /-- A backslash and blanks after it, with or without a line break among them. -/
  | gap (broken : Bool)
  /-- The same, and a carriage return. -/
  | gapBreak
  /-- So many quotes. -/
  | quotes (count : Nat)

/-- **What a character leads to.** -/
inductive Outcome where
  /-- The string goes on after these characters of it. -/
  | more (s : Text) (mode : Mode)
  /-- The string ends with these characters of it; the character at hand is its last quote. -/
  | last (s : Text)
  /-- The string has ended with these characters of it before the character at hand. -/
  | past (s : Text)
  | bad

/-- Whether a character may stand in a document as it is: any but the control characters, except
for the tab. -/
def isAllowed (c : Char) : Bool := c = '\t' || (decide (0x20 ≤ c.toNat) && c.toNat != 0x7F)

/-- The value of a hexadecimal digit. -/
def hexValue? (c : Char) : Option Nat :=
  if c.isDigit then some (c.toNat - 0x30)
  else if 'a' ≤ c ∧ c ≤ 'f' then some (c.toNat - 0x57)
  else if 'A' ≤ c ∧ c ≤ 'F' then some (c.toNat - 0x37)
  else none

/-- The character of a number, unless it is none or a surrogate. -/
def charOf? (n : Nat) : Option Char := if n.isValidChar then some (Char.ofNat n) else none

/-- What an escape by a single letter stands for. -/
def letterEscape? : Char → Option Char
  | 'b' => some '\x08'
  | 't' => some '\t'
  | 'n' => some '\n'
  | 'f' => some '\x0c'
  | 'r' => some '\r'
  | 'e' => some '\x1b'
  | '"' => some '"'
  | '\\' => some '\\'
  | _ => none

/-- How many digits an escape by number has. -/
def codeLength? : Char → Option Nat
  | 'x' => some 2
  | 'u' => some 4
  | 'U' => some 8
  | _ => none

/-- The quotes that belong to the string, of so many seen before its end. -/
def keptQuotes (style : Style) (count : Nat) : Text := List.replicate (count - 3) style.quote

/-- What a character leads to when nothing longer is under way. -/
def stepPlain (style : Style) (c : Char) : Outcome :=
  if c = style.quote then if style.block then .more [] (.quotes 1) else .last []
  else if c = '\\' ∧ style.quote = '"' then .more [] .escape
  else if c = '\n' ∧ style.block then .more [c] .plain
  else if c = '\r' ∧ style.block then .more [] .break
  else if isAllowed c then .more [c] .plain
  else .bad

/-- What a character leads to after a backslash. -/
def stepEscape (style : Style) (c : Char) : Outcome :=
  match letterEscape? c, codeLength? c with
  | some e, _ => .more [e] .plain
  | none, some digits => .more [] (.code digits 0)
  | none, none =>
    if !style.block then .bad
    else if c = ' ' ∨ c = '\t' then .more [] (.gap false)
    else if c = '\n' then .more [] (.gap true)
    else if c = '\r' then .more [] .gapBreak
    else .bad

/-- Puts characters before those of an outcome. -/
def Outcome.after (s : Text) : Outcome → Outcome
  | more t mode => more (s ++ t) mode
  | last t => last (s ++ t)
  | past t => past (s ++ t)
  | bad => bad

/-- **What a character leads to.** -/
def step (style : Style) (c : Char) : Mode → Outcome
  | .plain => stepPlain style c
  | .escape => stepEscape style c
  | .code digits value =>
    match hexValue? c with
    | none => .bad
    | some d =>
      let value := value * 16 + d
      if 1 < digits then .more [] (.code (digits - 1) value)
      else
        match charOf? value with
        | some e => .more [e] .plain
        | none => .bad
  | .break => if c = '\n' then .more ['\r', '\n'] .plain else .bad
  | .gap broken =>
    if c = ' ' ∨ c = '\t' then .more [] (.gap broken)
    else if c = '\n' then .more [] (.gap true)
    else if c = '\r' then .more [] .gapBreak
    else if broken then stepPlain style c
    else .bad
  | .gapBreak => if c = '\n' then .more [] (.gap true) else .bad
  | .quotes count =>
    if c = style.quote then
      if count = 4 then .last (keptQuotes style 5) else .more [] (.quotes (count + 1))
    else if 3 ≤ count then .past (keptQuotes style count)
    else (stepPlain style c).after (List.replicate count style.quote)

/-- **Reads a string** up to its end, and gives what follows it. -/
def readFrom (style : Style) : Mode → Text → Option (Text × Text)
  | .quotes count, [] => if 3 ≤ count then some (keptQuotes style count, []) else none
  | _, [] => none
  | mode, c :: s =>
    match step style c mode with
    | .more t mode => (readFrom style mode s).map fun r => (t ++ r.1, r.2)
    | .last t => some (t, s)
    | .past t => some (t, c :: s)
    | .bad => none

/-- Reads a string after its opening quote. -/
def readLine (quote : Char) (s : Text) : Option (Text × Text) :=
  readFrom ⟨quote, false⟩ .plain s

/-- Reads a string after its three opening quotes; a line break just after them does not belong to
it. -/
def readBlock (quote : Char) : Text → Option (Text × Text)
  | '\n' :: s => readFrom ⟨quote, true⟩ .plain s
  | '\r' :: '\n' :: s => readFrom ⟨quote, true⟩ .plain s
  | s => readFrom ⟨quote, true⟩ .plain s

end Delog.Toml.Quoted
