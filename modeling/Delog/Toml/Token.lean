import Delog.Toml.Quoted

/-!
# Toml/Token — the tokens of a configuration document

Comments are left out.  Blanks are kept, as they part what would otherwise be one number, and as
they may not part the two brackets of a header.
-/

namespace Delog.Toml

/-- **A token of a document.** -/
inductive Token where
  | dot
  | equals
  | comma
  | openBracket
  | closeBracket
  | openBrace
  | closeBrace
  | blank (s : Text)
  | newline
  /-- A string on one line. -/
  | quoted (s : Text)
  /-- A string between three quotes. -/
  | block (s : Text)
  /-- Anything else. -/
  | bare (s : Text)
deriving DecidableEq, Repr

namespace Token

/-- The mark a character is by itself. -/
def mark? : Char → Option Token
  | '.' => some dot
  | '=' => some equals
  | ',' => some comma
  | '[' => some openBracket
  | ']' => some closeBracket
  | '\x7b' => some openBrace
  | '\x7d' => some closeBrace
  | _ => none

/-- Whether a character is a space or a tab. -/
def isSpace (c : Char) : Bool := c = ' ' || c = '\t'

/-- Whether a character ends what it does not belong to. -/
def isSpecial (c : Char) : Bool :=
  (mark? c).isSome || isSpace c || ['\n', '\r', '#', '"', '\''].contains c

/-- A quoted string that was read, as a token. -/
def ofQuoted (make : Text → Token) (r : Option (Text × Text)) : Option (Option Token × Text) :=
  r.map fun r => (some (make r.1), r.2)

/-- **The token a text starts with**, or none for a comment, and what follows it. -/
def read : Text → Option (Option Token × Text)
  | [] => none
  | '\n' :: s => some (some newline, s)
  | '\r' :: '\n' :: s => some (some newline, s)
  | '"' :: '"' :: '"' :: s => ofQuoted block (Quoted.readBlock '"' s)
  | '\'' :: '\'' :: '\'' :: s => ofQuoted block (Quoted.readBlock '\'' s)
  | '"' :: s => ofQuoted quoted (Quoted.readLine '"' s)
  | '\'' :: s => ofQuoted quoted (Quoted.readLine '\'' s)
  | '#' :: s =>
    let comment := s.takeWhile Quoted.isAllowed
    some (none, s.drop comment.length)
  | c :: s =>
    match mark? c with
    | some t => some (some t, s)
    | none =>
      if isSpace c then some (some (blank (c :: s.takeWhile isSpace)), s.dropWhile isSpace)
      else if isSpecial c then none
      else
        some (some (bare (c :: s.takeWhile (!isSpecial ·))), s.dropWhile (!isSpecial ·))

/-- `tokens` with a bound on the number of steps. -/
def tokensUpTo : Nat → Text → Option (List Token)
  | _, [] => some []
  | 0, _ => none
  | fuel + 1, s => do
    let (token, rest) ← read s
    let more ← tokensUpTo fuel rest
    return token.toList ++ more

/-- **The tokens of a text**, each of which takes at least one character. -/
def tokens (s : Text) : Option (List Token) := tokensUpTo s.length s

end Token

end Delog.Toml
