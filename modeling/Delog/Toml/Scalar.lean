import Delog.Toml.Value

/-!
# Toml/Scalar — values without quotes

What stands for a value without quotes or brackets is a truth value, a number, or a moment: a date,
a time, or both.
-/

namespace Delog.Toml.Scalar

/-! ## Numbers -/

/-- **The digits of a number**, between any two of which an underscore may stand. -/
def digits (isDigit : Char → Bool) : Text → Option Text
  | [] => none
  | [c] => if isDigit c then some [c] else none
  | c :: '_' :: s => if isDigit c then (digits isDigit s).map (c :: ·) else none
  | c :: s => if isDigit c then (digits isDigit s).map (c :: ·) else none

/-- The value of a digit in any base up to sixteen. -/
def digitValue (c : Char) : Nat :=
  if c.isDigit then c.toNat - 0x30 else c.toLower.toNat - 0x57

/-- The number that digits stand for. -/
def valueOf (base : Nat) (ds : Text) : Nat := ds.foldl (fun n c => n * base + digitValue c) 0

/-- Whether a character is a digit in a base. -/
def isDigitIn (base : Nat) (c : Char) : Bool :=
  (c.isDigit || ('a' ≤ c && c ≤ 'f') || ('A' ≤ c && c ≤ 'F')) && decide (digitValue c < base)

/-- The digits of a whole decimal number, which do not start with a needless zero. -/
def wholeDigits (s : Text) : Option Text :=
  match digits Char.isDigit s with
  | some ('0' :: _ :: _) => none
  | ds => ds

/-- A text without its sign, and whether that is a minus. -/
def splitSign : Text → Bool × Text
  | '-' :: s => (true, s)
  | '+' :: s => (false, s)
  | s => (false, s)

/-- An integer, if it has 64 bits. -/
def inRange (n : Int) : Option Value :=
  if -0x8000000000000000 ≤ n ∧ n < 0x8000000000000000 then some (.integer n) else none

/-- **An integer**: decimal with a sign if need be, or in another base without one. -/
def integer? (s : Text) : Option Value :=
  match s with
  | '0' :: 'x' :: ds => (digits (isDigitIn 16) ds).bind fun ds => inRange (valueOf 16 ds)
  | '0' :: 'o' :: ds => (digits (isDigitIn 8) ds).bind fun ds => inRange (valueOf 8 ds)
  | '0' :: 'b' :: ds => (digits (isDigitIn 2) ds).bind fun ds => inRange (valueOf 2 ds)
  | _ => do
    let (negative, ds) := splitSign s
    let n := valueOf 10 (← wholeDigits ds)
    inRange (if negative then -n else n)

/-- The power of ten that an exponent part stands for. -/
def exponent? (s : Text) : Option Int := do
  let (negative, ds) := splitSign s
  let n := valueOf 10 (← digits Char.isDigit ds)
  return if negative then -n else n

/-- A text cut at the first character with `p`, which itself is left out. -/
def cutAt (p : Char → Bool) (s : Text) : Text × Option Text :=
  match s.dropWhile (!p ·) with
  | [] => (s, none)
  | _ :: rest => (s.takeWhile (!p ·), some rest)

/-- A finite number, unless it is too large for one. -/
def finite? (x : Binary64) : Option Value :=
  match x with
  | .finite .. => some (.float x)
  | _ => none

/-- **A number with a fraction or an exponent**, or one of the special numbers. -/
def float? (s : Text) : Option Value := do
  let (negative, s) := splitSign s
  if s = ['i', 'n', 'f'] then return .float (.infinite negative)
  if s = ['n', 'a', 'n'] then return .float .nan
  let (mantissa, exponent) := cutAt (fun c => c = 'e' || c = 'E') s
  let (whole, fraction) := cutAt (· = '.') mantissa
  if exponent.isNone && fraction.isNone then none
  let power ← (exponent.map exponent?).getD (some 0)
  let whole ← wholeDigits whole
  let fraction ← (fraction.map (digits Char.isDigit)).getD (some [])
  finite? (.ofDecimal negative (valueOf 10 (whole ++ fraction)) (power - fraction.length))

/-! ## Moments -/

/-- The number that two digits stand for. -/
def two? (a b : Char) : Option Nat :=
  if a.isDigit && b.isDigit then some (valueOf 10 [a, b]) else none

/-- The number of days of a month. -/
def daysIn (year month : Nat) : Nat :=
  let leap := year % 4 = 0 ∧ (year % 100 ≠ 0 ∨ year % 400 = 0)
  if month = 2 then if leap then 29 else 28
  else if [4, 6, 9, 11].contains month then 30
  else 31

/-- What follows a date, if a text starts with one. -/
def afterDate? : Text → Option Text
  | y :: y' :: y'' :: y''' :: '-' :: m :: m' :: '-' :: d :: d' :: s => do
    let year := 100 * (← two? y y') + (← two? y'' y''')
    let month ← two? m m'
    let day ← two? d d'
    if 1 ≤ month ∧ month ≤ 12 ∧ 1 ≤ day ∧ day ≤ daysIn year month then some s else none
  | _ => none

/-- What follows the fraction of a second, if there is one. -/
def afterFraction? : Text → Option Text
  | '.' :: c :: s => if c.isDigit then some (s.dropWhile Char.isDigit) else none
  | '.' :: _ => none
  | s => some s

/-- What follows the seconds of a time, if it has seconds. -/
def afterSeconds? : Text → Option Text
  | ':' :: s :: s' :: rest => do
    if (← two? s s') ≤ 60 then afterFraction? rest else none
  | ':' :: _ => none
  | s => some s

/-- What follows a time, if a text starts with one. -/
def afterTime? : Text → Option Text
  | h :: h' :: ':' :: m :: m' :: s => do
    if (← two? h h') ≤ 23 ∧ (← two? m m') ≤ 59 then afterSeconds? s else none
  | _ => none

/-- Whether a text is the offset of a time zone, or nothing. -/
def isOffset : Text → Bool
  | [] => true
  | ['Z'] => true
  | ['z'] => true
  | [sign, h, h', ':', m, m'] =>
    (sign = '+' || sign = '-') && (two? h h').any (· ≤ 23) && (two? m m').any (· ≤ 59)
  | _ => false

/-- Whether a text is a date. -/
def isDate (s : Text) : Bool := afterDate? s == some []

/-- **Whether a text is a moment**: a date, a time, or both; if it is both, a time zone may
follow. -/
def isMoment (s : Text) : Bool :=
  match afterDate? s with
  | none => afterTime? s == some []
  | some [] => true
  | some (c :: t) => ['T', 't', ' '].contains c && (afterTime? t).any isOffset

/-- **The value that stands without quotes.** -/
def read (s : Text) : Option Value :=
  if s = ['t', 'r', 'u', 'e'] then some (.boolean true)
  else if s = ['f', 'a', 'l', 's', 'e'] then some (.boolean false)
  else if isMoment s then some (.moment s)
  else (integer? s).or (float? s)

end Delog.Toml.Scalar
