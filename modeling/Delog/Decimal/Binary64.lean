/-!
# Decimal/Binary64 — the binary floating-point number nearest to a decimal

A finite number is `m · 2 ^ q` with `m < 2 ^ 53` and `-1074 ≤ q ≤ 971`.  Rounding is exact: the
decimal is a quotient of natural numbers, and its half-way cases go to the even neighbour.
-/

namespace Delog

/-- **A binary floating-point number of 64 bits.** -/
inductive Binary64 where
  | nan
  | infinite (negative : Bool)
  /-- The number `mantissa · 2 ^ exponent`, or its negative. -/
  | finite (negative : Bool) (mantissa : Nat) (exponent : Int)
deriving DecidableEq, Repr

namespace Binary64

/-- The bits of a mantissa. -/
def precision : Nat := 53

/-- The least exponent. -/
def minExponent : Int := -1074

/-- The greatest exponent. -/
def maxExponent : Int := 971

/-- Decimals from ten to this power on are infinite, and those below its inverse are zero. -/
def decimalLimit : Int := 400

/-- The quotient of two numbers, as a quotient of natural numbers after scaling by a power of
`base`. -/
def scaled (base num den : Nat) (power : Int) : Nat × Nat :=
  (num * base.pow power.toNat, den * base.pow (-power).toNat)

/-- The natural number nearest to a quotient; half-way cases go to the even one. -/
def roundHalfEven (num den : Nat) : Nat :=
  let whole := num / den
  let twice := 2 * (num % den)
  if twice < den then whole
  else if den < twice then whole + 1
  else whole + whole % 2

/-- The exponent at which the mantissa of a quotient has all its bits, or the least one. -/
def exponentOf (num den : Nat) : Int :=
  let guess : Int := num.log2 - den.log2 - precision
  let (n, d) := scaled 2 num den (-guess)
  let exact := if n / d < Nat.pow 2 precision then guess else guess + 1
  max exact minExponent

/-- **The number nearest to a quotient** of positive numbers. -/
def ofQuotient (negative : Bool) (num den : Nat) : Binary64 :=
  let q := exponentOf num den
  let (n, d) := scaled 2 num den (-q)
  let m := roundHalfEven n d
  let (m, q) := if m = Nat.pow 2 precision then (Nat.pow 2 (precision - 1), q + 1) else (m, q)
  if maxExponent < q then infinite negative else finite negative m q

/-- **The number nearest to the decimal** `digits · 10 ^ power`.  Decimals far out of range are told
apart without writing them out. -/
def ofDecimal (negative : Bool) (digits : Nat) (power : Int) : Binary64 :=
  if digits = 0 ∨ power + (digits.log2 + 1 : Nat) < -decimalLimit then finite negative 0 minExponent
  else if decimalLimit < power then infinite negative
  else
    let (n, d) := scaled 10 digits 1 power
    ofQuotient negative n d

end Binary64

end Delog
