import Delog.Decimal.Binary64

/-!
# Decimal/Shortest — the shortest decimal that is read back

A decimal is read back as a number if it lies in the interval of those that round to the number; its
ends belong to it when the mantissa is even.  For one digit, two digits and so on, the two decimals
next to the number are tried; the first count of digits with a hit wins, and of two hits the nearer,
or the greater if neither is nearer.
-/

namespace Delog.Binary64

/-- The decimal `digits · 10 ^ power`. -/
structure Decimal where
  digits : Nat
  power : Int
deriving DecidableEq, Repr

/-- **The interval of a number**: its lower end, the number and its upper end, as numerators over
one denominator. -/
structure Interval where
  low : Nat
  middle : Nat
  high : Nat
  den : Nat
  /-- Whether the ends belong to it. -/
  closed : Bool

namespace Interval

/-- The interval of `m · 2 ^ q`.  Below a power of two the next number is only half as far. -/
def ofBinary (m : Nat) (q : Int) : Interval :=
  let narrow := m = Nat.pow 2 (precision - 1) ∧ minExponent < q
  let (unit, den) := scaled 2 1 4 q
  ⟨(if narrow then 4 * m - 1 else 4 * m - 2) * unit, 4 * m * unit, (4 * m + 2) * unit, den,
    m % 2 = 0⟩

/-- Whether a fraction `num / 1` over the denominator of the interval lies in it. -/
def holds (i : Interval) (num : Nat) : Bool :=
  if i.closed then decide (i.low ≤ num) && decide (num ≤ i.high)
  else decide (i.low < num) && decide (num < i.high)

/-- The better of the two decimals with the given power that are next to the middle, if one of them
lies in the interval. -/
def hit? (i : Interval) (power : Int) : Option Decimal :=
  let (unit, scale) := scaled 10 i.den 1 power
  let i := { i with low := i.low * scale, middle := i.middle * scale, high := i.high * scale }
  let below := i.middle / unit
  let above := below + 1
  match i.holds (below * unit), i.holds (above * unit) with
  | true, true =>
    if i.middle - below * unit < above * unit - i.middle then some ⟨below, power⟩
    else some ⟨above, power⟩
  | true, false => some ⟨below, power⟩
  | false, true => some ⟨above, power⟩
  | false, false => none

end Interval

/-- The least power of ten that exceeds a quotient, searched upwards from a lower bound. -/
def powerAbove (num den : Nat) : Nat → Int → Int
  | 0, power => power
  | fuel + 1, power =>
    let (n, d) := scaled 10 num den (-power)
    if n < d then power else powerAbove num den fuel (power + 1)

/-- The decimal without a zero at its end, of which there is at most one: a digit that rounding up
took past nine. -/
def Decimal.reduced (d : Decimal) : Decimal :=
  if d.digits % 10 = 0 then ⟨d.digits / 10, d.power + 1⟩ else d

/-- **The shortest decimal of a positive number** `m · 2 ^ q`. -/
def shortest (m : Nat) (q : Int) : Decimal :=
  let i := Interval.ofBinary m q
  let top := powerAbove i.middle i.den 800 (-decimalLimit)
  let hit := (List.range 17).findSome? fun k => i.hit? (top - (k + 1 : Nat))
  (hit.getD ⟨0, 0⟩).reduced

/-- A decimal written without an exponent, and with a point. -/
def Decimal.positional (d : Decimal) : String :=
  let digits := Nat.toDigits 10 d.digits
  if 0 ≤ d.power then String.ofList (digits ++ List.replicate d.power.toNat '0') ++ ".0"
  else
    let places := (-d.power).toNat
    let padded := List.replicate (places + 1 - digits.length) '0' ++ digits
    let whole := padded.length - places
    String.ofList (padded.take whole) ++ "." ++ String.ofList (padded.drop whole)

/-- **The text of a number**: its shortest decimal without an exponent. -/
def text : Binary64 → String
  | nan => "NaN"
  | infinite negative => if negative then "-inf" else "inf"
  | finite negative m q =>
    (if negative then "-" else "") ++ if m = 0 then "0.0" else (shortest m q).positional

end Delog.Binary64
