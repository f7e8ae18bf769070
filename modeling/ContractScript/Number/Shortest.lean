/-
The shortest decimal of a number: the fewest digits that read back as the same
number, and among those the nearest to it.

A number stands for all reals that round to it, an interval around its
magnitude. A decimal with `n` digits is a point of a grid of powers of ten, and
if any point of the grid lies in the interval then so does one of the two
neighbours of the magnitude, so only those two are tried. The search goes from
coarse grids to fine ones; at seventeen digits the grid is finer than the
interval.
-/
import ContractScript.Number.Binary

set_option autoImplicit false

namespace ContractScript.Number

/-- The decimal `digits · 10 ^ exponent`. -/
structure Decimal where
  digits : Nat
  exponent : Int
deriving Repr, DecidableEq

/-- The reals that round to a magnitude, in units of a quarter of its last
place: from `low` to `high` around `middle`, ends included if `closed`. -/
structure Interval where
  low : Nat
  middle : Nat
  high : Nat
  closed : Bool
  exponent : Int

/-- The interval of a magnitude. Below a power of two numbers lie twice as
close, so the lower end is nearer there. -/
def Interval.ofMagnitude (m : Magnitude) : Interval :=
  let boundary := m.significand == powTwo 52 && decide (-1074 < m.exponent)
  { low := 4 * m.significand - (if boundary then 1 else 2)
    middle := 4 * m.significand
    high := 4 * m.significand + 2
    closed := m.significand % 2 == 0
    exponent := m.exponent - 2 }

/-- The factors that bring quarter units of the interval and units of
`10 ^ k` to a common integer scale. -/
def Interval.scales (i : Interval) (k : Int) : Nat × Nat :=
  (powTwo i.exponent.toNat * powTen (-k).toNat, powTen k.toNat * powTwo (-i.exponent).toNat)

/-- Whether `c · 10 ^ k` lies in the interval. -/
def Interval.contains (i : Interval) (c : Nat) (k : Int) : Bool :=
  let (unit, ten) := i.scales k
  let point := c * ten
  if i.closed then decide (i.low * unit ≤ point) && decide (point ≤ i.high * unit)
  else decide (i.low * unit < point) && decide (point < i.high * unit)

/-- The grid point of `10 ^ k` in the interval that is nearest to the middle;
of two equally near the even one. -/
def Interval.nearest? (i : Interval) (k : Int) : Option Decimal :=
  let (unit, ten) := i.scales k
  let below := i.middle * unit / ten
  let above := below + 1
  match i.contains below k, i.contains above k with
  | true, true =>
    let gapBelow := i.middle * unit - below * ten
    let gapAbove := above * ten - i.middle * unit
    let pick :=
      if gapBelow < gapAbove then below
      else if gapAbove < gapBelow then above
      else if below % 2 == 0 then below else above
    some ⟨pick, k⟩
  | true, false => some ⟨below, k⟩
  | false, true => some ⟨above, k⟩
  | false, false => none

/-- Whether the middle of the interval lies below `10 ^ e`. -/
def Interval.belowPower (i : Interval) (e : Int) : Bool :=
  let (unit, ten) := i.scales e
  decide (i.middle * unit < ten)

/-- The number of digits before the decimal point: the least `e` with the
magnitude below `10 ^ e`. The binary width gives it to within one or two. -/
def decimalWidth (m : Magnitude) : Int :=
  let i := Interval.ofMagnitude m
  let guess := ((Nat.log2 m.significand : Int) + m.exponent) * 30103 / 100000
  match [guess - 1, guess, guess + 1, guess + 2].find? i.belowPower with
  | some e => e
  | none => guess + 3

/-- The shortest decimal of a nonzero magnitude. -/
def shortest (m : Magnitude) : Decimal :=
  let i := Interval.ofMagnitude m
  let width := decimalWidth m
  match (List.range 17).findSome? fun (n : Nat) => i.nearest? (width - (n + 1)) with
  | some d => d
  | none => ⟨i.middle, 0⟩

end ContractScript.Number
