/-
The numbers of the language are 64-bit binary floating-point numbers. This
file reads a number as the exact quantity `significand · 2 ^ exponent` that its
bits stand for, and defines on that reading the operations that have to be
exact: the tests for the special values, equality, the remainder, and the
conversion of whole numbers to integers.

Everything is stated on the bits, so that a fact about equality or remainders
is a fact of integer arithmetic.
-/

set_option autoImplicit false

namespace ContractScript.Number

/-- Powers of two. -/
def powTwo (n : Nat) : Nat := Nat.pow 2 n

/-- Powers of ten. -/
def powTen (n : Nat) : Nat := Nat.pow 10 n

/-! ## The fields of a number -/

/-- Whether the sign bit is set. -/
def isNegative (x : Float) : Bool :=
  x.toBits.toNat / powTwo 63 % 2 == 1

/-- The eleven exponent bits. -/
def exponentField (x : Float) : Nat :=
  x.toBits.toNat / powTwo 52 % powTwo 11

/-- The fifty-two fraction bits. -/
def fractionField (x : Float) : Nat :=
  x.toBits.toNat % powTwo 52

/-- Not a number: all exponent bits set and a fraction. -/
def isNaN (x : Float) : Bool :=
  exponentField x == 2047 && fractionField x != 0

/-- Whether bits are those of a NaN. -/
def nanBits (bits : UInt64) : Bool :=
  bits.toNat / powTwo 52 % powTwo 11 == 2047 && bits.toNat % powTwo 52 != 0

/-- Plus or minus infinity: all exponent bits set and no fraction. -/
def isInfinite (x : Float) : Bool :=
  exponentField x == 2047 && fractionField x == 0

/-- Plus or minus zero. -/
def isZero (x : Float) : Bool :=
  exponentField x == 0 && fractionField x == 0

/-- Neither infinite nor NaN. -/
def isFinite (x : Float) : Bool :=
  exponentField x != 2047

/-- A magnitude `significand · 2 ^ exponent`. -/
structure Magnitude where
  significand : Nat
  exponent : Int
deriving Repr, DecidableEq

/-- The magnitude of a finite number. Subnormal numbers share the least
exponent and have no hidden bit. -/
def magnitude (x : Float) : Magnitude :=
  if exponentField x == 0 then
    ⟨fractionField x, -1074⟩
  else
    ⟨fractionField x + powTwo 52, (exponentField x : Int) - 1075⟩

/-! ## Building a number -/

/-- A signed zero. -/
def zero (negative : Bool) : Float :=
  Float.ofBits (if negative then 0x8000000000000000 else 0)

/-- The number with a sign and a magnitude that a number can hold exactly.
The significand is brought to fifty-three bits, or to the least exponent if
that comes first. -/
def ofMagnitude (negative : Bool) (m : Magnitude) : Float :=
  if m.significand == 0 then zero negative
  else
    let width : Int := (Nat.log2 m.significand : Int) + 1
    let exponent := max (m.exponent + width - 53) (-1074)
    let shift := m.exponent - exponent
    let significand :=
      if 0 ≤ shift then m.significand * powTwo shift.toNat
      else m.significand / powTwo (-shift).toNat
    let field : Nat := if significand < powTwo 52 then 0 else (exponent + 1075).toNat
    let sign : Nat := if negative then powTwo 63 else 0
    Float.ofBits (sign + field * powTwo 52 + significand % powTwo 52).toUInt64

/-! ## Equality -/

/-- Numeric equality: no NaN equals anything, and the two zeros are equal. -/
def same (x y : Float) : Bool :=
  !isNaN x && !isNaN y && (x.toBits == y.toBits || (isZero x && isZero y))

/-- One representative for numbers that are equal: the bits, with minus zero
counted as zero. -/
def canonicalBits (x : Float) : UInt64 :=
  if isZero x then 0 else x.toBits

/-! ## Remainder -/

/-- The remainder of finite numbers, with the sign of the dividend. Both
magnitudes are brought to the smaller exponent, where the remainder is a
remainder of integers, so nothing is rounded. -/
def finiteRemainder (x y : Float) : Float :=
  let a := magnitude x
  let b := magnitude y
  let exponent := min a.exponent b.exponent
  let dividend := a.significand * powTwo (a.exponent - exponent).toNat
  let divisor := b.significand * powTwo (b.exponent - exponent).toNat
  ofMagnitude (isNegative x) ⟨dividend % divisor, exponent⟩

/-- The remainder `x % y` for a divisor other than zero; `none` when the
dividend is infinite, where no remainder exists. NaN passes through, and an
infinite divisor leaves a finite dividend unchanged. -/
def remainder? (x y : Float) : Option Float :=
  if isNaN x then some x
  else if isNaN y then some y
  else if isInfinite x then none
  else if isInfinite y then some x
  else some (finiteRemainder x y)

/-! ## Whole numbers -/

/-- A finite number cut toward zero. -/
def truncate (x : Float) : Int :=
  let m := magnitude x
  let size : Nat :=
    if 0 ≤ m.exponent then m.significand * powTwo m.exponent.toNat
    else m.significand / powTwo (-m.exponent).toNat
  if isNegative x then -(size : Int) else size

/-- Whether the number is finite and has no fraction. -/
def isWhole (x : Float) : Bool :=
  let m := magnitude x
  isFinite x && (decide (0 ≤ m.exponent) || m.significand % powTwo (-m.exponent).toNat == 0)

/-- The integer that a number stands for, if it is whole. -/
def whole? (x : Float) : Option Int :=
  if isWhole x then some (truncate x) else none

end ContractScript.Number
