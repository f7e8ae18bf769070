/-
The text of a number and the number of a text.

A number is written with its shortest digits. Where the decimal point goes, and
when an exponent is written instead, is a `Layout`; the language uses two that
differ in how a whole number ends.
-/
import ContractScript.Number.Shortest

set_option autoImplicit false

namespace ContractScript.Number

/-- The choices made when digits are laid out as text. An exponent is the power
of ten of the first digit. -/
structure Layout where
  /-- The least exponent written with a plain point. -/
  least : Int
  /-- Exponents from here on are written with a mark. -/
  limit : Int
  /-- The least number of digits in a written exponent. -/
  exponentDigits : Nat
  /-- What follows a whole number written with a plain point. -/
  wholeEnd : String

/-- Every digit that reads back, whole numbers marked by `.0`. -/
def Layout.exact : Layout := ⟨-4, 16, 2, ".0"⟩

/-- As programs show numbers: whole numbers have no point. -/
def Layout.plain : Layout := ⟨-4, 16, 2, ""⟩

/-- The decimal digits of a natural number. -/
def digitsOf (n : Nat) : List Char :=
  Nat.toDigits 10 n

/-- The digits with the zeros at the end removed. -/
def significantDigits (digits : List Char) : List Char :=
  (digits.reverse.dropWhile (· == '0')).reverse

/-- An exponent with its sign and at least `least` digits. -/
def exponentText (least : Nat) (e : Int) : List Char :=
  let digits := digitsOf e.natAbs
  (if e < 0 then '-' else '+') :: (List.replicate (least - digits.length) '0' ++ digits)

/-- A positive decimal as text. -/
def Layout.positive (layout : Layout) (d : Decimal) : List Char :=
  let all := digitsOf d.digits
  let digits := significantDigits all
  let point : Int := all.length + d.exponent
  let first := point - 1
  if layout.least ≤ first && first < layout.limit then
    if point ≤ 0 then
      '0' :: '.' :: (List.replicate (-point).toNat '0' ++ digits)
    else if (digits.length : Int) ≤ point then
      digits ++ List.replicate (point.toNat - digits.length) '0' ++ layout.wholeEnd.toList
    else
      digits.take point.toNat ++ '.' :: digits.drop point.toNat
  else
    let lead := digits.take 1
    let rest := digits.drop 1
    let fraction := if rest.isEmpty then [] else '.' :: rest
    lead ++ fraction ++ 'e' :: exponentText layout.exponentDigits first

/-- The text of a number. -/
def Layout.text (layout : Layout) (x : Float) : String :=
  if isNaN x then "nan"
  else
    let sign := if isNegative x then ['-'] else []
    let body :=
      if isInfinite x then ['i', 'n', 'f']
      else if isZero x then '0' :: layout.wholeEnd.toList
      else layout.positive (shortest (magnitude x))
    String.ofList (sign ++ body)

/-- The value of a digit character. -/
def digitValue (c : Char) : Nat :=
  c.toNat - '0'.toNat

/-- The natural number that digits spell. -/
def ofDigits (digits : List Char) : Nat :=
  digits.foldl (fun n c => 10 * n + digitValue c) 0

/-- Positive infinity. -/
def infinity : Float := Float.ofBits 0x7FF0000000000000

/-- Not a number. -/
def nan : Float := Float.ofBits 0x7FF8000000000000

/-- The number nearest to `whole.fraction · 10 ^ exponent`. Decimals too large
or too small for any number are told by where their first digit stands. -/
def ofDecimal (whole fraction : List Char) (exponent : Int) : Float :=
  let digits := (whole ++ fraction).dropWhile (· == '0')
  let power := exponent - fraction.length
  let width := digits.length + power
  if digits.isEmpty || width < -400 then zero false
  else if 400 < width then infinity
  else if power < 0 then Float.ofScientific (ofDigits digits) true (-power).toNat
  else Float.ofScientific (ofDigits digits) false power.toNat

/-- The number nearest to an integer. -/
def ofInt (n : Int) : Float :=
  let size := Float.ofScientific n.natAbs false 0
  if n < 0 then -size else size

end ContractScript.Number
