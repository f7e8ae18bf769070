/-
Numbers written in texts that people type: blanks around them are ignored, a
sign may stand in front, and single underscores may stand between digits. The
decimal digits of every script count.
-/
import ContractScript.Number.Notation
import ContractScript.Text.Blank

set_option autoImplicit false

namespace ContractScript.Text

/-- The zeros of the decimal digits of Unicode; the other nine follow each. -/
def digitZeros : List Nat :=
  [0x30, 0x660, 0x6F0, 0x7C0, 0x966, 0x9E6, 0xA66, 0xAE6, 0xB66, 0xBE6, 0xC66, 0xCE6, 0xD66, 0xDE6,
   0xE50, 0xED0, 0xF20, 0x1040, 0x1090, 0x17E0, 0x1810, 0x1946, 0x19D0, 0x1A80, 0x1A90, 0x1B50,
   0x1BB0, 0x1C40, 0x1C50, 0xA620, 0xA8D0, 0xA900, 0xA9D0, 0xA9F0, 0xAA50, 0xABF0, 0xFF10, 0x104A0,
   0x10D30, 0x11066, 0x110F0, 0x11136, 0x111D0, 0x112F0, 0x11450, 0x114D0, 0x11650, 0x116C0,
   0x11730, 0x118E0, 0x11950, 0x11C50, 0x11D50, 0x11DA0, 0x16A60, 0x16AC0, 0x16B50, 0x1D7CE,
   0x1D7D8, 0x1D7E2, 0x1D7EC, 0x1D7F6, 0x1E140, 0x1E2F0, 0x1E950, 0x1FBF0]

/-- A decimal digit of any script as one of `0` to `9`; other characters stay. -/
def plainDigit (c : Char) : Char :=
  match digitZeros.find? fun start => start ≤ c.toNat && c.toNat ≤ start + 9 with
  | some start => Char.ofNat ('0'.toNat + (c.toNat - start))
  | none => c

/-- Digits with single underscores between them, without the underscores. -/
def digitRun? : List Char → Option (List Char)
  | [] => none
  | [c] => if c.isDigit then some [c] else none
  | c :: '_' :: rest => if c.isDigit then (digitRun? rest).map (c :: ·) else none
  | c :: rest => if c.isDigit then (digitRun? rest).map (c :: ·) else none

/-- Digits, or none at all. -/
def optionalRun? (cs : List Char) : Option (List Char) :=
  if cs.isEmpty then some [] else digitRun? cs

/-- A sign in front of characters: whether it is a minus, and the rest. -/
def splitSign : List Char → Bool × List Char
  | '-' :: rest => (true, rest)
  | '+' :: rest => (false, rest)
  | rest => (false, rest)

/-- Blanks that may stand around a number: all but the information separators. -/
def isNumeralBlank (c : Char) : Bool :=
  isBlank c && !(0x1C ≤ c.toNat && c.toNat ≤ 0x1F)

/-- The significant characters of a numeral. -/
def numeralChars (text : String) : List Char :=
  (trimWhere isNumeralBlank text.toList).map plainDigit

/-- Why a text spells no integer. -/
inductive IntegerFault where
  | notNumeral
  /-- It has more digits than are read. -/
  | tooLong (digits : Nat)
deriving Repr, DecidableEq

/-- The greatest number of decimal digits of an integer that are read. -/
def maxDigits : Nat := 4300

/-- The natural number of decimal digits, if they are not too many. -/
def naturalOf (digits : List Char) : Except IntegerFault Nat :=
  if maxDigits < digits.length then .error (.tooLong digits.length)
  else .ok (Number.ofDigits digits)

/-- The integer that a text spells. The digits are counted before it is known
whether anything follows them. -/
def integer (text : String) : Except IntegerFault Int :=
  let (negative, body) := splitSign (numeralChars text)
  let isPart (c : Char) : Bool := c.isDigit || c == '_'
  match digitRun? (body.takeWhile isPart) with
  | none => .error .notNumeral
  | some digits =>
    match naturalOf digits with
    | .error fault => .error fault
    | .ok size =>
      if (body.dropWhile isPart).isEmpty then .ok (if negative then -(size : Int) else size)
      else .error .notNumeral

/-- Whether a character marks an exponent. -/
def isExponentMark (c : Char) : Bool :=
  c == 'e' || c == 'E'

/-- The exponent after its mark. -/
def exponent? : List Char → Option Int
  | [] => some 0
  | _ :: rest =>
    let (negative, body) := splitSign rest
    (digitRun? body).map fun digits =>
      let size : Int := Number.ofDigits digits
      if negative then -size else size

/-- The number that unsigned characters spell. -/
def unsignedNumber? (body : List Char) : Option Float :=
  let word := String.ofList (body.map Char.toLower)
  if word == "inf" || word == "infinity" then some Number.infinity
  else if word == "nan" then some Number.nan
  else
    let mantissa := body.takeWhile fun c => !isExponentMark c
    let power := body.dropWhile fun c => !isExponentMark c
    let fractionPart := (mantissa.dropWhile (· != '.')).drop 1
    match optionalRun? (mantissa.takeWhile (· != '.')), optionalRun? fractionPart, exponent? power with
    | some whole, some fraction, some exponent =>
      if whole.isEmpty && fraction.isEmpty then none
      else some (Number.ofDecimal whole fraction exponent)
    | _, _, _ => none

/-- The number that a text spells. -/
def number? (text : String) : Option Float :=
  let (negative, body) := splitSign (numeralChars text)
  (unsignedNumber? body).map fun x => if negative then -x else x

end ContractScript.Text
