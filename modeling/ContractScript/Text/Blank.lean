/-
Blank characters at the ends of a text, as they are ignored around a flag or a
line typed at the prompt.
-/

set_option autoImplicit false

namespace ContractScript.Text

/-- The white space of Unicode, with the four information separators. -/
def isBlank (c : Char) : Bool :=
  let n := c.toNat
  (0x09 ≤ n && n ≤ 0x0D) || (0x1C ≤ n && n ≤ 0x20) || n == 0x85 || n == 0xA0 || n == 0x1680
    || (0x2000 ≤ n && n ≤ 0x200A) || n == 0x2028 || n == 0x2029 || n == 0x202F || n == 0x205F
    || n == 0x3000

/-- Characters without those at either end that satisfy a test. -/
def trimWhere (test : Char → Bool) (cs : List Char) : List Char :=
  ((cs.dropWhile test).reverse.dropWhile test).reverse

/-- A text without the blanks at either end. -/
def strip (text : String) : String :=
  String.ofList (trimWhere isBlank text.toList)

end ContractScript.Text
