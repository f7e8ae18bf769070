/-
Lines of a text. Two things are kept apart here: cutting a text into the lines
that a report quotes, where many characters end a line, and reading a file,
where the three usual line endings are all taken as a line feed.
-/

set_option autoImplicit false

namespace ContractScript.Text

/-- Whether a character ends a line of quoted text. -/
def isLineEnd (c : Char) : Bool :=
  let n := c.toNat
  (0x0A ≤ n && n ≤ 0x0D) || (0x1C ≤ n && n ≤ 0x1E) || n == 0x85 || n == 0x2028 || n == 0x2029

/-- Cuts characters into lines; `current` holds the line so far, backwards. A
carriage return and a following line feed end one line together, and an end
at the very last place starts no further line. -/
def cutLines : List Char → List Char → List String
  | [], [] => []
  | [], current => [String.ofList current.reverse]
  | '\r' :: '\n' :: rest, current => String.ofList current.reverse :: cutLines rest []
  | c :: rest, current =>
    if isLineEnd c then String.ofList current.reverse :: cutLines rest []
    else cutLines rest (c :: current)

/-- The lines of a text, without their ends. -/
def lines (text : String) : List String :=
  cutLines text.toList []

/-- Every line ending as a line feed. -/
def unifyNewlines : List Char → List Char
  | [] => []
  | '\r' :: '\n' :: rest => '\n' :: unifyNewlines rest
  | '\r' :: rest => '\n' :: unifyNewlines rest
  | c :: rest => c :: unifyNewlines rest

end ContractScript.Text
