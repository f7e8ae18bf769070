/-
The characters of a document with their places. What a character means in a
settings file depends on its line and column, so every character carries them,
and an ending character follows the last one: it is never read past.
-/

set_option autoImplicit false

namespace ContractScript.Document

/-- A character, the number of characters before it, and its line and column. -/
structure Glyph where
  char : Char
  index : Nat
  line : Nat
  column : Nat
deriving Repr, DecidableEq, Inhabited

/-! ## Classes of characters -/

/-- Stands after the last character; no document contains it. -/
def endChar : Char := '\x00'

/-- May stand in front of a document and takes no room in a line. -/
def byteOrderMark : Char := Char.ofNat 0xFEFF

/-- Whether a character ends a line. -/
def isBreak (c : Char) : Bool :=
  c == '\n' || c.toNat == 0x85 || c.toNat == 0x2028 || c.toNat == 0x2029

/-- Whether nothing follows in the line. -/
def endsLine (c : Char) : Bool :=
  c == endChar || isBreak c

/-- Whether a word ends before a character. -/
def endsWord (c : Char) : Bool :=
  c == ' ' || endsLine c

/-- Whether a mark such as a dash or a colon ends before a character. -/
def endsMark (c : Char) : Bool :=
  c == '\t' || endsWord c

/-- Whether a character is a bracket or a comma. -/
def isFlowMark (c : Char) : Bool :=
  c == ',' || c == '[' || c == ']' || c == '\x7b' || c == '\x7d'

/-- Whether a character may stand in a name. -/
def isNameChar (c : Char) : Bool :=
  c.isAlphanum || c == '-' || c == '_'

/-- The value of a digit in any base up to sixteen. -/
def digitIn? (base : Nat) (c : Char) : Option Nat :=
  let value :=
    if c.isDigit then c.toNat - '0'.toNat
    else if 'a' ≤ c && c ≤ 'f' then c.toNat - 'a'.toNat + 10
    else if 'A' ≤ c && c ≤ 'F' then c.toNat - 'A'.toNat + 10
    else 16
  if value < base then some value else none

/-- The natural number that digits of a base spell. -/
def naturalIn? (base : Nat) (cs : List Char) : Option Nat :=
  if cs.isEmpty then none
  else cs.foldlM (fun n c => (digitIn? base c).map (base * n + ·)) 0

/-- Whether a character may stand in a document. -/
def isPrintable (c : Char) : Bool :=
  let n := c.toNat
  n == 0x09 || n == 0x0A || n == 0x0D || (0x20 ≤ n && n ≤ 0x7E) || n == 0x85
    || (0xA0 ≤ n && n ≤ 0xFFFD) || 0x10000 ≤ n

/-! ## Places -/

/-- Characters with their places, from a place on. -/
def placeFrom (index line column : Nat) : List Char → List Glyph
  | [] => [⟨endChar, index, line, column⟩]
  | c :: rest =>
    ⟨c, index, line, column⟩ ::
      if isBreak c then placeFrom (index + 1) (line + 1) 0 rest
      else if c == byteOrderMark then placeFrom (index + 1) line column rest
      else placeFrom (index + 1) line (column + 1) rest

/-- The glyphs of a document. A byte order mark in front is left out. -/
def glyphs (cs : List Char) : List Glyph :=
  let all := placeFrom 0 0 0 cs
  if cs.head? == some byteOrderMark then all.drop 1 else all

/-- The next glyph. -/
def next (gs : List Glyph) : Glyph :=
  match gs with
  | g :: _ => g
  | [] => ⟨endChar, 0, 0, 0⟩

/-- The next character. -/
def nextChar (gs : List Glyph) : Char :=
  (next gs).char

/-- Glyphs without the spaces in front. -/
def dropSpaces (gs : List Glyph) : List Glyph :=
  gs.dropWhile (·.char == ' ')

/-- The characters at the front with a property, and the glyphs after them. -/
def span (p : Char → Bool) (gs : List Glyph) : List Char × List Glyph :=
  ((gs.takeWhile fun g => p g.char).map Glyph.char, gs.dropWhile fun g => p g.char)

/-- Whether three dashes or three points stand here that mark the start or the
end of a document. They do so at the start of a line. -/
def atMarker : List Glyph → Bool
  | a :: b :: c :: rest =>
    (a.char == '-' || a.char == '.') && b.char == a.char && c.char == a.char
      && endsMark (nextChar rest)
  | _ => false

/-- What follows the rest of a line that holds nothing but spaces and a comment. -/
def restOfLine? (gs : List Glyph) : Option (List Glyph) :=
  let found := dropSpaces gs
  let ending := if nextChar found == '#' then found.dropWhile fun g => !endsLine g.char else found
  if nextChar ending == endChar then some ending
  else if isBreak (nextChar ending) then some (ending.drop 1)
  else none

/-- Glyphs without blanks, line ends and comments in front, and whether a line
end was among them. Tabs are no blanks. -/
def skipBlanks (inComment broke : Bool) : List Glyph → List Glyph × Bool
  | [] => ([], broke)
  | g :: rest =>
    if isBreak g.char then skipBlanks false true rest
    else if inComment && g.char != endChar then skipBlanks true broke rest
    else if g.char == ' ' then skipBlanks false broke rest
    else if g.char == '#' then skipBlanks true broke rest
    else (g :: rest, broke)

end ContractScript.Document
