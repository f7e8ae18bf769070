/-
The texts of a document. There are three ways to write one: plain, between
quotes, and as a block of indented lines. In all of them a text may go over
several lines; a single line end then counts as a space, and of several the
first is dropped.
-/
import ContractScript.Settings.Document.Glyph

set_option autoImplicit false

namespace ContractScript.Document

/-- Why a text between quotes or in a block cannot be read. -/
inductive ScalarFault where
  | malformed
  /-- An escape names a code that no character has. -/
  | noCharacter
  /-- An escape names a code that is too large for any use. -/
  | codeTooLarge
deriving Repr, DecidableEq

/-- A line end as it is kept in a text. -/
def breakChar (c : Char) : Char :=
  if c.toNat == 0x85 then '\n' else c

/-- What a line end and the empty lines after it stand for in a text. -/
def folded (first : Char) (more : List Char) : List Char :=
  if breakChar first != '\n' then breakChar first :: more
  else if more.isEmpty then [' ']
  else more

/-! ## Plain texts -/

/-- Whether a plain run ends before a character, given the one after it. -/
def endsRun (inFlow : Bool) (c after : Char) : Bool :=
  endsMark c || (c == ':' && (endsMark after || (inFlow && isFlowMark after)))
    || (inFlow && (c == '?' || isFlowMark c))

/-- The characters of a plain text up to the next blank, and what follows. -/
def plainRun (inFlow : Bool) : List Glyph → List Char × List Glyph
  | [] => ([], [])
  | g :: rest =>
    if endsRun inFlow g.char (nextChar rest) then ([], g :: rest)
    else
      let (run, after) := plainRun inFlow rest
      (g.char :: run, after)

/-- Empty lines inside a plain text, and what follows; `none` if a document
ends or starts there. -/
def plainBreaks (lineStart : Bool) : List Glyph → Option (List Char) × List Glyph
  | [] => (some [], [])
  | g :: rest =>
    if lineStart && atMarker (g :: rest) then (none, g :: rest)
    else if g.char == ' ' then plainBreaks false rest
    else if isBreak g.char then
      let (breaks, after) := plainBreaks true rest
      (breaks.map (breakChar g.char :: ·), after)
    else (some [], g :: rest)

/-- What stands between two runs of a plain text: the characters it counts for,
the rest, and whether a line ended. -/
def plainGap (gs : List Glyph) : List Char × List Glyph × Bool :=
  let (spaces, after) := span (· == ' ') gs
  match after with
  | g :: rest =>
    if isBreak g.char then
      match plainBreaks true rest with
      | (some breaks, rest) => (folded g.char breaks, rest, true)
      | (none, rest) => ([], rest, true)
    else (spaces, after, false)
  | [] => (spaces, [], false)

/-- The rest of a plain text after a run: its characters, what follows, and
whether it ends after a line end. Outside brackets it goes on only in lines
that are indented at least as far as `indent`. -/
def plainRest (inFlow : Bool) (indent : Nat) : Nat → List Glyph → List Char × List Glyph × Bool
  | 0, gs => ([], gs, false)
  | fuel + 1, gs =>
    let (gap, rest, broke) := plainGap gs
    if gap.isEmpty || nextChar rest == '#' || (!inFlow && decide ((next rest).column < indent)) then
      ([], rest, broke)
    else
      let (run, after) := plainRun inFlow rest
      if run.isEmpty then ([], rest, broke)
      else
        let (more, after, broke) := plainRest inFlow indent fuel after
        (gap ++ run ++ more, after, broke)

/-- A plain text, what follows, and whether it ends after a line end. It has no
more parts than `fuel`. -/
def plain (inFlow : Bool) (indent fuel : Nat) (gs : List Glyph) : List Char × List Glyph × Bool :=
  let (run, after) := plainRun inFlow gs
  let (more, rest, broke) := plainRest inFlow indent fuel after
  (run ++ more, rest, broke)

/-- Whether a plain text can start with a character, given the one after it. -/
def startsPlain (inFlow : Bool) (c after : Char) : Bool :=
  if c == '-' then !endsMark after
  else if c == '?' || c == ':' then !inFlow && !endsMark after
  else !(endsMark c || isFlowMark c || c ∈ ['#', '&', '*', '!', '|', '>', '\'', '"', '%', '@', '\x60'])

/-! ## Texts between quotes -/

/-- The character that an escape letter stands for. -/
def escape? : Char → Option Char
  | '0' => some '\x00'
  | 'a' => some '\x07'
  | 'b' => some '\x08'
  | 't' => some '\t'
  | '\t' => some '\t'
  | 'n' => some '\n'
  | 'v' => some '\x0b'
  | 'f' => some '\x0c'
  | 'r' => some '\r'
  | 'e' => some '\x1b'
  | ' ' => some ' '
  | '"' => some '"'
  | '/' => some '/'
  | '\\' => some '\\'
  | 'N' => some (Char.ofNat 0x85)
  | '_' => some (Char.ofNat 0xA0)
  | 'L' => some (Char.ofNat 0x2028)
  | 'P' => some (Char.ofNat 0x2029)
  | _ => none

/-- The number of hexadecimal digits after an escape letter. -/
def hexWidth? : Char → Option Nat
  | 'x' => some 2
  | 'u' => some 4
  | 'U' => some 8
  | _ => none

/-- The character with a code. -/
def ofCode (code : Nat) : Except ScalarFault Char :=
  if 0x80000000 ≤ code then .error .codeTooLarge
  else if 0x110000 ≤ code then .error .noCharacter
  else .ok (Char.ofNat code)

/-- Empty lines inside quotes, and what follows; no document may start or end
there. -/
def quotedBreaks (lineStart : Bool) : List Glyph → Except ScalarFault (List Char × List Glyph)
  | [] => .ok ([], [])
  | g :: rest =>
    if lineStart && atMarker (g :: rest) then .error .malformed
    else if g.char == ' ' || g.char == '\t' then quotedBreaks false rest
    else if isBreak g.char then do
      let (breaks, after) ← quotedBreaks true rest
      return (breakChar g.char :: breaks, after)
    else .ok ([], g :: rest)

/-- What an escape stands for and what follows it. An escaped line end stands
for the empty lines after it. -/
def escaped (gs : List Glyph) : Except ScalarFault (List Char × List Glyph) :=
  let c := nextChar gs
  let rest := gs.drop 1
  match escape? c with
  | some meant => .ok ([meant], rest)
  | none =>
    match hexWidth? c with
    | some width =>
      let digits := (rest.take width).map Glyph.char
      match naturalIn? 16 digits with
      | some code =>
        if digits.length == width then (ofCode code).map fun meant => ([meant], rest.drop width)
        else .error .malformed
      | none => .error .malformed
    | none => if isBreak c then quotedBreaks true rest else .error .malformed

/-- Blanks inside quotes, and what follows. Blanks around a line end are
dropped. -/
def quotedGap (gs : List Glyph) : Except ScalarFault (List Char × List Glyph) :=
  let (blanks, after) := span (fun c => c == ' ' || c == '\t') gs
  if isBreak (nextChar after) then do
    let (breaks, rest) ← quotedBreaks true (after.drop 1)
    return (folded (nextChar after) breaks, rest)
  else .ok (blanks, after)

/-- A text up to its closing quote, and what follows. Between single quotes a
doubled quote stands for one, between double quotes there are escapes. -/
def quoted (double : Bool) : Nat → List Glyph → Except ScalarFault (List Char × List Glyph)
  | 0, _ => .error .malformed
  | _, [] => .error .malformed
  | fuel + 1, g :: rest =>
    let c := g.char
    let goOn (cs : List Char) (after : List Glyph) : Except ScalarFault (List Char × List Glyph) :=
      (quoted double fuel after).map fun r => (cs ++ r.1, r.2)
    if c == endChar then .error .malformed
    else if c == ' ' || c == '\t' || isBreak c then
      match quotedGap (g :: rest) with
      | .ok (cs, after) => goOn cs after
      | .error fault => .error fault
    else if double && c == '\\' then
      match escaped rest with
      | .ok (cs, after) => goOn cs after
      | .error fault => .error fault
    else if double && c == '"' then .ok ([], rest)
    else if !double && c == '\'' then
      if nextChar rest == '\'' then goOn [c] (rest.drop 1) else .ok ([], rest)
    else goOn [c] rest

/-! ## Blocks -/

/-- What becomes of the line ends at the end of a block. -/
inductive Chomping where
  | strip
  | clip
  | keep
deriving Repr, DecidableEq

/-- How a block is written: whether its lines are folded, what becomes of its
end, and how far it is indented, if that is said. -/
structure BlockHeader where
  isFolded : Bool
  chomping : Chomping
  increment : Option Nat
deriving Repr, DecidableEq

/-- The sign that says what becomes of the end of a block. -/
def chomping? : Char → Option Chomping
  | '+' => some .keep
  | '-' => some .strip
  | _ => none

/-- Reads what follows the mark of a block: a sign and a digit in any order. -/
def blockHeader? (isFolded : Bool) (gs : List Glyph) : Option (BlockHeader × List Glyph) :=
  let (sign, afterSign) := match chomping? (nextChar gs) with
    | some chomping => (some chomping, gs.drop 1)
    | none => (none, gs)
  let (increment, afterDigit) := match digitIn? 10 (nextChar afterSign) with
    | some digit => (some digit, afterSign.drop 1)
    | none => (none, afterSign)
  let (sign, rest) := match sign, increment, chomping? (nextChar afterDigit) with
    | none, some _, some chomping => (some chomping, afterDigit.drop 1)
    | found, _, _ => (found, afterDigit)
  if increment == some 0 || !endsWord (nextChar rest) then none
  else (restOfLine? rest).map fun after => (⟨isFolded, sign.getD .clip, increment⟩, after)

/-- The empty lines in front of a block, the greatest column that spaces in
front of it reach, and what follows. -/
def leadingLines (deepest : Nat) : List Glyph → List Char × Nat × List Glyph
  | [] => ([], deepest, [])
  | g :: rest =>
    if g.char == ' ' then leadingLines (max deepest (g.column + 1)) rest
    else if isBreak g.char then
      let (breaks, deepest, after) := leadingLines deepest rest
      (breakChar g.char :: breaks, deepest, after)
    else ([], deepest, g :: rest)

/-- The empty lines inside a block, and what follows them and the indentation. -/
def blankLines (indent : Nat) : List Glyph → List Char × List Glyph
  | [] => ([], [])
  | g :: rest =>
    if g.char == ' ' && decide (g.column < indent) then blankLines indent rest
    else if isBreak g.char then
      let (breaks, after) := blankLines indent rest
      (breakChar g.char :: breaks, after)
    else ([], g :: rest)

/-- Whether another line of the block starts here. -/
def inBlock (indent : Nat) (gs : List Glyph) : Bool :=
  (next gs).column == indent && nextChar gs != endChar

/-- The lines of a block after some empty lines: the text without its end, the
last line end, the empty lines after it, and what follows. -/
def blockLines (isFolded : Bool) (indent : Nat) :
    Nat → List Char → List Glyph → List Char × List Char × List Char × List Glyph
  | 0, breaks, gs => ([], [], breaks, gs)
  | fuel + 1, breaks, gs =>
    if inBlock indent gs then
      let isPlainStart (c : Char) : Bool := c != ' ' && c != '\t'
      let (line, atEnd) := span (fun c => !endsLine c) gs
      let ending := if isBreak (nextChar atEnd) then [breakChar (nextChar atEnd)] else []
      let (later, after) := blankLines indent (atEnd.drop ending.length)
      if inBlock indent after then
        let joint :=
          if isFolded && ending == ['\n'] && isPlainStart (nextChar gs)
              && isPlainStart (nextChar after) then
            if later.isEmpty then [' '] else []
          else ending
        let (text, last, left, rest) := blockLines isFolded indent fuel later after
        (breaks ++ line ++ joint ++ text, last, left, rest)
      else (breaks ++ line, ending, later, after)
    else ([], [], breaks, gs)

/-- A block, and what follows. Its lines are indented at least to `least`, and it
has no more of them than `fuel`. -/
def block (header : BlockHeader) (least fuel : Nat) (gs : List Glyph) : List Char × List Glyph :=
  let (indent, breaks, start) := match header.increment with
    | some increment =>
      let indent := least + increment - 1
      let (breaks, start) := blankLines indent gs
      (indent, breaks, start)
    | none =>
      let (breaks, deepest, start) := leadingLines 0 gs
      (max least deepest, breaks, start)
  let (text, last, left, rest) := blockLines header.isFolded indent fuel breaks start
  match header.chomping with
  | .strip => (text, rest)
  | .clip => (text ++ last, rest)
  | .keep => (text ++ last ++ left, rest)

end ContractScript.Document
