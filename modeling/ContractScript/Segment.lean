/-
Segments: the pieces into which a source text is cut, one after another and
without gaps. A segment is a token, blank space, a comment, a character that
starts none of these, or a text whose closing quote is missing.

Scanning a segment takes the longest piece that its first characters allow. A
counter of lines goes along. It is advanced where a line break is passed, which
can be between tokens or within a text, and it is read when a token or a
complaint is made; for a text it is read before the text is passed.
-/
import ContractScript.Diagnostic
import ContractScript.Token

set_option autoImplicit false

namespace ContractScript

/-- What a segment is. -/
inductive Segment.Sort where
  | token (kind : Token.Kind)
  | blank
  | comment
  | unexpected
  | unterminated
deriving Repr, DecidableEq

/-- A piece of a source text. -/
structure Segment where
  sort : Segment.Sort
  chars : List Char
deriving Repr, DecidableEq

namespace Segment

/-! ## Character classes -/

/-- The decimal digits. -/
def isDigit (c : Char) : Bool :=
  '0' ≤ c && c ≤ '9'

/-- Characters that start a word: unaccented letters and the underscore. -/
def isWordStart (c : Char) : Bool :=
  ('a' ≤ c && c ≤ 'z') || ('A' ≤ c && c ≤ 'Z') || c == '_'

/-- Characters that continue a word. -/
def isWordPart (c : Char) : Bool :=
  isWordStart c || isDigit c

/-- Characters without meaning between tokens that end no line. -/
def isGap (c : Char) : Bool :=
  c == ' ' || c == '\r' || c == '\t'

/-! ## One segment

Each reader is given the first character and what follows it, and returns the
segment and what is left. None of these segments contains a line break. -/

/-- A character that may form a pair with the next. -/
def readPair (c second : Char) (pair alone : Token.Kind) : List Char → Segment × List Char
  | d :: rest =>
    if d == second then (⟨.token pair, [c, d]⟩, rest) else (⟨.token alone, [c]⟩, d :: rest)
  | [] => (⟨.token alone, [c]⟩, [])

/-- A slash, or a comment up to the end of its line. -/
def readSlash (c : Char) : List Char → Segment × List Char
  | '/' :: rest =>
    (⟨.comment, c :: '/' :: rest.takeWhile (· != '\n')⟩, rest.dropWhile (· != '\n'))
  | rest => (⟨.token .slash, [c]⟩, rest)

/-- A number; a point belongs to it only if a digit follows the point. -/
def readNumber (c : Char) (rest : List Char) : Segment × List Char :=
  let whole := c :: rest.takeWhile isDigit
  match rest.dropWhile isDigit with
  | '.' :: d :: after =>
    if isDigit d then
      (⟨.token .number, whole ++ '.' :: d :: after.takeWhile isDigit⟩, after.dropWhile isDigit)
    else (⟨.token .number, whole⟩, '.' :: d :: after)
  | after => (⟨.token .number, whole⟩, after)

/-- A word, which is a keyword or an identifier. -/
def readWord (c : Char) (rest : List Char) : Segment × List Char :=
  let word := c :: rest.takeWhile isWordPart
  (⟨.token (Token.wordKind word), word⟩, rest.dropWhile isWordPart)

/-! ## Scanning -/

/-- What comes of scanning one segment: the line that is reported for it, the
segment, the counter behind it, and what is left. -/
structure Scanned where
  line : Nat
  segment : Segment
  counter : Nat
  left : List Char

/-- A segment that leaves the counter as it is. -/
def Scanned.inLine (counter : Nat) (read : Segment × List Char) : Scanned :=
  ⟨counter, read.1, counter, read.2⟩

/-- Passes characters up to the next quote, and counts the line breaks on the
way: what was passed, the counter, and what is left. -/
def passText (counter : Nat) : List Char → List Char × Nat × List Char
  | [] => ([], counter, [])
  | c :: rest =>
    if c == '"' then ([], counter, c :: rest)
    else
      let (passed, counter, left) := passText (if c == '\n' then counter + 1 else counter) rest
      (c :: passed, counter, left)

/-- A text up to the next quote, which is on the line on which it starts. -/
def scanText (start : Nat) (c : Char) (rest : List Char) : Scanned :=
  match passText start rest with
  | (passed, counter, quote :: after) =>
    ⟨start, ⟨.token .text, c :: passed ++ [quote]⟩, counter, after⟩
  | (passed, counter, []) => ⟨start, ⟨.unterminated, c :: passed⟩, counter, []⟩

/-- Scans the first segment of a text that starts with `c`. -/
def scanOne (counter : Nat) (c : Char) (rest : List Char) : Scanned :=
  match Token.singleKind? c with
  | some kind => .inLine counter (⟨.token kind, [c]⟩, rest)
  | none =>
    match Token.pairKind? c with
    | some (second, pair, alone) => .inLine counter (readPair c second pair alone rest)
    | none =>
      if c == '/' then .inLine counter (readSlash c rest)
      else if isGap c then .inLine counter (⟨.blank, [c]⟩, rest)
      else if c == '\n' then ⟨counter, ⟨.blank, [c]⟩, counter + 1, rest⟩
      else if c == '"' then scanText counter c rest
      else if isDigit c then .inLine counter (readNumber c rest)
      else if isWordStart c then .inLine counter (readWord c rest)
      else .inLine counter (⟨.unexpected, [c]⟩, rest)

/-! ## Scanning moves forward -/

theorem length_dropWhile_le (p : Char → Bool) (cs : List Char) :
    (cs.dropWhile p).length ≤ cs.length :=
  (List.dropWhile_suffix p).length_le

theorem readPair_length_le (c second : Char) (pair alone : Token.Kind) (rest : List Char) :
    (readPair c second pair alone rest).2.length ≤ rest.length := by
  cases rest with
  | nil => simp [readPair]
  | cons d rest => simp only [readPair]; split <;> simp

theorem readSlash_length_le (c : Char) (rest : List Char) :
    (readSlash c rest).2.length ≤ rest.length := by
  unfold readSlash
  split
  · exact Nat.le_succ_of_le (length_dropWhile_le _ _)
  · exact Nat.le_refl _

theorem readNumber_length_le (c : Char) (rest : List Char) :
    (readNumber c rest).2.length ≤ rest.length := by
  have bound := length_dropWhile_le isDigit rest
  simp only [readNumber]
  split
  · rename_i d after found
    rw [found] at bound
    have tail := length_dropWhile_le isDigit after
    split
    · simp only [List.length_cons] at bound; simp only; omega
    · exact bound
  · exact bound

theorem passText_length_le (counter : Nat) (cs : List Char) :
    (passText counter cs).2.2.length ≤ cs.length := by
  induction cs generalizing counter with
  | nil => exact Nat.le_refl _
  | cons c rest ih =>
    rw [passText]
    split
    · exact Nat.le_refl _
    · exact Nat.le_succ_of_le (ih _)

theorem scanText_length_le (start : Nat) (c : Char) (rest : List Char) :
    (scanText start c rest).left.length ≤ rest.length := by
  have bound := passText_length_le start rest
  unfold scanText
  split <;> rename_i passed
  · rw [passed] at bound
    exact Nat.le_of_succ_le bound
  · exact Nat.zero_le _

/-- Scanning a segment leaves no more than what followed its first character. -/
theorem scanOne_length_le (counter : Nat) (c : Char) (rest : List Char) :
    (scanOne counter c rest).left.length ≤ rest.length := by
  unfold scanOne
  split
  · exact Nat.le_refl _
  · split
    · exact readPair_length_le _ _ _ _ _
    · repeat' split
      · exact readSlash_length_le _ _
      · exact Nat.le_refl _
      · exact Nat.le_refl _
      · exact scanText_length_le _ _ _
      · exact readNumber_length_le _ _
      · exact length_dropWhile_le _ _
      · exact Nat.le_refl _

/-! ## All segments -/

/-- Scans a text from a count of lines on: its segments with their lines, and the
counter at the end. -/
def scanAll (counter : Nat) : List Char → List (Nat × Segment) × Nat
  | [] => ([], counter)
  | c :: rest =>
    let first := scanOne counter c rest
    let (others, last) := scanAll first.counter first.left
    ((first.line, first.segment) :: others, last)
termination_by cs => cs.length
decreasing_by exact Nat.lt_succ_of_le (scanOne_length_le counter c rest)

/-- The token that a segment is, if it is one. -/
def token? (file : Option String) (located : Nat × Segment) : Option Token :=
  match located.2.sort with
  | .token kind => some ⟨kind, ⟨String.ofList located.2.chars, ⟨file, located.1⟩⟩⟩
  | _ => none

/-- The diagnostic that a segment calls for, if it does. -/
def diagnostic? (file : Option String) (located : Nat × Segment) : Option Diagnostic :=
  match located.2.sort, located.2.chars with
  | .unexpected, c :: _ => some ⟨⟨file, located.1⟩, .line, .unexpectedCharacter c⟩
  | .unterminated, _ => some ⟨⟨file, located.1⟩, .line, .unterminatedText⟩
  | _, _ => none

end Segment

/-- The tokens of a source and the complaints about what is not a token. The end
is on the line to which the lines were counted. -/
def TokenList.scan (file : Option String) (source : String) : TokenList × List Diagnostic :=
  let (segments, last) := Segment.scanAll 1 source.toList
  (⟨segments.filterMap (Segment.token? file), ⟨file, last⟩⟩,
   segments.filterMap (Segment.diagnostic? file))

end ContractScript
