/-
Cutting a source without counting.

The scanner counts lines while it goes along. Which segments it finds does not depend on the count,
and the count is the number of breaks that it has passed: so scanning is cutting the text into
segments and numbering the lines afterwards, over the finished segments. Everything that is said of
segments is said of the cut, and `TokenList.scan_eq` takes it to the scanner.
-/
import ContractScript.Segment
import Mathlib.Data.List.TakeWhile

set_option autoImplicit false

namespace ContractScript

namespace Segment

/-! ## One segment -/

/-- Characters without meaning between tokens. -/
def isSpace (c : Char) : Bool :=
  c == ' ' || c == '\r' || c == '\t' || c == '\n'

/-- A text up to the next quote. -/
def readText (c : Char) (rest : List Char) : Segment × List Char :=
  match rest.dropWhile (· != '"') with
  | quote :: after => (⟨.token .text, c :: rest.takeWhile (· != '"') ++ [quote]⟩, after)
  | [] => (⟨.unterminated, c :: rest⟩, [])

/-- The first segment of a text that starts with `c`, and the rest. -/
def read (c : Char) (rest : List Char) : Segment × List Char :=
  match Token.singleKind? c with
  | some kind => (⟨.token kind, [c]⟩, rest)
  | none =>
    match Token.pairKind? c with
    | some (second, pair, alone) => readPair c second pair alone rest
    | none =>
      if c == '/' then readSlash c rest
      else if isSpace c then (⟨.blank, [c]⟩, rest)
      else if c == '"' then readText c rest
      else if isDigit c then readNumber c rest
      else if isWordStart c then readWord c rest
      else (⟨.unexpected, [c]⟩, rest)

theorem readText_length_le (c : Char) (rest : List Char) :
    (readText c rest).2.length ≤ rest.length := by
  have bound := length_dropWhile_le (· != '"') rest
  unfold readText
  split
  · rename_i quote after found
    rw [found] at bound
    exact Nat.le_of_succ_le bound
  · exact Nat.zero_le _

/-- Reading a segment leaves no more than what followed its first character. -/
theorem read_length_le (c : Char) (rest : List Char) : (read c rest).2.length ≤ rest.length := by
  unfold read
  split
  · exact Nat.le_refl _
  · split
    · exact readPair_length_le _ _ _ _ _
    · repeat' split
      · exact readSlash_length_le _ _
      · exact Nat.le_refl _
      · exact readText_length_le _ _
      · exact readNumber_length_le _ _
      · exact length_dropWhile_le _ _
      · exact Nat.le_refl _

/-! ## Segments leave no gaps -/

section Partition

variable (c : Char) (rest : List Char)

theorem readPair_partition (second : Char) (pair alone : Token.Kind) :
    (readPair c second pair alone rest).1.chars ++ (readPair c second pair alone rest).2
      = c :: rest := by
  cases rest with
  | nil => rfl
  | cons d rest =>
    simp only [readPair]
    split
    · rfl
    · rfl

theorem readSlash_partition : (readSlash c rest).1.chars ++ (readSlash c rest).2 = c :: rest := by
  unfold readSlash
  split
  · simp only [List.cons_append, List.takeWhile_append_dropWhile]
  · rfl

theorem readText_partition : (readText c rest).1.chars ++ (readText c rest).2 = c :: rest := by
  have whole := List.takeWhile_append_dropWhile (p := (· != '"')) (l := rest)
  unfold readText
  split
  · rename_i quote after found
    rw [found] at whole
    simp only [List.cons_append, List.append_assoc, List.nil_append, whole]
  · rw [List.append_nil]

theorem readNumber_partition : (readNumber c rest).1.chars ++ (readNumber c rest).2 = c :: rest := by
  have whole := List.takeWhile_append_dropWhile (p := isDigit) (l := rest)
  unfold readNumber
  split
  · rename_i d after found
    rw [found] at whole
    split
    · simp only [List.cons_append, List.append_assoc, List.takeWhile_append_dropWhile, whole]
    · simp only [List.cons_append, whole]
  · simp only [List.cons_append, whole]

theorem readWord_partition : (readWord c rest).1.chars ++ (readWord c rest).2 = c :: rest := by
  simp only [readWord, List.cons_append, List.takeWhile_append_dropWhile]

/-- A segment and what is left behind it are what was there. -/
theorem read_partition : (read c rest).1.chars ++ (read c rest).2 = c :: rest := by
  unfold read
  -- one case for each kind of segment, in the order in which they are tried
  split
  · rfl
  · split
    · exact readPair_partition c rest _ _ _
    · split
      · exact readSlash_partition c rest
      · split
        · rfl
        · split
          · exact readText_partition c rest
          · split
            · exact readNumber_partition c rest
            · split
              · exact readWord_partition c rest
              · rfl

end Partition

/-! ## All segments -/

/-- Cuts a text into segments. -/
def split : List Char → List Segment
  | [] => []
  | c :: rest => (read c rest).1 :: split (read c rest).2
termination_by cs => cs.length
decreasing_by exact Nat.lt_succ_of_le (read_length_le c rest)

theorem flatMap_chars_split (cs : List Char) : (split cs).flatMap chars = cs := by
  induction cs using split.induct with
  | case1 => rw [split]; rfl
  | case2 c rest ih => rw [split, List.flatMap_cons, ih, read_partition]

/-- The number of line breaks among characters. -/
def breaks (cs : List Char) : Nat :=
  cs.count '\n'

theorem breaks_append (cs ds : List Char) : breaks (cs ++ ds) = breaks cs + breaks ds :=
  List.count_append

theorem breaks_cons (c : Char) (cs : List Char) :
    breaks (c :: cs) = breaks cs + if c == '\n' then 1 else 0 :=
  List.count_cons

/-- Characters without a break are on one line. -/
theorem breaks_eq_zero {cs : List Char} (inLine : '\n' ∉ cs) : breaks cs = 0 :=
  List.count_eq_zero.mpr inLine

/-- Segments together with the lines on which they start. -/
def locate : Nat → List Segment → List (Nat × Segment)
  | _, [] => []
  | line, s :: rest => (line, s) :: locate (line + breaks s.chars) rest

/-! ## Segments within a line

The counter stays as it is over all segments but blank ones and texts. The reason is each time which
characters the segment is made of. -/

theorem not_mem_takeWhile {p : Char → Bool} (stops : p '\n' = false) (cs : List Char) :
    '\n' ∉ cs.takeWhile p := fun there =>
  Bool.false_ne_true (stops.symm.trans (List.mem_takeWhile_imp there))

theorem not_mem_readPair {c second : Char} (first : c ≠ '\n') (other : second ≠ '\n')
    (pair alone : Token.Kind) (rest : List Char) : '\n' ∉ (readPair c second pair alone rest).1.chars := by
  cases rest with
  | nil => simpa [readPair] using first.symm
  | cons d rest =>
    simp only [readPair]
    split
    · rename_i same
      obtain rfl := eq_of_beq same
      simpa using ⟨first.symm, other.symm⟩
    · simpa using first.symm

theorem not_mem_readSlash (rest : List Char) : '\n' ∉ (readSlash '/' rest).1.chars := by
  unfold readSlash
  split
  · simpa using not_mem_takeWhile rfl _
  · simp

theorem not_mem_readNumber {c : Char} (first : c ≠ '\n') (rest : List Char) :
    '\n' ∉ (readNumber c rest).1.chars := by
  have whole : '\n' ∉ c :: rest.takeWhile isDigit := by
    simpa using ⟨first.symm, not_mem_takeWhile rfl rest⟩
  unfold readNumber
  split
  · rename_i d after found
    split
    · rename_i digit
      have other : '\n' ≠ d := fun same => absurd (same ▸ digit) (by decide)
      rw [List.mem_append]
      refine not_or.mpr ⟨whole, ?_⟩
      simpa using ⟨other, not_mem_takeWhile rfl after⟩
    · exact whole
  · exact whole

theorem not_mem_readWord {c : Char} (first : c ≠ '\n') (rest : List Char) :
    '\n' ∉ (readWord c rest).1.chars := by
  simpa [readWord] using ⟨first.symm, not_mem_takeWhile rfl rest⟩

/-! ## The counter -/

/-- A segment within a line leaves the counter where the breaks put it. -/
theorem inLine_eq {counter : Nat} {found : Segment × List Char} (inLine : '\n' ∉ found.1.chars) :
    Scanned.inLine counter found = ⟨counter, found.1, counter + breaks found.1.chars, found.2⟩ := by
  rw [breaks_eq_zero inLine]
  rfl

/-- What is passed up to a quote is what stands in front of it, and its breaks are counted. -/
theorem passText_eq (counter : Nat) (cs : List Char) :
    passText counter cs = (cs.takeWhile (· != '"'), counter + breaks (cs.takeWhile (· != '"')),
      cs.dropWhile (· != '"')) := by
  induction cs generalizing counter with
  | nil => rfl
  | cons c rest ih =>
    rw [passText, List.takeWhile_cons, List.dropWhile_cons, bne]
    cases quote : c == '"' with
    | true => rfl
    | false =>
      simp only [Bool.false_eq_true, if_false, Bool.not_false, if_true, ih, breaks_cons]
      split <;> simp [Nat.add_assoc, Nat.add_comm 1]

/-- A text is on the line on which it starts, and the counter goes on to the line on which it ends. -/
theorem scanText_eq (counter : Nat) (rest : List Char) :
    scanText counter '"' rest
      = ⟨counter, (readText '"' rest).1, counter + breaks (readText '"' rest).1.chars,
          (readText '"' rest).2⟩ := by
  have stops := List.head?_dropWhile_not (· != '"') rest
  have whole := List.takeWhile_append_dropWhile (p := (· != '"')) (l := rest)
  unfold scanText readText
  rw [passText_eq]
  cases found : rest.dropWhile (· != '"') with
  | nil =>
    rw [found, List.append_nil] at whole
    simp only [whole, breaks_cons]
    rfl
  | cons quote after =>
    rw [found] at stops
    obtain rfl : quote = '"' := by simpa using stops
    simp only [breaks_append, breaks_cons]
    rfl

/-- Scanning one segment is reading it. The line that is reported is the one on which it starts, and
the counter goes on by its breaks. -/
theorem scanOne_eq (counter : Nat) (c : Char) (rest : List Char) :
    scanOne counter c rest
      = ⟨counter, (read c rest).1, counter + breaks (read c rest).1.chars, (read c rest).2⟩ := by
  by_cases feed : c = '\n'
  · subst feed
    rfl
  · have alone : '\n' ∉ [c] := by simpa using fun same : '\n' = c => feed same.symm
    have gap : isSpace c = isGap c := by simp [isSpace, isGap, feed]
    unfold scanOne read
    rw [gap]
    -- one case for each kind of segment, in the order in which they are tried
    cases single : Token.singleKind? c with
    | some kind => exact inLine_eq alone
    | none =>
      cases double : Token.pairKind? c with
      | some found =>
        obtain ⟨second, pair, other⟩ := found
        have second_ne : second ≠ '\n' := by
          unfold Token.pairKind? at double
          split at double <;> cases double <;> decide
        exact inLine_eq (not_mem_readPair feed second_ne pair other rest)
      | none =>
        dsimp only
        rw [if_neg (show ¬(c == '\n') = true by simpa using feed)]
        split
        · rename_i slash
          obtain rfl := eq_of_beq slash
          exact inLine_eq (not_mem_readSlash rest)
        · split
          · exact inLine_eq alone
          · split
            · rename_i quote
              obtain rfl := eq_of_beq quote
              exact scanText_eq counter rest
            · split
              · exact inLine_eq (not_mem_readNumber feed rest)
              · split
                · exact inLine_eq (not_mem_readWord feed rest)
                · exact inLine_eq alone

/-- Scanning is cutting, with the lines numbered afterwards. -/
theorem scanAll_eq (counter : Nat) (cs : List Char) :
    scanAll counter cs = (locate counter (split cs), counter + breaks cs) := by
  induction counter, cs using scanAll.induct with
  | case1 counter => rw [scanAll, split]; rfl
  | case2 counter c rest first others last found ih =>
    have same : first = _ := scanOne_eq counter c rest
    have whole : breaks (c :: rest) = breaks (read c rest).1.chars + breaks (read c rest).2 := by
      rw [← breaks_append, read_partition]
    rw [same] at ih
    rw [scanAll, scanOne_eq]
    dsimp only
    rw [ih, split, locate, whole, Nat.add_assoc]

end Segment

/-- The tokens of a source and the complaints, by its segments and the lines on which they start. -/
theorem TokenList.scan_eq (file : Option String) (source : String) :
    TokenList.scan file source =
      (⟨(Segment.locate 1 (Segment.split source.toList)).filterMap (Segment.token? file),
          ⟨file, 1 + Segment.breaks source.toList⟩⟩,
        (Segment.locate 1 (Segment.split source.toList)).filterMap (Segment.diagnostic? file)) := by
  unfold scan
  rw [Segment.scanAll_eq]

end ContractScript
