/-
Scanning line by line.

A line break ends every segment but a text that is still open, and it ends it exactly
as the end of the source would. So a source whose texts are all closed can be scanned by
itself, and whatever is put on the next line is scanned as if it stood alone, only
further down: each token and each complaint moves down by the lines in front of it, the
breaks inside of texts included.
-/
import ContractScript.Proofs.Program.Joining

set_option autoImplicit false

namespace ContractScript

/-! ## Moving down -/

/-- A place so many lines further down. -/
def Place.down (lines : Nat) (p : Place) : Place :=
  { p with line := p.line + lines }

/-- A token so many lines further down. -/
def Token.down (lines : Nat) (t : Token) : Token :=
  { t with lexeme := { t.lexeme with place := t.lexeme.place.down lines } }

/-- A diagnostic so many lines further down. -/
def Diagnostic.down (lines : Nat) (d : Diagnostic) : Diagnostic :=
  { d with place := d.place.down lines }

namespace Segment

/-! ## Segments further down -/

section Down

variable {file : Option String}

theorem token?_down (lines line : Nat) (s : Segment) :
    token? file (line + lines, s) = (token? file (line, s)).map (Token.down lines) := by
  obtain ⟨sort, chars⟩ := s
  cases sort <;> rfl

theorem diagnostic?_down (lines line : Nat) (s : Segment) :
    diagnostic? file (line + lines, s) = (diagnostic? file (line, s)).map (Diagnostic.down lines) := by
  obtain ⟨sort, chars⟩ := s
  cases sort with
  | unexpected => cases chars <;> rfl
  | token | blank | comment | unterminated => rfl

theorem locate_down (lines line : Nat) (ps : List Segment) :
    locate (line + lines) ps = (locate line ps).map fun (row, s) => (row + lines, s) := by
  induction ps generalizing line with
  | nil => rfl
  | cons s ps ih => rw [locate, locate, List.map_cons, ← ih, Nat.add_right_comm]

/-- What segments are found to be moves down with them. -/
theorem filterMap_locate_down {α : Type} (found? : Nat × Segment → Option α) (move : α → α)
    (lines line : Nat)
    (moves : ∀ row s, found? (row + lines, s) = (found? (row, s)).map move) (ps : List Segment) :
    (locate (line + lines) ps).filterMap found? = ((locate line ps).filterMap found?).map move := by
  rw [locate_down, List.filterMap_map, List.map_filterMap]
  exact congrArg (List.filterMap · _) (funext fun (row, s) => moves row s)

/-- A text that is not closed is complained about. -/
theorem closed_of_diagnostics (line : Nat) (ps : List Segment)
    (h : ∀ d ∈ (locate line ps).filterMap (diagnostic? file), d.complaint ≠ .unterminatedText) :
    ∀ s ∈ ps, s.sort ≠ .unterminated := by
  induction ps generalizing line with
  | nil => exact fun s hs => absurd hs List.not_mem_nil
  | cons p ps ih =>
    rw [locate] at h
    have later : ∀ s ∈ ps, s.sort ≠ .unterminated := by
      refine ih (line + breaks p.chars) fun d hd => h d ?_
      rw [List.filterMap_cons]
      split
      · exact hd
      · exact List.mem_cons_of_mem _ hd
    intro s hs
    rcases List.mem_cons.mp hs with rfl | hs
    · intro unterminated
      obtain ⟨sort, chars⟩ := s
      cases unterminated
      exact h ⟨⟨file, line⟩, .line, .unterminatedText⟩ List.mem_cons_self rfl
    · exact later s hs

end Down

end Segment

/-! ## The two sources -/

/-- A source whose texts are all closed, and another one on the next line: the tokens and the
complaints are those of the first, followed by those of the second further down. -/
theorem TokenList.scan_at_line_end {file : Option String} {a b : String}
    (closed : ∀ d ∈ (TokenList.scan file a).2, d.complaint ≠ .unterminatedText) :
    TokenList.scan file (a ++ "\n" ++ b)
      = (⟨(TokenList.scan file a).1.tokens
            ++ (TokenList.scan file b).1.tokens.map (Token.down (1 + Segment.breaks a.toList)),
          (TokenList.scan file b).1.ending.down (1 + Segment.breaks a.toList)⟩,
        (TokenList.scan file a).2
          ++ (TokenList.scan file b).2.map (Diagnostic.down (1 + Segment.breaks a.toList))) := by
  rw [TokenList.scan_eq] at closed
  have chars : (a ++ "\n" ++ b).toList = a.toList ++ '\n' :: b.toList := by
    rw [String.toList_append, String.toList_append, List.append_assoc]
    rfl
  -- no segment of the first source reaches over the break, which is a blank of its own
  have cut : Segment.split (a ++ "\n" ++ b).toList
      = Segment.split a.toList ++ ⟨.blank, ['\n']⟩ :: Segment.split b.toList := by
    rw [chars, Segment.split_append _ _ (Segment.closed_of_diagnostics 1 _ closed),
      Segment.split_blank]
  -- the second source starts on line one below the breaks of the first and the one between them
  have located : Segment.locate 1 (Segment.split (a ++ "\n" ++ b).toList)
      = Segment.locate 1 (Segment.split a.toList)
        ++ (1 + Segment.breaks a.toList, ⟨.blank, ['\n']⟩)
          :: Segment.locate (1 + (1 + Segment.breaks a.toList)) (Segment.split b.toList) := by
    have first : 1 + Segment.breaks a.toList + Segment.breaks ['\n']
        = 1 + (1 + Segment.breaks a.toList) := Nat.add_comm _ 1
    rw [cut, Segment.locate_append, Segment.flatMap_chars_split, Segment.locate, first]
  have lines : 1 + Segment.breaks (a ++ "\n" ++ b).toList
      = 1 + Segment.breaks b.toList + (1 + Segment.breaks a.toList) := by
    unfold Segment.breaks
    rw [chars, List.count_append, List.count_cons_self]
    omega
  have tokens := Segment.filterMap_locate_down (Segment.token? file) _ (1 + Segment.breaks a.toList) 1
    (Segment.token?_down _) (Segment.split b.toList)
  have complaints := Segment.filterMap_locate_down (Segment.diagnostic? file) _
    (1 + Segment.breaks a.toList) 1 (Segment.diagnostic?_down _) (Segment.split b.toList)
  simp only [TokenList.scan_eq, located, lines, List.filterMap_append, List.filterMap_cons]
  rw [tokens, complaints]
  rfl

/-- Two lines of text in the first source, and a character that nothing starts with. -/
theorem TokenList.scan_at_line_end_unexpected :
    (∀ d ∈ (TokenList.scan none "\"x\ny\" @").2, d.complaint ≠ .unterminatedText) ∧
    TokenList.scan none ("\"x\ny\" @" ++ "\n" ++ "1 \"")
      = (⟨[⟨.text, ⟨"\"x\ny\"", ⟨none, 1⟩⟩⟩, ⟨.number, ⟨"1", ⟨none, 3⟩⟩⟩], ⟨none, 3⟩⟩,
        [⟨⟨none, 2⟩, .line, .unexpectedCharacter '@'⟩, ⟨⟨none, 3⟩, .line, .unterminatedText⟩]) := by
  have first : TokenList.scan none "\"x\ny\" @"
      = (⟨[⟨.text, ⟨"\"x\ny\"", ⟨none, 1⟩⟩⟩], ⟨none, 2⟩⟩,
        [⟨⟨none, 2⟩, .line, .unexpectedCharacter '@'⟩]) := by
    decide +kernel
  have second : TokenList.scan none "1 \""
      = (⟨[⟨.number, ⟨"1", ⟨none, 1⟩⟩⟩], ⟨none, 1⟩⟩, [⟨⟨none, 1⟩, .line, .unterminatedText⟩]) := by
    decide +kernel
  have closed : ∀ d ∈ (TokenList.scan none "\"x\ny\" @").2, d.complaint ≠ .unterminatedText := by
    rw [first]
    decide
  refine ⟨closed, ?_⟩
  rw [TokenList.scan_at_line_end closed, first, second]
  rfl

end ContractScript
