/-
Two sources as one.

A source without diagnostics can be continued on a new line. No segment runs over a line
break, except a text, and a text that is closed ends at its quote; so the segments of the
whole are those of the first source, a blank, and those of the second. The tokens of the
second source are the same but for their lines, hence its program is the same but for
places.
-/
import ContractScript.Proofs.Program.Concatenation
import ContractScript.Proofs.Program.Layout
import ContractScript.Proofs.Program.Scanning

set_option autoImplicit false

namespace ContractScript

namespace Segment

/-! ## Cutting at a line break -/

section Readers

variable {p : Char → Bool} (c : Char) (rest more : List Char)

theorem takeWhile_append_break (h : p '\n' = false) :
    (rest ++ '\n' :: more).takeWhile p = rest.takeWhile p := by
  induction rest with
  | nil => simp [h]
  | cons d rest ih => rw [List.cons_append, List.takeWhile_cons, List.takeWhile_cons, ih]

theorem dropWhile_append_break (h : p '\n' = false) :
    (rest ++ '\n' :: more).dropWhile p = rest.dropWhile p ++ '\n' :: more := by
  induction rest with
  | nil => simp [h]
  | cons d rest ih =>
    rw [List.cons_append, List.dropWhile_cons, List.dropWhile_cons, ih]
    split
    · rfl
    · rfl

theorem readPair_append {second : Char} (pair alone : Token.Kind) (h : second ≠ '\n') :
    readPair c second pair alone (rest ++ '\n' :: more)
      = ((readPair c second pair alone rest).1,
        (readPair c second pair alone rest).2 ++ '\n' :: more) := by
  cases rest with
  | nil =>
    have differs : ('\n' == second) = false := beq_eq_false_iff_ne.mpr h.symm
    simp [readPair, differs]
  | cons d rest =>
    simp only [List.cons_append, readPair]
    split
    · rfl
    · rfl

theorem readSlash_append : readSlash c (rest ++ '\n' :: more)
    = ((readSlash c rest).1, (readSlash c rest).2 ++ '\n' :: more) := by
  unfold readSlash
  split
  · rename_i found
    cases rest with
    | nil => cases found
    | cons d rest =>
      cases found
      have taken := takeWhile_append_break (p := (· != '\n')) rest more rfl
      have dropped := dropWhile_append_break (p := (· != '\n')) rest more rfl
      exact congrArg₂ (fun cs after => ((⟨.comment, c :: '/' :: cs⟩ : Segment), after)) taken dropped
  · rename_i other
    split
    · rename_i rest
      exact absurd rfl (other (rest ++ '\n' :: more))
    · rfl

/-- A text that is closed ends at its quote. -/
theorem readText_append (closed : (readText c rest).1.sort ≠ .unterminated) :
    readText c (rest ++ '\n' :: more)
      = ((readText c rest).1, (readText c rest).2 ++ '\n' :: more) := by
  unfold readText at closed ⊢
  cases found : rest.dropWhile (· != '"') with
  | nil =>
    rw [found] at closed
    exact absurd rfl closed
  | cons quote after =>
    have open' : ¬(rest.dropWhile (· != '"')).isEmpty := by
      rw [found]
      exact Bool.false_ne_true
    have inside : (rest ++ '\n' :: more).takeWhile (· != '"') = rest.takeWhile (· != '"') := by
      have whole := congrArg List.length (List.takeWhile_append_dropWhile (p := (· != '"')) (l := rest))
      rw [List.length_append, found, List.length_cons] at whole
      rw [List.takeWhile_append, if_neg (by omega)]
    rw [List.dropWhile_append, if_neg open', found, inside]
    rfl

theorem readNumber_append : readNumber c (rest ++ '\n' :: more)
    = ((readNumber c rest).1, (readNumber c rest).2 ++ '\n' :: more) := by
  have noDigit : isDigit '\n' = false := by decide
  unfold readNumber
  rw [takeWhile_append_break rest more noDigit, dropWhile_append_break rest more noDigit]
  -- a point at the very end is followed by the line break, which is no digit
  cases rest.dropWhile isDigit with
  | nil => rfl
  | cons e after =>
    by_cases point : e = '.'
    · subst point
      cases after with
      | nil => rfl
      | cons d after =>
        simp only [List.cons_append]
        split
        · rw [takeWhile_append_break after more noDigit, dropWhile_append_break after more noDigit]
        · rfl
    · split
      · rename_i found
        exact absurd (List.cons.inj found).1 point
      · split
        · rename_i found
          exact absurd (List.cons.inj found).1 point
        · rfl

theorem readWord_append : readWord c (rest ++ '\n' :: more)
    = ((readWord c rest).1, (readWord c rest).2 ++ '\n' :: more) := by
  have part : isWordPart '\n' = false := by decide
  unfold readWord
  simp only [takeWhile_append_break rest more part, dropWhile_append_break rest more part]

theorem pairKind?_ne_break {second : Char} {pair alone : Token.Kind}
    (h : Token.pairKind? c = some (second, pair, alone)) : second ≠ '\n' := by
  unfold Token.pairKind? at h
  split at h <;> cases h <;> decide

/-- No segment but a text that is not closed runs over a line break. -/
theorem read_append (closed : (read c rest).1.sort ≠ .unterminated) :
    read c (rest ++ '\n' :: more) = ((read c rest).1, (read c rest).2 ++ '\n' :: more) := by
  unfold read at closed ⊢
  -- the first character decides on the form; each form stops at the break as it does at the end
  cases hsingle : Token.singleKind? c with
  | some kind => rfl
  | none =>
    rw [hsingle] at closed
    cases hpair : Token.pairKind? c with
    | some found =>
      obtain ⟨second, pair, alone⟩ := found
      exact readPair_append c rest more pair alone (pairKind?_ne_break c hpair)
    | none =>
      rw [hpair] at closed
      simp only at closed ⊢
      split
      · exact readSlash_append c rest more
      · rename_i notSlash
        rw [if_neg notSlash] at closed
        split
        · rfl
        · rename_i notSpace
          rw [if_neg notSpace] at closed
          split
          · rename_i isQuote
            rw [if_pos isQuote] at closed
            exact readText_append c rest more closed
          · split
            · exact readNumber_append c rest more
            · split
              · exact readWord_append c rest more
              · rfl

end Readers

theorem split_append (more : List Char) (cs : List Char)
    (closed : ∀ s ∈ split cs, s.sort ≠ .unterminated) :
    split (cs ++ '\n' :: more) = split cs ++ split ('\n' :: more) := by
  induction cs using split.induct with
  | case1 => rw [split.eq_1]; rfl
  | case2 c rest ih =>
    rw [split] at closed ⊢
    have first := read_append c rest more (closed _ List.mem_cons_self)
    rw [List.cons_append, split, first, List.cons_append]
    exact congrArg _ (ih fun s hs => closed s (List.mem_cons_of_mem _ hs))

theorem split_blank (cs : List Char) : split ('\n' :: cs) = ⟨.blank, ['\n']⟩ :: split cs := by
  rw [split]
  rfl

/-! ## Scanning -/

section Scan

variable {file : Option String}

/-- Whether a segment calls for a diagnostic does not depend on where it is. -/
theorem diagnostic?_eq_none_iff (line line' : Nat) (s : Segment) :
    diagnostic? file (line, s) = none ↔ diagnostic? file (line', s) = none := by
  unfold diagnostic?
  obtain ⟨sort, chars⟩ := s
  cases sort with
  | unexpected => cases chars <;> simp
  | token | blank | comment | unterminated => simp

theorem no_diagnostic_iff (line : Nat) (ps : List Segment) :
    (locate line ps).filterMap (diagnostic? file) = [] ↔
      ∀ s ∈ ps, diagnostic? file (1, s) = none := by
  induction ps generalizing line with
  | nil => simp [locate]
  | cons s ps ih =>
    rw [locate, List.filterMap_eq_nil_iff, List.forall_mem_cons, ← List.filterMap_eq_nil_iff, ih,
      List.forall_mem_cons, diagnostic?_eq_none_iff line 1]

theorem closed_of_no_diagnostic {ps : List Segment}
    (h : ∀ s ∈ ps, diagnostic? file (1, s) = none) : ∀ s ∈ ps, s.sort ≠ .unterminated := by
  intro s hs unterminated
  have none := h s hs
  obtain ⟨sort, chars⟩ := s
  cases unterminated
  cases none

/-- The same segments on other lines are the same tokens on other lines. -/
theorem tokensAt_like (line line' : Nat) (ps : List Segment) :
    List.Forall₂ (Token.Like Place.SameFile) (tokensAt file line ps) (tokensAt file line' ps) := by
  induction ps generalizing line line' with
  | nil => exact .nil
  | cons s ps ih =>
    obtain ⟨sort, chars⟩ := s
    cases sort with
    | token kind => exact .cons ⟨rfl, rfl, rfl⟩ (ih _ _)
    | blank | comment | unexpected | unterminated => exact ih _ _

end Scan

end Segment

/-- The tokens of a source and a second one on a new line are those of the first and, on later
lines, those of the second. -/
theorem TokenList.scan_join {file : Option String} {a b : String}
    (ha : (TokenList.scan file a).2 = []) (hb : (TokenList.scan file b).2 = []) :
    (TokenList.scan file (a ++ "\n" ++ b)).2 = [] ∧ ∃ later ending,
      (TokenList.scan file b).1.Like Place.SameFile later ∧
      (TokenList.scan file (a ++ "\n" ++ b)).1
        = ⟨(TokenList.scan file a).1.tokens ++ later.tokens, ending⟩ := by
  have chars : (a ++ "\n" ++ b).toList = a.toList ++ '\n' :: b.toList := by
    rw [String.toList_append, String.toList_append, List.append_assoc]
    rfl
  rw [TokenList.scan_eq] at ha hb
  have quietA := (Segment.no_diagnostic_iff 1 _).mp ha
  have quietB := (Segment.no_diagnostic_iff 1 _).mp hb
  -- the break is a blank, as nothing of the first source runs over it
  have cut : Segment.split (a ++ "\n" ++ b).toList
      = Segment.split a.toList ++ ⟨.blank, ['\n']⟩ :: Segment.split b.toList := by
    rw [chars, Segment.split_append _ _ (Segment.closed_of_no_diagnostic quietA),
      Segment.split_blank]
  constructor
  · rw [TokenList.scan_eq, cut]
    refine (Segment.no_diagnostic_iff 1 _).mpr fun s hs => ?_
    rcases List.mem_append.mp hs with hs | hs
    · exact quietA s hs
    · rcases List.mem_cons.mp hs with rfl | hs
      · rfl
      · exact quietB s hs
  · -- the tokens of the second source start behind the lines of the first and the break
    let line := 1 + Segment.breaks ((Segment.split a.toList).flatMap Segment.chars) + 1
    refine ⟨⟨Segment.tokensAt file line (Segment.split b.toList), (TokenList.scan file b).1.ending⟩,
      ⟨file, 1 + Segment.breaks (a ++ "\n" ++ b).toList⟩,
      ?_, ?_⟩
    · simp only [TokenList.scan_eq]
      exact ⟨Segment.tokensAt_like 1 line _, rfl⟩
    rw [TokenList.scan_eq file a, TokenList.scan_eq file (a ++ "\n" ++ b), cut]
    exact congrArg (TokenList.mk · _) (Segment.tokensAt_append 1 (Segment.split a.toList)
      (⟨.blank, ['\n']⟩ :: Segment.split b.toList))

theorem Program.ofSource_quiet {keepTests : Bool} {file : Option String} {source : String}
    (h : (Program.ofSource keepTests file source).2 = []) :
    (TokenList.scan file source).2 = [] ∧
      (Program.parse keepTests (TokenList.scan file source).1).2 = [] :=
  List.append_eq_nil_iff.mp h

/-- The program of a source and a second one on a new line is the program of the first followed by
that of the second, but for places. -/
theorem Program.ofSource_join {file : Option String} {a b : String}
    (ha : (Program.ofSource false file a).2 = []) (hb : (Program.ofSource false file b).2 = []) :
    ∃ later, List.Forall₂ (Stmt.Like Place.SameFile .untested)
        (Program.ofSource false file b).1 later ∧
      Program.ofSource false file (a ++ "\n" ++ b)
        = ((Program.ofSource false file a).1 ++ later, []) := by
  obtain ⟨scanA, parseA⟩ := Program.ofSource_quiet ha
  obtain ⟨scanB, parseB⟩ := Program.ofSource_quiet hb
  obtain ⟨quiet, later, ending, like, tokens⟩ := TokenList.scan_join scanA scanB
  have untested : false = true → Mode.untested = .tested := nofun
  obtain ⟨program, reports⟩ := Program.parse_like untested like
  have parseLater : (Program.parse false later).2 = [] := by
    rw [parseB] at reports
    exact List.forall₂_nil_left_iff.mp reports
  refine ⟨(Program.parse false later).1, program, ?_⟩
  have joined := Program.parse_append_dropping ending parseA parseLater
  unfold Program.ofSource
  simp only [quiet, tokens, joined]
  rfl

end ContractScript
