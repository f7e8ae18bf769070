/-
How a text that is made of segments is cut into them again.

Reading takes the longest piece it can, so whether a text is cut where it was put
together depends on what comes next: a word must not run into a letter, a number not
into a digit or a point, and a colon not into another one. `Cuts ps after` says that
the characters of `ps` are cut into `ps` when `after` comes next. It holds of single
segments under conditions on the first character of `after`, and of several if each
is followed by something that it stops at.

Places depend on the lines passed, so the tokens of segments are a function of the
line on which they start.
-/
import ContractScript.Proofs.Number.Numeral
import ContractScript.Proofs.Program.Cutting

set_option autoImplicit false

namespace ContractScript.Segment

/-! ## Cutting -/

/-- The characters of segments are cut into these segments before `after`. -/
def Cuts (ps : List Segment) (after : List Char) : Prop :=
  split (ps.flatMap chars ++ after) = ps ++ split after

namespace Cuts

variable {ps qs : List Segment} {after : List Char}

theorem nil : Cuts [] after := rfl

theorem append (hp : Cuts ps (qs.flatMap chars ++ after)) (hq : Cuts qs after) :
    Cuts (ps ++ qs) after := by
  unfold Cuts at hp hq ⊢
  rw [List.flatMap_append, List.append_assoc, hp, hq, List.append_assoc]

theorem cons {p : Segment} (hp : Cuts [p] (qs.flatMap chars ++ after)) (hq : Cuts qs after) :
    Cuts (p :: qs) after :=
  @append [p] qs after hp hq

/-- A segment is cut off if it is what is read there. -/
theorem ofRead {sort : Segment.Sort} {c : Char} {cs : List Char}
    (h : read c (cs ++ after) = (⟨sort, c :: cs⟩, after)) : Cuts [⟨sort, c :: cs⟩] after := by
  unfold Cuts
  rw [List.flatMap_cons, List.flatMap_nil, List.append_nil, List.cons_append, split, h]
  rfl

/-! ### Single segments -/

/-- A character that is a token whatever follows. -/
theorem single {c : Char} {kind : Token.Kind} (h : Token.singleKind? c = some kind) :
    Cuts [⟨.token kind, [c]⟩] after := by
  apply ofRead
  rw [read, h]
  rfl

theorem blank : Cuts [⟨.blank, [' ']⟩] after := ofRead rfl

/-- A colon before a blank does not become a pair of colons. -/
theorem colon : Cuts [⟨.token .colon, [':']⟩] (' ' :: after) := ofRead rfl

theorem equal : Cuts [⟨.token .equal, ['=']⟩] (' ' :: after) := ofRead rfl

/-- A text without quotes in it ends at its closing quote, whatever else it contains. -/
theorem text {cs : List Char} (h : '"' ∉ cs) :
    Cuts [⟨.token .text, '"' :: (cs ++ ['"'])⟩] after := by
  have inside : ∀ c ∈ cs, (c != '"') = true := by
    intro c hc
    rw [bne_iff_ne]
    rintro rfl
    exact h hc
  have stops : ('"' != '"') = false := by decide
  -- neither line breaks nor what looks like a comment ends the text before its quote
  apply ofRead
  have quote : read '"' (cs ++ ['"'] ++ after) = readText '"' (cs ++ '"' :: after) := by
    rw [List.append_assoc]
    rfl
  have rest : (cs ++ '"' :: after).dropWhile (· != '"') = '"' :: after := by
    rw [List.dropWhile_append_of_pos inside, List.dropWhile_cons, stops, if_neg Bool.false_ne_true]
  have taken : (cs ++ '"' :: after).takeWhile (· != '"') = cs := by
    rw [List.takeWhile_append_of_pos inside, List.takeWhile_cons, stops,
      if_neg Bool.false_ne_true, List.append_nil]
  rw [quote, readText, rest, taken]
  rfl

end Cuts

/-- What comes next does not start with a character of a class. -/
def Stops (p : Char → Bool) (after : List Char) : Prop :=
  ∀ c rest, after = c :: rest → p c = false

theorem takeWhile_append_stops {p : Char → Bool} {cs after : List Char}
    (h : ∀ c ∈ cs, p c = true) (stops : Stops p after) : (cs ++ after).takeWhile p = cs := by
  rw [List.takeWhile_append_of_pos h]
  cases after with
  | nil => rw [List.takeWhile_nil, List.append_nil]
  | cons c rest =>
    rw [List.takeWhile_cons, stops c rest rfl, if_neg Bool.false_ne_true, List.append_nil]

theorem dropWhile_append_stops {p : Char → Bool} {cs after : List Char}
    (h : ∀ c ∈ cs, p c = true) (stops : Stops p after) : (cs ++ after).dropWhile p = after := by
  rw [List.dropWhile_append_of_pos h]
  cases after with
  | nil => rfl
  | cons c rest => rw [List.dropWhile_cons, stops c rest rfl, if_neg Bool.false_ne_true]

namespace Cuts

variable {after : List Char}

/-- A word ends before a character that cannot be part of one. -/
theorem word {c : Char} {cs : List Char} (starts : ∀ rest, read c rest = readWord c rest)
    (h : cs.all isWordPart = true) (stops : Stops isWordPart after) :
    Cuts [⟨.token (Token.wordKind (c :: cs)), c :: cs⟩] after := by
  have parts := List.all_eq_true.mp h
  apply ofRead
  rw [starts, readWord, takeWhile_append_stops parts stops, dropWhile_append_stops parts stops]

theorem read_digit {c : Char} (h : isDigit c = true) (rest : List Char) :
    read c rest = readNumber c rest := by
  -- reading decides by the character, and there are ten
  have cases := Number.digit_mem h
  simp only [Number.numeralAlphabet, List.take_succ_cons, List.take_zero, List.mem_cons,
    List.not_mem_nil, or_false] at cases
  rcases cases with rfl | rfl | rfl | rfl | rfl | rfl | rfl | rfl | rfl | rfl <;> rfl

theorem stops_cons {p : Char → Bool} {c : Char} {rest : List Char} (h : p c = false) :
    Stops p (c :: rest) := by
  rintro d rest' ⟨⟩
  exact h

/-- A number ends before a character that is neither a digit nor a point. -/
theorem number {cs : List Char} (h : Number.Unsigned cs) (stops : Stops isDigit after)
    (noPoint : Stops (· == '.') after) : Cuts [⟨.token .number, cs⟩] after := by
  cases h with
  | whole hd =>
    obtain ⟨c, ds, rfl⟩ := List.exists_cons_of_ne_nil hd.nonempty
    have digits : ∀ d ∈ ds, isDigit d = true := fun d hd' => hd.all d (List.mem_cons_of_mem _ hd')
    apply ofRead
    rw [read_digit (hd.all c List.mem_cons_self), readNumber, takeWhile_append_stops digits stops,
      dropWhile_append_stops digits stops]
    -- a point would be looked at, but none follows
    split
    · exact absurd (noPoint _ _ rfl) (by decide)
    · rfl
  | fraction hd hf =>
    obtain ⟨c, ds, rfl⟩ := List.exists_cons_of_ne_nil hd.nonempty
    obtain ⟨f, fs, rfl⟩ := List.exists_cons_of_ne_nil hf.nonempty
    have digits : ∀ d ∈ ds, isDigit d = true := fun d hd' => hd.all d (List.mem_cons_of_mem _ hd')
    have more : ∀ d ∈ fs, isDigit d = true := fun d hd' => hf.all d (List.mem_cons_of_mem _ hd')
    have point : Stops isDigit ('.' :: f :: (fs ++ after)) := stops_cons (by decide)
    have shape : ds ++ '.' :: f :: fs ++ after = ds ++ '.' :: f :: (fs ++ after) := by
      rw [List.append_assoc, List.cons_append, List.cons_append]
    show Cuts [⟨.token .number, c :: (ds ++ '.' :: f :: fs)⟩] after
    apply ofRead
    rw [shape, read_digit (hd.all c List.mem_cons_self), readNumber,
      takeWhile_append_stops digits point, dropWhile_append_stops digits point]
    -- behind the point comes a digit, so the point belongs to the number
    show (if isDigit f = true then _ else _) = _
    rw [if_pos (hf.all f List.mem_cons_self), takeWhile_append_stops more stops,
      dropWhile_append_stops more stops]
    rfl

end Cuts

/-! ## Tokens -/

/-- The token that characters on a line are. -/
def tokenAt (file : Option String) (line : Nat) (kind : Token.Kind) (cs : List Char) : Token :=
  ⟨kind, ⟨String.ofList cs, ⟨file, line⟩⟩⟩

/-- The tokens of segments that start on a line. -/
def tokensAt (file : Option String) (line : Nat) (ps : List Segment) : List Token :=
  (locate line ps).filterMap (token? file)

section Tokens

variable {file : Option String}

theorem locate_append (line : Nat) (ps qs : List Segment) :
    locate line (ps ++ qs) = locate line ps ++ locate (line + breaks (ps.flatMap chars)) qs := by
  induction ps generalizing line with
  | nil => rfl
  | cons p ps ih =>
    have lines : line + breaks ((p :: ps).flatMap chars)
        = line + breaks p.chars + breaks (ps.flatMap chars) := by
      unfold breaks
      rw [List.flatMap_cons, List.count_append, Nat.add_assoc]
    rw [List.cons_append, locate, locate, ih, lines, List.cons_append]

theorem tokensAt_append (line : Nat) (ps qs : List Segment) :
    tokensAt file line (ps ++ qs)
      = tokensAt file line ps ++ tokensAt file (line + breaks (ps.flatMap chars)) qs := by
  unfold tokensAt
  rw [locate_append, List.filterMap_append]

/-- A segment that is a token comes first among the tokens. -/
theorem tokensAt_token (line : Nat) (kind : Token.Kind) (cs : List Char) (ps : List Segment) :
    tokensAt file line (⟨.token kind, cs⟩ :: ps)
      = tokenAt file line kind cs :: tokensAt file (line + breaks cs) ps := rfl

/-- Segments that call for no diagnostic. -/
def Clean (ps : List Segment) : Prop :=
  ∀ p ∈ ps, p.sort ≠ .unexpected ∧ p.sort ≠ .unterminated

theorem Clean.append {ps qs : List Segment} (hp : Clean ps) (hq : Clean qs) : Clean (ps ++ qs) := by
  intro p h
  rcases List.mem_append.mp h with h | h
  · exact hp p h
  · exact hq p h

theorem Clean.token {kind : Token.Kind} {cs : List Char} {ps : List Segment} (h : Clean ps) :
    Clean (⟨.token kind, cs⟩ :: ps) := by
  intro p hp
  rcases List.mem_cons.mp hp with rfl | hp
  · exact ⟨nofun, nofun⟩
  · exact h p hp

theorem Clean.blank {cs : List Char} {ps : List Segment} (h : Clean ps) :
    Clean (⟨.blank, cs⟩ :: ps) := by
  intro p hp
  rcases List.mem_cons.mp hp with rfl | hp
  · exact ⟨nofun, nofun⟩
  · exact h p hp

theorem Clean.nil : Clean [] := fun _ h => absurd h List.not_mem_nil

theorem Clean.intercalate {ps : List Segment} {l : List (List Segment)} (hp : Clean ps)
    (h : ∀ qs ∈ l, Clean qs) : Clean (ps.intercalate l) := by
  induction l with
  | nil => exact .nil
  | cons qs rest ih =>
    have first := h qs List.mem_cons_self
    have others := ih fun rs hrs => h rs (List.mem_cons_of_mem _ hrs)
    cases rest with
    | nil =>
      rw [List.intercalate_singleton]
      exact first
    | cons rs rest =>
      rw [List.intercalate_cons_cons]
      exact (first.append hp).append others

theorem diagnostic?_of_clean {p : Segment} (h : p.sort ≠ .unexpected ∧ p.sort ≠ .unterminated)
    (line : Nat) : diagnostic? file (line, p) = none := by
  unfold diagnostic?
  split
  · rename_i found _
    exact absurd found h.1
  · rename_i found
    exact absurd found h.2
  · rfl

theorem no_diagnostic_of_clean {ps : List Segment} (h : Clean ps) (line : Nat) :
    (locate line ps).filterMap (diagnostic? file) = [] := by
  induction ps generalizing line with
  | nil => rfl
  | cons p ps ih =>
    rw [locate, List.filterMap_cons, diagnostic?_of_clean (h p List.mem_cons_self)]
    exact ih (fun q hq => h q (List.mem_cons_of_mem _ hq)) _

/-- A source that is cut into segments without fault is scanned into their tokens. -/
theorem scan_of_split (file : Option String) {source : String} {ps : List Segment}
    (hs : split source.toList = ps) (h : Clean ps) :
    ∃ ending, TokenList.scan file source = (⟨tokensAt file 1 ps, ending⟩, []) := by
  refine ⟨⟨file, 1 + breaks source.toList⟩, ?_⟩
  rw [TokenList.scan_eq, hs]
  simp only [no_diagnostic_of_clean h]
  rfl

end Tokens

end ContractScript.Segment
